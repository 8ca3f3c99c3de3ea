import FluxBridge.Flux.Rotation

/-!
# Greaseweazle flux streams

The flux path of `src/device/greaseweazle.rs`: the byte codes of the stream, what becomes of a
stream that was read, and the stream that is written. `Greaseweazle` has the fields of the source
that this path uses.

Nothing here overflows `u32`: a code adds at most `2 ^ 28` ticks, with saturation, and the 64-bit
products are of a 32-bit number with a constant below `2 ^ 30`.
-/

namespace FluxBridge

/-- Raw flux delay below which an interval reads as high-density. -/
def HD_INTERVAL_CEILING_NS : Nat := 3000
/-- Minimum decoded intervals before density detection is trusted. -/
def HD_DETECT_MIN_EVENTS : Nat := 1000

/-- The open device; `open` refuses a sample frequency of zero. -/
structure Greaseweazle where
  sampleFrequency : Nat
  highDensity : Bool
  frequency_pos : 0 < sampleFrequency
  frequency_lt : sampleFrequency < U32_RANGE
  deriving DecidableEq

/-- `u32::saturating_add`. -/
def saturatingAddU32 (a b : Nat) : Nat := min (a + b) (U32_RANGE - 1)

/-! ## Reading the byte codes -/

/-- The 28-bit value at the front of the queue, and the queue behind it. -/
def read28bit : List Byte → Except Error (Nat × List Byte)
  | b₀ :: b₁ :: b₂ :: b₃ :: queue =>
    let value := [(b₀, 1), (b₁, 8), (b₂, 15), (b₃, 22)].foldl
      (fun value byte => value ||| ((byte.1.toNat >>> 1) <<< byte.2)) 0
    .ok (value >>> 1, queue)
  | _ => .error (.protocol "truncated Greaseweazle 28-bit value")

theorem read28bit_length {queue rest : List Byte} {value : Nat}
    (h : read28bit queue = .ok (value, rest)) : rest.length < queue.length := by
  unfold read28bit at h
  split at h
  · cases h
    simp only [List.length_cons]
    omega
  · cases h

/-- The delay of `ticks` ticks in nanoseconds, rounded. -/
def ticksToNanoseconds (ticks frequency : Nat) : Except Error Nat :=
  let nanoseconds := (ticks * 1000000000 + frequency / 2) / frequency
  if nanoseconds < U32_RANGE then .ok nanoseconds
  else .error (.protocol "Greaseweazle flux interval is too large")

/-- The loop of `decode_stream`, with the ticks and the index pulse since the last event. -/
def decodeLoop (frequency : Nat) (queue : List Byte) (ticks : Nat) (index : Bool) :
    Except Error (List FluxEvent) :=
  match queue with
  | [] => .ok []
  | byte :: queue =>
    if byte = 255#8 then
      match queue with
      | [] => .error (.protocol "truncated Greaseweazle opcode")
      | opcode :: queue =>
        if opcode = 1#8 then
          match h : read28bit queue with
          | .error e => .error e
          | .ok (_, rest) =>
            have := read28bit_length h
            decodeLoop frequency rest ticks true
        else if opcode = 2#8 then
          match h : read28bit queue with
          | .error e => .error e
          | .ok (value, rest) =>
            have := read28bit_length h
            decodeLoop frequency rest (saturatingAddU32 ticks value) index
        else if opcode = 3#8 then
          match queue with
          | [] => .error (.protocol "truncated Greaseweazle astable opcode")
          | _ :: queue => decodeLoop frequency queue ticks index
        else
          .error (.protocol ("unknown Greaseweazle flux opcode " ++ toString opcode.toNat))
    else if byte.toNat < 250 then do
      let ticks := saturatingAddU32 ticks byte.toNat
      let nanoseconds ← ticksToNanoseconds ticks frequency
      let events ← decodeLoop frequency queue 0 false
      pure (⟨nanoseconds, index⟩ :: events)
    else
      match queue with
      | [] => .error (.protocol "truncated Greaseweazle flux interval")
      | low :: queue => do
        let ticks := saturatingAddU32 ticks (250 + (byte.toNat - 250) * 255 + (low.toNat - 1))
        let nanoseconds ← ticksToNanoseconds ticks frequency
        let events ← decodeLoop frequency queue 0 false
        pure (⟨nanoseconds, index⟩ :: events)
termination_by queue.length

def decodeStream (bytes : List Byte) (frequency : Nat) : Except Error (List FluxEvent) :=
  decodeLoop frequency bytes 0 false

/-! ## Writing the byte codes -/

def encode28bit (value : Nat) : List Byte :=
  [1#8 ||| BitVec.ofNat 8 ((value <<< 1) &&& 0xff), 1#8 ||| BitVec.ofNat 8 ((value >>> 6) &&& 0xff),
    1#8 ||| BitVec.ofNat 8 ((value >>> 13) &&& 0xff),
    1#8 ||| BitVec.ofNat 8 ((value >>> 20) &&& 0xff)]

def encodeTicks (ticks : Nat) : List Byte :=
  if ticks < 250 then [BitVec.ofNat 8 ticks]
  else
    let high := (ticks - 250) / 255
    if high < 5 then [BitVec.ofNat 8 (250 + high), BitVec.ofNat 8 (1 + (ticks - 250) % 255)]
    else [255#8, 2#8] ++ encode28bit (ticks - 249) ++ [249#8]

/-! ## The device -/

/-- Whether raw flux delays look like high-density MFM. -/
def looksHighDensity (events : List FluxEvent) : Bool :=
  let short := events.countP fun event => event.nanoseconds < HD_INTERVAL_CEILING_NS
  events.length < short * 4

/-- `u32::saturating_mul(2)` on the delay: a 1 μs cell as its 2 μs twin. -/
def FluxEvent.doubled (event : FluxEvent) : FluxEvent :=
  { event with nanoseconds := min (event.nanoseconds * 2) (U32_RANGE - 1) }

namespace Greaseweazle

/-- Decodes a raw flux stream, resolving the effective density first. -/
def decodeAtDensity (self : Greaseweazle) (raw : List Byte) (density : DensityMode) :
    Except Error (Greaseweazle × List FluxEvent) := do
  let events ← decodeStream raw self.sampleFrequency
  let self := { self with
    highDensity :=
      match density with
      | .double => false
      | .high => true
      | .auto =>
        if HD_DETECT_MIN_EVENTS ≤ events.length then looksHighDensity events
        else self.highDensity }
  pure (self, if self.highDensity then events.map FluxEvent.doubled else events)

/-- What `read_stream` does with the stream it has read; `none` is a panic. -/
def extractCapture (self : Greaseweazle) (stream : List Byte) (mode : ReadMode)
    (density : DensityMode) : Option (Except Error (Greaseweazle × RawCapture)) :=
  match self.decodeAtDensity stream density with
  | .error e => some (.error e)
  | .ok (self, events) =>
    let indexAligned := mode ≠ .normal
    let extracted : Option (Except Error (List (BitVec 16) × Nat × Bool)) :=
      if indexAligned then some (fluxToRevolution events)
      else (fluxToUnalignedRevolution events self.highDensity).map fun result =>
        result.map fun (words, bits) => (words, bits, false)
    extracted.map fun extracted => do
      let (words, bitLen, extractedIndex) ← extracted
      let capture : RawCapture :=
        { words := words, bitLen := bitLen, indexAligned := indexAligned && extractedIndex }
      validateCapture capture
      pure (self, capture)

/-- The ticks `write_stream` sends for a delay. -/
def writeTicks (self : Greaseweazle) (nanoseconds : Nat) : Nat :=
  max ((nanoseconds * self.sampleFrequency + 500000000) / 1000000000) 1

/-- The body of the loop of `write_stream`: one delay, behind the stream so far. -/
def pushDelay (self : Greaseweazle) (stream : List Byte) (nanoseconds : Nat) :
    Except Error (List Byte) :=
  let ticks := self.writeTicks nanoseconds
  if ticks < U32_RANGE then .ok (stream ++ encodeTicks ticks)
  else .error (.protocol "Greaseweazle flux delay overflow")

/-- The stream `write_stream` sends, without the final `0`. -/
def fluxStream (self : Greaseweazle) (words : List (BitVec 16)) (bitLen : Nat) :
    Except Error (List Byte) := do
  let cellNs := if self.highDensity then 1000 else 2000
  let timings ← mfmToFlux words bitLen cellNs
  timings.foldlM self.pushDelay []

end Greaseweazle

/-- The three forms of an interval: one byte, two bytes, and a 28-bit value. -/
example : decodeStream [80, 250, 6, 255, 2, 21, 1, 1, 1, 40] 40000000 =
    .ok [⟨2000, false⟩, ⟨6375, false⟩, ⟨1250, false⟩] := by
  decide +kernel

end FluxBridge
