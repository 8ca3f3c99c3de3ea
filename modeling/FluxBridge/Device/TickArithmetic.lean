import FluxBridge.Device.Loopback
import FluxBridge.Device.GreaseweazleHost

/-!
# Tick arithmetic

The conversions between nanoseconds and ticks with the checks of the source: `u64` arithmetic and
`expect` panic where a value does not fit. Each of them is the conversion of the model wherever it
does not panic. What the decoder reads as ticks are the nanoseconds it reads at a clock of 1 GHz.

* `decodeLoopChecked_eq`, `fluxStreamChecked_eq` — decoding and writing never panic
* `windowTicks_eq_none_iff`, `readWindow_eq` — which read window does, also on the device
* `decodedTicks_encodeTicks` — what the wire makes of the ticks of a write
* `tickSafe_iff` — the clocks and tracks at which all of it is safe
-/

namespace FluxBridge

open Atomic

/-! ## Checks -/

/-- A result of `u64` arithmetic, which panics where it overflows. -/
def fitsU64 (value : Nat) : Option Nat := if value < 2 ^ 64 then some value else none

/-- `u32::try_from(..).expect(..)`, and `u32` arithmetic. -/
def fitsU32 (value : Nat) : Option Nat := if value < U32_RANGE then some value else none

/-- `u8::try_from(..).expect(..)` -/
def fitsU8 (value : Nat) : Option Byte := if value < 256 then some (BitVec.ofNat 8 value) else none

theorem fitsU64_eq {value : Nat} (h : value < 2 ^ 64) : fitsU64 value = some value := if_pos h

theorem fitsU32_eq {value : Nat} (h : value < U32_RANGE) : fitsU32 value = some value := if_pos h

theorem fitsU8_eq {value : Nat} (h : value < 256) : fitsU8 value = some (BitVec.ofNat 8 value) :=
  if_pos h

/-! ## Reading -/

/-- The delay of `ticks` ticks in nanoseconds. -/
def nanosecondsChecked (ticks frequency : Nat) : Option (Except Error Nat) := do
  let product ← fitsU64 (ticks * 1000000000)
  let sum ← fitsU64 (product + frequency / 2)
  if frequency = 0 then none
  else if sum / frequency < U32_RANGE then pure (.ok (sum / frequency))
  else pure (.error (.protocol "Greaseweazle flux interval is too large"))

theorem nanosecondsChecked_eq {ticks frequency : Nat} (hpos : 0 < frequency)
    (hfrequency : frequency < U32_RANGE) (hticks : ticks < U32_RANGE) :
    nanosecondsChecked ticks frequency = some (ticksToNanoseconds ticks frequency) := by
  unfold U32_RANGE at hfrequency hticks
  unfold nanosecondsChecked ticksToNanoseconds
  rw [fitsU64_eq (by omega), Option.bind_eq_bind, Option.bind_some, fitsU64_eq (by omega),
    Option.bind_some, if_neg (by omega)]
  dsimp only
  split <;> rfl

/-- The ticks of an interval of two bytes. -/
def longTicks (byte low : Byte) : Option Nat :=
  fitsU32 (250 + (byte.toNat - 250) * 255 + (low.toNat - 1))

/-- The end of an interval: its event, in front of what follows. -/
def intervalChecked (frequency ticks : Nat) (more : Option Nat) (index : Bool)
    (rest : Option (Except Error (List FluxEvent))) : Option (Except Error (List FluxEvent)) := do
  let more ← more
  let nanoseconds ← nanosecondsChecked (saturatingAddU32 ticks more) frequency
  match nanoseconds with
  | .error e => pure (.error e)
  | .ok nanoseconds => rest.map (eventThen nanoseconds index)

/-- The loop of `decode_stream`, with its checks. -/
def decodeLoopChecked (frequency : Nat) (queue : List Byte) (ticks : Nat) (index : Bool) :
    Option (Except Error (List FluxEvent)) :=
  match queue with
  | [] => some (.ok [])
  | byte :: queue =>
    if byte = 255#8 then
      match queue with
      | [] => some (.error (.protocol "truncated Greaseweazle opcode"))
      | opcode :: queue =>
        if opcode = 1#8 then
          match h : read28bit queue with
          | .error e => some (.error e)
          | .ok (_, rest) =>
            have := read28bit_length h
            decodeLoopChecked frequency rest ticks true
        else if opcode = 2#8 then
          match h : read28bit queue with
          | .error e => some (.error e)
          | .ok (value, rest) =>
            have := read28bit_length h
            decodeLoopChecked frequency rest (saturatingAddU32 ticks value) index
        else if opcode = 3#8 then
          match queue with
          | [] => some (.error (.protocol "truncated Greaseweazle astable opcode"))
          | _ :: queue => decodeLoopChecked frequency queue ticks index
        else
          some (.error (.protocol ("unknown Greaseweazle flux opcode " ++ toString opcode.toNat)))
    else if byte.toNat < 250 then
      intervalChecked frequency ticks (some byte.toNat) index
        (decodeLoopChecked frequency queue 0 false)
    else
      match queue with
      | [] => some (.error (.protocol "truncated Greaseweazle flux interval"))
      | low :: queue =>
        intervalChecked frequency ticks (longTicks byte low) index
          (decodeLoopChecked frequency queue 0 false)
termination_by queue.length

theorem saturatingAddU32_lt (a b : Nat) : saturatingAddU32 a b < U32_RANGE := by
  unfold saturatingAddU32 U32_RANGE
  omega

theorem intervalChecked_eq {frequency : Nat} (hpos : 0 < frequency)
    (hfrequency : frequency < U32_RANGE) (ticks more : Nat) (index : Bool)
    (rest : Except Error (List FluxEvent)) :
    intervalChecked frequency ticks (some more) index (some rest) =
      some (do
        let nanoseconds ← ticksToNanoseconds (saturatingAddU32 ticks more) frequency
        let events ← rest
        pure (⟨nanoseconds, index⟩ :: events)) := by
  unfold intervalChecked
  rw [Option.bind_eq_bind, Option.bind_some,
    nanosecondsChecked_eq hpos hfrequency (saturatingAddU32_lt ticks more)]
  cases ticksToNanoseconds (saturatingAddU32 ticks more) frequency with
  | error e => rfl
  | ok nanoseconds => cases rest <;> rfl

theorem longTicks_eq (byte low : Byte) :
    longTicks byte low = some (250 + (byte.toNat - 250) * 255 + (low.toNat - 1)) := by
  have hbyte := byte.isLt
  have hlow := low.isLt
  refine fitsU32_eq ?_
  unfold U32_RANGE
  omega

section Checked

variable {frequency ticks : Nat} {index : Bool} {queue rest : List Byte}

theorem decodeLoopChecked_unread {opcode : Byte} (hopcode : opcode = 1#8 ∨ opcode = 2#8)
    {e : Error} (hread : read28bit queue = .error e) :
    decodeLoopChecked frequency (255#8 :: opcode :: queue) ticks index = some (.error e) := by
  rw [decodeLoopChecked.eq_def]
  dsimp only
  rcases hopcode with rfl | rfl
  · rw [if_pos rfl, if_pos rfl]
    split
    · next e' h => exact congrArg (some ∘ Except.error) (Except.error.inj (h.symm.trans hread))
    · next h => cases h.symm.trans hread
  · rw [if_pos rfl, if_neg (by decide), if_pos rfl]
    split
    · next e' h => exact congrArg (some ∘ Except.error) (Except.error.inj (h.symm.trans hread))
    · next h => cases h.symm.trans hread

theorem decodeLoopChecked_mark {value : Nat} (hread : read28bit queue = .ok (value, rest)) :
    decodeLoopChecked frequency (255#8 :: 1#8 :: queue) ticks index =
      decodeLoopChecked frequency rest ticks true := by
  rw [decodeLoopChecked.eq_def]
  dsimp only
  rw [if_pos rfl, if_pos rfl]
  split
  · next e h => cases h.symm.trans hread
  · next v r h =>
    cases h.symm.trans hread
    rfl

theorem decodeLoopChecked_space {value : Nat} (hread : read28bit queue = .ok (value, rest)) :
    decodeLoopChecked frequency (255#8 :: 2#8 :: queue) ticks index =
      decodeLoopChecked frequency rest (saturatingAddU32 ticks value) index := by
  rw [decodeLoopChecked.eq_def]
  dsimp only
  rw [if_pos rfl, if_neg (by decide), if_pos rfl]
  split
  · next e h => cases h.symm.trans hread
  · next v r h =>
    cases h.symm.trans hread
    rfl

end Checked

/-- **Decoding.** No check of the decoder ever fails. -/
theorem decodeLoopChecked_eq {frequency : Nat} (hpos : 0 < frequency)
    (hfrequency : frequency < U32_RANGE) (queue : List Byte) (ticks : Nat) (index : Bool) :
    decodeLoopChecked frequency queue ticks index =
      some (decodeLoop frequency queue ticks index) := by
  -- along the decoder: the two loops take the same branches
  induction queue, ticks, index using decodeLoop.induct with
  | case1 ticks index => rw [decodeLoopChecked, decodeLoop]
  | case2 ticks index =>
    rw [decodeLoopChecked.eq_def, decodeLoop.eq_def]
    rfl
  | case3 ticks index queue e hread =>
    rw [decodeLoopChecked_unread (Or.inl rfl) hread, decodeLoop_unread (Or.inl rfl) hread]
  | case4 ticks index queue value rest hread hlength ih =>
    rw [decodeLoopChecked_mark hread, decodeLoop_mark hread, ih]
  | case5 ticks index queue e hread =>
    rw [decodeLoopChecked_unread (Or.inr rfl) hread, decodeLoop_unread (Or.inr rfl) hread]
  | case6 ticks index queue value rest hread hlength hopcode ih =>
    rw [decodeLoopChecked_space hread, decodeLoop_space hread, ih]
  | case7 ticks index =>
    rw [decodeLoopChecked.eq_def, decodeLoop.eq_def]
    rfl
  | case8 ticks index period queue _ _ ih =>
    rw [decodeLoopChecked.eq_def, decodeLoop_astable]
    exact ih
  | case9 ticks index opcode queue hmark hspace hastable =>
    rw [decodeLoopChecked.eq_def, decodeLoop.eq_def]
    dsimp only
    rw [if_pos rfl, if_neg hmark, if_neg hspace, if_neg hastable, if_pos rfl, if_neg hmark,
      if_neg hspace, if_neg hastable]
  | case10 ticks index byte queue hopcode hshort ih =>
    rw [decodeLoopChecked.eq_def, decodeLoop.eq_def]
    dsimp only
    rw [if_neg hopcode, if_pos hshort, if_neg hopcode, if_pos hshort, ih,
      intervalChecked_eq hpos hfrequency]
  | case11 ticks index byte hopcode hlong =>
    rw [decodeLoopChecked.eq_def, decodeLoop.eq_def]
    dsimp only
    rw [if_neg hopcode, if_neg hlong, if_neg hopcode, if_neg hlong]
  | case12 ticks index byte hopcode hlong low queue ih =>
    rw [decodeLoopChecked.eq_def, decodeLoop.eq_def]
    dsimp only
    rw [if_neg hopcode, if_neg hlong, if_neg hopcode, if_neg hlong, ih, longTicks_eq,
      intervalChecked_eq hpos hfrequency]

/-- `decode_stream`, with its checks. -/
def decodeStreamChecked (bytes : List Byte) (frequency : Nat) :
    Option (Except Error (List FluxEvent)) :=
  decodeLoopChecked frequency bytes 0 false

/-! ## Writing -/

/-- `encode_ticks`, with its checks. -/
def encodeTicksChecked (ticks : Nat) : Option (List Byte) :=
  if ticks < 250 then do
    let byte ← fitsU8 ticks
    pure [byte]
  else
    let high := (ticks - 250) / 255
    if high < 5 then do
      let first ← fitsU8 (250 + high)
      let second ← fitsU8 (1 + (ticks - 250) % 255)
      pure [first, second]
    else pure ([255#8, 2#8] ++ encode28bit (ticks - 249) ++ [249#8])

theorem encodeTicksChecked_eq (ticks : Nat) :
    encodeTicksChecked ticks = some (encodeTicks ticks) := by
  unfold encodeTicksChecked encodeTicks
  dsimp only
  split
  · rw [fitsU8_eq (by omega)]
    rfl
  · split
    · rw [fitsU8_eq (by omega), fitsU8_eq (by omega)]
      rfl
    · rfl

namespace Greaseweazle

variable {self : Greaseweazle}

/-- The ticks of a delay, in the loop of `write_stream`. -/
def writeTicksChecked (self : Greaseweazle) (nanoseconds : Nat) : Option Nat := do
  let product ← fitsU64 (nanoseconds * self.sampleFrequency)
  let sum ← fitsU64 (product + 500000000)
  pure (max (sum / 1000000000) 1)

/-- The loop of `write_stream`. -/
def pushDelaysChecked (self : Greaseweazle) :
    List Nat → List Byte → Option (Except Error (List Byte))
  | [], stream => some (.ok stream)
  | nanoseconds :: timings, stream => do
    let ticks ← self.writeTicksChecked nanoseconds
    if ticks < U32_RANGE then do
      let bytes ← encodeTicksChecked ticks
      self.pushDelaysChecked timings (stream ++ bytes)
    else pure (.error (.protocol "Greaseweazle flux delay overflow"))

/-- The stream `write_stream` sends, with the checks of its arithmetic. -/
def fluxStreamChecked (self : Greaseweazle) (words : List (BitVec 16)) (bitLen : Nat) :
    Option (Except Error (List Byte)) :=
  match mfmToFlux words bitLen (if self.highDensity then 1000 else 2000) with
  | .error e => some (.error e)
  | .ok timings => self.pushDelaysChecked timings []

theorem writeTicksChecked_eq {nanoseconds : Nat} (h : nanoseconds < U32_RANGE) :
    self.writeTicksChecked nanoseconds = some (self.writeTicks nanoseconds) := by
  have hfrequency := self.frequency_lt
  have hproduct : nanoseconds * self.sampleFrequency ≤ (U32_RANGE - 1) * (U32_RANGE - 1) :=
    Nat.mul_le_mul (by omega) (by omega)
  have hroom : (U32_RANGE - 1) * (U32_RANGE - 1) + 500000000 < 2 ^ 64 := by decide
  unfold writeTicksChecked
  rw [fitsU64_eq (by omega), Option.bind_eq_bind, Option.bind_some, fitsU64_eq (by omega)]
  rfl

/-- **Writing.** No check of the loop ever fails. -/
theorem pushDelaysChecked_eq (timings : List Nat) (stream : List Byte)
    (h : ∀ nanoseconds ∈ timings, nanoseconds < U32_RANGE) :
    self.pushDelaysChecked timings stream = some (timings.foldlM self.pushDelay stream) := by
  induction timings generalizing stream with
  | nil => rfl
  | cons nanoseconds timings ih =>
    obtain ⟨hns, hrest⟩ := List.forall_mem_cons.mp h
    have hpush : self.pushDelay stream nanoseconds =
        if self.writeTicks nanoseconds < U32_RANGE then
          .ok (stream ++ encodeTicks (self.writeTicks nanoseconds))
        else .error (.protocol "Greaseweazle flux delay overflow") := rfl
    rw [pushDelaysChecked, writeTicksChecked_eq hns, List.foldlM_cons, hpush,
      Option.bind_eq_bind, Option.bind_some]
    split
    · rw [encodeTicksChecked_eq, Option.bind_eq_bind, Option.bind_some, ih _ hrest]
      rfl
    · rfl

/-! ## The read window -/

/-- The window of `read_stream`, with its checks. -/
def windowTicks (frequency : Nat) (mode : ReadMode) : Option (Nat × Nat × Nat) :=
  if mode = .normal then do
    let product ← fitsU64 (frequency * 232)
    let ticks ← fitsU32 (product / 1000)
    pure (ticks, 0, 0)
  else do
    let double ← fitsU64 (frequency * 2)
    let ticks ← fitsU32 double
    let product ← fitsU64 (frequency * 20)
    let linger ← fitsU32 (product / 1000)
    pure (ticks, 2, linger)

/-- The window of `read_stream_fast`, with its checks. -/
def fastTicks (frequency : Nat) : Option Nat := do
  let product ← fitsU64 (frequency * 232)
  fitsU32 (product / 1000)

/-- Only the two seconds of an indexed read may not fit. -/
theorem windowTicks_eq_none_iff {frequency : Nat} (hfrequency : frequency < U32_RANGE)
    (mode : ReadMode) :
    windowTicks frequency mode = none ↔ mode ≠ .normal ∧ 2 ^ 31 ≤ frequency := by
  unfold U32_RANGE at hfrequency
  unfold windowTicks
  split
  · next hnormal =>
    rw [fitsU64_eq (by omega), Option.bind_eq_bind, Option.bind_some,
      fitsU32_eq (by unfold U32_RANGE; omega)]
    simp [hnormal]
  · next hindexed =>
    rw [fitsU64_eq (by omega), Option.bind_eq_bind, Option.bind_some, fitsU64_eq (by omega)]
    rcases Nat.lt_or_ge frequency (2 ^ 31) with hlow | hhigh
    · rw [fitsU32_eq (by unfold U32_RANGE; omega), Option.bind_some, Option.bind_some,
        fitsU32_eq (by unfold U32_RANGE; omega)]
      simp only [Option.bind_some, Option.pure_def, reduceCtorEq, false_iff]
      omega
    · have hpanic : fitsU32 (frequency * 2) = none := if_neg (by unfold U32_RANGE; omega)
      rw [hpanic]
      simpa [hindexed] using hhigh

theorem fastTicks_isSome {frequency : Nat} (hfrequency : frequency < U32_RANGE) :
    ∃ ticks, fastTicks frequency = some ticks := by
  unfold U32_RANGE at hfrequency
  unfold fastTicks
  rw [fitsU64_eq (by omega), Option.bind_eq_bind, Option.bind_some]
  exact ⟨_, fitsU32_eq (by unfold U32_RANGE; omega)⟩

/-- The window of the device code panics just where the checks do. -/
theorem readWindow_eq (device : GreaseweazleHost) (mode : ReadMode) :
    GreaseweazleHost.readWindow mode device =
      (orPanic (windowTicks device.sampleFrequency mode) : Host GreaseweazleHost _) device := by
  have hfrequency := device.frequency_lt
  unfold U32_RANGE at hfrequency
  have hexpect : ∀ value, GreaseweazleHost.expectU32 value = orPanic (fitsU32 value) :=
    fun _ => rfl
  have hself : ∀ {α} (f : GreaseweazleHost → Host GreaseweazleHost α),
      (Fallible.self >>= f) device = f device device := fun _ => rfl
  unfold GreaseweazleHost.readWindow windowTicks
  rw [hself]
  split
  · rw [fitsU64_eq (by omega), Option.bind_eq_bind, Option.bind_some, hexpect,
      fitsU32_eq (by unfold U32_RANGE; omega)]
    rfl
  · rw [fitsU64_eq (by omega), Option.bind_eq_bind, Option.bind_some, hexpect, hexpect,
      fitsU64_eq (by omega)]
    rcases Nat.lt_or_ge device.sampleFrequency (2 ^ 31) with hlow | hhigh
    · rw [fitsU32_eq (by unfold U32_RANGE; omega), Option.bind_some, Option.bind_some,
        fitsU32_eq (by unfold U32_RANGE; omega)]
      rfl
    · have hpanic : fitsU32 (device.sampleFrequency * 2) = none :=
        if_neg (by unfold U32_RANGE; omega)
      rw [hpanic]
      refine congrArg (@Prog.act wireSig _ _ device .panic) (funext fun never => ?_)
      exact never.elim

end Greaseweazle

/-! ## On the wire -/

/-- The tick counts that the decoder reads: at 1 GHz they are its nanoseconds. -/
def decodedTicks (bytes : List Byte) : Except Error (List Nat) :=
  (decodeStream bytes 1000000000).map fun events => events.map FluxEvent.nanoseconds

theorem ticksToNanoseconds_gigahertz {ticks : Nat} (h : ticks < U32_RANGE) :
    ticksToNanoseconds ticks 1000000000 = .ok ticks := by
  have hround : (ticks * 1000000000 + 1000000000 / 2) / 1000000000 = ticks := by omega
  unfold ticksToNanoseconds
  rw [hround]
  exact if_pos h

theorem wireTicks_lt (ticks : Nat) : wireTicks ticks < 2 ^ 28 + 249 := by
  unfold wireTicks
  split <;> omega

/-- The decoder reads what the wire has made of the ticks. -/
theorem decodedTicks_encodeTicks (ticks : List Nat) :
    decodedTicks (ticks.flatMap encodeTicks) = .ok (ticks.map wireTicks) := by
  have hread := @decodeStream_wireTicks Nat 1000000000 ticks id wireTicks fun x _ =>
    ticksToNanoseconds_gigahertz (Nat.lt_trans (wireTicks_lt x) (by decide))
  rw [List.map_id] at hread
  unfold decodedTicks
  rw [hread]
  exact congrArg Except.ok (List.map_map (l := ticks))

/-- They are the ticks that were written just where each of them fits. -/
theorem decodedTicks_eq_iff (ticks : List Nat) :
    decodedTicks (ticks.flatMap encodeTicks) = .ok ticks ↔ ∀ t ∈ ticks, t < 2 ^ 28 + 249 := by
  rw [decodedTicks_encodeTicks, Except.ok.injEq]
  conv => lhs; rhs; rw [← List.map_id ticks]
  rw [List.map_inj_left]
  exact forall₂_congr fun t _ => wireTicks_eq_iff t

/-! ## Safety -/

namespace Greaseweazle

/-- The tick arithmetic of a device is safe for a read mode and a track: neither window panics, no
stream and no track makes the decoder or the writer panic, and the ticks of each interval on the
wire are those that were computed for it. -/
structure TickSafe (device : Greaseweazle) (mode : ReadMode) (words : List (BitVec 16))
    (bitLen : Nat) : Prop where
  window : ∃ window, windowTicks device.sampleFrequency mode = some window
  fast : ∃ ticks, fastTicks device.sampleFrequency = some ticks
  decode : ∀ stream, ∃ result, decodeStreamChecked stream device.sampleFrequency = some result
  write : ∃ result, device.fluxStreamChecked words bitLen = some result
  wire : ∀ timings stream,
    mfmToFlux words bitLen (if device.highDensity then 1000 else 2000) = .ok timings →
    device.fluxStreamChecked words bitLen = some (.ok stream) →
    decodedTicks stream = .ok (timings.map device.writeTicks)

section Track

variable {self : Greaseweazle} {words : List (BitVec 16)} {bitLen : Nat}

theorem cell_eq (self : Greaseweazle) :
    (if self.highDensity then 1000 else 2000) = 1000 * self.cellMicros := by
  unfold cellMicros
  cases self.highDensity <;> rfl

/-- The ticks of a track fit 32 bits, at any clock. -/
theorem writeTicks_lt {nanoseconds : Nat}
    (h : nanoseconds ∈ (trackGaps words bitLen).map (· * (1000 * self.cellMicros)))
    (hmax : bitLen ≤ MAX_TRACK_BITS) :
    nanoseconds < U32_RANGE ∧ self.writeTicks nanoseconds < U32_RANGE := by
  obtain ⟨distance, hdistance, rfl⟩ := List.mem_map.mp h
  have hmicros := self.cellMicros_le
  have hfrequency := self.frequency_lt
  have hns : distance * (1000 * self.cellMicros) ≤ 237568 * 2000 :=
    Nat.mul_le_mul (trackGaps_bounds hmax hdistance).2 (by omega)
  have hproduct : distance * (1000 * self.cellMicros) * self.sampleFrequency ≤
      237568 * 2000 * (U32_RANGE - 1) := Nat.mul_le_mul hns (by omega)
  unfold writeTicks
  unfold U32_RANGE at hproduct ⊢
  omega

/-- What is sent of an accepted track. -/
theorem fluxStreamChecked_eq (self : Greaseweazle) (hpos : 1 ≤ bitLen)
    (hwords : bitLen ≤ words.length * 16) (hmax : bitLen ≤ MAX_TRACK_BITS) :
    mfmToFlux words bitLen (if self.highDensity then 1000 else 2000) =
        .ok ((trackGaps words bitLen).map (· * (1000 * self.cellMicros))) ∧
      self.fluxStreamChecked words bitLen =
        some (.ok ((((trackGaps words bitLen).map (· * (1000 * self.cellMicros))).map
          self.writeTicks).flatMap encodeTicks)) := by
  have hmfm : mfmToFlux words bitLen (if self.highDensity then 1000 else 2000) =
      .ok ((trackGaps words bitLen).map (· * (1000 * self.cellMicros))) := by
    rw [cell_eq]
    exact mfmToFlux_eq self.cell_fits hpos hwords hmax
  refine ⟨hmfm, ?_⟩
  unfold fluxStreamChecked
  rw [hmfm]
  dsimp only
  rw [pushDelaysChecked_eq _ _ fun _ h => (writeTicks_lt h hmax).1,
    foldlM_pushDelay _ _ fun _ h => (writeTicks_lt h hmax).2, List.nil_append]

/-- The interval of a distance fits the longest form. -/
theorem writeTicks_fits_iff (distance : Nat) :
    self.writeTicks (distance * (1000 * self.cellMicros)) < 2 ^ 28 + 249 ↔
      (distance * (if self.highDensity then 1000 else 2000) * self.sampleFrequency + 500000000) /
        1000000000 < 2 ^ 28 + 249 := by
  rw [cell_eq]
  unfold writeTicks
  omega

/-- No tick count of a track is truncated just where each of its distances fits. -/
theorem wire_iff (self : Greaseweazle) (hpos : 1 ≤ bitLen) (hwords : bitLen ≤ words.length * 16)
    (hmax : bitLen ≤ MAX_TRACK_BITS) :
    (∀ timings stream,
      mfmToFlux words bitLen (if self.highDensity then 1000 else 2000) = .ok timings →
      self.fluxStreamChecked words bitLen = some (.ok stream) →
      decodedTicks stream = .ok (timings.map self.writeTicks)) ↔
    ∀ distance ∈ trackGaps words bitLen,
      (distance * (if self.highDensity then 1000 else 2000) * self.sampleFrequency + 500000000) /
        1000000000 < 2 ^ 28 + 249 := by
  obtain ⟨hmfm, hstream⟩ := fluxStreamChecked_eq self hpos hwords hmax
  have hall : decodedTicks ((((trackGaps words bitLen).map (· * (1000 * self.cellMicros))).map
      self.writeTicks).flatMap encodeTicks) =
        .ok (((trackGaps words bitLen).map (· * (1000 * self.cellMicros))).map self.writeTicks) ↔
      ∀ distance ∈ trackGaps words bitLen,
        (distance * (if self.highDensity then 1000 else 2000) * self.sampleFrequency +
          500000000) / 1000000000 < 2 ^ 28 + 249 := by
    rw [decodedTicks_eq_iff]
    simp only [List.forall_mem_map, writeTicks_fits_iff]
  rw [← hall]
  constructor
  · intro hwire
    exact hwire _ _ hmfm hstream
  · intro hdecoded timings stream htimings hsent
    rw [hmfm] at htimings
    rw [hstream] at hsent
    cases htimings
    cases hsent
    exact hdecoded

/--
**Safety.** At any clock and density, and for any track that `mfm_to_flux` accepts, the arithmetic
between ticks and nanoseconds is safe just where the read is immediate or the clock below 2 ^ 31 Hz,
and no distance on the track is longer than the 28 bits of the longest form can say.
-/
theorem tickSafe_iff (self : Greaseweazle) (mode : ReadMode) {timings : List Nat}
    (haccepted : mfmToFlux words bitLen (if self.highDensity then 1000 else 2000) = .ok timings) :
    self.TickSafe mode words bitLen ↔
      (mode = .normal ∨ self.sampleFrequency < 2 ^ 31) ∧
      ∀ distance ∈ trackGaps words bitLen,
        (distance * (if self.highDensity then 1000 else 2000) * self.sampleFrequency + 500000000) /
          1000000000 < 2 ^ 28 + 249 := by
  obtain ⟨hpos, hwords, hmax⟩ := mfmToFlux_accepts haccepted
  have hwindow : (∃ window, windowTicks self.sampleFrequency mode = some window) ↔
      mode = .normal ∨ self.sampleFrequency < 2 ^ 31 := by
    rw [← Option.isSome_iff_exists, Option.isSome_iff_ne_none, ne_eq,
      windowTicks_eq_none_iff self.frequency_lt, not_and_or, not_not, Nat.not_le]
  rw [← hwindow, ← wire_iff self hpos hwords hmax]
  constructor
  · intro hsafe
    exact ⟨hsafe.window, hsafe.wire⟩
  · rintro ⟨hsome, hwire⟩
    exact ⟨hsome, fastTicks_isSome self.frequency_lt,
      fun stream => ⟨_, decodeLoopChecked_eq self.frequency_pos self.frequency_lt stream 0 false⟩,
      ⟨_, (fluxStreamChecked_eq self hpos hwords hmax).2⟩, hwire⟩

end Track

theorem tickSafe_iff_oneWord :
    at40MHz.TickSafe .compatible [0x9000] 4 ↔
      (ReadMode.compatible = .normal ∨ at40MHz.sampleFrequency < 2 ^ 31) ∧
      ∀ distance ∈ trackGaps [0x9000] 4,
        (distance * (if at40MHz.highDensity then 1000 else 2000) * at40MHz.sampleFrequency +
          500000000) / 1000000000 < 2 ^ 28 + 249 :=
  @tickSafe_iff [0x9000] 4 at40MHz .compatible [2000, 6000] (by decide)

/-! ## Fast clocks -/

/-- A device at a clock that twice does not fit `u32`. -/
def at2GHz : Greaseweazle :=
  { sampleFrequency := 2 ^ 31, highDensity := false, frequency_pos := by decide,
    frequency_lt := by decide }

/-- A device at the fastest clock that `open` admits. -/
def at4GHz : Greaseweazle :=
  { sampleFrequency := 2 ^ 32 - 1, highDensity := false, frequency_pos := by decide,
    frequency_lt := by decide }

/-- A track without a transition has one distance. -/
theorem trackGaps_zeros {count : Nat} (hpos : 0 < count) :
    trackGaps (List.replicate count 0) (count * 16) = [count * 16] := by
  have hzeros : (List.range (count * 16)).map (wordBit (List.replicate count 0)) =
      List.replicate (count * 16) false := by
    rw [List.map_eq_replicate_iff.mpr, List.length_range]
    intro position _
    rw [wordBit_eq, List.getD_eq_getElem?_getD, List.getElem?_replicate]
    split <;> simp
  unfold trackGaps
  rw [hzeros, ← List.append_nil (List.replicate (count * 16) false), gaps_replicate, Nat.zero_add,
    gaps, if_neg (by omega)]

/-- An indexed read panics at 2 ^ 31 Hz, and a long silence is truncated at the fastest clock. -/
theorem not_tickSafe :
    (mfmToFlux [0x9000] 4 2000 = .ok [2000, 6000] ∧
      ¬ at2GHz.TickSafe .compatible [0x9000] 4) ∧
    (mfmToFlux (List.replicate 2000 0) 32000 2000 = .ok [64000000] ∧
      ¬ at4GHz.TickSafe .normal (List.replicate 2000 0) 32000) := by
  have hgaps : trackGaps (List.replicate 2000 0) 32000 = [32000] :=
    @trackGaps_zeros 2000 (by decide)
  have hwords : 32000 ≤ (List.replicate 2000 (0 : BitVec 16)).length * 16 := by
    rw [List.length_replicate]
  refine ⟨⟨by decide, ?_⟩, ⟨?_, ?_⟩⟩
  · rintro ⟨⟨window, hwindow⟩, -, -, -, -⟩
    have hpanic : windowTicks at2GHz.sampleFrequency .compatible = none :=
      (windowTicks_eq_none_iff at2GHz.frequency_lt .compatible).mpr ⟨nofun, Nat.le_refl _⟩
    rw [hpanic] at hwindow
    cases hwindow
  · rw [mfmToFlux_eq (by decide) (by decide) hwords (by decide)]
    show Except.ok ((trackGaps (List.replicate 2000 0) 32000).map _) = _
    rw [hgaps]
    rfl
  · rintro ⟨-, -, -, -, hwire⟩
    have hfits := (wire_iff at4GHz (by decide) hwords (by decide)).mp hwire 32000
      (by rw [hgaps]; exact List.mem_singleton_self _)
    exact absurd hfits (by decide)

end Greaseweazle

end FluxBridge
