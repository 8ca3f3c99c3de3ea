import FluxBridge.Flux.Words
import FluxBridge.Flux.Pll

/-!
# Revolution extraction and MFM/flux conversion

`src/flux/rotation.rs`. An index out of bounds, where the source panics, is `none`.
-/

namespace FluxBridge

/-- Rotates a packed revolution left by `startBit`. -/
def rotateRevolution (words : List (BitVec 16)) (bitLen startBit : Nat) :
    Except Error (List (BitVec 16)) :=
  if bitLen = 0 ∨ words.length * 16 < bitLen then
    .error (.protocol "invalid packed revolution length")
  else
    let startBit := startBit % bitLen
    .ok (packBits ((List.range bitLen).map fun offset =>
      wordBit words ((startBit + offset) % bitLen)))

example : rotateRevolution [0x8001, 0x4000] 32 15 = .ok [0xa000, 0x4000] := by decide

/-! ## Between two index pulses -/

/-- The variables of the loop of `flux_to_revolution`; the cells of the warm-up are not kept. -/
structure Extraction where
  pll : PllDecoder
  bits : List Bool
  capturing : Bool
  sawStart : Bool
  deriving DecidableEq, Repr

namespace Extraction

/-- What an index pulse changes: the revolution begins here. -/
def start (state : Extraction) (event : FluxEvent) : Extraction :=
  if event.index then { state with bits := [], capturing := true, sawStart := true } else state

/-- The delay of one event through the PLL. -/
def submit (state : Extraction) (event : FluxEvent) : Extraction :=
  let (pll, cells) := state.pll.submit event.nanoseconds
  { state with pll := pll, bits := if state.capturing then state.bits ++ cells else state.bits }

/-- The loop over the events. -/
def loop : Extraction → List FluxEvent → Except Error Extraction
  | state, [] => .ok state
  | state, event :: events =>
    if event.index && state.sawStart then .ok state
    else
      let state := (state.start event).submit event
      if MAX_TRACK_BITS < state.bits.length then
        .error (.trackTooLarge state.bits.length MAX_TRACK_BITS)
      else loop state events

end Extraction

/--
Decodes flux events between two index pulses into one packed revolution: the words, their bit
length, and whether an index pulse was seen.
-/
def fluxToRevolution (events : List FluxEvent) : Except Error (List (BitVec 16) × Nat × Bool) :=
  let hasIndex := events.any fun event => event.index
  match Extraction.loop ⟨.new, [], !hasIndex, false⟩ events with
  | .error e => .error e
  | .ok state =>
    if state.bits.length < 64 then
      .error (.protocol "flux stream did not contain a complete revolution")
    else .ok (packBits state.bits, state.bits.length, state.sawStart)

/-! ## Without an index -/

/-- Cells to leave untouched at the head of a capture before anything anchors to it. -/
def JOIN_WARMUP_CELLS : Nat := 2000
/-- Cells compared per anchor when scoring a candidate join. -/
def JOIN_SAMPLE_CELLS : Nat := 1024
/-- Offsets of the anchors a candidate join is proved against, past the warm-up. -/
def JOIN_ANCHORS : List Nat := [0, 2048, 4096]
/-- Agreeing cells that make an anchor convincing. -/
def CONVINCING : Nat := JOIN_SAMPLE_CELLS * 3 / 4

/-- `&bits[from..from + count]`. -/
def slice (bits : List Bool) (start count : Nat) : Option (List Bool) :=
  if start + count ≤ bits.length then some ((bits.drop start).take count) else none

/-- How many cells agree at an anchor, `candidate` cells apart. -/
def scoreAt (bits : List Bool) (anchor candidate : Nat) : Option Nat := do
  let start := JOIN_WARMUP_CELLS + anchor
  let left ← slice bits start JOIN_SAMPLE_CELLS
  let right ← slice bits (start + candidate) JOIN_SAMPLE_CELLS
  pure ((left.zip right).countP fun pair => pair.1 == pair.2)

/-- The first of the best candidates at an anchor, with its score. -/
def bestCandidate (bits : List Bool) (leader : Nat) (candidates : List Nat) :
    Option (Nat × Nat) :=
  candidates.foldlM (fun best candidate => do
    let score ← scoreAt bits leader candidate
    pure (if best.2 < score then (candidate, score) else best)) (0, 0)

/-- The anchors at which a candidate is convincing. -/
def agreeing (bits : List Bool) (candidate : Nat) : Option Nat := do
  let scores ← JOIN_ANCHORS.mapM fun anchor => scoreAt bits anchor candidate
  pure (scores.countP fun score => decide (CONVINCING ≤ score))

/-- The loop over the leading anchors: the join, or the best score that was found. -/
def findJoin (bits : List Bool) (candidates : List Nat) :
    List Nat → Nat → Option (Nat ⊕ Nat)
  | [], nearest => some (.inr nearest)
  | leader :: leaders, nearest => do
    let best ← bestCandidate bits leader candidates
    let nearest := max nearest best.2
    if best.2 < CONVINCING then findJoin bits candidates leaders nearest
    else do
      let agreeing ← agreeing bits best.1
      if JOIN_ANCHORS.length < agreeing * 2 then pure (.inl best.1)
      else findJoin bits candidates leaders nearest

/-- Locates a repeated revolution boundary in an immediate decoded bit stream. -/
def bitsToUnalignedRevolution (bits : List Bool) (highDensity : Bool) :
    Option (Except Error (List Bool)) :=
  let nominal := if highDensity then 200000 else 100000
  let lower := nominal * 4 / 5
  let reach := JOIN_WARMUP_CELLS + JOIN_ANCHORS.getLastD 0 + JOIN_SAMPLE_CELLS
  let upper := min (nominal * 6 / 5) (bits.length - reach)
  if upper ≤ lower ∨ bits.length < lower + reach then
    some (.error (.protocol "immediate capture is too short to locate a revolution overlap"))
  else
    (findJoin bits (List.range' lower (upper + 1 - lower)) JOIN_ANCHORS 0).map fun
      | .inl join => .ok (bits.take join)
      | .inr nearest =>
        .error (.protocol ("could not locate a reliable revolution overlap (best score "
          ++ toString nearest ++ "/" ++ toString JOIN_SAMPLE_CELLS ++ ")"))

/-- The loop of `flux_to_unaligned_revolution`. -/
def decodeAll : PllDecoder → List Bool → List FluxEvent → Except Error (List Bool)
  | _, bits, [] => .ok bits
  | pll, bits, event :: events =>
    let (pll, cells) := pll.submit event.nanoseconds
    let bits := bits ++ cells
    if MAX_TRACK_BITS < bits.length then .error (.trackTooLarge bits.length MAX_TRACK_BITS)
    else decodeAll pll bits events

/-- Decodes an immediate flux capture and locates its repeated revolution join. -/
def fluxToUnalignedRevolution (events : List FluxEvent) (highDensity : Bool) :
    Option (Except Error (List (BitVec 16) × Nat)) :=
  match decodeAll .new [] events with
  | .error e => some (.error e)
  | .ok bits =>
    (bitsToUnalignedRevolution bits highDensity).map fun
      | .error e => .error e
      | .ok bits => .ok (packBits bits, bits.length)

/-! ## Flux for writing -/

/-- `checked_add` and `checked_mul` on `u32`. -/
def checkedU32 (value : Nat) (message : String) : Except Error Nat :=
  if value < U32_RANGE then .ok value else .error (.invalidConfig message)

/-- The loop of `mfm_to_flux`: the cells since the last transition, and the delays so far. -/
def mfmStep (words : List (BitVec 16)) (cellNanoseconds : Nat) (acc : Nat × List Nat)
    (position : Nat) : Except Error (Nat × List Nat) := do
  let cells ← checkedU32 (acc.1 + 1) "flux interval overflow"
  if wordBit words position then do
    let interval ← checkedU32 (cells * cellNanoseconds) "flux interval nanoseconds overflow"
    pure (0, acc.2 ++ [interval])
  else pure (cells, acc.2)

/-- The end of `mfm_to_flux`: the delay behind the last transition. -/
def mfmFinish (cellNanoseconds : Nat) (acc : Nat × List Nat) : Except Error (List Nat) :=
  if acc.1 ≠ 0 then do
    let interval ← checkedU32 (acc.1 * cellNanoseconds) "trailing flux interval overflow"
    pure (acc.2 ++ [interval])
  else pure acc.2

/-- Converts packed MFM to transition delays for flux-writing interfaces. -/
def mfmToFlux (words : List (BitVec 16)) (bitLen cellNanoseconds : Nat) :
    Except Error (List Nat) :=
  if bitLen = 0 ∨ words.length * 16 < bitLen then
    .error (.invalidConfig ("bit length " ++ toString bitLen ++ " does not fit "
      ++ toString words.length ++ " MFM words"))
  else if MAX_TRACK_BITS < bitLen then .error (.trackTooLarge bitLen MAX_TRACK_BITS)
  else
    (List.range bitLen).foldlM (mfmStep words cellNanoseconds) (0, []) >>=
      mfmFinish cellNanoseconds

example : mfmToFlux [0x9000] 4 2000 = .ok [2000, 6000] := by decide

end FluxBridge
