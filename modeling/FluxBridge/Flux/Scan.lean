import FluxBridge.Types
import FluxBridge.Flux.Words

/-!
# Format-aware verification of a revolution

`src/flux/scan.rs`: find the AmigaDOS sectors of a packed revolution, treating its ends as joined,
and verify the header and the data checksum of each.

The source collects the sync positions in a `HashSet` and visits them in hash order. Here they
are a list without repetitions; `Flux/SectorScan.lean` shows that the order does not matter.
-/

namespace FluxBridge

def MASK : BitVec 32 := 0x55555555#32
def DD_SECTORS : Nat := 11
def HD_SECTORS : Nat := 22
def HD_BIT_THRESHOLD : Nat := 150000

/-- Classification of a captured revolution. -/
inductive RevolutionScan where
  | cleanAmigaDos (sectors : Nat)
  | damagedAmigaDos (good expected : Nat)
  | unrecognised
  deriving DecidableEq, Repr

/-- Bit `position` of the ring of the first `bitLen` bits. -/
def bitAt (words : List (BitVec 16)) (bitLen position : Nat) : Bool :=
  wordBit words (position % bitLen)

/-- The bits from `start` on, the first as the most significant. -/
def longAt (words : List (BitVec 16)) (bitLen start : Nat) : BitVec 32 :=
  (List.range 32).foldl (fun value offset =>
    (value <<< 1) ||| BitVec.setWidth 32 (BitVec.ofBool (bitAt words bitLen (start + offset)))) 0

def deinterleave (odd even : BitVec 32) : BitVec 32 :=
  ((odd &&& MASK) <<< 1) ||| (even &&& MASK)

/-- The rolling 16-bit window, and the positions at which it was a sync word. -/
def syncStep (words : List (BitVec 16)) (bitLen : Nat) (acc : BitVec 16 × List Nat)
    (position : Nat) : BitVec 16 × List Nat :=
  let window := (acc.1 <<< 1) ||| BitVec.setWidth 16 (BitVec.ofBool (bitAt words bitLen position))
  if 15 ≤ position ∧ window = 0x4489#16 then
    (window, acc.2.insert ((position - 15) % bitLen))
  else (window, acc.2)

def findSyncs (words : List (BitVec 16)) (bitLen : Nat) : List Nat :=
  ((List.range (bitLen + 15)).foldl (syncStep words bitLen) (0#16, [])).2

/-- The valid headers so far, and which sectors had a valid header and valid data. -/
structure ScanTally where
  headersValid : Nat
  good : List Bool
  deriving DecidableEq, Repr

/-- The exclusive or of `count` data-masked longs, on top of `value`. -/
def xorLongs (words : List (BitVec 16)) (bitLen start count : Nat) (value : BitVec 32) :
    BitVec 32 :=
  (List.range count).foldl (fun checksum offset =>
    checksum ^^^ (longAt words bitLen (start + offset * 32) &&& MASK)) value

/-- The body of the loop over the sync positions. -/
def scanSync (words : List (BitVec 16)) (bitLen : Nat) (syncs : List Nat) (tally : ScanTally)
    (sync : Nat) : ScanTally :=
  if ¬ (sync + 16) % bitLen ∈ syncs ∨ (sync + bitLen - 16) % bitLen ∈ syncs then tally
  else
    let body := sync + 32
    let infoOdd := longAt words bitLen body
    let infoEven := longAt words bitLen (body + 32)
    let info := deinterleave infoOdd infoEven
    let format := info.extractLsb' 24 8
    let sector := (info.extractLsb' 8 8).toNat
    if format ≠ 0xff#8 ∨ HD_SECTORS ≤ sector then tally
    else
      let headerChecksum :=
        xorLongs words bitLen (body + 64) 8 ((infoOdd &&& MASK) ^^^ (infoEven &&& MASK))
      let storedHeader :=
        deinterleave (longAt words bitLen (body + 320)) (longAt words bitLen (body + 352))
      if headerChecksum ≠ storedHeader then tally
      else
        let tally := { tally with headersValid := tally.headersValid + 1 }
        let dataChecksum := xorLongs words bitLen (body + 448) 256 0
        let storedData :=
          deinterleave (longAt words bitLen (body + 384)) (longAt words bitLen (body + 416))
        if dataChecksum = storedData then { tally with good := tally.good.set sector true }
        else tally

/-- The verdict on a tally. -/
def scanVerdict (bitLen : Nat) (tally : ScanTally) : RevolutionScan :=
  let expected := if HD_BIT_THRESHOLD < bitLen then HD_SECTORS else DD_SECTORS
  let good := tally.good.countP id
  if good = expected then .cleanAmigaDos expected
  else if expected ≤ tally.headersValid + 1 then .damagedAmigaDos good expected
  else .unrecognised

/-- Decodes all AmigaDOS sectors in a packed revolution. -/
def scanRevolution (words : List (BitVec 16)) (bitLen : Nat) : RevolutionScan :=
  if bitLen < 64 ∨ words = [] ∨ words.length * 16 < bitLen then .unrecognised
  else
    let syncs := findSyncs words bitLen
    scanVerdict bitLen
      (syncs.foldl (scanSync words bitLen syncs) ⟨0, List.replicate HD_SECTORS false⟩)

end FluxBridge
