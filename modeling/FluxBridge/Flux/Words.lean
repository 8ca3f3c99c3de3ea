import Mathlib.Data.List.Basic

/-!
# Packed bits

Bit streams of the source are packed into 16-bit words, the first bit as the most significant of
the first word. Reading a bit of packed words, setting one, and packing a whole stream.

* `wordBit_packBits` — reading back what was packed
* `unpackBits_packBits`, `wordBit_packBits_unpackBits` — the words of a stream and its bits
-/

namespace FluxBridge

/-- Bit `position` of packed words, most significant first. -/
def wordBit (words : List (BitVec 16)) (position : Nat) : Bool :=
  words.getD (position / 16) 0 &&& (1#16 <<< (15 - position % 16)) != 0

/-- Sets bit `position` of packed words. -/
def setBit (words : List (BitVec 16)) (position : Nat) : List (BitVec 16) :=
  words.modify (position / 16) fun word => word ||| (1#16 <<< (15 - position % 16))

/-- The words a stream of `bits` bits takes. -/
def wordCount (bits : Nat) : Nat := (bits + 15) / 16

/-- Packs a bit stream into most-significant-bit-first words. -/
def packBits (bits : List Bool) : List (BitVec 16) :=
  bits.zipIdx.foldl (fun words bit => if bit.1 then setBit words bit.2 else words)
    (List.replicate (wordCount bits.length) 0)

/-! ## One bit -/

theorem and_bit_ne_zero (word : BitVec 16) {n : Nat} (hn : n < 16) :
    (word &&& (1#16 <<< n) != 0) = word.getLsbD n := by
  have hone : BitVec.twoPow 16 n ≠ 0#16 := by
    intro hzero
    have hbit := congrArg (fun w => w.getLsbD n) hzero
    simp [hn] at hbit
  rw [← BitVec.twoPow_eq, BitVec.and_twoPow]
  cases hbit : word.getLsbD n with
  | false => rfl
  | true => simpa using hone

theorem wordBit_eq (words : List (BitVec 16)) (position : Nat) :
    wordBit words position = (words.getD (position / 16) 0).getLsbD (15 - position % 16) :=
  and_bit_ne_zero _ (by omega)

theorem length_setBit (words : List (BitVec 16)) (position : Nat) :
    (setBit words position).length = words.length := by
  unfold setBit
  rw [List.length_modify]

/-- Setting a bit sets that bit and no other. -/
theorem wordBit_setBit {words : List (BitVec 16)} {position : Nat}
    (h : position < words.length * 16) (p : Nat) :
    wordBit (setBit words position) p = (wordBit words p || decide (p = position)) := by
  have hword : position / 16 < words.length := by omega
  rw [wordBit_eq, wordBit_eq]
  unfold setBit
  rw [List.getD_eq_getElem?_getD, List.getD_eq_getElem?_getD, List.getElem?_modify]
  by_cases hsame : position / 16 = p / 16
  · have hoffset : 15 - p % 16 = 15 - position % 16 ↔ p = position := by omega
    rw [← hsame, List.getElem?_eq_getElem hword]
    simp only [if_true, Option.map_eq_map, Option.map_some, Option.getD_some, BitVec.getLsbD_or,
      ← BitVec.twoPow_eq, BitVec.getLsbD_twoPow]
    have hbit : 15 - position % 16 < 16 := by omega
    simp [hbit, ← hoffset, eq_comm]
  · have hp : p ≠ position := fun hp => hsame (by rw [hp])
    simp [hsame, hp]

/-! ## A whole stream -/

theorem length_foldl_setBit (pairs : List (Bool × Nat)) (words : List (BitVec 16)) :
    (pairs.foldl (fun words bit => if bit.1 then setBit words bit.2 else words) words).length =
      words.length := by
  induction pairs generalizing words with
  | nil => rfl
  | cons pair pairs ih =>
    rw [List.foldl_cons, ih]
    split
    · exact length_setBit _ _
    · rfl

theorem length_packBits (bits : List Bool) : (packBits bits).length = wordCount bits.length := by
  unfold packBits
  rw [length_foldl_setBit, List.length_replicate]

/-- Setting the bits of a stream, from `start` on. -/
theorem wordBit_foldl (bits : List Bool) (start : Nat) (words : List (BitVec 16))
    (h : start + bits.length ≤ words.length * 16) (p : Nat) :
    wordBit ((bits.zipIdx start).foldl
      (fun words bit => if bit.1 then setBit words bit.2 else words) words) p =
      (wordBit words p || (decide (start ≤ p) && bits.getD (p - start) false)) := by
  -- on the bits that are left: each changes its own position and no other
  induction bits generalizing start words with
  | nil => simp
  | cons bit bits ih =>
    rw [List.length_cons] at h
    rw [List.zipIdx_cons, List.foldl_cons]
    cases bit with
    | false =>
      rw [if_neg Bool.false_ne_true, ih (start + 1) words (by omega)]
      rcases Nat.lt_trichotomy p start with hp | hp | hp
      · simp [show ¬ start ≤ p by omega, show ¬ start + 1 ≤ p by omega]
      · simp [hp, show ¬ start + 1 ≤ start by omega]
      · rw [show p - start = p - (start + 1) + 1 by omega, List.getD_cons_succ]
        simp [show start ≤ p by omega, show start + 1 ≤ p by omega]
    | true =>
      rw [if_pos rfl, ih (start + 1) (setBit words start) (by rw [length_setBit]; omega),
        wordBit_setBit (by omega)]
      rcases Nat.lt_trichotomy p start with hp | hp | hp
      · simp [show ¬ start ≤ p by omega, show ¬ start + 1 ≤ p by omega, show p ≠ start by omega]
      · simp [hp]
      · rw [show p - start = p - (start + 1) + 1 by omega, List.getD_cons_succ]
        simp [show start ≤ p by omega, show start + 1 ≤ p by omega, show p ≠ start by omega]

/-- **Packing.** A packed stream reads back as it was, with zeros behind it. -/
theorem wordBit_packBits (bits : List Bool) (p : Nat) :
    wordBit (packBits bits) p = bits.getD p false := by
  have hroom : 0 + bits.length ≤
      (List.replicate (wordCount bits.length) (0 : BitVec 16)).length * 16 := by
    rw [List.length_replicate]
    unfold wordCount
    omega
  have hzero : wordBit (List.replicate (wordCount bits.length) 0) p = false := by
    rw [wordBit_eq, List.getD_eq_getElem?_getD, List.getElem?_replicate]
    split <;> simp
  unfold packBits
  rw [wordBit_foldl bits 0 _ hroom, hzero]
  simp

/-! ## Unpacking -/

/-- The first `bitLen` bits of packed words. -/
def unpackBits (words : List (BitVec 16)) (bitLen : Nat) : List Bool :=
  (List.range bitLen).map (wordBit words)

@[simp] theorem length_unpackBits (words : List (BitVec 16)) (bitLen : Nat) :
    (unpackBits words bitLen).length = bitLen := by
  unfold unpackBits
  rw [List.length_map, List.length_range]

theorem getElem?_unpackBits (words : List (BitVec 16)) {bitLen k : Nat} (h : k < bitLen) :
    (unpackBits words bitLen)[k]? = some (wordBit words k) := by
  unfold unpackBits
  rw [List.getElem?_map, List.getElem?_range h, Option.map_some]

/-- Unpacking gives back what was packed. -/
theorem unpackBits_packBits (bits : List Bool) : unpackBits (packBits bits) bits.length = bits := by
  apply List.ext_getElem?
  intro k
  rcases Nat.lt_or_ge k bits.length with h | h
  · rw [getElem?_unpackBits _ h, wordBit_packBits, List.getD_eq_getElem?_getD,
      List.getElem?_eq_getElem h, Option.getD_some]
  · rw [List.getElem?_eq_none h, List.getElem?_eq_none (by rwa [length_unpackBits])]

/-- Packing again keeps the revolution and clears what is behind it. -/
theorem wordBit_packBits_unpackBits (words : List (BitVec 16)) (bitLen p : Nat) :
    wordBit (packBits (unpackBits words bitLen)) p = (decide (p < bitLen) && wordBit words p) := by
  rw [wordBit_packBits, List.getD_eq_getElem?_getD]
  rcases Nat.lt_or_ge p bitLen with h | h
  · rw [getElem?_unpackBits _ h, Option.getD_some, decide_eq_true h, Bool.true_and]
  · rw [List.getElem?_eq_none (by rwa [length_unpackBits]), decide_eq_false (Nat.not_lt.mpr h)]
    rfl

end FluxBridge
