import FluxBridge.Flux.Rotation
import Mathlib.Data.List.Rotate

/-!
# Rotation as an action

Without the packing a revolution is the list of its bits, and `rotate_revolution` turns that list.
What a partial last word holds behind the revolution is neither read nor kept.

* `rotateRevolution_eq` — between unpacking and packing, a rotation is that of a list
* `rotateRevolution_action` — two rotations in a row are one, by the sum
-/

namespace FluxBridge

/-! ## Turning the list -/

/-- The bits that `rotate_revolution` collects are those of the revolution, turned. -/
theorem map_wordBit_eq_rotate (words : List (BitVec 16)) (bitLen startBit : Nat) :
    ((List.range bitLen).map fun offset =>
      wordBit words ((startBit % bitLen + offset) % bitLen)) =
      (unpackBits words bitLen).rotate startBit := by
  apply List.ext_getElem?
  intro k
  rcases Nat.lt_or_ge k bitLen with h | h
  · have hmod : (startBit % bitLen + k) % bitLen = (k + startBit) % bitLen := by
      rw [Nat.mod_add_mod, Nat.add_comm]
    rw [List.getElem?_map, List.getElem?_range h, Option.map_some, List.getElem?_rotate
      (by rwa [length_unpackBits]), length_unpackBits, hmod,
      getElem?_unpackBits _ (Nat.mod_lt _ (by omega))]
  · rw [List.getElem?_eq_none (by rwa [List.length_map, List.length_range]),
      List.getElem?_eq_none (by rwa [List.length_rotate, length_unpackBits])]

section Fits

variable {words : List (BitVec 16)} {bitLen : Nat}

/-- **Rotation.** Between unpacking and packing, the list of bits is turned. -/
theorem rotateRevolution_eq (hpos : 1 ≤ bitLen) (hfits : bitLen ≤ 16 * words.length)
    (startBit : Nat) :
    rotateRevolution words bitLen startBit =
      .ok (packBits ((unpackBits words bitLen).rotate startBit)) := by
  unfold rotateRevolution
  rw [if_neg (by omega)]
  dsimp only
  rw [map_wordBit_eq_rotate]

/-- The words of a rotated revolution are enough for it. -/
theorem length_packBits_rotate (words : List (BitVec 16)) (bitLen startBit : Nat) :
    (packBits ((unpackBits words bitLen).rotate startBit)).length = wordCount bitLen := by
  rw [length_packBits, List.length_rotate, length_unpackBits]

/-- Unpacking what was rotated. -/
theorem unpackBits_packBits_rotate (words : List (BitVec 16)) (bitLen startBit : Nat) :
    unpackBits (packBits ((unpackBits words bitLen).rotate startBit)) bitLen =
      (unpackBits words bitLen).rotate startBit := by
  have h := unpackBits_packBits ((unpackBits words bitLen).rotate startBit)
  rwa [List.length_rotate, length_unpackBits] at h

/-- Only the position modulo the length matters. -/
theorem rotate_unpackBits_mod (words : List (BitVec 16)) (bitLen startBit : Nat) :
    (unpackBits words bitLen).rotate (startBit % bitLen) =
      (unpackBits words bitLen).rotate startBit := by
  have h := List.rotate_mod (unpackBits words bitLen) startBit
  rwa [length_unpackBits] at h

/-- A bit of a rotated revolution. -/
theorem wordBit_packBits_rotate {k : Nat} (hk : k < bitLen) (startBit : Nat) :
    wordBit (packBits ((unpackBits words bitLen).rotate startBit)) k =
      wordBit words ((startBit + k) % bitLen) := by
  rw [wordBit_packBits, List.getD_eq_getElem?_getD, List.getElem?_rotate
    (by rwa [length_unpackBits]), length_unpackBits,
    getElem?_unpackBits _ (Nat.mod_lt _ (by omega)), Option.getD_some, Nat.add_comm]

/--
**The action.** Rotating by `a` and then by `b` is rotating once, by the sum of both modulo the
length. The result has just the words it takes; its bit `k` is bit `a + k` of the ring; and where
`a` is a multiple of the length it is the revolution itself, with the padding behind it cleared.
-/
theorem rotateRevolution_action (hpos : 1 ≤ bitLen) (hfits : bitLen ≤ 16 * words.length)
    (a b : Nat) :
    ∃ rotated, rotateRevolution words bitLen a = .ok rotated ∧
      rotateRevolution rotated bitLen b =
        rotateRevolution words bitLen (a % bitLen + b % bitLen) ∧
      (∀ k < bitLen, wordBit rotated k = wordBit words ((a + k) % bitLen)) ∧
      (bitLen ∣ a → ∀ p, wordBit rotated p = (decide (p < bitLen) && wordBit words p)) ∧
      rotated.length = (bitLen + 15) / 16 := by
  have hlength := length_packBits_rotate words bitLen a
  refine ⟨_, rotateRevolution_eq hpos hfits a, ?_, fun k hk => wordBit_packBits_rotate hk a, ?_,
    hlength⟩
  · -- the last word of the first rotation may be partial, and is long enough all the same
    have hroom : bitLen ≤
        16 * (packBits ((unpackBits words bitLen).rotate a)).length := by
      rw [hlength]
      unfold wordCount
      omega
    rw [rotateRevolution_eq hpos hroom, rotateRevolution_eq hpos hfits,
      unpackBits_packBits_rotate, List.rotate_rotate,
      ← rotate_unpackBits_mod words bitLen (a % bitLen + b % bitLen), ← Nat.add_mod,
      rotate_unpackBits_mod]
  · intro hdvd p
    rw [← rotate_unpackBits_mod, Nat.mod_eq_zero_of_dvd hdvd, List.rotate_zero,
      wordBit_packBits_unpackBits]

theorem rotateRevolution_action_twenty :
    ∃ rotated, rotateRevolution [0x8001, 0x4fff] 20 15 = .ok rotated ∧
      rotateRevolution rotated 20 45 = rotateRevolution [0x8001, 0x4fff] 20 (15 % 20 + 45 % 20) ∧
      (∀ k < 20, wordBit rotated k = wordBit [0x8001, 0x4fff] ((15 + k) % 20)) ∧
      (20 ∣ 15 → ∀ p, wordBit rotated p = (decide (p < 20) && wordBit [0x8001, 0x4fff] p)) ∧
      rotated.length = (20 + 15) / 16 :=
  rotateRevolution_action (by decide) (by decide) 15 45

end Fits

end FluxBridge
