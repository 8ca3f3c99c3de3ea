import FluxBridge.Flux.Rotation
import FluxBridge.Flux.SyncWindow
import Mathlib.Data.List.Nodup
import Mathlib.Data.Nat.ModEq

/-!
# Scanning a turned revolution

`scan_revolution` reads the ring only modulo its length, so that what it finds does not depend on
where the ring is cut.

* `bitAt_rotateRevolution` — a rotated revolution is the same ring, turned
* `sectorAt_congr` — a visit depends on the bits from the sync on, and on the syncs around it
* `scanRevolution_rotateRevolution` — the verdict is that of the revolution as it was
-/

namespace FluxBridge

/-! ## Turned rings -/

/-- The ring of the first `bitLen` bits of `turned` is that of `words`, `shift` bits on. -/
def Turned (words turned : List (BitVec 16)) (bitLen shift : Nat) : Prop :=
  ∀ position, bitAt turned bitLen position = bitAt words bitLen (position + shift)

/-- **Rotation.** A rotated revolution is the same ring, turned. -/
theorem bitAt_rotateRevolution {words rotated : List (BitVec 16)} {bitLen startBit : Nat}
    (h : rotateRevolution words bitLen startBit = .ok rotated) :
    Turned words rotated bitLen startBit := by
  unfold rotateRevolution at h
  split at h
  · cases h
  · next hfits =>
    obtain rfl := Except.ok.inj h
    intro position
    have hlt : position % bitLen < bitLen := Nat.mod_lt _ (by omega)
    unfold bitAt
    rw [wordBit_packBits, List.getD_eq_getElem?_getD, List.getElem?_map,
      List.getElem?_range hlt, Option.map_some, Option.getD_some, Nat.mod_add_mod,
      Nat.add_mod_mod, Nat.add_comm]

theorem length_rotateRevolution {words rotated : List (BitVec 16)} {bitLen startBit : Nat}
    (h : rotateRevolution words bitLen startBit = .ok rotated) :
    rotated.length = wordCount bitLen := by
  unfold rotateRevolution at h
  split at h
  · cases h
  · obtain rfl := Except.ok.inj h
    rw [length_packBits, List.length_map, List.length_range]

/-! ## A visit -/

section Visit

variable {words turned : List (BitVec 16)} {bitLen p q : Nat}

theorem longAt_congr (hbits : ∀ i, bitAt turned bitLen (p + i) = bitAt words bitLen (q + i))
    (i : Nat) : longAt turned bitLen (p + i) = longAt words bitLen (q + i) := by
  unfold longAt
  simp only [Nat.add_assoc, hbits]

theorem xorLongs_congr (hbits : ∀ i, bitAt turned bitLen (p + i) = bitAt words bitLen (q + i))
    (i count : Nat) (value : BitVec 32) :
    xorLongs turned bitLen (p + i) count value = xorLongs words bitLen (q + i) count value := by
  unfold xorLongs
  simp only [Nat.add_assoc, longAt_congr hbits]

/-- A visit depends on the bits from the sync on, and on the syncs around it. -/
theorem sectorAt_congr {syncs turnedSyncs : List Nat}
    (hbits : ∀ i, bitAt turned bitLen (p + i) = bitAt words bitLen (q + i))
    (hnext : (p + 16) % bitLen ∈ turnedSyncs ↔ (q + 16) % bitLen ∈ syncs)
    (hprevious : (p + bitLen - 16) % bitLen ∈ turnedSyncs ↔ (q + bitLen - 16) % bitLen ∈ syncs) :
    sectorAt turned bitLen turnedSyncs p = sectorAt words bitLen syncs q := by
  unfold sectorAt
  simp only [Nat.add_assoc, Nat.reduceAdd, hnext, hprevious, longAt_congr hbits,
    xorLongs_congr hbits]

end Visit

/-! ## The syncs -/

/-- A position is found once. -/
theorem nodup_findSyncs (words : List (BitVec 16)) (bitLen : Nat) :
    (findSyncs words bitLen).Nodup := by
  unfold findSyncs
  generalize bitLen + 15 = count
  induction count with
  | zero => exact List.nodup_nil
  | succ count ih =>
    rw [List.range_succ, List.foldl_append, List.foldl_cons, List.foldl_nil]
    unfold syncStep
    dsimp only
    split
    · exact List.Nodup.insert ih
    · exact ih

/-- Turning a position with the ring. -/
def turn (bitLen shift position : Nat) : Nat := (position + shift) % bitLen

theorem turn_injective {bitLen shift p q : Nat} (hp : p < bitLen) (hq : q < bitLen)
    (h : turn bitLen shift p = turn bitLen shift q) : p = q := by
  have hmod : p % bitLen = q % bitLen := Nat.ModEq.add_right_cancel' shift h
  rwa [Nat.mod_eq_of_lt hp, Nat.mod_eq_of_lt hq] at hmod

section Ring

variable {words turned : List (BitVec 16)} {bitLen shift : Nat}

/-- From a position on, the turned ring is the ring from where the position turns to. -/
theorem Turned.bits (hturned : Turned words turned bitLen shift) (position i : Nat) :
    bitAt turned bitLen (position + i) = bitAt words bitLen (turn bitLen shift position + i) := by
  unfold turn
  rw [hturned, bitAt_mod, Nat.add_right_comm]

theorem Turned.mem_findSyncs (hturned : Turned words turned bitLen shift) {position : Nat}
    (hlt : position < bitLen) :
    position ∈ findSyncs turned bitLen ↔ turn bitLen shift position ∈ findSyncs words bitLen := by
  have hsync : SyncAt (bitAt turned bitLen) position ↔
      SyncAt (bitAt words bitLen) (turn bitLen shift position) := by
    unfold SyncAt
    simp only [hturned.bits]
  have hturn : turn bitLen shift position < bitLen := Nat.mod_lt _ (by omega)
  rw [FluxBridge.mem_findSyncs, FluxBridge.mem_findSyncs, hsync]
  simp only [hlt, hturn, true_and]

/-- The syncs of the turned ring turn to those of the ring. -/
theorem Turned.findSyncs_perm (hturned : Turned words turned bitLen shift) :
    ((findSyncs turned bitLen).map (turn bitLen shift)).Perm (findSyncs words bitLen) := by
  have hlt : ∀ p ∈ findSyncs turned bitLen, p < bitLen :=
    fun p hp => ((FluxBridge.mem_findSyncs turned bitLen p).mp hp).1
  have hnodup : ((findSyncs turned bitLen).map (turn bitLen shift)).Nodup := by
    refine List.Nodup.map_on ?_ (nodup_findSyncs turned bitLen)
    intro p hp q hq heq
    exact turn_injective (hlt p hp) (hlt q hq) heq
  refine (List.perm_ext_iff_of_nodup hnodup (nodup_findSyncs words bitLen)).mpr fun q => ?_
  constructor
  · intro hq
    obtain ⟨p, hp, rfl⟩ := List.mem_map.mp hq
    exact (hturned.mem_findSyncs (hlt p hp)).mp hp
  · intro hq
    obtain ⟨p, hp, rfl⟩ :=
      exists_rotated q shift ((FluxBridge.mem_findSyncs words bitLen q).mp hq).1
    exact List.mem_map.mpr ⟨p, (hturned.mem_findSyncs hp).mpr hq, rfl⟩

/-- A sync of the turned ring is visited as the sync it turns to. -/
theorem Turned.scanSync (hturned : Turned words turned bitLen shift) (hlong : 64 ≤ bitLen)
    (tally : ScanTally) (sync : Nat) :
    FluxBridge.scanSync turned bitLen (findSyncs turned bitLen) tally sync =
      FluxBridge.scanSync words bitLen (findSyncs words bitLen) tally
        (turn bitLen shift sync) := by
  have hmem : ∀ position, position % bitLen ∈ findSyncs turned bitLen ↔
      turn bitLen shift (position % bitLen) ∈ findSyncs words bitLen :=
    fun position => hturned.mem_findSyncs (Nat.mod_lt _ (by omega))
  have hnext := hmem (sync + 16)
  have hprevious := hmem (sync + (bitLen - 16))
  unfold turn at hnext hprevious
  rw [add_mod_shift] at hnext hprevious
  rw [← Nat.add_sub_assoc (by omega), ← Nat.add_sub_assoc (by omega)] at hprevious
  rw [scanSync_eq, scanSync_eq, sectorAt_congr (hturned.bits sync) hnext hprevious]

/-- The tally of the turned ring, visited in any order, is that of the ring. -/
theorem Turned.foldl_scanSync (hturned : Turned words turned bitLen shift) (hlong : 64 ≤ bitLen)
    {order : List Nat} (horder : order.Perm (findSyncs turned bitLen)) (tally : ScanTally) :
    order.foldl (FluxBridge.scanSync turned bitLen (findSyncs turned bitLen)) tally =
      (findSyncs words bitLen).foldl
        (FluxBridge.scanSync words bitLen (findSyncs words bitLen)) tally := by
  have hturn : order.foldl (FluxBridge.scanSync turned bitLen (findSyncs turned bitLen)) tally =
      (order.map (turn bitLen shift)).foldl
        (FluxBridge.scanSync words bitLen (findSyncs words bitLen)) tally := by
    rw [List.foldl_map]
    congr 1
    funext tally sync
    exact hturned.scanSync hlong tally sync
  rw [hturn]
  exact scanRevolution_order ((horder.map _).trans hturned.findSyncs_perm) tally

end Ring

/-- The verdict on a ring whose syncs are visited in a given order. -/
def scanInOrder (words : List (BitVec 16)) (bitLen : Nat) (order : List Nat) : RevolutionScan :=
  scanVerdict bitLen (order.foldl (scanSync words bitLen (findSyncs words bitLen))
    ⟨0, List.replicate HD_SECTORS false⟩)

/--
**Rotation invariance.** Wherever a revolution is cut, the verdict is the same, whatever is behind
its last bit and in whatever order the syncs are visited.
-/
theorem scanRevolution_rotateRevolution (words : List (BitVec 16)) {bitLen : Nat}
    (hlong : 64 ≤ bitLen) (hfits : bitLen ≤ 16 * words.length) (startBit : Nat) :
    ∃ rotated, rotateRevolution words bitLen startBit = .ok rotated ∧
      scanRevolution rotated bitLen = scanRevolution words bitLen ∧
      ∀ order, order.Perm (findSyncs rotated bitLen) →
        scanInOrder rotated bitLen order = scanRevolution words bitLen := by
  have hsound : ¬ (bitLen = 0 ∨ words.length * 16 < bitLen) := by omega
  obtain ⟨rotated, hrotated⟩ : ∃ rotated, rotateRevolution words bitLen startBit = .ok rotated :=
    ⟨_, if_neg hsound⟩
  have hturned := bitAt_rotateRevolution hrotated
  have hlength := length_rotateRevolution hrotated
  have hwords : scanRevolution words bitLen =
      scanInOrder words bitLen (findSyncs words bitLen) := by
    refine if_neg ?_
    rintro (hshort | rfl | hwide)
    · omega
    · rw [List.length_nil] at hfits
      omega
    · omega
  have hrotatedScan : scanRevolution rotated bitLen =
      scanInOrder rotated bitLen (findSyncs rotated bitLen) := by
    refine if_neg ?_
    unfold wordCount at hlength
    rintro (hshort | rfl | hwide)
    · omega
    · rw [List.length_nil] at hlength
      omega
    · omega
  have hscan : ∀ order, order.Perm (findSyncs rotated bitLen) →
      scanInOrder rotated bitLen order = scanRevolution words bitLen := by
    intro order horder
    rw [hwords]
    unfold scanInOrder
    rw [hturned.foldl_scanSync hlong horder]
  exact ⟨rotated, hrotated, hrotatedScan.trans (hscan _ (.refl _)), hscan⟩

theorem scanRevolution_rotateRevolution_one :
    ∃ rotated, rotateRevolution [0x4489, 0x4489, 0xaaaa, 0x5555] 64 21 = .ok rotated ∧
      scanRevolution rotated 64 = scanRevolution [0x4489, 0x4489, 0xaaaa, 0x5555] 64 ∧
      ∀ order, order.Perm (findSyncs rotated 64) →
        scanInOrder rotated 64 order = scanRevolution [0x4489, 0x4489, 0xaaaa, 0x5555] 64 :=
  scanRevolution_rotateRevolution _ (by decide) (by decide) 21

end FluxBridge
