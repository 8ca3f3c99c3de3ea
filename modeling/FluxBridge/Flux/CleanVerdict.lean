import FluxBridge.Flux.SectorScan

/-!
# What a clean verdict says

`scan_revolution` counts the sectors that are intact somewhere on the ring, among the numbers that
a high-density track has. On a double-density ring the count may so be made up of numbers that
such a track does not have.

* `good_scanTally` — the sectors that are counted are the intact ones
* `clean_sound_iff` — when a clean verdict means a complete track
-/

namespace FluxBridge

/-! ## Intact sectors -/

/-- The info long behind a double sync. -/
def infoAt (words : List (BitVec 16)) (bitLen sync : Nat) : BitVec 32 :=
  deinterleave (longAt words bitLen (sync + 32)) (longAt words bitLen (sync + 64))

/-- A double sync begins at `sync`, with an intact sector of this number behind it. -/
structure IntactAt (words : List (BitVec 16)) (bitLen sync sector : Nat) : Prop where
  here : SyncAt (bitAt words bitLen) sync
  next : SyncAt (bitAt words bitLen) (sync + 16)
  first : ¬ SyncAt (bitAt words bitLen) (sync + bitLen - 16)
  format : (infoAt words bitLen sync).extractLsb' 24 8 = 0xff#8
  number : ((infoAt words bitLen sync).extractLsb' 8 8).toNat = sector
  header : xorLongs words bitLen (sync + 96) 8
      ((longAt words bitLen (sync + 32) &&& MASK) ^^^ (longAt words bitLen (sync + 64) &&& MASK)) =
    deinterleave (longAt words bitLen (sync + 352)) (longAt words bitLen (sync + 384))
  data : xorLongs words bitLen (sync + 480) 256 0 =
    deinterleave (longAt words bitLen (sync + 416)) (longAt words bitLen (sync + 448))

instance (bit : Nat → Bool) (position : Nat) : Decidable (SyncAt bit position) :=
  inferInstanceAs (Decidable (∀ i < 16, bit (position + i) = SYNC.getMsbD i))

instance (words : List (BitVec 16)) (bitLen sync sector : Nat) :
    Decidable (IntactAt words bitLen sync sector) :=
  decidable_of_iff
    (SyncAt (bitAt words bitLen) sync ∧ SyncAt (bitAt words bitLen) (sync + 16) ∧
      ¬ SyncAt (bitAt words bitLen) (sync + bitLen - 16) ∧
      (infoAt words bitLen sync).extractLsb' 24 8 = 0xff#8 ∧
      ((infoAt words bitLen sync).extractLsb' 8 8).toNat = sector ∧ _ ∧ _)
    ⟨fun ⟨h1, h2, h3, h4, h5, h6, h7⟩ => ⟨h1, h2, h3, h4, h5, h6, h7⟩,
      fun ⟨h1, h2, h3, h4, h5, h6, h7⟩ => ⟨h1, h2, h3, h4, h5, h6, h7⟩⟩

/-- A sector of this number is intact somewhere on the ring. -/
def Intact (words : List (BitVec 16)) (bitLen sector : Nat) : Prop :=
  ∃ sync < bitLen, IntactAt words bitLen sync sector

instance (words : List (BitVec 16)) (bitLen sector : Nat) :
    Decidable (Intact words bitLen sector) :=
  inferInstanceAs (Decidable (∃ sync < bitLen, IntactAt words bitLen sync sector))

/-- How many of the numbers up to 21 have an intact sector. -/
def intactCount (words : List (BitVec 16)) (bitLen : Nat) : Nat :=
  (List.range HD_SECTORS).countP fun sector => decide (Intact words bitLen sector)

/-! ## The tally -/

/-- What the visits of all syncs count. -/
def scanTally (words : List (BitVec 16)) (bitLen : Nat) : ScanTally :=
  (findSyncs words bitLen).foldl (scanSync words bitLen (findSyncs words bitLen))
    ⟨0, List.replicate HD_SECTORS false⟩

/-- A sector is counted towards completeness. -/
def Tallied (words : List (BitVec 16)) (bitLen sector : Nat) : Prop :=
  (scanTally words bitLen).good[sector]? = some true

section Ring

variable {words : List (BitVec 16)} {bitLen : Nat}

/-- A sync of the ring, at a position that may be beyond its end. -/
theorem mod_mem_findSyncs (hpos : 0 < bitLen) (position : Nat) :
    position % bitLen ∈ findSyncs words bitLen ↔ SyncAt (bitAt words bitLen) position := by
  rw [mem_findSyncs, syncAt_bitAt_mod]
  exact and_iff_right (Nat.mod_lt _ hpos)

/-- What a visit reads as good is an intact sector. -/
theorem sectorAt_eq_some {sync sector : Nat} (hsync : sync ∈ findSyncs words bitLen) :
    sectorAt words bitLen (findSyncs words bitLen) sync = some (sector, true) ↔
      sector < HD_SECTORS ∧ IntactAt words bitLen sync sector := by
  obtain ⟨hlt, hhere⟩ := (mem_findSyncs words bitLen sync).mp hsync
  have hpos : 0 < bitLen := by omega
  unfold sectorAt
  simp only [mod_mem_findSyncs hpos, Nat.add_assoc, Nat.reduceAdd]
  constructor
  · intro hfound
    split at hfound
    · cases hfound
    · next hdouble =>
      rw [not_or, not_not] at hdouble
      split at hfound
      · cases hfound
      · next hheader =>
        rw [not_or, not_not] at hheader
        split at hfound
        · cases hfound
        · next hchecksum =>
          rw [Option.some.injEq, Prod.mk.injEq, decide_eq_true_iff] at hfound
          obtain ⟨hnumber, hdata⟩ := hfound
          refine ⟨?_, hhere, hdouble.1, hdouble.2, hheader.1, hnumber, not_not.mp hchecksum, hdata⟩
          rw [← hnumber]
          exact not_le.mp hheader.2
  · rintro ⟨hsector, hintact⟩
    have hnumber := hintact.number
    unfold infoAt at hnumber
    rw [if_neg (by
        rintro (hnext | hprevious)
        · exact hnext hintact.next
        · exact hintact.first hprevious),
      if_neg (by
        rintro (hformat | hrange)
        · exact hformat hintact.format
        · rw [hnumber] at hrange
          omega),
      if_neg (not_not.mpr hintact.header), hnumber, decide_eq_true hintact.data]

theorem read_iff_intact (sector : Nat) :
    (∃ sync ∈ findSyncs words bitLen,
      sectorAt words bitLen (findSyncs words bitLen) sync = some (sector, true)) ↔
    sector < HD_SECTORS ∧ Intact words bitLen sector := by
  constructor
  · rintro ⟨sync, hsync, hfound⟩
    obtain ⟨hsector, hintact⟩ := (sectorAt_eq_some hsync).mp hfound
    exact ⟨hsector, sync, ((mem_findSyncs words bitLen sync).mp hsync).1, hintact⟩
  · rintro ⟨hsector, sync, hlt, hintact⟩
    have hsync := (mem_findSyncs words bitLen sync).mpr ⟨hlt, hintact.here⟩
    exact ⟨sync, hsync, (sectorAt_eq_some hsync).mpr ⟨hsector, hintact⟩⟩

/-- **The count.** The sectors that are counted are the intact ones with a number up to 21. -/
theorem good_scanTally : (scanTally words bitLen).good =
    (List.range HD_SECTORS).map fun sector => decide (Intact words bitLen sector) := by
  refine good_eq_map fun sector hsector => ?_
  rw [read_iff_intact, decide_eq_true_iff]
  exact and_iff_right hsector

theorem tallied_iff (sector : Nat) :
    Tallied words bitLen sector ↔ sector < HD_SECTORS ∧ Intact words bitLen sector := by
  unfold Tallied
  rw [good_scanTally, List.getElem?_map]
  rcases Nat.lt_or_ge sector HD_SECTORS with hlt | hge
  · simp [hlt]
  · simp [not_lt.mpr hge]

end Ring

/-! ## The verdict -/

/-- The sectors of a track of this length. -/
def expectedSectors (bitLen : Nat) : Nat :=
  if HD_BIT_THRESHOLD < bitLen then HD_SECTORS else DD_SECTORS

/-- When a ring is found clean. -/
theorem scanRevolution_clean_iff {words : List (BitVec 16)} {bitLen n : Nat} :
    scanRevolution words bitLen = .cleanAmigaDos n ↔
      (64 ≤ bitLen ∧ bitLen ≤ words.length * 16) ∧ n = expectedSectors bitLen ∧
        intactCount words bitLen = n := by
  have hcount : (scanTally words bitLen).good.countP id = intactCount words bitLen := by
    rw [good_scanTally, List.countP_map]
    rfl
  by_cases hfits : 64 ≤ bitLen ∧ bitLen ≤ words.length * 16
  · have hnonempty : words ≠ [] := by
      rintro rfl
      rw [List.length_nil] at hfits
      omega
    have hscan : scanRevolution words bitLen =
        scanVerdict bitLen (scanTally words bitLen) := by
      refine if_neg ?_
      rintro (hshort | hempty | hwide)
      · omega
      · exact hnonempty hempty
      · omega
    have hverdict : scanVerdict bitLen (scanTally words bitLen) =
        if intactCount words bitLen = expectedSectors bitLen then
          .cleanAmigaDos (expectedSectors bitLen)
        else if expectedSectors bitLen ≤ (scanTally words bitLen).headersValid + 1 then
          .damagedAmigaDos (intactCount words bitLen) (expectedSectors bitLen)
        else .unrecognised := by
      rw [← hcount]
      rfl
    rw [hscan, hverdict]
    simp only [hfits, true_and]
    split
    · next hall =>
      rw [RevolutionScan.cleanAmigaDos.injEq, hall]
      exact ⟨fun h => ⟨h.symm, h⟩, fun h => h.2⟩
    · next hnot =>
      have hnever : ¬ (n = expectedSectors bitLen ∧ intactCount words bitLen = n) := by
        rintro ⟨rfl, hall⟩
        exact hnot hall
      split <;> simp [hnever]
  · have hscan : scanRevolution words bitLen = .unrecognised := by
      refine if_pos ?_
      rcases Nat.lt_or_ge bitLen 64 with hshort | hlong
      · exact .inl hshort
      · exact .inr (.inr (by omega))
    rw [hscan]
    simp [hfits]

/-- What a clean verdict should mean: every sector of the track is intact, and no number that is
not one of the track was counted. -/
def Complete (words : List (BitVec 16)) (bitLen sectors : Nat) : Prop :=
  (∀ sector < sectors, Intact words bitLen sector) ∧
    ∀ sector, sectors ≤ sector → ¬ Tallied words bitLen sector

/-- Eleven numbers are intact on a double-density ring, and not all are those of its track. -/
def Stray (words : List (BitVec 16)) (bitLen : Nat) : Prop :=
  (64 ≤ bitLen ∧ bitLen ≤ words.length * 16) ∧ bitLen ≤ HD_BIT_THRESHOLD ∧
    intactCount words bitLen = DD_SECTORS ∧
    ∃ sector < HD_SECTORS, DD_SECTORS ≤ sector ∧ Intact words bitLen sector

/-- All of the high-density numbers are intact when as many are. -/
theorem complete_of_all {words : List (BitVec 16)} {bitLen : Nat}
    (hall : intactCount words bitLen = HD_SECTORS) : Complete words bitLen HD_SECTORS := by
  have hlength : intactCount words bitLen = (List.range HD_SECTORS).length := by
    rw [hall, List.length_range]
  constructor
  · intro sector hlt
    have hmem := List.countP_eq_length.mp hlength sector (List.mem_range.mpr hlt)
    exact of_decide_eq_true hmem
  · intro sector hge htallied
    exact absurd ((tallied_iff sector).mp htallied).1 (not_lt.mpr hge)

/-- All of the double-density numbers are intact when as many are, and no higher one. -/
theorem complete_of_low {words : List (BitVec 16)} {bitLen : Nat}
    (hcount : intactCount words bitLen = DD_SECTORS)
    (hlow : ∀ sector < HD_SECTORS, DD_SECTORS ≤ sector → ¬ Intact words bitLen sector) :
    Complete words bitLen DD_SECTORS := by
  have hsplit : List.range HD_SECTORS =
      List.range DD_SECTORS ++ (List.range 11).map (DD_SECTORS + ·) := by decide
  have hhigh : ((List.range 11).map (DD_SECTORS + ·)).countP
      (fun sector => decide (Intact words bitLen sector)) = 0 := by
    rw [List.countP_eq_zero]
    intro sector hmem
    obtain ⟨i, hi, rfl⟩ := List.mem_map.mp hmem
    have hlt : DD_SECTORS + i < HD_SECTORS := Nat.add_lt_add_left (List.mem_range.mp hi) 11
    simpa using hlow _ hlt (Nat.le_add_right _ _)
  have hlength : (List.range DD_SECTORS).countP (fun sector =>
      decide (Intact words bitLen sector)) = (List.range DD_SECTORS).length := by
    have hsum := hcount
    unfold intactCount at hsum
    rw [hsplit, List.countP_append, hhigh] at hsum
    rw [List.length_range]
    exact hsum
  constructor
  · intro sector hlt
    have hmem := List.countP_eq_length.mp hlength sector (List.mem_range.mpr hlt)
    exact of_decide_eq_true hmem
  · intro sector hge htallied
    obtain ⟨hlt, hintact⟩ := (tallied_iff sector).mp htallied
    exact hlow sector hlt hge hintact

/--
**Clean verdicts.** A clean verdict means a complete track, unless the ring is a double-density one
with exactly eleven intact numbers of which one is 11 or more.
-/
theorem clean_sound_iff (words : List (BitVec 16)) (bitLen : Nat) :
    (∀ n, scanRevolution words bitLen = .cleanAmigaDos n → Complete words bitLen n) ↔
      ¬ Stray words bitLen := by
  constructor
  · rintro hsound ⟨hfits, hdd, hcount, sector, hlt, hge, hintact⟩
    have hexpected : expectedSectors bitLen = DD_SECTORS := if_neg (not_lt.mpr hdd)
    have hclean : scanRevolution words bitLen = .cleanAmigaDos DD_SECTORS :=
      scanRevolution_clean_iff.mpr ⟨hfits, hexpected.symm, hcount⟩
    exact (hsound _ hclean).2 sector hge ((tallied_iff sector).mpr ⟨hlt, hintact⟩)
  · intro hstray n hclean
    obtain ⟨hfits, hn, hcount⟩ := scanRevolution_clean_iff.mp hclean
    unfold expectedSectors at hn
    split at hn
    · subst hn
      exact complete_of_all hcount
    · next hdd =>
      subst hn
      refine complete_of_low hcount fun sector hlt hge hintact => ?_
      exact hstray ⟨hfits, not_lt.mp hdd, hcount, sector, hlt, hge, hintact⟩

/-- A sector of zeros with a number that a double-density track does not have. -/
def straySector : EncodedSector where
  track := 40
  sector := 15
  toGap := 1
  infoOdd := (0xff280f01#32 >>> 1) &&& MASK
  infoEven := 0xff280f01#32 &&& MASK
  label := List.replicate 8 0
  headerOdd := 0
  headerEven := ((0xff280f01#32 >>> 1) &&& MASK) ^^^ (0xff280f01#32 &&& MASK)
  dataOdd := 0
  dataEven := 0
  data := List.replicate 256 0
  label_length := length_blankLabel
  data_length := length_blankData
  info := by decide
  header := by decide
  checksum := checksum_blankData

/-- A track with the sectors 0 to 9 and one numbered 15. -/
def straySectors : List EncodedSector :=
  straySector :: (List.finRange 10).map fun number => emptySector (number.castLE (by decide))

theorem straySectors_unmarked : ∀ sector ∈ straySectors, Unmarked sector := by
  intro sector hsector
  rcases List.mem_cons.mp hsector with rfl | hsector
  · exact ⟨by decide +kernel, rfl⟩
  · obtain ⟨number, _, rfl⟩ := List.mem_map.mp hsector
    exact emptySector_unmarked _

/-- The numbers that are intact on a packed track of unmarked sectors. -/
theorem intact_gapless {sectors : List EncodedSector}
    (hunmarked : ∀ sector ∈ sectors, Unmarked sector)
    (hnumbers : ∀ number ∈ sectors.map fun sector => sector.sector.toNat, number < HD_SECTORS)
    {number : Nat} (hlt : number < HD_SECTORS) :
    Intact (packBits ((trackBits (gapless sectors)).rotate 0)) (SECTOR_BITS * sectors.length)
      number ↔ number ∈ sectors.map fun sector => sector.sector.toNat := by
  have hparts : (gapless sectors).map (fun part => part.2.sector.toNat) =
      sectors.map fun sector => sector.sector.toNat := by
    unfold gapless
    rw [List.map_map]
    rfl
  have hread := (holdsRotated_packBits (gapless sectors) 0).read_iff (gapless_marks hunmarked)
    (by rw [hparts]; exact hnumbers) number
  rw [read_iff_intact, hparts, length_gapless] at hread
  rw [← hread]
  exact (and_iff_right hlt).symm

/-- A double-density ring with the sectors 0 to 9 and 15 is found clean. -/
theorem clean_without_sector_ten :
    scanRevolution (packBits ((trackBits (gapless straySectors)).rotate 0)) (SECTOR_BITS * 11) =
        .cleanAmigaDos 11 ∧
      ¬ Complete (packBits ((trackBits (gapless straySectors)).rotate 0)) (SECTOR_BITS * 11)
          11 := by
  have hnumbers : ∀ number ∈ straySectors.map fun sector => sector.sector.toNat,
      number < HD_SECTORS := by decide
  have hintact := fun number (hlt : number < HD_SECTORS) =>
    intact_gapless straySectors_unmarked hnumbers hlt
  rw [show straySectors.length = 11 from rfl] at hintact
  have hcount : intactCount (packBits ((trackBits (gapless straySectors)).rotate 0))
      (SECTOR_BITS * 11) = 11 := by
    have hsame : intactCount (packBits ((trackBits (gapless straySectors)).rotate 0))
        (SECTOR_BITS * 11) = (List.range HD_SECTORS).countP fun number =>
          decide (number ∈ straySectors.map fun sector => sector.sector.toNat) := by
      unfold intactCount
      refine List.countP_congr fun number hmem => ?_
      rw [decide_eq_true_iff, decide_eq_true_iff, hintact number (List.mem_range.mp hmem)]
    rw [hsame]
    decide
  have hfits : 64 ≤ SECTOR_BITS * 11 ∧ SECTOR_BITS * 11 ≤
      (packBits ((trackBits (gapless straySectors)).rotate 0)).length * 16 := by
    have hroom := (holdsRotated_packBits (gapless straySectors) 0).room
    rw [length_gapless, show straySectors.length = 11 from rfl] at hroom
    exact ⟨by decide, hroom⟩
  constructor
  · exact scanRevolution_clean_iff.mpr ⟨hfits, by decide, hcount⟩
  · rintro ⟨hall, _⟩
    exact absurd ((hintact 10 (by decide)).mp (hall 10 (by decide))) (by decide)

end FluxBridge
