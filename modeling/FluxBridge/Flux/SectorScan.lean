import Mathlib.Data.List.GetD
import Mathlib.Data.List.Rotate
import FluxBridge.Flux.SyncWindow

/-!
# Encoding and scanning an AmigaDOS track

A track is a ring of sectors with arbitrary bits between them. The encoder is described by what it
lays down, clock bits included, and `scan_revolution` finds every sector of it again.

* `scanRevolution_clean` — a whole track is clean, wherever the ring is cut
* `scanRevolution_elevenSectors` — a track of empty sectors
-/

namespace FluxBridge

/-- The exclusive or of the data bits of some longs. -/
def maskedXor (longs : List (BitVec 32)) : BitVec 32 :=
  longs.foldl (fun checksum long => checksum ^^^ (long &&& MASK)) 0

/-- The bits of a long, the most significant first. -/
def longBits (long : BitVec 32) : List Bool := (List.range 32).map long.getMsbD

/-- An encoded sector; the clock bits of its longs are arbitrary. -/
structure EncodedSector where
  track : BitVec 8
  sector : BitVec 8
  toGap : BitVec 8
  infoOdd : BitVec 32
  infoEven : BitVec 32
  label : List (BitVec 32)
  headerOdd : BitVec 32
  headerEven : BitVec 32
  dataOdd : BitVec 32
  dataEven : BitVec 32
  data : List (BitVec 32)
  label_length : label.length = 8
  data_length : data.length = 256
  info : deinterleave infoOdd infoEven = 0xff#8 ++ track ++ sector ++ toGap
  header : deinterleave headerOdd headerEven = maskedXor (infoOdd :: infoEven :: label)
  checksum : deinterleave dataOdd dataEven = maskedXor data

namespace EncodedSector

/-- The longs of a sector, the double sync in front. -/
def longs (self : EncodedSector) : List (BitVec 32) :=
  0x44894489#32 :: self.infoOdd :: self.infoEven ::
    (self.label ++ self.headerOdd :: self.headerEven :: self.dataOdd :: self.dataEven :: self.data)

def bits (self : EncodedSector) : List Bool := self.longs.flatMap longBits

end EncodedSector

/-- The bits of a sector. -/
def SECTOR_BITS : Nat := 271 * 32

/-- The bits of a track, each sector behind its gap. -/
def trackBits (track : List (List Bool × EncodedSector)) : List Bool :=
  track.flatMap fun part => part.1 ++ part.2.bits

/-- The sector that begins at a position of the track. -/
inductive LaidAt : List (List Bool × EncodedSector) → Nat → EncodedSector → Prop
  | here (gap : List Bool) (sector : EncodedSector) (rest : List (List Bool × EncodedSector)) :
    LaidAt ((gap, sector) :: rest) gap.length sector
  | there (gap : List Bool) (other : EncodedSector) {rest : List (List Bool × EncodedSector)}
    {start : Nat} {sector : EncodedSector} (h : LaidAt rest start sector) :
    LaidAt ((gap, other) :: rest) (gap.length + SECTOR_BITS + start) sector

/-- Bit `position` of a ring of bits. -/
def cyclic (bits : List Bool) (position : Nat) : Bool := bits.getD (position % bits.length) false

/-- The sync word occurs at the beginning of the sectors and nowhere else. -/
def SyncsMarkSectors (track : List (List Bool × EncodedSector)) : Prop :=
  ∀ position < (trackBits track).length, SyncAt (cyclic (trackBits track)) position →
    ∃ start sector, LaidAt track start sector ∧ (position = start ∨ position = start + 16)

/-! ## The layout of a sector -/

/-- A bit of a sequence of longs. -/
theorem getD_longBits (longs : List (BitVec 32)) (i : Nat) {j : Nat} (hj : j < 32) :
    (longs.flatMap longBits).getD (32 * i + j) false = (longs.getD i 0).getMsbD j := by
  induction longs generalizing i with
  | nil => simp
  | cons long longs ih =>
    have hlength : (longBits long).length = 32 := by simp [longBits]
    rw [List.flatMap_cons]
    cases i with
    | zero =>
      rw [List.getD_append _ _ _ _ (by omega), List.getD_cons_zero]
      simp [longBits, hj]
    | succ i =>
      rw [List.getD_append_right _ _ _ _ (by omega), List.getD_cons_succ, ← ih]
      congr 1
      omega

theorem length_flatMap_longBits (longs : List (BitVec 32)) :
    (longs.flatMap longBits).length = longs.length * 32 := by
  induction longs with
  | nil => rfl
  | cons long longs ih =>
    rw [List.flatMap_cons, List.length_append, ih, List.length_cons]
    simp [longBits]
    omega

namespace EncodedSector

variable (self : EncodedSector)

theorem length_bits : self.bits.length = SECTOR_BITS := by
  unfold bits
  rw [length_flatMap_longBits]
  simp [longs, self.label_length, self.data_length, SECTOR_BITS]

theorem longs_label {i : Nat} (hi : i < 8) : self.longs.getD (3 + i) 0 = self.label.getD i 0 := by
  unfold longs
  rw [show 3 + i = i + 1 + 1 + 1 by omega, List.getD_cons_succ, List.getD_cons_succ,
    List.getD_cons_succ, List.getD_append _ _ _ _ (by rw [self.label_length]; omega)]

/-- The longs behind the label. -/
theorem longs_behind (i : Nat) : self.longs.getD (11 + i) 0 =
    (self.headerOdd :: self.headerEven :: self.dataOdd :: self.dataEven :: self.data).getD i 0 := by
  unfold longs
  rw [show 11 + i = i + 8 + 1 + 1 + 1 by omega, List.getD_cons_succ, List.getD_cons_succ,
    List.getD_cons_succ, List.getD_append_right _ _ _ _ (by rw [self.label_length]; omega),
    self.label_length, Nat.add_sub_cancel]

/-- The double sync. -/
theorem sync_bits {i : Nat} (hi : i < 32) :
    self.bits.getD i false = (0x44894489#32).getMsbD i := by
  have hbit := getD_longBits self.longs 0 hi
  rwa [Nat.mul_zero, Nat.zero_add] at hbit

end EncodedSector

/-- A sector lies in the track as it is. -/
theorem LaidAt.bits {track : List (List Bool × EncodedSector)} {start : Nat}
    {sector : EncodedSector} (h : LaidAt track start sector) :
    start + SECTOR_BITS ≤ (trackBits track).length ∧
      ∀ i < SECTOR_BITS, (trackBits track).getD (start + i) false = sector.bits.getD i false := by
  induction h with
  | here gap sector rest =>
    rw [show trackBits ((gap, sector) :: rest) = gap ++ (sector.bits ++ trackBits rest) by
      simp [trackBits]]
    constructor
    · rw [List.length_append, List.length_append, sector.length_bits]
      omega
    · intro i hi
      rw [List.getD_append_right _ _ _ _ (by omega), Nat.add_sub_cancel_left,
        List.getD_append _ _ _ _ (by rw [sector.length_bits]; omega)]
  | there gap other h ih =>
    next rest start sector =>
    obtain ⟨hroom, hbits⟩ := ih
    rw [show trackBits ((gap, other) :: rest) = (gap ++ other.bits) ++ trackBits rest by
      simp [trackBits]]
    have hlength : (gap ++ other.bits).length = gap.length + SECTOR_BITS := by
      rw [List.length_append, other.length_bits]
    constructor
    · rw [List.length_append, hlength]
      omega
    · intro i hi
      rw [List.getD_append_right _ _ _ _ (by omega), hlength,
        show gap.length + SECTOR_BITS + start + i - (gap.length + SECTOR_BITS) = start + i by omega,
        hbits i hi]

/-- Two sectors do not overlap. -/
theorem LaidAt.apart {track : List (List Bool × EncodedSector)} {start other : Nat}
    {sector neighbour : EncodedSector} (h : LaidAt track start sector)
    (hother : LaidAt track other neighbour) :
    other = start ∨ other + SECTOR_BITS ≤ start ∨ start + SECTOR_BITS ≤ other := by
  induction h generalizing other with
  | here gap sector rest =>
    cases hother with
    | here => exact Or.inl rfl
    | there _ _ h => omega
  | there gap sector h ih =>
    cases hother with
    | here => omega
    | there _ _ hother =>
      have hcases := ih hother
      omega

/-! ## The ring -/

/-- Packed words that hold a rotated track. -/
structure HoldsRotated (words : List (BitVec 16)) (track : List (List Bool × EncodedSector))
    (k : Nat) : Prop where
  room : (trackBits track).length ≤ words.length * 16
  bits : ∀ p < (trackBits track).length,
    wordBit words p = ((trackBits track).rotate k).getD p false

section Ring

variable {words : List (BitVec 16)} {track : List (List Bool × EncodedSector)} {k : Nat}

/-- The ring is read as the track, `k` bits on. -/
theorem HoldsRotated.bitAt (h : HoldsRotated words track k) (hpos : 0 < (trackBits track).length)
    (p : Nat) :
    bitAt words (trackBits track).length p = cyclic (trackBits track) (p + k) := by
  have hlt := Nat.mod_lt p hpos
  unfold FluxBridge.bitAt cyclic
  rw [h.bits _ hlt, List.getD_eq_getElem?_getD, List.getElem?_rotate hlt, Nat.mod_add_mod,
    List.getD_eq_getElem?_getD]

theorem cyclic_mod (bits : List Bool) (p i : Nat) :
    cyclic bits (p % bits.length + i) = cyclic bits (p + i) := by
  unfold cyclic
  rw [Nat.mod_add_mod]

theorem syncAt_mod (bits : List Bool) (p : Nat) :
    SyncAt (cyclic bits) (p % bits.length) ↔ SyncAt (cyclic bits) p := by
  unfold SyncAt
  simp only [cyclic_mod]

/-- The positions that are found are those of the track's syncs, turned. -/
theorem HoldsRotated.mem_findSyncs (h : HoldsRotated words track k)
    (hpos : 0 < (trackBits track).length) (p : Nat) :
    p ∈ findSyncs words (trackBits track).length ↔ p < (trackBits track).length ∧
      SyncAt (cyclic (trackBits track)) ((p + k) % (trackBits track).length) := by
  have hbits : SyncAt (FluxBridge.bitAt words (trackBits track).length) p ↔
      SyncAt (cyclic (trackBits track)) (p + k) := by
    unfold SyncAt
    simp only [h.bitAt hpos, Nat.add_right_comm]
  rw [FluxBridge.mem_findSyncs, hbits, syncAt_mod]

/-- A sector is read at its place. -/
theorem HoldsRotated.sectorBit (h : HoldsRotated words track k) {p start : Nat}
    {sector : EncodedSector} (hplaced : LaidAt track start sector)
    (hp : (p + k) % (trackBits track).length = start) {i : Nat} (hi : i < SECTOR_BITS) :
    FluxBridge.bitAt words (trackBits track).length (p + i) = sector.bits.getD i false := by
  obtain ⟨hroom, hbits⟩ := hplaced.bits
  rw [h.bitAt (by omega), Nat.add_right_comm, ← cyclic_mod, hp]
  unfold cyclic
  rw [Nat.mod_eq_of_lt (by omega), hbits i hi]

theorem HoldsRotated.longAt (h : HoldsRotated words track k) {p start : Nat}
    {sector : EncodedSector} (hplaced : LaidAt track start sector)
    (hp : (p + k) % (trackBits track).length = start) {i : Nat} (hi : i < 271) :
    FluxBridge.longAt words (trackBits track).length (p + 32 * i) = sector.longs.getD i 0 := by
  rw [longAt_eq_shiftIn]
  refine shiftIn_eq fun j hj => ?_
  rw [Nat.add_assoc, h.sectorBit hplaced hp (by unfold SECTOR_BITS; omega)]
  exact getD_longBits sector.longs i hj

/-- The exclusive or over a part of a sector. -/
theorem HoldsRotated.xorLongs (h : HoldsRotated words track k) {p start : Nat}
    {sector : EncodedSector} (hplaced : LaidAt track start sector)
    (hp : (p + k) % (trackBits track).length = start) (longs : List (BitVec 32)) (offset : Nat)
    (hroom : offset + longs.length ≤ 271)
    (hlongs : ∀ i < longs.length, sector.longs.getD (offset + i) 0 = longs.getD i 0)
    (value : BitVec 32) :
    FluxBridge.xorLongs words (trackBits track).length (p + 32 * offset) longs.length value =
      longs.foldl (fun checksum long => checksum ^^^ (long &&& MASK)) value := by
  have hread : (List.range longs.length).map (fun i =>
      FluxBridge.longAt words (trackBits track).length (p + 32 * offset + i * 32)) = longs := by
    refine List.ext_getElem (by simp) fun i hi _ => ?_
    have hlt : i < longs.length := by simpa using hi
    rw [List.getElem_map, List.getElem_range,
      show p + 32 * offset + i * 32 = p + 32 * (offset + i) by omega,
      h.longAt hplaced hp (by omega), hlongs i hlt, List.getD_eq_getElem?_getD,
      List.getElem?_eq_getElem hlt, Option.getD_some]
  unfold FluxBridge.xorLongs
  conv => rhs; rw [← hread]
  rw [List.foldl_map]

/-- The checksums that stand behind the label. -/
theorem HoldsRotated.checksumAt (h : HoldsRotated words track k) {p start : Nat}
    {sector : EncodedSector} (hplaced : LaidAt track start sector)
    (hp : (p + k) % (trackBits track).length = start) {i : Nat} (hi : i < 4) :
    FluxBridge.longAt words (trackBits track).length (p + 32 + 320 + 32 * i) =
      [sector.headerOdd, sector.headerEven, sector.dataOdd, sector.dataEven].getD i 0 := by
  rw [show p + 32 + 320 + 32 * i = p + 32 * (11 + i) by omega,
    h.longAt hplaced hp (by omega), sector.longs_behind i]
  rcases i with _ | _ | _ | _ | i
  · rfl
  · rfl
  · rfl
  · rfl
  · omega

/-- The header checksum covers the info long and the label. -/
theorem HoldsRotated.headerXor (h : HoldsRotated words track k) {p start : Nat}
    {sector : EncodedSector} (hplaced : LaidAt track start sector)
    (hp : (p + k) % (trackBits track).length = start) :
    FluxBridge.xorLongs words (trackBits track).length (p + 32 + 64) 8
      ((sector.infoOdd &&& MASK) ^^^ (sector.infoEven &&& MASK)) =
      deinterleave sector.headerOdd sector.headerEven := by
  have hlabel := h.xorLongs hplaced hp sector.label 3 (by rw [sector.label_length]; omega)
    (fun i hi => sector.longs_label (by rw [← sector.label_length]; exact hi))
    ((sector.infoOdd &&& MASK) ^^^ (sector.infoEven &&& MASK))
  rw [sector.label_length] at hlabel
  rw [sector.header]
  refine hlabel.trans ?_
  unfold maskedXor
  rw [List.foldl_cons, List.foldl_cons,
    show 0 ^^^ (sector.infoOdd &&& MASK) = sector.infoOdd &&& MASK from BitVec.zero_xor]

/-- The data checksum covers the data. -/
theorem HoldsRotated.dataXor (h : HoldsRotated words track k) {p start : Nat}
    {sector : EncodedSector} (hplaced : LaidAt track start sector)
    (hp : (p + k) % (trackBits track).length = start) :
    FluxBridge.xorLongs words (trackBits track).length (p + 32 + 448) 256 0 =
      deinterleave sector.dataOdd sector.dataEven := by
  have hdata := h.xorLongs hplaced hp sector.data 15 (by rw [sector.data_length])
    (fun i _ => by
      rw [show 15 + i = 11 + (i + 1 + 1 + 1 + 1) by omega, sector.longs_behind]
      rfl)
    0
  rw [sector.data_length] at hdata
  rw [sector.checksum]
  exact hdata

/-! ## The visit of a sync -/

/-- The first byte of an info long is the format. -/
theorem info_format (track sector toGap : Byte) :
    (0xff#8 ++ track ++ sector ++ toGap).extractLsb' 24 8 = 0xff#8 := by
  rw [BitVec.extractLsb'_append_eq_of_le (by omega),
    BitVec.extractLsb'_append_eq_of_le (by omega),
    BitVec.extractLsb'_append_eq_of_le (by omega)]
  exact BitVec.extractLsb'_eq_self

/-- The third byte of an info long is the number of the sector. -/
theorem info_sector (track sector toGap : Byte) :
    (0xff#8 ++ track ++ sector ++ toGap).extractLsb' 8 8 = sector := by
  rw [BitVec.extractLsb'_append_eq_of_le (by omega),
    BitVec.extractLsb'_append_eq_of_add_le (by omega)]
  exact BitVec.extractLsb'_eq_self

/-- The first sync of a sector: its header and its data are valid. -/
theorem HoldsRotated.sectorAt_first (h : HoldsRotated words track k) {p start : Nat}
    {sector : EncodedSector} (hplaced : LaidAt track start sector)
    (hp : (p + k) % (trackBits track).length = start) (hsector : sector.sector.toNat < HD_SECTORS)
    {syncs : List Nat} (hnext : (p + 16) % (trackBits track).length ∈ syncs)
    (hprevious : ¬ (p + (trackBits track).length - 16) % (trackBits track).length ∈ syncs) :
    sectorAt words (trackBits track).length syncs p = some (sector.sector.toNat, true) := by
  -- what the scan reads behind the sync, long by long, is what the sector holds there
  have hodd : FluxBridge.longAt words (trackBits track).length (p + 32) = sector.infoOdd :=
    h.longAt (i := 1) hplaced hp (by omega)
  have heven : FluxBridge.longAt words (trackBits track).length (p + 32 + 32) = sector.infoEven :=
    h.longAt (i := 2) hplaced hp (by omega)
  have hheaderOdd : FluxBridge.longAt words (trackBits track).length (p + 32 + 320) =
      sector.headerOdd := h.checksumAt (i := 0) hplaced hp (by omega)
  have hheaderEven : FluxBridge.longAt words (trackBits track).length (p + 32 + 352) =
      sector.headerEven := h.checksumAt (i := 1) hplaced hp (by omega)
  have hdataOdd : FluxBridge.longAt words (trackBits track).length (p + 32 + 384) =
      sector.dataOdd := h.checksumAt (i := 2) hplaced hp (by omega)
  have hdataEven : FluxBridge.longAt words (trackBits track).length (p + 32 + 416) =
      sector.dataEven := h.checksumAt (i := 3) hplaced hp (by omega)
  unfold sectorAt
  dsimp only
  rw [if_neg (by simp [hnext, hprevious]), hodd, heven, sector.info, info_format, info_sector,
    h.headerXor hplaced hp, h.dataXor hplaced hp, hheaderOdd, hheaderEven, hdataOdd, hdataEven,
    if_neg (by simp; omega), if_neg (by simp), decide_eq_true rfl]

/-- A sync position of the ring is the first or the second of a sector. -/
theorem HoldsRotated.sync_cases (h : HoldsRotated words track k) (hmarks : SyncsMarkSectors track)
    (hpos : 0 < (trackBits track).length) {p : Nat}
    (hp : p ∈ findSyncs words (trackBits track).length) :
    ∃ start sector, LaidAt track start sector ∧ ((p + k) % (trackBits track).length = start ∨
      (p + k) % (trackBits track).length = start + 16) := by
  obtain ⟨-, hsync⟩ := (h.mem_findSyncs hpos p).mp hp
  exact hmarks _ (Nat.mod_lt _ hpos) hsync

/-- Both halves of the double sync are found. -/
theorem LaidAt.syncAt {start : Nat} {sector : EncodedSector} (hplaced : LaidAt track start sector) :
    SyncAt (cyclic (trackBits track)) start ∧ SyncAt (cyclic (trackBits track)) (start + 16) := by
  obtain ⟨hroom, hbits⟩ := hplaced.bits
  have hbit : ∀ i < 32, cyclic (trackBits track) (start + i) = (0x44894489#32).getMsbD i := by
    intro i hi
    have hlt : i < SECTOR_BITS := Nat.lt_trans hi (by decide)
    unfold cyclic
    rw [Nat.mod_eq_of_lt (by omega), hbits i hlt, sector.sync_bits hi]
  have hhalves : ∀ i < 16, (0x44894489#32).getMsbD i = SYNC.getMsbD i ∧
      (0x44894489#32).getMsbD (16 + i) = SYNC.getMsbD i := by decide
  constructor
  · intro i hi
    rw [hbit i (by omega), (hhalves i hi).1]
  · intro i hi
    rw [Nat.add_assoc, hbit _ (by omega), (hhalves i hi).2]

theorem sixteen_back {p length : Nat} (h : 16 ≤ length) :
    (p + length - 16) % length = (p + (length - 16)) % length := by
  rw [Nat.add_sub_assoc h]

/-- The first sync of a sector is followed by a sync and not preceded by one. -/
theorem HoldsRotated.first_neighbours (h : HoldsRotated words track k)
    (hmarks : SyncsMarkSectors track) {p start : Nat} {sector : EncodedSector}
    (hplaced : LaidAt track start sector) (hp : (p + k) % (trackBits track).length = start) :
    (p + 16) % (trackBits track).length ∈ findSyncs words (trackBits track).length ∧
      ¬ (p + (trackBits track).length - 16) % (trackBits track).length ∈
        findSyncs words (trackBits track).length := by
  obtain ⟨hroom, -⟩ := hplaced.bits
  have hlarge : 8672 ≤ SECTOR_BITS := by decide
  have hpos : 0 < (trackBits track).length := by omega
  constructor
  · refine (h.mem_findSyncs hpos _).mpr ⟨Nat.mod_lt _ hpos, ?_⟩
    rw [add_mod_shift, hp, syncAt_mod]
    exact hplaced.syncAt.2
  · intro hprevious
    rw [sixteen_back (by omega)] at hprevious
    obtain ⟨other, neighbour, hneighbour, hother⟩ := h.sync_cases hmarks hpos hprevious
    rw [add_mod_shift, hp] at hother
    obtain ⟨hend, -⟩ := hneighbour.bits
    have hapart := hplaced.apart hneighbour
    rcases Nat.lt_or_ge start 16 with hlow | hhigh
    · rw [Nat.mod_eq_of_lt (by omega)] at hother
      omega
    · rw [show start + ((trackBits track).length - 16) =
        start - 16 + (trackBits track).length by omega, Nat.add_mod_right,
        Nat.mod_eq_of_lt (by omega)] at hother
      omega

/-- The second sync of a sector is passed over. -/
theorem HoldsRotated.sectorAt_second (h : HoldsRotated words track k) {p start : Nat}
    {sector : EncodedSector} (hplaced : LaidAt track start sector)
    (hp : (p + k) % (trackBits track).length = start + 16) :
    sectorAt words (trackBits track).length (findSyncs words (trackBits track).length) p =
      none := by
  obtain ⟨hroom, -⟩ := hplaced.bits
  have hlarge : 8672 ≤ SECTOR_BITS := by decide
  have hpos : 0 < (trackBits track).length := by omega
  have hprevious : (p + (trackBits track).length - 16) % (trackBits track).length ∈
      findSyncs words (trackBits track).length := by
    refine (h.mem_findSyncs hpos _).mpr ⟨Nat.mod_lt _ hpos, ?_⟩
    rw [sixteen_back (by omega), add_mod_shift, hp,
      show start + 16 + ((trackBits track).length - 16) = start + (trackBits track).length by omega,
      Nat.add_mod_right, syncAt_mod]
    exact hplaced.syncAt.1
  unfold sectorAt
  rw [if_pos (Or.inr hprevious)]

end Ring

/-- Packing turns any track into such words. -/
theorem holdsRotated_packBits (track : List (List Bool × EncodedSector)) (k : Nat) :
    HoldsRotated (packBits ((trackBits track).rotate k)) track k where
  room := by
    rw [length_packBits, List.length_rotate]
    unfold wordCount
    omega
  bits p _ := wordBit_packBits _ p

/-! ## A whole track -/

theorem exists_placed {track : List (List Bool × EncodedSector)} {i : Nat}
    (h : i ∈ track.map fun part => part.2.sector.toNat) :
    ∃ start sector, LaidAt track start sector ∧ sector.sector.toNat = i := by
  induction track with
  | nil => cases h
  | cons part track ih =>
    obtain ⟨gap, sector⟩ := part
    rcases List.mem_cons.mp h with rfl | h
    · exact ⟨_, sector, .here gap sector track, rfl⟩
    · obtain ⟨start, found, hplaced, hi⟩ := ih h
      exact ⟨_, found, .there gap sector hplaced, hi⟩

theorem LaidAt.mem {track : List (List Bool × EncodedSector)} {start : Nat}
    {sector : EncodedSector} (h : LaidAt track start sector) :
    sector.sector.toNat ∈ track.map fun part => part.2.sector.toNat := by
  induction h with
  | here gap sector rest => exact List.mem_cons_self
  | there gap other h ih => exact List.mem_cons_of_mem _ ih

/-- A number is read where a sync is visited that is the first of its sector. -/
theorem HoldsRotated.read_iff {words : List (BitVec 16)} {track : List (List Bool × EncodedSector)}
    {k : Nat} (hwords : HoldsRotated words track k) (hmarks : SyncsMarkSectors track)
    (hnumbers : ∀ number ∈ track.map fun part => part.2.sector.toNat, number < HD_SECTORS)
    (i : Nat) :
    (∃ sync ∈ findSyncs words (trackBits track).length,
      sectorAt words (trackBits track).length (findSyncs words (trackBits track).length) sync =
        some (i, true)) ↔ i ∈ track.map fun part => part.2.sector.toNat := by
  have hlarge : 8672 ≤ SECTOR_BITS := by decide
  constructor
  · rintro ⟨p, hp, hfound⟩
    have hpos : 0 < (trackBits track).length :=
      Nat.zero_lt_of_lt ((FluxBridge.mem_findSyncs words (trackBits track).length p).mp hp).1
    obtain ⟨start, sector, hplaced, hstart | hstart⟩ := hwords.sync_cases hmarks hpos hp
    · obtain ⟨hnext, hprevious⟩ := hwords.first_neighbours hmarks hplaced hstart
      rw [hwords.sectorAt_first hplaced hstart (hnumbers _ hplaced.mem) hnext hprevious] at hfound
      cases hfound
      exact hplaced.mem
    · rw [hwords.sectorAt_second hplaced hstart] at hfound
      cases hfound
  · intro hi
    obtain ⟨start, sector, hplaced, rfl⟩ := exists_placed hi
    have hend := hplaced.bits.1
    have hstart : start < (trackBits track).length := by omega
    obtain ⟨p, hp, hturned⟩ := exists_rotated start k hstart
    obtain ⟨hnext, hprevious⟩ := hwords.first_neighbours hmarks hplaced hturned
    refine ⟨p, (hwords.mem_findSyncs (by omega) p).mpr ⟨hp, ?_⟩,
      hwords.sectorAt_first hplaced hturned (hnumbers _ hi) hnext hprevious⟩
    rw [hturned]
    exact hplaced.syncAt.1

/--
**Clean tracks.** A track of 11 or 22 sectors, numbered from 0 in any order, is clean wherever it is
cut, whatever its gaps, its clock bits and its contents are, as long as they hold no further sync
word.
-/
theorem scanRevolution_clean (words : List (BitVec 16)) (track : List (List Bool × EncodedSector))
    (k n : Nat)
    (hn : (n = 11 ∧ (trackBits track).length ≤ 150000) ∨
      (n = 22 ∧ 150000 < (trackBits track).length))
    (hnumbers : (track.map fun part => part.2.sector.toNat).Perm (List.range n))
    (hwords : HoldsRotated words track k) (hmarks : SyncsMarkSectors track) :
    scanRevolution words (trackBits track).length = .cleanAmigaDos n := by
  have hnumber : ∀ i, i ∈ track.map (fun part => part.2.sector.toNat) ↔ i < n := fun i => by
    rw [hnumbers.mem_iff, List.mem_range]
  have hsectors : n ≤ HD_SECTORS := by
    unfold HD_SECTORS
    omega
  obtain ⟨start₀, sector₀, hplaced₀, -⟩ := exists_placed ((hnumber 0).mpr (by omega))
  have hlarge : 8672 ≤ SECTOR_BITS := by decide
  have hroom := hplaced₀.bits.1
  have hpos : 0 < (trackBits track).length := by omega
  have hcount : ((findSyncs words (trackBits track).length).foldl
      (scanSync words (trackBits track).length (findSyncs words (trackBits track).length))
      ⟨0, List.replicate HD_SECTORS false⟩).good.countP id = n := by
    refine countP_good (by unfold DD_SECTORS HD_SECTORS; omega) fun i _ => ?_
    rw [hwords.read_iff hmarks (fun m hm => Nat.lt_of_lt_of_le ((hnumber m).mp hm) hsectors),
      hnumber]
  have hnonempty : words ≠ [] := by
    rintro rfl
    have hwide := hwords.room
    rw [List.length_nil] at hwide
    omega
  have hwide := hwords.room
  unfold scanRevolution
  rw [if_neg (by rintro (hshort | hempty | hwide) <;> first | omega | exact hnonempty hempty)]
  unfold scanVerdict
  dsimp only
  rw [hcount]
  rcases hn with ⟨rfl, hdd⟩ | ⟨rfl, hhd⟩
  · rw [if_neg (show ¬ HD_BIT_THRESHOLD < _ from Nat.not_lt.mpr hdd)]
    rfl
  · rw [if_pos (show HD_BIT_THRESHOLD < _ from hhd)]
    rfl

/-! ## Empty sectors -/

theorem length_blankLabel : (List.replicate 8 (0 : BitVec 32)).length = 8 :=
  List.length_replicate

theorem length_blankData : (List.replicate 256 (0 : BitVec 32)).length = 256 :=
  List.length_replicate

theorem checksum_blankData : deinterleave 0 0 = maskedXor (List.replicate 256 0) := by
  decide +kernel

/-- A sector of zeros. -/
def emptySector (number : Fin 11) : EncodedSector where
  track := 40
  sector := BitVec.ofNat 8 number
  toGap := 1
  infoOdd := ((0xff#8 ++ 40#8 ++ BitVec.ofNat 8 number ++ 1#8) >>> 1) &&& MASK
  infoEven := (0xff#8 ++ 40#8 ++ BitVec.ofNat 8 number ++ 1#8) &&& MASK
  label := List.replicate 8 0
  headerOdd := 0
  headerEven := (((0xff#8 ++ 40#8 ++ BitVec.ofNat 8 number ++ 1#8) >>> 1) &&& MASK) ^^^
    ((0xff#8 ++ 40#8 ++ BitVec.ofNat 8 number ++ 1#8) &&& MASK)
  dataOdd := 0
  dataEven := 0
  data := List.replicate 256 0
  label_length := length_blankLabel
  data_length := length_blankData
  info := by
    revert number
    decide
  header := by
    revert number
    decide
  checksum := checksum_blankData

def emptyTrack : List (List Bool × EncodedSector) :=
  ((List.finRange 11).map emptySector).map fun sector => ([], sector)

/-- The sixteen bits from bit `j` of the first of two longs on. -/
def windowOf (long next : BitVec 32) (j : Nat) : BitVec 16 := (long ++ next).extractLsb' (48 - j) 16

theorem getMsbD_windowOf (long next : BitVec 32) {i j : Nat} (hj : j < 32) (hi : i < 16) :
    (windowOf long next j).getMsbD i =
      if j + i < 32 then long.getMsbD (j + i) else next.getMsbD (j + i - 32) := by
  unfold windowOf
  rw [BitVec.getMsbD_eq_getLsbD, BitVec.getLsbD_extractLsb', BitVec.getLsbD_append]
  split
  · next hlow =>
    rw [if_neg (by omega), BitVec.getMsbD_eq_getLsbD,
      show 32 - 1 - (j + i - 32) = 48 - j + (16 - 1 - i) by omega]
    simp [hi, show j + i - 32 < 32 by omega, show 16 - 1 - i < 16 by omega]
  · next hhigh =>
    rw [if_pos (by omega), BitVec.getMsbD_eq_getLsbD,
      show 32 - 1 - (j + i) = 48 - j + (16 - 1 - i) - 32 by omega]
    simp [hi, show j + i < 32 by omega, show 16 - 1 - i < 16 by omega]

/-- A sector that holds no sync but its own: its data is zeros. -/
structure Unmarked (sector : EncodedSector) : Prop where
  windows : ∀ i < 13, ∀ j < 32,
    windowOf (sector.longs.getD i 0) (sector.longs.getD (i + 1) 0) j = SYNC →
      i = 0 ∧ (j = 0 ∨ j = 16)
  data : sector.dataOdd :: sector.dataEven :: sector.data = List.replicate 258 0

theorem Unmarked.zeros {sector : EncodedSector} (h : Unmarked sector) {i : Nat} (hi : 416 ≤ i) :
    sector.bits.getD i false = false := by
  obtain ⟨word, hword⟩ : ∃ word, i / 32 = 11 + (word + 2) := ⟨i / 32 - 13, by omega⟩
  have hbit := getD_longBits sector.longs (i / 32) (Nat.mod_lt i (by omega))
  rw [Nat.div_add_mod] at hbit
  rw [EncodedSector.bits, hbit, hword, EncodedSector.longs_behind, List.getD_cons_succ,
    List.getD_cons_succ, h.data, List.getD_eq_getElem?_getD, List.getElem?_replicate]
  split <;> simp

/-- A track without gaps. -/
def gapless (sectors : List EncodedSector) : List (List Bool × EncodedSector) :=
  sectors.map fun sector => ([], sector)

section Gapless

variable {sectors : List EncodedSector} {q : Nat} {sector : EncodedSector}

theorem placed_gapless (h : sectors[q]? = some sector) :
    LaidAt (gapless sectors) (SECTOR_BITS * q) sector := by
  induction sectors generalizing q with
  | nil => cases h
  | cons first sectors ih =>
    cases q with
    | zero =>
      cases h
      exact .here [] _ _
    | succ q =>
      have hplaced := LaidAt.there [] first (ih h)
      rwa [List.length_nil, Nat.zero_add, Nat.add_comm, ← Nat.mul_succ] at hplaced

theorem length_gapless (sectors : List EncodedSector) :
    (trackBits (gapless sectors)).length = SECTOR_BITS * sectors.length := by
  induction sectors with
  | nil => rfl
  | cons first sectors ih =>
    rw [gapless, List.map_cons, trackBits, List.flatMap_cons, List.length_append, List.nil_append,
      first.length_bits, List.length_cons, ← trackBits, ← gapless, ih, Nat.mul_succ, Nat.add_comm]

theorem cyclic_gapless (h : sectors[q]? = some sector) {i : Nat} (hi : i < SECTOR_BITS) :
    cyclic (trackBits (gapless sectors)) (SECTOR_BITS * q + i) = sector.bits.getD i false := by
  obtain ⟨hroom, hbits⟩ := (placed_gapless h).bits
  unfold cyclic
  rw [Nat.mod_eq_of_lt (by omega), hbits i hi]

/-- The first bit of a sector is not set, nor is that behind the last one. -/
theorem cyclic_gapless_next (h : sectors[q]? = some sector) :
    cyclic (trackBits (gapless sectors)) (SECTOR_BITS * q + SECTOR_BITS) = false := by
  have hfirst : ∀ {p next}, sectors[p]? = some next →
      cyclic (trackBits (gapless sectors)) (SECTOR_BITS * p) = false := by
    intro p next hnext
    have hbit := cyclic_gapless hnext (show 0 < SECTOR_BITS by decide)
    rw [Nat.add_zero, EncodedSector.sync_bits _ (by omega)] at hbit
    exact hbit
  have hq : q < sectors.length := (List.getElem?_eq_some_iff.mp h).1
  rw [← Nat.mul_succ]
  rcases Nat.lt_or_ge (q + 1) sectors.length with hlt | hge
  · exact hfirst (List.getElem?_eq_getElem hlt)
  · have hwrap := cyclic_mod (trackBits (gapless sectors)) (SECTOR_BITS * sectors.length) 0
    rw [length_gapless, Nat.mod_self] at hwrap
    rw [show q.succ = sectors.length by omega]
    exact hwrap.symm.trans (hfirst (p := 0) (List.getElem?_eq_getElem (by omega)))

/-- A track of unmarked sectors holds no sync but theirs. -/
theorem gapless_marks (hunmarked : ∀ sector ∈ sectors, Unmarked sector) :
    SyncsMarkSectors (gapless sectors) := by
  intro p hp hsync
  rw [length_gapless] at hp
  have hpos : 0 < SECTOR_BITS := by decide
  have hq : p / SECTOR_BITS < sectors.length := Nat.div_lt_of_lt_mul hp
  have hget := List.getElem?_eq_getElem hq
  have hsector := hunmarked _ (List.getElem_mem hq)
  generalize sectors[p / SECTOR_BITS] = sector at hget hsector
  have hi := Nat.mod_lt p hpos
  have hsplit := Nat.div_add_mod p SECTOR_BITS
  generalize p / SECTOR_BITS = q at hget hsplit
  generalize p % SECTOR_BITS = i at hi hsplit
  subst hsplit
  refine ⟨_, _, placed_gapless hget, ?_⟩
  rcases Nat.lt_or_ge i 416 with hhead | hdata
  · obtain ⟨word, j, hj, rfl⟩ : ∃ word j, j < 32 ∧ i = 32 * word + j :=
      ⟨i / 32, i % 32, Nat.mod_lt _ (by omega), (Nat.div_add_mod i 32).symm⟩
    have hwindow : windowOf (sector.longs.getD word 0) (sector.longs.getD (word + 1) 0) j =
        SYNC := by
      refine BitVec.eq_of_getMsbD_eq fun t ht => ?_
      have hbit := hsync t ht
      have hroom : 32 * word + j + t < SECTOR_BITS :=
        Nat.lt_trans (show _ < 500 by omega) (by decide)
      rw [Nat.add_assoc, cyclic_gapless hget hroom, EncodedSector.bits] at hbit
      rw [getMsbD_windowOf _ _ hj ht, ← hbit]
      split
      · next hlow => rw [Nat.add_assoc, getD_longBits _ _ hlow]
      · next hhigh =>
        rw [← getD_longBits _ _ (show j + t - 32 < 32 by omega)]
        congr 1
        omega
    obtain ⟨rfl, rfl | rfl⟩ := hsector.windows word (by omega) j hj hwindow
    · exact Or.inl (by omega)
    · exact Or.inr (by omega)
  · have hset := hsync 1 (by omega)
    rw [Nat.add_assoc] at hset
    rcases Nat.lt_or_ge (i + 1) SECTOR_BITS with hlt | hge
    · rw [cyclic_gapless hget hlt, hsector.zeros (by omega)] at hset
      cases hset
    · rw [show i + 1 = SECTOR_BITS by omega, cyclic_gapless_next hget] at hset
      cases hset

end Gapless

theorem emptySector_unmarked (number : Fin 11) : Unmarked (emptySector number) where
  windows := by
    revert number
    decide +kernel
  data := rfl

theorem length_emptyTrack : (trackBits emptyTrack).length = SECTOR_BITS * 11 := by
  rw [show emptyTrack = gapless ((List.finRange 11).map emptySector) from rfl, length_gapless,
    List.length_map, List.length_finRange]

theorem emptyTrack_marks : SyncsMarkSectors emptyTrack := by
  refine gapless_marks fun sector hsector => ?_
  obtain ⟨number, _, rfl⟩ := List.mem_map.mp hsector
  exact emptySector_unmarked number

theorem scanRevolution_elevenSectors :
    scanRevolution (packBits ((trackBits emptyTrack).rotate 31797)) (trackBits emptyTrack).length =
      .cleanAmigaDos 11 :=
  scanRevolution_clean _ emptyTrack 31797 11
    (Or.inl ⟨rfl, by rw [length_emptyTrack]; decide⟩) (by decide) (holdsRotated_packBits _ _)
    emptyTrack_marks

end FluxBridge
