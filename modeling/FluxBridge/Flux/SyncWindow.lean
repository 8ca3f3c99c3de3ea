import FluxBridge.Flux.Scan

/-!
# Reading a ring of bits

The rolling window of `scan_revolution`, and the longs it reads.

* `mem_findSyncs` — the positions that are found are those where a sync word begins
* `scanRevolution_order` — the order in which they are visited does not matter
-/

namespace FluxBridge

/-- The sync word. -/
def SYNC : BitVec 16 := 0x4489#16

/-- A sync word begins at `position`. -/
def SyncAt (bit : Nat → Bool) (position : Nat) : Prop :=
  ∀ i < 16, bit (position + i) = SYNC.getMsbD i

/-- Bits shifted in one after the other, the last as the least significant. -/
def shiftIn (width : Nat) (bit : Nat → Bool) (count : Nat) : BitVec width :=
  (List.range count).foldl
    (fun value offset => (value <<< 1) ||| BitVec.setWidth width (BitVec.ofBool (bit offset))) 0

theorem shiftIn_succ (width : Nat) (bit : Nat → Bool) (count : Nat) :
    shiftIn width bit (count + 1) =
      (shiftIn width bit count <<< 1) ||| BitVec.setWidth width (BitVec.ofBool (bit count)) := by
  unfold shiftIn
  rw [List.range_succ, List.foldl_append]
  rfl

/-- The last `width` bits are kept. -/
theorem getLsbD_shiftIn {width : Nat} (bit : Nat → Bool) (count : Nat) {i : Nat} (hi : i < width) :
    (shiftIn width bit count).getLsbD i = (decide (i < count) && bit (count - 1 - i)) := by
  induction count generalizing i with
  | zero => simp [shiftIn]
  | succ count ih =>
    rw [shiftIn_succ, BitVec.getLsbD_or, BitVec.getLsbD_shiftLeft, BitVec.getLsbD_setWidth,
      BitVec.getLsbD_ofBool]
    cases i with
    | zero => simp [hi]
    | succ i =>
      rw [show i + 1 - 1 = i by omega, ih (by omega),
        show count + 1 - 1 - (i + 1) = count - 1 - i by omega]
      simp [hi]

/-- Bits that are shifted in are read from the front. -/
theorem shiftIn_eq {width : Nat} {bit : Nat → Bool} {start : Nat} {value : BitVec width}
    (h : ∀ i < width, bit (start + i) = value.getMsbD i) :
    shiftIn width (fun offset => bit (start + offset)) width = value := by
  refine BitVec.eq_of_getLsbD_eq fun i hi => ?_
  rw [getLsbD_shiftIn _ _ hi, h _ (by omega), BitVec.getMsbD_eq_getLsbD]
  simp [hi, show width - 1 - i < width by omega, show width - 1 - (width - 1 - i) = i by omega]

theorem longAt_eq_shiftIn (words : List (BitVec 16)) (bitLen start : Nat) :
    longAt words bitLen start =
      shiftIn 32 (fun offset => bitAt words bitLen (start + offset)) 32 := rfl

/-! ## Positions of a ring -/

theorem add_mod_shift (p j k length : Nat) :
    ((p + j) % length + k) % length = ((p + k) % length + j) % length := by
  rw [Nat.mod_add_mod, Nat.mod_add_mod, Nat.add_right_comm]

/-- Every position of a ring is where another one comes to when the ring is turned. -/
theorem exists_rotated {length : Nat} (start k : Nat) (h : start < length) :
    ∃ p < length, (p + k) % length = start := by
  have hk : k % length < length := Nat.mod_lt _ (by omega)
  refine ⟨(start + (length - k % length)) % length, Nat.mod_lt _ (by omega), ?_⟩
  rw [Nat.mod_add_mod, ← Nat.add_mod_mod, show start + (length - k % length) + k % length =
    start + length by omega, Nat.add_mod_right, Nat.mod_eq_of_lt h]

/-- The ring does not end. -/
theorem bitAt_mod (words : List (BitVec 16)) (bitLen position i : Nat) :
    bitAt words bitLen (position % bitLen + i) = bitAt words bitLen (position + i) := by
  unfold bitAt
  rw [Nat.mod_add_mod]

theorem syncAt_bitAt_mod (words : List (BitVec 16)) (bitLen position : Nat) :
    SyncAt (bitAt words bitLen) (position % bitLen) ↔ SyncAt (bitAt words bitLen) position := by
  unfold SyncAt
  simp only [bitAt_mod]

/-! ## The rolling window -/

section Window

variable (words : List (BitVec 16)) (bitLen : Nat)

/-- The window is made of the bits that were shifted in. -/
theorem syncStep_window (count : Nat) (syncs : List Nat) :
    ((List.range count).foldl (syncStep words bitLen) (0#16, syncs)).1 =
      shiftIn 16 (bitAt words bitLen) count := by
  induction count with
  | zero => rfl
  | succ count ih =>
    rw [List.range_succ, List.foldl_append, List.foldl_cons, List.foldl_nil, shiftIn_succ, ← ih]
    unfold syncStep
    dsimp only
    split <;> rfl

/-- From the sixteenth bit on, the window is the sync word where one began 15 bits before. -/
theorem window_eq_sync {position : Nat} (h : 15 ≤ position) :
    shiftIn 16 (bitAt words bitLen) (position + 1) = SYNC ↔
      SyncAt (bitAt words bitLen) (position - 15) := by
  have hbit : ∀ i < 16, (shiftIn 16 (bitAt words bitLen) (position + 1)).getMsbD i =
      bitAt words bitLen (position - 15 + i) := by
    intro i hi
    rw [BitVec.getMsbD_eq_getLsbD, getLsbD_shiftIn _ _ (by omega),
      show position + 1 - 1 - (16 - 1 - i) = position - 15 + i by omega]
    simp [hi, show 16 - 1 - i < position + 1 by omega]
  constructor
  · intro heq i hi
    rw [← hbit i hi, heq]
  · intro hsync
    refine BitVec.eq_of_getMsbD_eq fun i hi => ?_
    rw [hbit i hi, hsync i hi]

/-- What the loop has found after `count` bits. -/
theorem mem_syncStep (count : Nat) (p : Nat) :
    p ∈ ((List.range count).foldl (syncStep words bitLen) (0#16, [])).2 ↔
      ∃ position < count, 15 ≤ position ∧ SyncAt (bitAt words bitLen) (position - 15) ∧
        p = (position - 15) % bitLen := by
  -- on the bits that were shifted in: each adds at most the sync it completes
  induction count with
  | zero => simp
  | succ count ih =>
    have hwindow := syncStep_window words bitLen (count + 1) []
    rw [List.range_succ, List.foldl_append, List.foldl_cons, List.foldl_nil] at hwindow ⊢
    have hexists : (∃ position < count + 1, 15 ≤ position ∧
        SyncAt (bitAt words bitLen) (position - 15) ∧ p = (position - 15) % bitLen) ↔
        (15 ≤ count ∧ SyncAt (bitAt words bitLen) (count - 15) ∧ p = (count - 15) % bitLen) ∨
        ∃ position < count, 15 ≤ position ∧ SyncAt (bitAt words bitLen) (position - 15) ∧
          p = (position - 15) % bitLen := by
      constructor
      · rintro ⟨position, hlt, hp⟩
        rcases Nat.lt_succ_iff_lt_or_eq.mp hlt with hlt | rfl
        · exact Or.inr ⟨position, hlt, hp⟩
        · exact Or.inl hp
      · rintro (hp | ⟨position, hlt, hp⟩)
        · exact ⟨count, by omega, hp⟩
        · exact ⟨position, by omega, hp⟩
    rw [hexists, ← ih]
    unfold syncStep at hwindow ⊢
    dsimp only at hwindow ⊢
    split at hwindow
    · next hfound =>
      rw [if_pos hfound]
      have hsync := (window_eq_sync words bitLen hfound.1).mp (hwindow.symm.trans hfound.2)
      simp [List.mem_insert_iff, hfound.1, hsync]
    · next hnone =>
      rw [if_neg hnone]
      have hnot : ¬ (15 ≤ count ∧ SyncAt (bitAt words bitLen) (count - 15) ∧
          p = (count - 15) % bitLen) := by
        rintro ⟨hcount, hsync, -⟩
        exact hnone ⟨hcount, hwindow.trans ((window_eq_sync words bitLen hcount).mpr hsync)⟩
      simp [hnot]

/-- **Syncs.** The window finds the positions of the ring where a sync word begins. -/
theorem mem_findSyncs (p : Nat) :
    p ∈ findSyncs words bitLen ↔ p < bitLen ∧ SyncAt (bitAt words bitLen) p := by
  unfold findSyncs
  rw [mem_syncStep]
  constructor
  · rintro ⟨position, hlt, hposition, hsync, rfl⟩
    rw [Nat.mod_eq_of_lt (show position - 15 < bitLen by omega)]
    exact ⟨by omega, hsync⟩
  · rintro ⟨hlt, hsync⟩
    refine ⟨p + 15, by omega, by omega, ?_⟩
    rw [Nat.add_sub_cancel, Nat.mod_eq_of_lt hlt]
    exact ⟨hsync, rfl⟩

end Window

/-! ## The order of the visits -/

/-- The sector whose header is valid at a sync, and whether its data is. -/
def sectorAt (words : List (BitVec 16)) (bitLen : Nat) (syncs : List Nat) (sync : Nat) :
    Option (Nat × Bool) :=
  if ¬ (sync + 16) % bitLen ∈ syncs ∨ (sync + bitLen - 16) % bitLen ∈ syncs then none
  else
    let body := sync + 32
    let infoOdd := longAt words bitLen body
    let infoEven := longAt words bitLen (body + 32)
    let info := deinterleave infoOdd infoEven
    if info.extractLsb' 24 8 ≠ 0xff#8 ∨ HD_SECTORS ≤ (info.extractLsb' 8 8).toNat then none
    else if xorLongs words bitLen (body + 64) 8 ((infoOdd &&& MASK) ^^^ (infoEven &&& MASK)) ≠
        deinterleave (longAt words bitLen (body + 320)) (longAt words bitLen (body + 352)) then none
    else
      some ((info.extractLsb' 8 8).toNat,
        decide (xorLongs words bitLen (body + 448) 256 0 =
          deinterleave (longAt words bitLen (body + 384)) (longAt words bitLen (body + 416))))

/-- What a valid header adds to the tally. -/
def ScanTally.record (tally : ScanTally) (found : Nat × Bool) : ScanTally :=
  { headersValid := tally.headersValid + 1,
    good := if found.2 then tally.good.set found.1 true else tally.good }

theorem scanSync_eq (words : List (BitVec 16)) (bitLen : Nat) (syncs : List Nat)
    (tally : ScanTally) (sync : Nat) :
    scanSync words bitLen syncs tally sync =
      (sectorAt words bitLen syncs sync).elim tally tally.record := by
  unfold scanSync sectorAt
  split
  · rfl
  · dsimp only
    split
    · rfl
    · split
      · rfl
      · split
        · next hdata =>
          rw [decide_eq_true hdata]
          rfl
        · next hdata =>
          rw [decide_eq_false hdata]
          rfl

theorem record_comm (tally : ScanTally) (one two : Nat × Bool) :
    (tally.record one).record two = (tally.record two).record one := by
  obtain ⟨sector, valid⟩ := one
  obtain ⟨other, alsoValid⟩ := two
  cases valid <;> cases alsoValid <;> simp only [ScanTally.record, if_true, if_false,
    Bool.false_eq_true]
  rcases eq_or_ne sector other with rfl | hne
  · rfl
  · rw [List.set_comm _ _ hne]

theorem scanSync_comm (words : List (BitVec 16)) (bitLen : Nat) (syncs : List Nat)
    (tally : ScanTally) (one two : Nat) :
    scanSync words bitLen syncs (scanSync words bitLen syncs tally one) two =
      scanSync words bitLen syncs (scanSync words bitLen syncs tally two) one := by
  simp only [scanSync_eq]
  cases sectorAt words bitLen syncs one with
  | none => rfl
  | some found =>
    cases sectorAt words bitLen syncs two with
    | none => rfl
    | some other => exact record_comm tally found other

/-- **Order.** The syncs may be visited in any order. -/
theorem scanRevolution_order {words : List (BitVec 16)} {bitLen : Nat} {order : List Nat}
    (horder : order.Perm (findSyncs words bitLen)) (tally : ScanTally) :
    order.foldl (scanSync words bitLen (findSyncs words bitLen)) tally =
      (findSyncs words bitLen).foldl (scanSync words bitLen (findSyncs words bitLen)) tally :=
  horder.foldl_eq' (fun one _ two _ tally => scanSync_comm _ _ _ tally one two) tally

/-! ## The tally -/

/-- After all the visits the good sectors are those that were read somewhere. -/
theorem getElem?_good (words : List (BitVec 16)) (bitLen : Nat) (syncs order : List Nat)
    (tally : ScanTally) (i : Nat) :
    (order.foldl (scanSync words bitLen syncs) tally).good[i]? = some true ↔
      tally.good[i]? = some true ∨ (i < tally.good.length ∧
        ∃ sync ∈ order, sectorAt words bitLen syncs sync = some (i, true)) := by
  induction order generalizing tally with
  | nil => simp
  | cons sync order ih =>
    rw [List.foldl_cons, ih, scanSync_eq]
    cases hfound : sectorAt words bitLen syncs sync with
    | none => simp [hfound]
    | some found =>
      obtain ⟨sector, valid⟩ := found
      cases valid with
      | false => simp [ScanTally.record, hfound]
      | true =>
        simp only [Option.elim, ScanTally.record, if_true, List.length_set, List.getElem?_set,
          List.mem_cons, exists_eq_or_imp, hfound, Option.some.injEq, Prod.mk.injEq, and_true]
        rcases eq_or_ne sector i with rfl | hne
        · by_cases hlt : sector < tally.good.length <;> simp [hlt]
        · simp [hne]

theorem length_good (words : List (BitVec 16)) (bitLen : Nat) (syncs order : List Nat)
    (tally : ScanTally) :
    (order.foldl (scanSync words bitLen syncs) tally).good.length = tally.good.length := by
  induction order generalizing tally with
  | nil => rfl
  | cons sync order ih =>
    rw [List.foldl_cons, ih, scanSync_eq]
    cases sectorAt words bitLen syncs sync with
    | none => rfl
    | some found =>
      show (tally.record found).good.length = tally.good.length
      unfold ScanTally.record
      dsimp only
      split
      · exact List.length_set
      · rfl

/-- The good sectors, when it is known which are read somewhere. -/
theorem good_eq_map {words : List (BitVec 16)} {bitLen : Nat} {syncs order : List Nat}
    {reads : Nat → Bool}
    (h : ∀ i < HD_SECTORS, (∃ sync ∈ order, sectorAt words bitLen syncs sync = some (i, true)) ↔
      reads i = true) :
    (order.foldl (scanSync words bitLen syncs) ⟨0, List.replicate HD_SECTORS false⟩).good =
      (List.range HD_SECTORS).map reads := by
  have hlength := length_good words bitLen syncs order ⟨0, List.replicate HD_SECTORS false⟩
  rw [List.length_replicate] at hlength
  refine List.ext_getElem (by simpa using hlength) fun i hi _ => ?_
  rw [hlength] at hi
  have hi' := getElem?_good words bitLen syncs order ⟨0, List.replicate HD_SECTORS false⟩ i
  rw [List.getElem?_eq_getElem (by omega), List.getElem?_replicate_of_lt hi,
    List.length_replicate, h i hi] at hi'
  rw [List.getElem_map, List.getElem_range]
  cases hreads : reads i with
  | true => simpa [hi, hreads] using hi'
  | false => simpa [hi, hreads] using hi'

/-- Where exactly the sectors below `n` are read as good, `n` are counted. -/
theorem countP_good {words : List (BitVec 16)} {bitLen : Nat} {syncs order : List Nat} {n : Nat}
    (hn : n = DD_SECTORS ∨ n = HD_SECTORS)
    (h : ∀ i < HD_SECTORS, (∃ sync ∈ order, sectorAt words bitLen syncs sync = some (i, true)) ↔
      i < n) :
    (order.foldl (scanSync words bitLen syncs) ⟨0, List.replicate HD_SECTORS false⟩).good.countP id
      = n := by
  have hgood := @good_eq_map words bitLen syncs order (fun i => decide (i < n)) fun i hi => by
    rw [h i hi, decide_eq_true_iff]
  rw [hgood]
  rcases hn with rfl | rfl <;> decide

end FluxBridge
