import FluxBridge.Flux.Rotation

/-!
# Bits as distances between transitions

A stream of bits is written as the distances between its transitions, and read back by putting a
transition at each distance. `gaps` and `cellsOf` say this without clocks and units.

* `cellsOf_gaps` — the distances give the stream back, with a transition at its end
* `mfmToFlux_eq` — `mfm_to_flux` writes the distances in nanoseconds
* `run_centred` — the PLL reads distances in whole cells as such, and stays as it was
-/

namespace FluxBridge

/-- The distances between the transitions of a stream, `cells` cells behind the last one. -/
def gaps : Nat → List Bool → List Nat
  | cells, [] => if cells = 0 then [] else [cells]
  | cells, true :: bits => (cells + 1) :: gaps 0 bits
  | cells, false :: bits => gaps (cells + 1) bits

/-- The cells of transitions at given distances. -/
def cellsOf (distances : List Nat) : List Bool :=
  distances.flatMap fun distance => List.replicate (distance - 1) false ++ [true]

/-- A stream with a transition in its last cell. -/
def closed : List Bool → List Bool
  | [] => []
  | [_] => [true]
  | bit :: next :: bits => bit :: closed (next :: bits)

theorem closed_concat (bits : List Bool) (bit : Bool) :
    closed (bits ++ [bit]) = bits ++ [true] := by
  induction bits with
  | nil => rfl
  | cons first bits ih =>
    cases bits with
    | nil => rfl
    | cons next bits =>
      show first :: closed ((next :: bits) ++ [bit]) = _
      rw [ih]
      rfl

/-- Only the end of a stream is closed. -/
theorem closed_append (front : List Bool) {bits : List Bool} (h : bits ≠ []) :
    closed (front ++ bits) = front ++ closed bits := by
  obtain ⟨init, last, rfl⟩ := List.eq_nil_or_concat bits |>.resolve_left h
  rw [List.concat_eq_append, ← List.append_assoc, closed_concat, closed_concat, List.append_assoc]

theorem cellsOf_cons (distance : Nat) (distances : List Nat) :
    cellsOf (distance :: distances) =
      List.replicate (distance - 1) false ++ true :: cellsOf distances := by
  unfold cellsOf
  rw [List.flatMap_cons, List.append_assoc]
  rfl

/-- **Distances.** They give the stream back, with a transition at its end. -/
theorem cellsOf_gaps (cells : Nat) (bits : List Bool) :
    cellsOf (gaps cells bits) = closed (List.replicate cells false ++ bits) := by
  induction bits generalizing cells with
  | nil =>
    cases cells with
    | zero => rfl
    | succ cells =>
      rw [List.append_nil, List.replicate_succ', closed_concat]
      exact cellsOf_cons (cells + 1) []
  | cons bit bits ih =>
    cases bit with
    | false =>
      show cellsOf (gaps (cells + 1) bits) = _
      rw [ih, List.replicate_succ', List.append_assoc]
      rfl
    | true =>
      show cellsOf ((cells + 1) :: gaps 0 bits) = _
      rw [cellsOf_cons, ih, Nat.add_sub_cancel]
      cases bits with
      | nil => exact (closed_concat _ _).symm
      | cons next bits =>
        have hfront := closed_append (List.replicate cells false ++ [true])
          (List.cons_ne_nil next bits)
        rw [List.append_assoc, List.append_assoc] at hfront
        exact hfront.symm

/-- No distance is longer than the stream, and none is zero. -/
theorem gaps_bounds {cells : Nat} {bits : List Bool} {distance : Nat}
    (h : distance ∈ gaps cells bits) : 1 ≤ distance ∧ distance ≤ cells + bits.length := by
  induction bits generalizing cells with
  | nil =>
    rw [gaps] at h
    split at h
    · cases h
    · rw [List.mem_singleton] at h
      omega
  | cons bit bits ih =>
    rw [List.length_cons]
    cases bit with
    | false =>
      have hrest : 1 ≤ distance ∧ distance ≤ cells + 1 + bits.length := ih h
      omega
    | true =>
      rcases List.mem_cons.mp h with rfl | h
      · omega
      · have hrest := ih h
        omega

theorem gaps_replicate (cells zeros : Nat) (bits : List Bool) :
    gaps cells (List.replicate zeros false ++ bits) = gaps (cells + zeros) bits := by
  induction zeros generalizing cells with
  | zero => rfl
  | succ zeros ih =>
    rw [List.replicate_succ, List.cons_append, gaps, ih, Nat.add_right_comm, Nat.add_assoc]

/-- The distances of cells put at given distances are these. -/
theorem gaps_cellsOf {distances : List Nat} (h : ∀ distance ∈ distances, 1 ≤ distance) :
    gaps 0 (cellsOf distances) = distances := by
  induction distances with
  | nil => rfl
  | cons distance distances ih =>
    have hpos : 1 ≤ distance := h distance List.mem_cons_self
    rw [cellsOf_cons, gaps_replicate, gaps, ih fun d hd => h d (List.mem_cons_of_mem _ hd),
      Nat.zero_add, Nat.sub_add_cancel hpos]

/-- The distances cover the stream. -/
theorem sum_gaps (cells : Nat) (bits : List Bool) :
    (gaps cells bits).sum = cells + bits.length := by
  induction bits generalizing cells with
  | nil =>
    rw [gaps]
    split
    · rename_i hzero
      rw [hzero]
      rfl
    · simp
  | cons bit bits ih =>
    cases bit with
    | false =>
      rw [gaps, ih, List.length_cons]
      omega
    | true =>
      rw [gaps, List.sum_cons, ih, List.length_cons]
      omega

/-! ## A track -/

section Track

variable {words : List (BitVec 16)} {bitLen : Nat}

/-- The distances between the transitions of the track that is written. -/
def trackGaps (words : List (BitVec 16)) (bitLen : Nat) : List Nat :=
  gaps 0 ((List.range bitLen).map (wordBit words))

theorem trackGaps_bounds (hmax : bitLen ≤ MAX_TRACK_BITS) {distance : Nat}
    (h : distance ∈ trackGaps words bitLen) : 1 ≤ distance ∧ distance ≤ MAX_TRACK_BITS := by
  have hbounds := gaps_bounds h
  rw [List.length_map, List.length_range] at hbounds
  omega

/-- The cells of a track, closed by the transition that ends the last delay. -/
theorem cellsOf_trackGaps (words : List (BitVec 16)) (bitLen : Nat) :
    cellsOf (trackGaps words bitLen) = (List.range bitLen).map fun position =>
      wordBit words position || decide (position + 1 = bitLen) := by
  unfold trackGaps
  rw [cellsOf_gaps, List.replicate_zero, List.nil_append]
  cases bitLen with
  | zero => rfl
  | succ last =>
    rw [List.range_succ, List.map_append, List.map_append, List.map_singleton, closed_concat,
      List.map_singleton]
    congr 1
    · refine List.map_congr_left fun position hposition => ?_
      have hlt := List.mem_range.mp hposition
      simp [show position ≠ last by omega]
    · simp

end Track

/-! ## Written -/

section Written

variable {words : List (BitVec 16)} {cellNanoseconds : Nat}

theorem checkedU32_ok {value : Nat} (message : String) (h : value < U32_RANGE) :
    checkedU32 value message = .ok value := if_pos h

/-- The loop of `mfm_to_flux` from any point, with its end. -/
theorem foldlM_mfmStep (hns : MAX_TRACK_BITS * cellNanoseconds < U32_RANGE)
    (positions : List Nat) (cells : Nat) (flux : List Nat)
    (hlen : cells + positions.length ≤ MAX_TRACK_BITS) :
    (positions.foldlM (mfmStep words cellNanoseconds) (cells, flux) >>= mfmFinish cellNanoseconds) =
      .ok (flux ++ (gaps cells (positions.map (wordBit words))).map (· * cellNanoseconds)) := by
  have hfits : ∀ n ≤ MAX_TRACK_BITS, n * cellNanoseconds < U32_RANGE := fun n hn =>
    Nat.lt_of_le_of_lt (Nat.mul_le_mul_right _ hn) hns
  -- on the positions that are left, from any count of cells since the last one bit
  induction positions generalizing cells flux with
  | nil =>
    rw [List.length_nil, Nat.add_zero] at hlen
    cases cells with
    | zero => simp [mfmFinish, gaps, pure, Except.pure, bind, Except.bind]
    | succ cells =>
      have hinterval := checkedU32_ok "trailing flux interval overflow" (hfits _ hlen)
      simp [mfmFinish, gaps, hinterval, pure, Except.pure, bind, Except.bind]
  | cons position positions ih =>
    rw [List.length_cons] at hlen
    have hmax : MAX_TRACK_BITS < U32_RANGE := by decide
    have hcells : checkedU32 (cells + 1) "flux interval overflow" = .ok (cells + 1) :=
      checkedU32_ok _ (by omega)
    have hinterval := checkedU32_ok "flux interval nanoseconds overflow"
      (hfits (cells + 1) (by omega))
    rw [List.foldlM_cons, List.map_cons, bind_assoc]
    cases hbit : wordBit words position with
    | false =>
      have hstep :
          mfmStep words cellNanoseconds (cells, flux) position = .ok (cells + 1, flux) := by
        simp [mfmStep, hcells, hbit, pure, Except.pure, bind, Except.bind]
      rw [hstep]
      exact ih (cells + 1) flux (by omega)
    | true =>
      have hstep : mfmStep words cellNanoseconds (cells, flux) position =
          .ok (0, flux ++ [(cells + 1) * cellNanoseconds]) := by
        simp [mfmStep, hcells, hbit, hinterval, pure, Except.pure, bind, Except.bind]
      rw [hstep]
      refine (ih 0 _ (by omega)).trans ?_
      rw [List.append_assoc]
      rfl

/-- What `mfm_to_flux` accepts is within the bounds of a track. -/
theorem mfmToFlux_accepts {bitLen : Nat} {timings : List Nat}
    (h : mfmToFlux words bitLen cellNanoseconds = .ok timings) :
    1 ≤ bitLen ∧ bitLen ≤ words.length * 16 ∧ bitLen ≤ MAX_TRACK_BITS := by
  unfold mfmToFlux at h
  split at h
  · cases h
  · split at h
    · cases h
    · omega

/-- What `mfm_to_flux` accepts, it writes as distances. -/
theorem mfmToFlux_eq {bitLen : Nat} (hns : MAX_TRACK_BITS * cellNanoseconds < U32_RANGE)
    (hpos : 1 ≤ bitLen) (hwords : bitLen ≤ words.length * 16) (hmax : bitLen ≤ MAX_TRACK_BITS) :
    mfmToFlux words bitLen cellNanoseconds =
      .ok ((gaps 0 ((List.range bitLen).map (wordBit words))).map (· * cellNanoseconds)) := by
  unfold mfmToFlux
  rw [if_neg (by omega), if_neg (by omega),
    foldlM_mfmStep hns (List.range bitLen) 0 [] (by rw [List.length_range]; omega)]
  rfl

end Written

/-! ## Read -/

namespace PllDecoder

/-- A centred PLL reads a distance in whole cells as such, and stays centred. -/
theorem submit_centred {distance : Nat} (hpos : 1 ≤ distance) (hmax : distance ≤ MAX_TRACK_BITS) :
    new.submit (distance * 2000) = (new, List.replicate (distance - 1) false ++ [true]) := by
  have hmax : distance ≤ 237568 := hmax
  have hpending : saturatingAdd 0 ((distance * 2000 : Nat) : Int) = distance * 2000 := by
    unfold saturatingAdd I64_MIN I64_MAX
    omega
  have hzeros : (distance * 2000 - 1000 : Int).tdiv 2000 = distance - 1 := by
    rw [Int.tdiv_eq_ediv_of_nonneg (by omega)]
    omega
  have hhalf : (2000 : Int).tdiv 2 = 1000 := rfl
  have hnot : ¬ (distance * 2000 : Int) < 1000 := by omega
  have hmaxZero : max (distance - 1 : Int) 0 = distance - 1 := by omega
  have hrest : (distance * 2000 - (distance - 1 + 1) * 2000 : Int) = 0 := by omega
  have hdrift : new.drift (distance - 1) 0 = 0 := by
    unfold drift
    split <;> simp [new, CLOCK_CENTRE_NS]
  have hcount : (distance - 1 : Int).toNat = distance - 1 := by omega
  unfold submit
  simp only [new, CLOCK_CENTRE_NS, hpending, hhalf, hnot, hzeros, hmaxZero, hrest, hcount, if_false]
  rw [show PllDecoder.mk 2000 0 = new from rfl, hdrift]
  rfl

/-- **Reading.** Distances in whole cells give their cells. -/
theorem run_centred (distances : List Nat)
    (h : ∀ distance ∈ distances, 1 ≤ distance ∧ distance ≤ MAX_TRACK_BITS) (index : Bool) :
    new.run (distances.map fun distance => ⟨distance * 2000, index⟩) =
      (new, cellsOf distances) := by
  induction distances with
  | nil => rfl
  | cons distance distances ih =>
    obtain ⟨hpos, hmax⟩ := h distance List.mem_cons_self
    rw [List.map_cons, run_cons, submit_centred hpos hmax,
      ih fun d hd => h d (List.mem_cons_of_mem _ hd)]
    rfl

/-- A transition delay gives one transition, or none yet. -/
theorem submit_cells (pll : PllDecoder) (nanoseconds : Nat) :
    (pll.submit nanoseconds).2 = [] ∨
      ∃ zeros, (pll.submit nanoseconds).2 = List.replicate zeros false ++ [true] := by
  unfold submit
  by_cases hearly : saturatingAdd pll.pendingNs nanoseconds < pll.clockNs.tdiv 2
  · left
    rw [if_pos hearly]
  · right
    rw [if_neg hearly]
    exact ⟨_, rfl⟩

/-- What a PLL decodes is at most one distance for each delay. -/
theorem run_eq_cellsOf (pll : PllDecoder) (events : List FluxEvent) :
    ∃ distances, distances.length ≤ events.length ∧ (∀ distance ∈ distances, 1 ≤ distance) ∧
      (pll.run events).2 = cellsOf distances := by
  induction events generalizing pll with
  | nil => exact ⟨[], Nat.le_refl _, fun _ h => absurd h List.not_mem_nil, rfl⟩
  | cons event events ih =>
    obtain ⟨distances, hlength, hpos, hrun⟩ := ih (pll.submit event.nanoseconds).1
    rw [run_cons, hrun]
    rcases pll.submit_cells event.nanoseconds with hnone | ⟨zeros, hone⟩
    · exact ⟨distances, Nat.le_succ_of_le hlength, hpos, by rw [hnone, List.nil_append]⟩
    · refine ⟨(zeros + 1) :: distances, Nat.succ_le_succ hlength, ?_, ?_⟩
      · intro distance hd
        rcases List.mem_cons.mp hd with rfl | hd
        · exact Nat.le_add_left 1 zeros
        · exact hpos distance hd
      · rw [hone, cellsOf_cons, Nat.add_sub_cancel, List.append_assoc]
        rfl

theorem length_gaps_run_le (pll : PllDecoder) (events : List FluxEvent) :
    (gaps 0 (pll.run events).2).length ≤ events.length := by
  obtain ⟨distances, hlength, hpos, hrun⟩ := pll.run_eq_cellsOf events
  rw [hrun, gaps_cellsOf hpos]
  exact hlength

/-- The distances decoded, from the first transition on. -/
theorem gaps_run_cons {pll : PllDecoder} {nanoseconds zeros : Nat}
    (h : (pll.submit nanoseconds).2 = List.replicate zeros false ++ [true]) (index : Bool)
    (events : List FluxEvent) :
    gaps 0 (pll.run (⟨nanoseconds, index⟩ :: events)).2 =
      (zeros + 1) :: gaps 0 ((pll.submit nanoseconds).1.run events).2 := by
  rw [run_cons, h, List.append_assoc, gaps_replicate, Nat.zero_add]
  rfl

end PllDecoder

end FluxBridge
