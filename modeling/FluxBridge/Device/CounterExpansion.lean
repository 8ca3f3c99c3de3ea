import FluxBridge.Device.Replay

/-!
# The counters of a track, expanded

What the counters that `write_stream` builds say, when a zero adds 65536 ticks to the interval
that is being accumulated and any other counter ends it.

* `accumulated_flatMap` — nothing is left over where no interval is a whole number of 65536 ticks
* `fluxCounters_lossless_iff` — when the counters say what `mfm_to_flux` timed
-/

namespace FluxBridge

namespace SuperCardPro

/-- The ticks that are accumulated, and not yet ended, behind the last counter. -/
def accumulated : Nat → List Nat → Nat
  | pending, [] => pending
  | pending, 0 :: counts => accumulated (pending + (U16_MAX + 1)) counts
  | _, _ :: counts => accumulated 0 counts

/-- The counters of an interval leave nothing, unless their last one is a zero too. -/
theorem accumulated_counters (pending ticks : Nat) (rest : List Nat)
    (h : ¬ 65536 ∣ ticks) :
    accumulated pending (counters ticks ++ rest) = accumulated 0 rest := by
  induction ticks using counters.induct generalizing pending with
  | case1 ticks hmore ih =>
    have hmax : U16_MAX = 65535 := rfl
    have hdvd : ¬ 65536 ∣ ticks - (U16_MAX + 1) := by omega
    rw [counters, if_pos hmore, List.cons_append, accumulated, ih _ hdvd]
  | case2 ticks hlast =>
    rw [counters, if_neg hlast]
    cases ticks with
    | zero => exact absurd ⟨0, rfl⟩ h
    | succ less => rfl

theorem accumulated_flatMap {intervals : List Nat} (h : ∀ ticks ∈ intervals, ¬ 65536 ∣ ticks) :
    accumulated 0 (intervals.flatMap counters) = 0 := by
  induction intervals with
  | nil => rfl
  | cons ticks intervals ih =>
    rw [List.flatMap_cons, accumulated_counters _ _ _ (h ticks List.mem_cons_self)]
    exact ih fun other hother => h other (List.mem_cons_of_mem _ hother)

/-! ## The number of counters -/

theorem length_counters_le (ticks : Nat) : (counters ticks).length ≤ ticks + 1 := by
  induction ticks using counters.induct with
  | case1 ticks hmore ih =>
    rw [counters, if_pos hmore, List.length_cons]
    omega
  | case2 ticks hlast =>
    rw [counters, if_neg hlast, List.length_singleton]
    omega

theorem length_flatMap_counters_le (intervals : List Nat) :
    (intervals.flatMap counters).length ≤ intervals.sum + intervals.length := by
  induction intervals with
  | nil => exact Nat.zero_le _
  | cons ticks intervals ih =>
    have hone := length_counters_le ticks
    rw [List.flatMap_cons, List.length_append, List.sum_cons, List.length_cons]
    omega

theorem sum_map_mul (distances : List Nat) (ticks : Nat) :
    (distances.map (· * ticks)).sum = distances.sum * ticks := by
  induction distances with
  | nil => exact (Nat.zero_mul ticks).symm
  | cons distance distances ih =>
    rw [List.map_cons, List.sum_cons, List.sum_cons, ih, Nat.add_mul]

theorem length_le_sum {distances : List Nat} (h : ∀ distance ∈ distances, 1 ≤ distance) :
    distances.length ≤ distances.sum := by
  induction distances with
  | nil => exact Nat.le_refl 0
  | cons distance distances ih =>
    have hone := h distance List.mem_cons_self
    have hrest := ih fun d hd => h d (List.mem_cons_of_mem _ hd)
    rw [List.length_cons, List.sum_cons]
    omega

/-- The counters of a track can be counted. -/
theorem entries_eq {highDensity : Bool} {words : List (BitVec 16)} {bitLen : Nat}
    (hmax : bitLen ≤ MAX_TRACK_BITS) :
    saturateU32 (((trackGaps words bitLen).map (· * cellTicks highDensity)).flatMap
        counters).length =
      (((trackGaps words bitLen).map (· * cellTicks highDensity)).flatMap counters).length := by
  have hsum : (trackGaps words bitLen).sum = bitLen := by
    unfold trackGaps
    rw [sum_gaps, List.length_map, List.length_range, Nat.zero_add]
  have hpos : ∀ distance ∈ trackGaps words bitLen, 1 ≤ distance :=
    fun distance hd => (trackGaps_bounds hmax hd).1
  have hcount := length_le_sum hpos
  have hlength := length_flatMap_counters_le
    ((trackGaps words bitLen).map (· * cellTicks highDensity))
  rw [sum_map_mul, List.length_map, hsum] at hlength
  rw [hsum] at hcount
  have hticks : bitLen * cellTicks highDensity ≤ 237568 * 80 :=
    Nat.mul_le_mul hmax (by cases highDensity <;> decide)
  have hmax : bitLen ≤ 237568 := hmax
  unfold saturateU32 U32_RANGE
  omega

/-! ## A track -/

/-- The distances, in cells, that are a whole number of 65536 ticks. -/
def wholeCells (highDensity : Bool) : Nat := if highDensity then 16384 else 4096

theorem dvd_cellTicks (highDensity : Bool) (distance : Nat) :
    65536 ∣ distance * cellTicks highDensity ↔ wholeCells highDensity ∣ distance := by
  cases highDensity with
  | false =>
    show 65536 ∣ distance * 80 ↔ 4096 ∣ distance
    omega
  | true =>
    show 65536 ∣ distance * 20 ↔ 16384 ∣ distance
    omega

/-- The counters say what was timed: a transition for each timing, in order and rounded to ticks,
with nothing left over, and `entries` counts them. -/
structure Lossless (highDensity : Bool) (timings counts : List Nat) : Prop where
  transitions : replay 0 counts = timings.map (writeTicks highDensity)
  nothing : accumulated 0 counts = 0
  entries : saturateU32 counts.length = counts.length

/--
**Counters.** The counters of a track are lossless exactly when no distance between its
transitions, the first from its start and the last to its end, is a whole number of 4096 cells at
double density, or of 16384 at high density.
-/
theorem fluxCounters_lossless_iff {highDensity : Bool} {words : List (BitVec 16)} {bitLen : Nat}
    {timings : List Nat}
    (h : mfmToFlux words bitLen (cellNanoseconds highDensity) = .ok timings) :
    ∃ counts, fluxCounters highDensity words bitLen = .ok counts ∧
      (Lossless highDensity timings counts ↔
        ∀ distance ∈ trackGaps words bitLen, ¬ wholeCells highDensity ∣ distance) := by
  obtain ⟨hpos, hwords, hmax⟩ := mfmToFlux_accepts h
  have hns : MAX_TRACK_BITS * cellNanoseconds highDensity < U32_RANGE := by
    cases highDensity <;> decide
  rw [mfmToFlux_eq hns hpos hwords hmax] at h
  obtain rfl := Except.ok.inj h
  have hticks : ((trackGaps words bitLen).map (· * cellNanoseconds highDensity)).map
      (writeTicks highDensity) = (trackGaps words bitLen).map (· * cellTicks highDensity) := by
    rw [List.map_map]
    exact List.map_congr_left fun distance _ => writeTicks_cells highDensity distance
  refine ⟨_, fluxCounters_eq highDensity hpos hwords hmax, ?_⟩
  constructor
  · intro hlossless distance hd hdvd
    have hmem := List.mem_map_of_mem (f := (· * cellTicks highDensity)) hd
    have hlost := @length_replay_lt 0 _ _ hmem ((dvd_cellTicks _ _).mpr hdvd)
    rw [hlossless.transitions] at hlost
    unfold trackGaps at hlost
    rw [List.length_map, List.length_map, List.length_map] at hlost
    exact Nat.lt_irrefl _ hlost
  · intro hwhole
    have hkept : ∀ ticks ∈ (trackGaps words bitLen).map (· * cellTicks highDensity),
        ¬ 65536 ∣ ticks := by
      intro ticks hmem hdvd
      obtain ⟨distance, hd, rfl⟩ := List.mem_map.mp hmem
      exact hwhole distance hd ((dvd_cellTicks _ _).mp hdvd)
    constructor
    · rw [replay_flatMap hkept]
      exact hticks.symm
    · exact accumulated_flatMap hkept
    · exact entries_eq hmax

theorem fluxCounters_lossless_oneWord :
    ∃ counts, fluxCounters true [0x9000] 4 = .ok counts ∧
      (Lossless true [1000, 3000] counts ↔
        ∀ distance ∈ trackGaps [0x9000] 4, ¬ wholeCells true ∣ distance) :=
  fluxCounters_lossless_iff (by decide)

/-- A revolution without a transition, of a whole number of 65536 ticks. -/
theorem trackGaps_blank : trackGaps (List.replicate 256 0) 4096 = [4096] := by
  have hblank : (List.range 4096).map (wordBit (List.replicate 256 0)) =
      List.replicate 4096 false ++ [] := by
    rw [List.append_nil]
    refine List.ext_getElem (by rw [List.length_map, List.length_range, List.length_replicate])
      fun i _ _ => ?_
    rw [List.getElem_map, List.getElem_range, List.getElem_replicate, wordBit_eq,
      List.getD_eq_getElem?_getD, List.getElem?_replicate]
    split <;> simp
  unfold trackGaps
  rw [hblank, gaps_replicate]
  rfl

/-- 4096 cells without a transition are six zero counters, and the transition is lost. -/
theorem blank_lost : mfmToFlux (List.replicate 256 0) 4096 (cellNanoseconds false) =
      .ok [8192000] ∧
    ∃ counts, fluxCounters false (List.replicate 256 0) 4096 = .ok counts ∧
      replay 0 counts = [] ∧ accumulated 0 counts = 393216 ∧
      ¬ Lossless false [8192000] counts := by
  have hgaps := trackGaps_blank
  have hlength : (List.replicate 256 (0 : BitVec 16)).length = 256 := List.length_replicate
  have hfits : 4096 ≤ (List.replicate 256 (0 : BitVec 16)).length * 16 := by omega
  have hmax : 4096 ≤ MAX_TRACK_BITS := by decide
  have htimed := @mfmToFlux_eq (List.replicate 256 0) (cellNanoseconds false) 4096 (by decide)
    (by decide) hfits hmax
  have hcounts := fluxCounters_eq false (by decide) hfits hmax
  rw [hgaps] at hcounts
  unfold trackGaps at hgaps
  rw [hgaps] at htimed
  have hzeros : ([4096].map (· * cellTicks false)).flatMap counters = [0, 0, 0, 0, 0, 0] := by
    decide +kernel
  rw [hzeros] at hcounts
  refine ⟨htimed, _, hcounts, by decide, by decide, ?_⟩
  intro hlossless
  exact absurd hlossless.transitions (by decide)

end SuperCardPro

end FluxBridge
