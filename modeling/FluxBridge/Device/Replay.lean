import FluxBridge.Flux.Gaps
import FluxBridge.Device.SuperCardPro

/-!
# The counters of a track, replayed

A track written by a SuperCard Pro is loaded into its RAM as counters of 25 ns, and read back as
ticks of 50 ns: both are the interface's own clocks, and no packet tells it a density. The loop of
`write_stream` splits an interval at 65536 ticks, so that a zero counter is 65536 ticks without a
transition.

A track is taken from its first cell to its last: the distances are those between its transitions,
and those from its start to the first and from the last to its end.

* `replay_counters` — a whole number of 65536 ticks is left without its transition
* `readBack_double` — double density: the distances come back
* `readBack_high` — high density: they come back at half their length
* `replayAgreement_iff` — the tracks that are read back as they were written
-/

namespace FluxBridge

namespace SuperCardPro

/-- The delays between the transitions of a replay, in ticks of 25 ns. -/
def replay : Nat → List Nat → List Nat
  | _, [] => []
  | pending, 0 :: counts => replay (pending + (U16_MAX + 1)) counts
  | pending, count :: counts => (pending + count) :: replay 0 counts

/-- The ticks of 50 ns in which the stream reports a delay of the replay. -/
def streamTicks (delay : Nat) : Nat := delay * 25 / 50

/-- A transition that the stream reports. -/
def report (highDensity : Bool) (state : Stream) (delay : Nat) : Stream :=
  { state with pendingTicks := streamTicks delay }.emit highDensity

/-- The cells that a fresh PLL decodes from the replay of counters. -/
def readBack (highDensity : Bool) (counts : List Nat) : List Bool :=
  (PllDecoder.new.run ((replay 0 counts).foldl (report highDensity) Stream.start).events).2

/-- The event that is read for a delay of the replay. -/
def heard (highDensity : Bool) (delay : Nat) : FluxEvent :=
  ⟨saturateU32 (streamTicks delay * readResolution highDensity), false⟩

theorem foldl_report (highDensity : Bool) (delays : List Nat) (state : Stream)
    (h : state.pendingIndex = false) :
    (delays.foldl (report highDensity) state).events =
      state.events ++ delays.map (heard highDensity) := by
  induction delays generalizing state with
  | nil => rw [List.foldl_nil, List.map_nil, List.append_nil]
  | cons delay delays ih =>
    have hevents : (report highDensity state delay).events =
        state.events ++ [heard highDensity delay] := by
      show state.events ++ [⟨_, state.pendingIndex⟩] = _
      rw [h]
      rfl
    rw [List.foldl_cons, ih _ rfl, hevents, List.map_cons, List.append_assoc]
    rfl

theorem readBack_eq (highDensity : Bool) (counts : List Nat) :
    readBack highDensity counts =
      (PllDecoder.new.run ((replay 0 counts).map (heard highDensity))).2 := by
  unfold readBack
  rw [foldl_report highDensity _ _ rfl]
  rfl

/-! ## The counters -/

/-- The counters of an interval: one transition at its end, but none for a whole number of 65536
ticks, whose last counter is a zero like the others. -/
theorem replay_counters (pending ticks : Nat) (rest : List Nat) :
    replay pending (counters ticks ++ rest) =
      if 65536 ∣ ticks then replay (pending + ticks + 65536) rest
      else (pending + ticks) :: replay 0 rest := by
  induction ticks using counters.induct generalizing pending with
  | case1 ticks hmore ih =>
    have hmax : U16_MAX = 65535 := rfl
    rw [counters, if_pos hmore, List.cons_append, replay, ih]
    have hdvd : 65536 ∣ ticks - (U16_MAX + 1) ↔ 65536 ∣ ticks := by omega
    have hsum : pending + (U16_MAX + 1) + (ticks - (U16_MAX + 1)) = pending + ticks := by omega
    rw [hsum]
    simp only [hdvd]
  | case2 ticks hlast =>
    have hmax : U16_MAX = 65535 := rfl
    rw [counters, if_neg hlast]
    cases ticks with
    | zero =>
      rw [if_pos ⟨0, rfl⟩]
      rfl
    | succ less =>
      rw [if_neg (by omega)]
      rfl

/-- Where no interval is a whole number of 65536 ticks, the replay is the intervals. -/
theorem replay_flatMap {intervals : List Nat} (h : ∀ ticks ∈ intervals, ¬ 65536 ∣ ticks) :
    replay 0 (intervals.flatMap counters) = intervals := by
  induction intervals with
  | nil => rfl
  | cons ticks intervals ih =>
    rw [List.flatMap_cons, replay_counters, if_neg (h ticks List.mem_cons_self), Nat.zero_add,
      ih fun other hother => h other (List.mem_cons_of_mem _ hother)]

theorem length_replay_le (pending : Nat) (intervals : List Nat) :
    (replay pending (intervals.flatMap counters)).length ≤ intervals.length := by
  induction intervals generalizing pending with
  | nil => exact Nat.zero_le _
  | cons ticks intervals ih =>
    rw [List.flatMap_cons, replay_counters, List.length_cons]
    split
    · exact Nat.le_succ_of_le (ih _)
    · exact Nat.succ_le_succ (ih _)

/-- Where one is, a transition is missing. -/
theorem length_replay_lt {pending ticks : Nat} {intervals : List Nat} (hmem : ticks ∈ intervals)
    (h : 65536 ∣ ticks) :
    (replay pending (intervals.flatMap counters)).length < intervals.length := by
  induction intervals generalizing pending with
  | nil => cases hmem
  | cons first intervals ih =>
    rw [List.flatMap_cons, replay_counters, List.length_cons]
    split
    · exact Nat.lt_succ_of_le (length_replay_le _ _)
    · rename_i hfirst
      rcases List.mem_cons.mp hmem with rfl | hrest
      · exact absurd h hfirst
      · exact Nat.succ_lt_succ (ih hrest)

/-! ## The track -/

/-- The ticks of a cell in the counters. -/
def cellTicks (highDensity : Bool) : Nat := if highDensity then 20 else 80

theorem writeTicks_cells (highDensity : Bool) (distance : Nat) :
    writeTicks highDensity (distance * cellNanoseconds highDensity) =
      distance * cellTicks highDensity := by
  cases highDensity
  · show (distance * 2000 + 12) / 25 = distance * 80
    omega
  · show (distance * 1000 + 25) / 50 = distance * 20
    omega

/-- The counters of a track: its distances in ticks. -/
theorem fluxCounters_eq (highDensity : Bool) {words : List (BitVec 16)} {bitLen : Nat}
    (hpos : 1 ≤ bitLen) (hwords : bitLen ≤ words.length * 16) (hmax : bitLen ≤ MAX_TRACK_BITS) :
    fluxCounters highDensity words bitLen =
      .ok (((trackGaps words bitLen).map (· * cellTicks highDensity)).flatMap counters) := by
  have hns : MAX_TRACK_BITS * cellNanoseconds highDensity < U32_RANGE := by
    cases highDensity <;> decide
  unfold fluxCounters
  rw [mfmToFlux_eq hns hpos hwords hmax]
  show Except.ok _ = Except.ok _
  congr 1
  rw [List.flatMap_map, List.flatMap_map]
  refine congrArg (List.flatMap · _) (funext fun distance => ?_)
  rw [writeTicks_cells]

/-- What is read for a distance. -/
theorem heard_cells (highDensity : Bool) {distance : Nat} (hmax : distance ≤ MAX_TRACK_BITS) :
    heard highDensity (distance * cellTicks highDensity) =
      ⟨distance * (if highDensity then 1000 else 2000), false⟩ := by
  have hmax : distance ≤ 237568 := hmax
  unfold heard streamTicks saturateU32 U32_RANGE
  cases highDensity
  · show FluxEvent.mk (min (distance * 80 * 25 / 50 * 50) (2 ^ 32 - 1)) false =
      ⟨distance * 2000, false⟩
    rw [show min (distance * 80 * 25 / 50 * 50) (2 ^ 32 - 1) = distance * 2000 by omega]
  · show FluxEvent.mk (min (distance * 20 * 25 / 50 * 100) (2 ^ 32 - 1)) false =
      ⟨distance * 1000, false⟩
    rw [show min (distance * 20 * 25 / 50 * 100) (2 ^ 32 - 1) = distance * 1000 by omega]

section Track

variable {words : List (BitVec 16)} {bitLen : Nat}

/-- An interval that loses its transition is not read back. -/
theorem readBack_lost {highDensity : Bool} {intervals distances : List Nat} {ticks : Nat}
    (hlength : intervals.length = distances.length) (hmem : ticks ∈ intervals)
    (h : 65536 ∣ ticks) :
    gaps 0 (readBack highDensity (intervals.flatMap counters)) ≠ distances := by
  intro hequal
  have hread := PllDecoder.new.length_gaps_run_le
    ((replay 0 (intervals.flatMap counters)).map (heard highDensity))
  have hlost : (replay 0 (intervals.flatMap counters)).length < intervals.length :=
    length_replay_lt hmem h
  rw [← readBack_eq, hequal, List.length_map] at hread
  omega

/-- The cells that come back where every transition does. -/
theorem readBack_kept {highDensity : Bool} (hmax : bitLen ≤ MAX_TRACK_BITS)
    (h : ∀ distance ∈ trackGaps words bitLen, ¬ 65536 ∣ distance * cellTicks highDensity) :
    readBack highDensity
        (((trackGaps words bitLen).map (· * cellTicks highDensity)).flatMap counters) =
      (PllDecoder.new.run ((trackGaps words bitLen).map fun distance =>
        ⟨distance * (if highDensity then 1000 else 2000), false⟩)).2 := by
  have hintervals : ∀ ticks ∈ (trackGaps words bitLen).map (· * cellTicks highDensity),
      ¬ 65536 ∣ ticks := by
    intro ticks hticks
    obtain ⟨distance, hd, rfl⟩ := List.mem_map.mp hticks
    exact h distance hd
  rw [readBack_eq, replay_flatMap hintervals, List.map_map]
  have hheard : (trackGaps words bitLen).map (heard highDensity ∘ (· * cellTicks highDensity)) =
      (trackGaps words bitLen).map fun distance =>
        ⟨distance * (if highDensity then 1000 else 2000), false⟩ :=
    List.map_congr_left fun distance hd => heard_cells highDensity (trackGaps_bounds hmax hd).2
  rw [hheard]

/-- **Double density.** The distances come back, unless one is a whole number of 4096 cells. -/
theorem readBack_double (hmax : bitLen ≤ MAX_TRACK_BITS) :
    gaps 0 (readBack false (((trackGaps words bitLen).map (· * cellTicks false)).flatMap counters))
        = trackGaps words bitLen ↔
      ∀ distance ∈ trackGaps words bitLen, ¬ 4096 ∣ distance := by
  constructor
  · intro hequal distance hd hdvd
    refine readBack_lost (List.length_map _) (List.mem_map_of_mem hd) ?_ hequal
    show 65536 ∣ distance * 80
    omega
  · intro hwhole
    have hkept : ∀ distance ∈ trackGaps words bitLen, ¬ 65536 ∣ distance * cellTicks false := by
      intro distance hd hdvd
      have hdvd : 65536 ∣ distance * 80 := hdvd
      exact hwhole distance hd (by omega)
    rw [readBack_kept hmax hkept]
    show gaps 0 (PllDecoder.new.run ((trackGaps words bitLen).map fun distance =>
      ⟨distance * 2000, false⟩)).2 = _
    rw [PllDecoder.run_centred _ fun _ hd => trackGaps_bounds hmax hd]
    exact gaps_cellsOf fun _ hd => (trackGaps_bounds hmax hd).1

/-! ## High density -/

/-- The first distance, in nanoseconds of high density, is read at half its cells. -/
theorem submit_first {distance : Nat} (hpos : 1 ≤ distance) (hmax : distance ≤ MAX_TRACK_BITS) :
    (PllDecoder.new.submit (distance * 1000)).2 =
      List.replicate ((distance - 1) / 2) false ++ [true] := by
  have hmax : distance ≤ 237568 := hmax
  have hpending : saturatingAdd 0 ((distance * 1000 : Nat) : Int) = distance * 1000 := by
    unfold saturatingAdd I64_MIN I64_MAX
    omega
  have hhalf : (2000 : Int).tdiv 2 = 1000 := rfl
  have hnot : ¬ (distance * 1000 : Int) < 1000 := by omega
  have hzeros : (distance * 1000 - 1000 : Int).tdiv 2000 = ((distance - 1) / 2 : Nat) := by
    rw [Int.tdiv_eq_ediv_of_nonneg (by omega)]
    omega
  have hmaxZero : max (((distance - 1) / 2 : Nat) : Int) 0 = ((distance - 1) / 2 : Nat) := by
    omega
  unfold PllDecoder.submit
  simp only [PllDecoder.new, CLOCK_CENTRE_NS, hpending, hhalf, hnot, hzeros, hmaxZero, if_false,
    Int.toNat_natCast]

/-- The PLL behind a first distance of one cell. -/
def early : PllDecoder := { clockNs := 2000, pendingNs := -500 }

/-- Behind it, a distance gives no transition or too few cells. -/
theorem submit_second {distance : Nat} (hpos : 1 ≤ distance) (hmax : distance ≤ MAX_TRACK_BITS) :
    (early.submit (distance * 1000)).2 = [] ∨
      ∃ zeros, zeros + 1 < distance ∧
        (early.submit (distance * 1000)).2 = List.replicate zeros false ++ [true] := by
  have hmax : distance ≤ 237568 := hmax
  have hpending : saturatingAdd (-500) ((distance * 1000 : Nat) : Int) = distance * 1000 - 500 := by
    unfold saturatingAdd I64_MIN I64_MAX
    omega
  have hhalf : (2000 : Int).tdiv 2 = 1000 := rfl
  unfold PllDecoder.submit
  simp only [early, hpending, hhalf]
  by_cases hone : distance = 1
  · left
    rw [if_pos (by omega)]
  · right
    have hzeros : (distance * 1000 - 500 - 1000 : Int).tdiv 2000 =
        ((2 * distance - 3) / 4 : Nat) := by
      rw [Int.tdiv_eq_ediv_of_nonneg (by omega)]
      omega
    have hmaxZero : max (((2 * distance - 3) / 4 : Nat) : Int) 0 =
        ((2 * distance - 3) / 4 : Nat) := by
      omega
    refine ⟨(2 * distance - 3) / 4, by omega, ?_⟩
    rw [if_neg (by omega), hzeros, hmaxZero, Int.toNat_natCast]

/-- Of the tracks read at half their length, only that of one cell is what was written. -/
theorem run_halved {distances : List Nat}
    (h : ∀ distance ∈ distances, 1 ≤ distance ∧ distance ≤ MAX_TRACK_BITS)
    (hequal : gaps 0 (PllDecoder.new.run (distances.map fun distance =>
      ⟨distance * 1000, false⟩)).2 = distances) :
    distances = [] ∨ distances = [1] := by
  cases distances with
  | nil => exact Or.inl rfl
  | cons first rest =>
    right
    obtain ⟨hpos, hmax⟩ := h first List.mem_cons_self
    rw [List.map_cons, PllDecoder.gaps_run_cons (submit_first hpos hmax)] at hequal
    injection hequal with hfirst hrest
    have hone : first = 1 := by omega
    subst hone
    cases rest with
    | nil => rfl
    | cons second rest =>
      obtain ⟨hpos, hmax⟩ := h second (List.mem_cons_of_mem _ List.mem_cons_self)
      exfalso
      -- behind an interval of one cell the phase is known, and the second interval is read from it
      have hearly : (PllDecoder.new.submit (1 * 1000)).1 = early := by decide +kernel
      rw [hearly, List.map_cons] at hrest
      rcases submit_second hpos hmax with hnone | ⟨zeros, hfew, hone⟩
      · rw [PllDecoder.run_cons, hnone, List.nil_append] at hrest
        have hlength := ((early.submit (second * 1000)).1).length_gaps_run_le
          (rest.map fun distance => ⟨distance * 1000, false⟩)
        rw [hrest, List.length_map, List.length_cons] at hlength
        omega
      · rw [PllDecoder.gaps_run_cons hone] at hrest
        injection hrest with hsecond
        omega

/-- **High density.** The distances come back for a track of one cell, and for no other. -/
theorem readBack_high (hpos : 1 ≤ bitLen) (hmax : bitLen ≤ MAX_TRACK_BITS) :
    gaps 0 (readBack true (((trackGaps words bitLen).map (· * cellTicks true)).flatMap counters))
        = trackGaps words bitLen ↔
      bitLen = 1 := by
  have hsum : (trackGaps words bitLen).sum = bitLen := by
    unfold trackGaps
    rw [sum_gaps, List.length_map, List.length_range, Nat.zero_add]
  have hbounds := fun distance (hd : distance ∈ trackGaps words bitLen) => trackGaps_bounds hmax hd
  constructor
  · intro hequal
    have hkept : ∀ distance ∈ trackGaps words bitLen, ¬ 65536 ∣ distance * cellTicks true := by
      intro distance hd hdvd
      refine readBack_lost (List.length_map _) (List.mem_map_of_mem hd) ?_ hequal
      exact hdvd
    rw [readBack_kept hmax hkept] at hequal
    rcases run_halved hbounds hequal with hnone | hone
    · rw [hnone] at hsum
      exact absurd hsum (by simp; omega)
    · rw [hone] at hsum
      exact hsum.symm
  · rintro rfl
    have hone : trackGaps words 1 = [1] := by
      show gaps 0 [wordBit words 0] = [1]
      cases wordBit words 0 <;> rfl
    have hkept : ∀ distance ∈ trackGaps words 1, ¬ 65536 ∣ distance * cellTicks true := by
      rw [hone]
      decide
    rw [readBack_kept hmax hkept, hone]
    decide +kernel

/--
**Replay agreement.** A track that `write_stream` accepts is read back with its distances at double
density, unless one of them is a whole number of 4096 cells. At high density it is not, unless it
has a single cell.
-/
theorem replayAgreement_iff (highDensity : Bool) (words : List (BitVec 16)) (bitLen : Nat)
    (hpos : 1 ≤ bitLen) (hwords : bitLen ≤ words.length * 16) (hmax : bitLen ≤ MAX_TRACK_BITS) :
    ∃ counts, fluxCounters highDensity words bitLen = .ok counts ∧
      (gaps 0 (readBack highDensity counts) = trackGaps words bitLen ↔
        if highDensity then bitLen = 1
        else ∀ distance ∈ trackGaps words bitLen, ¬ 4096 ∣ distance) := by
  refine ⟨_, fluxCounters_eq highDensity hpos hwords hmax, ?_⟩
  cases highDensity with
  | false => exact readBack_double hmax
  | true => exact readBack_high hpos hmax

end Track

theorem replayAgreement_oneWord : ∃ counts, fluxCounters false [0x9000] 4 = .ok counts ∧
    (gaps 0 (readBack false counts) = [1, 3] ↔ ∀ distance ∈ [1, 3], ¬ 4096 ∣ distance) :=
  replayAgreement_iff false [0x9000] 4 (by decide) (by decide) (by decide)

/-- Each transition of a track is 2 to 4 cells behind the one before. -/
def Spaced (words : List (BitVec 16)) (bitLen : Nat) : Prop :=
  ((List.range bitLen).filter (wordBit words)).IsChain fun first second =>
    first + 2 ≤ second ∧ second ≤ first + 4

instance (words : List (BitVec 16)) (bitLen : Nat) : Decidable (Spaced words bitLen) :=
  inferInstanceAs (Decidable (List.IsChain _ _))

/-- At high density the same track comes back at half its length. -/
theorem highDensity_halved : ¬ ∀ (highDensity : Bool) (words : List (BitVec 16)) (bitLen : Nat),
    1 ≤ bitLen → bitLen ≤ words.length * 16 → bitLen ≤ MAX_TRACK_BITS → Spaced words bitLen →
    ∃ counts, fluxCounters highDensity words bitLen = .ok counts ∧
      gaps 0 (readBack highDensity counts) = trackGaps words bitLen := by
  intro hall
  obtain ⟨counts, hcounts, hequal⟩ :=
    hall true [0x9000] 4 (by decide) (by decide) (by decide) (by decide)
  rw [fluxCounters_eq true (by decide) (by decide) (by decide)] at hcounts
  injection hcounts with hcounts
  rw [← hcounts] at hequal
  have hone : 4 = 1 := (readBack_high (by decide) (by decide)).mp hequal
  cases hone

end SuperCardPro

end FluxBridge
