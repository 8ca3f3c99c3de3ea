import FluxBridge.Flux.Pll

/-!
# The lock of the PLL

Clock and phase pull at each other, and neither error shrinks on its own. What holds after every
interval is a region of both: the clock is off by at most 60 ns, the phase by at most 300 ns, and
the phase is within 180 ns of three times the error of the clock.

* `Locked.submit` — in the region an interval of two to four noisy cells is decoded to its cells
* `run_intervals` — a fresh decoder never slips a cell
-/

namespace FluxBridge

/-! ## Truncating division -/

/-- Division that truncates towards zero, by the one that rounds down. -/
theorem tdiv_eq_ite (a b : Int) : a.tdiv b = if 0 ≤ a then a / b else -(-a / b) := by
  split
  · next h => exact Int.tdiv_eq_ediv_of_nonneg h
  · next h =>
    rw [← Int.tdiv_eq_ediv_of_nonneg (by omega), Int.neg_tdiv, Int.neg_neg]

/-- A quotient between two multiples of the divisor. -/
theorem tdiv_eq_of_between {a b q : Int} (hb : 0 < b) (ha : 0 ≤ a) (hlow : q * b ≤ a)
    (hhigh : a < (q + 1) * b) : a.tdiv b = q := by
  rw [Int.tdiv_eq_ediv_of_nonneg ha]
  have hle : q ≤ a / b := (Int.le_ediv_iff_mul_le hb).mpr hlow
  have hlt : a / b < q + 1 := (Int.ediv_lt_iff_lt_mul hb).mpr hhigh
  omega

/-! ## Intervals -/

/-- The distance between two transitions: two to four cells, and up to 50 ns of jitter. -/
structure NoisyInterval where
  cells : Nat
  jitter : Int
  two_le : 2 ≤ cells
  le_four : cells ≤ 4
  low : -50 ≤ jitter
  high : jitter ≤ 50

namespace NoisyInterval

/-- The delay, with cells of `cellTime` ns. -/
def delay (interval : NoisyInterval) (cellTime : Int) : Int :=
  interval.cells * cellTime + interval.jitter

/-- The cells: the last one holds the transition. -/
def decoded (interval : NoisyInterval) : List Bool :=
  List.replicate (interval.cells - 1) false ++ [true]

end NoisyInterval

/-! ## The region -/

/-- Clock and phase of a decoder that is locked to cells of `cellTime` ns. -/
structure Locked (pll : PllDecoder) (cellTime : Int) : Prop where
  clock_low : -60 ≤ cellTime - pll.clockNs
  clock_high : cellTime - pll.clockNs ≤ 60
  phase_low : -300 ≤ pll.pendingNs
  phase_high : pll.pendingNs ≤ 300
  skew_low : -180 ≤ pll.pendingNs - 3 * (cellTime - pll.clockNs)
  skew_high : pll.pendingNs - 3 * (cellTime - pll.clockNs) ≤ 180

/-- A fresh decoder is locked to every cell time it can pull in to. -/
theorem locked_new {cellTime : Int} (hlow : 1940 ≤ cellTime) (hhigh : cellTime ≤ 2060) :
    Locked .new cellTime := by
  constructor <;> simp only [PllDecoder.new, CLOCK_CENTRE_NS] <;> omega

/-- What is left of the phase when the cells of an interval are taken from it. -/
def restOf (pll : PllDecoder) (delay : Int) (cells : Nat) : Int :=
  pll.pendingNs + delay - cells * pll.clockNs

/-- In the region the rest of an interval is well within half a cell. -/
theorem Locked.rest {pll : PllDecoder} {cellTime : Int} (h : Locked pll cellTime)
    (interval : NoisyInterval) :
    -600 ≤ restOf pll (interval.delay cellTime) interval.cells ∧
      restOf pll (interval.delay cellTime) interval.cells ≤ 600 := by
  obtain ⟨cells, jitter, htwo, hfour, hlow, hhigh⟩ := interval
  obtain ⟨hc, hc', hp, hp', hs, hs'⟩ := h
  unfold restOf NoisyInterval.delay
  dsimp only
  obtain rfl | rfl | rfl : cells = 2 ∨ cells = 3 ∨ cells = 4 := by omega
  all_goals
    constructor <;> omega

/-- The clock and the phase behind an interval. -/
def corrected (pll : PllDecoder) (rest : Int) (cells : Nat) : PllDecoder :=
  { clockNs := pll.clockNs + (rest.tdiv cells).tdiv 10, pendingNs := rest.tdiv 2 }

/-- The region is kept. -/
theorem Locked.corrected {pll : PllDecoder} {cellTime : Int} (h : Locked pll cellTime)
    (interval : NoisyInterval) :
    Locked (corrected pll (restOf pll (interval.delay cellTime) interval.cells) interval.cells)
      cellTime := by
  obtain ⟨cells, jitter, htwo, hfour, hlow, hhigh⟩ := interval
  obtain ⟨hc, hc', hp, hp', hs, hs'⟩ := h
  unfold restOf NoisyInterval.delay FluxBridge.corrected
  dsimp only
  obtain rfl | rfl | rfl : cells = 2 ∨ cells = 3 ∨ cells = 4 := by omega
  all_goals
    simp only [tdiv_eq_ite]
    constructor <;> dsimp only <;> split <;> omega

/-- An interval of `cells` cells, but for a rest of less than half a cell. -/
theorem submit_of_rest {pll : PllDecoder} {cells delay : Nat} {rest : Int} (htwo : 2 ≤ cells)
    (hfour : cells ≤ 4) (hclock : 0 < pll.clockNs)
    (hdelay : saturatingAdd pll.pendingNs delay = cells * pll.clockNs + rest)
    (hlow : 0 ≤ pll.clockNs - pll.clockNs / 2 + rest) (hhigh : rest < pll.clockNs / 2)
    (hmin : CLOCK_MIN_NS ≤ (corrected pll rest cells).clockNs)
    (hmax : (corrected pll rest cells).clockNs ≤ CLOCK_MAX_NS) :
    pll.submit delay = (corrected pll rest cells, List.replicate (cells - 1) false ++ [true]) := by
  have hhalf : pll.clockNs.tdiv 2 = pll.clockNs / 2 := Int.tdiv_eq_ediv_of_nonneg (by omega)
  have hless : ((cells : Int) - 1) * pll.clockNs = cells * pll.clockNs - pll.clockNs := by
    rw [Int.sub_mul, Int.one_mul]
  have hlong : 2 * pll.clockNs ≤ cells * pll.clockNs :=
    Int.mul_le_mul_of_nonneg_right (by omega) (by omega)
  -- the rest is too small for the rounding to lose or to gain a cell
  have hzeros : (cells * pll.clockNs + rest - pll.clockNs / 2).tdiv pll.clockNs =
      (cells : Int) - 1 := by
    refine tdiv_eq_of_between hclock (by omega) ?_ ?_
    · rw [hless]
      omega
    · rw [Int.sub_add_cancel]
      omega
  have hleft : cells * pll.clockNs + rest - ((cells : Int) - 1 + 1) * pll.clockNs = rest := by
    rw [Int.sub_add_cancel]
    omega
  have hdrift : pll.drift ((cells : Int) - 1) rest = (rest.tdiv cells).tdiv 10 := by
    unfold PllDecoder.drift
    rw [if_pos (by omega), Int.sub_add_cancel]
  have hclamp : max CLOCK_MIN_NS (min CLOCK_MAX_NS (pll.clockNs + (rest.tdiv cells).tdiv 10)) =
      pll.clockNs + (rest.tdiv cells).tdiv 10 := by
    have hmin : CLOCK_MIN_NS ≤ pll.clockNs + (rest.tdiv cells).tdiv 10 := hmin
    have hmax : pll.clockNs + (rest.tdiv cells).tdiv 10 ≤ CLOCK_MAX_NS := hmax
    omega
  have hnonneg : max ((cells : Int) - 1) 0 = (cells : Int) - 1 := by omega
  have htoNat : ((cells : Int) - 1).toNat = cells - 1 := by omega
  unfold PllDecoder.submit
  dsimp only
  rw [hdelay, hhalf, if_neg (by omega), hzeros, hnonneg, hleft, hdrift, hclamp, htoNat]
  rfl

theorem NoisyInterval.delay_nonneg (interval : NoisyInterval) {cellTime : Int}
    (hlow : 1940 ≤ cellTime) : 0 ≤ interval.delay cellTime := by
  obtain ⟨cells, jitter, htwo, hfour, hj, hj'⟩ := interval
  unfold delay
  obtain rfl | rfl | rfl : cells = 2 ∨ cells = 3 ∨ cells = 4 := by omega
  all_goals
    dsimp only
    omega

theorem NoisyInterval.delay_le (interval : NoisyInterval) {cellTime : Int}
    (hhigh : cellTime ≤ 2060) : interval.delay cellTime ≤ 8290 := by
  obtain ⟨cells, jitter, htwo, hfour, hj, hj'⟩ := interval
  unfold delay
  obtain rfl | rfl | rfl : cells = 2 ∨ cells = 3 ∨ cells = 4 := by omega
  all_goals
    dsimp only
    omega

/-- In the region an interval is decoded to its cells, and neither clock nor phase is limited. -/
theorem Locked.submit {pll : PllDecoder} {cellTime : Int} (h : Locked pll cellTime)
    (hlow : 1940 ≤ cellTime) (hhigh : cellTime ≤ 2060) (interval : NoisyInterval) :
    pll.submit (interval.delay cellTime).toNat =
      (FluxBridge.corrected pll (restOf pll (interval.delay cellTime) interval.cells)
        interval.cells, interval.decoded) := by
  have hnext := h.corrected interval
  obtain ⟨hrest, hrest'⟩ := h.rest interval
  have hclock : 1880 ≤ pll.clockNs ∧ pll.clockNs ≤ 2120 := by
    have hc := h.clock_low
    have hc' := h.clock_high
    omega
  have hsat : saturatingAdd pll.pendingNs (interval.delay cellTime).toNat =
      interval.cells * pll.clockNs + restOf pll (interval.delay cellTime) interval.cells := by
    have hp := h.phase_low
    have hp' := h.phase_high
    have hnonneg := interval.delay_nonneg hlow
    have hle := interval.delay_le hhigh
    rw [Int.toNat_of_nonneg hnonneg]
    unfold saturatingAdd restOf I64_MIN I64_MAX
    omega
  refine submit_of_rest interval.two_le interval.le_four (by omega) hsat (by omega) (by omega) ?_ ?_
  · have hc' := hnext.clock_high
    unfold CLOCK_MIN_NS
    omega
  · have hc := hnext.clock_low
    unfold CLOCK_MAX_NS
    omega

/-! ## A whole run -/

/-- From a locked decoder every interval of a run is decoded to its cells. -/
theorem Locked.run {cellTime : Int} (hlow : 1940 ≤ cellTime) (hhigh : cellTime ≤ 2060)
    (intervals : List NoisyInterval) {events : List FluxEvent}
    (hevents : events.map (fun event => event.nanoseconds) =
      intervals.map fun interval => (interval.delay cellTime).toNat)
    {pll : PllDecoder} (h : Locked pll cellTime) :
    (pll.run events).2 = intervals.flatMap NoisyInterval.decoded ∧
      Locked (pll.run events).1 cellTime := by
  -- on the intervals: the region is what each leaves to the next
  induction intervals generalizing events pll with
  | nil =>
    rw [List.map_nil, List.map_eq_nil_iff] at hevents
    subst hevents
    exact ⟨rfl, h⟩
  | cons interval intervals ih =>
    obtain ⟨event, rest, rfl, hevent, hrest⟩ := List.map_eq_cons_iff.mp hevents
    have hsubmit := h.submit hlow hhigh interval
    rw [show (interval.delay cellTime).toNat = event.nanoseconds from hevent.symm] at hsubmit
    have hnext : Locked (pll.submit event.nanoseconds).1 cellTime := by
      rw [hsubmit]
      exact h.corrected interval
    obtain ⟨hcells, hlast⟩ := ih hrest hnext
    rw [PllDecoder.run_cons]
    refine ⟨?_, hlast⟩
    dsimp only
    rw [hcells, hsubmit, List.flatMap_cons]

/--
**Lock.** With a constant cell time of 1940 to 2060 ns and up to 50 ns of jitter on every interval
of two to four cells, a fresh decoder never loses or gains a cell, however long the run.
-/
theorem run_intervals {cellTime : Int} (hlow : 1940 ≤ cellTime) (hhigh : cellTime ≤ 2060)
    (intervals : List NoisyInterval) (events : List FluxEvent)
    (hevents : events.map (fun event => event.nanoseconds) =
      intervals.map fun interval => (interval.delay cellTime).toNat) :
    (PllDecoder.new.run events).2 =
      intervals.flatMap fun interval => List.replicate (interval.cells - 1) false ++ [true] :=
  ((locked_new hlow hhigh).run hlow hhigh intervals hevents).1

theorem run_intervals_three :
    (PllDecoder.new.run [⟨4170, false⟩, ⟨8190, true⟩, ⟨6180, false⟩]).2 =
      [false, true, false, false, false, true, false, false, true] :=
  @run_intervals 2060 (by decide) (by decide)
    [⟨2, 50, by decide, by decide, by decide, by decide⟩,
      ⟨4, -50, by decide, by decide, by decide, by decide⟩,
      ⟨3, 0, by decide, by decide, by decide, by decide⟩] _ (by decide)

end FluxBridge
