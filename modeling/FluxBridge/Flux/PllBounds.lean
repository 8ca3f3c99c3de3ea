import FluxBridge.Flux.PllLock

/-!
# The bounds of the PLL

Whatever the delays, the clock stays within its limits and the phase within half a cell. A cell is
paid for by the delays at no less than 1250 ns: half of each phase error is thrown away, and the
phase that is kept is what the account is off by.

* `Bounded.submit_cases` — one delay is kept, or decoded with less than half a cell left over
* `Bounded.charge` — the cells of one delay and the change of the phase, against the delay
* `run_bounds` — state, fallbacks and output behind any delays
-/

namespace FluxBridge

/-- Clock and phase of a decoder, between two delays. -/
structure Bounded (pll : PllDecoder) : Prop where
  clock_low : CLOCK_MIN_NS ≤ pll.clockNs
  clock_high : pll.clockNs ≤ CLOCK_MAX_NS
  phase_low : -550 ≤ pll.pendingNs
  phase_high : pll.pendingNs < pll.clockNs.tdiv 2

theorem bounded_new : Bounded .new := by
  constructor <;> decide

/-- No fallback of `submit` changes a value: the sum is not saturated, the empty cells are not
negative, and their number fits a `usize`. -/
structure Exact (pll : PllDecoder) (nanoseconds : Nat) : Prop where
  sum : saturatingAdd pll.pendingNs nanoseconds = pll.pendingNs + nanoseconds
  zeros : pll.clockNs.tdiv 2 ≤ pll.pendingNs + nanoseconds →
    0 ≤ (pll.pendingNs + nanoseconds - pll.clockNs.tdiv 2).tdiv pll.clockNs ∧
      (pll.pendingNs + nanoseconds - pll.clockNs.tdiv 2).tdiv pll.clockNs < U32_RANGE

/-- What a delay appends: nothing, or the cells that it is nearest to on the clock in force. -/
def Appended (pll : PllDecoder) (nanoseconds : Nat) (cells : List Bool) : Prop :=
  cells = [] ∨ ∃ k : Nat, cells = List.replicate k false ++ [true] ∧
    ((pll.pendingNs + nanoseconds - (k + 1) * pll.clockNs).natAbs : Int) ≤ (pll.clockNs + 1) / 2

/-! ## One delay -/

section Delay

variable {pll : PllDecoder} {nanoseconds : Nat}

/-- The limits of the clock as numbers, and half of it without the truncation. -/
theorem Bounded.clock (h : Bounded pll) :
    1800 ≤ pll.clockNs ∧ pll.clockNs ≤ 2200 ∧ pll.clockNs.tdiv 2 = pll.clockNs / 2 := by
  obtain ⟨hmin, hmax, -, -⟩ := h
  unfold CLOCK_MIN_NS at hmin
  unfold CLOCK_MAX_NS at hmax
  exact ⟨hmin, hmax, Int.tdiv_eq_ediv_of_nonneg (by omega)⟩

theorem Bounded.saturatingAdd_eq (h : Bounded pll) (hdelay : nanoseconds < U32_RANGE) :
    saturatingAdd pll.pendingNs nanoseconds = pll.pendingNs + nanoseconds := by
  obtain ⟨hmin, hmax, hhalf⟩ := h.clock
  have hlow := h.phase_low
  have hhigh := h.phase_high
  unfold U32_RANGE at hdelay
  unfold saturatingAdd I64_MIN I64_MAX
  omega

/-- The empty cells of a delay, and what is left of it when all its cells are taken. -/
theorem Bounded.zeros (h : Bounded pll) (hlong : pll.clockNs.tdiv 2 ≤ pll.pendingNs + nanoseconds) :
    ∃ k : Nat, (pll.pendingNs + nanoseconds - pll.clockNs.tdiv 2).tdiv pll.clockNs = k ∧
      -(pll.clockNs - pll.clockNs / 2) ≤ pll.pendingNs + nanoseconds - (k + 1) * pll.clockNs ∧
      pll.pendingNs + nanoseconds - (k + 1) * pll.clockNs < pll.clockNs / 2 := by
  obtain ⟨hmin, hmax, hhalf⟩ := h.clock
  have hnonneg : 0 ≤ pll.pendingNs + nanoseconds - pll.clockNs.tdiv 2 := by omega
  have hpos : 0 < pll.clockNs := by omega
  obtain ⟨k, hk⟩ := Int.eq_ofNat_of_zero_le (Int.tdiv_nonneg hnonneg (Int.le_of_lt hpos))
  refine ⟨k, hk, ?_⟩
  rw [Int.tdiv_eq_ediv_of_nonneg hnonneg] at hk
  have hlow : (k : Int) * pll.clockNs ≤ pll.pendingNs + nanoseconds - pll.clockNs.tdiv 2 :=
    (Int.le_ediv_iff_mul_le hpos).mp (by omega)
  have hhigh : pll.pendingNs + nanoseconds - pll.clockNs.tdiv 2 < ((k : Int) + 1) * pll.clockNs :=
    (Int.ediv_lt_iff_lt_mul hpos).mp (by omega)
  rw [Int.add_mul, Int.one_mul] at hhigh ⊢
  omega

theorem Bounded.exact (h : Bounded pll) (hdelay : nanoseconds < U32_RANGE) :
    Exact pll nanoseconds := by
  refine ⟨h.saturatingAdd_eq hdelay, fun hlong => ?_⟩
  obtain ⟨hmin, hmax, hhalf⟩ := h.clock
  obtain ⟨k, hk, hlow, -⟩ := h.zeros hlong
  have hhigh := h.phase_high
  have hcells : ((k : Int) + 1) * 2 ≤ ((k : Int) + 1) * pll.clockNs :=
    Int.mul_le_mul_of_nonneg_left (by omega) (by omega)
  rw [hk]
  unfold U32_RANGE at hdelay ⊢
  omega

/-- One delay is kept, or decoded with at most half a cell left over. -/
theorem Bounded.submit_cases (h : Bounded pll) (hdelay : nanoseconds < U32_RANGE) :
    (pll.pendingNs + nanoseconds < pll.clockNs / 2 ∧
      pll.submit nanoseconds = ({ pll with pendingNs := pll.pendingNs + nanoseconds }, [])) ∨
    ∃ (k : Nat) (rest clock : Int), pll.pendingNs + nanoseconds = (k + 1) * pll.clockNs + rest ∧
      -(pll.clockNs - pll.clockNs / 2) ≤ rest ∧ rest < pll.clockNs / 2 ∧
      CLOCK_MIN_NS ≤ clock ∧ clock ≤ CLOCK_MAX_NS ∧
      pll.submit nanoseconds =
        ({ clockNs := clock, pendingNs := rest.tdiv 2 }, List.replicate k false ++ [true]) := by
  obtain ⟨hmin, hmax, hhalf⟩ := h.clock
  unfold PllDecoder.submit
  dsimp only
  rw [h.saturatingAdd_eq hdelay]
  split
  · next hshort => exact Or.inl ⟨by omega, rfl⟩
  · next hlong =>
    obtain ⟨k, hk, hlow, hhigh⟩ := h.zeros (Int.not_lt.mp hlong)
    have hmax : max (k : Int) 0 = k := by omega
    rw [hk, hmax]
    refine Or.inr ⟨k, _, _, by omega, hlow, hhigh, ?_, ?_, rfl⟩
    · unfold CLOCK_MIN_NS CLOCK_MAX_NS
      omega
    · unfold CLOCK_MIN_NS CLOCK_MAX_NS
      omega

/-- The bounds are kept. -/
theorem Bounded.submit (h : Bounded pll) (hdelay : nanoseconds < U32_RANGE) :
    Bounded (pll.submit nanoseconds).1 := by
  obtain ⟨hmin, hmax, hhalf⟩ := h.clock
  have hlow := h.phase_low
  rcases h.submit_cases hdelay with ⟨hshort, heq⟩ | ⟨k, rest, clock, -, hrest, hrest', hc, hc', heq⟩
  · rw [heq]
    exact ⟨h.clock_low, h.clock_high, by dsimp only; omega, by dsimp only; omega⟩
  · rw [heq]
    unfold CLOCK_MIN_NS at hc
    have hclock : clock.tdiv 2 = clock / 2 := Int.tdiv_eq_ediv_of_nonneg (by omega)
    refine ⟨hc, hc', ?_, ?_⟩
    all_goals
      dsimp only
      rw [tdiv_eq_ite]
      split <;> omega

theorem Bounded.appended (h : Bounded pll) (hdelay : nanoseconds < U32_RANGE) :
    Appended pll nanoseconds (pll.submit nanoseconds).2 := by
  obtain ⟨hmin, hmax, hhalf⟩ := h.clock
  rcases h.submit_cases hdelay with ⟨-, heq⟩ | ⟨k, rest, clock, hsum, hrest, hrest', -, -, heq⟩
  · rw [heq]
    exact Or.inl rfl
  · rw [heq]
    refine Or.inr ⟨k, rfl, ?_⟩
    rw [hsum]
    omega

/-- **The account.** What a delay adds to the cells, at 1250 ns each, and to the phase is covered
by the delay itself. -/
theorem Bounded.charge (h : Bounded pll) (hdelay : nanoseconds < U32_RANGE) :
    1250 * ((pll.submit nanoseconds).2.length : Int) + (pll.submit nanoseconds).1.pendingNs ≤
      pll.pendingNs + nanoseconds := by
  obtain ⟨hmin, hmax, hhalf⟩ := h.clock
  rcases h.submit_cases hdelay with ⟨-, heq⟩ | ⟨k, rest, clock, hsum, hrest, hrest', -, -, heq⟩
  · rw [heq]
    simp
  · rw [heq, hsum]
    -- a cell takes 550 ns more than it is charged, and half of the rest is less than that
    have hcells : 0 ≤ (k : Int) * (pll.clockNs - 1250) := Int.mul_nonneg (by omega) (by omega)
    rw [Int.mul_sub] at hcells
    rw [List.length_append, List.length_replicate, List.length_singleton, Int.natCast_add,
      Int.add_mul, Int.one_mul, tdiv_eq_ite]
    dsimp only
    split <;> omega

end Delay

/-! ## Any delays -/

/-- The sum of the delays of a list of events. -/
def totalDelay (events : List FluxEvent) : Nat := (events.map FluxEvent.nanoseconds).sum

/-- Bounds and account of a run, from a decoder that is within them. -/
theorem Bounded.run {events : List FluxEvent}
    (hdelays : ∀ event ∈ events, event.nanoseconds < U32_RANGE) {pll : PllDecoder}
    (h : Bounded pll) :
    Bounded (pll.run events).1 ∧
      1250 * ((pll.run events).2.length : Int) + (pll.run events).1.pendingNs ≤
        pll.pendingNs + totalDelay events := by
  -- on the events: each one's account ends at the phase the next one starts from
  induction events generalizing pll with
  | nil =>
    refine ⟨h, ?_⟩
    simp [PllDecoder.run, totalDelay]
  | cons event events ih =>
    obtain ⟨hdelay, hdelays⟩ := List.forall_mem_cons.mp hdelays
    have hcharge := h.charge hdelay
    obtain ⟨hlast, hrest⟩ := ih hdelays (h.submit hdelay)
    have htotal : totalDelay (event :: events) = event.nanoseconds + totalDelay events := by
      unfold totalDelay
      rw [List.map_cons, List.sum_cons]
    rw [PllDecoder.run_cons]
    refine ⟨hlast, ?_⟩
    dsimp only
    rw [List.length_append, htotal]
    omega

/--
**Bounds.** Behind any delays, each of them a `u32`, clock and phase of a fresh decoder are within
their bounds and the cells cost at least 1250 ns each, but for 550 ns in all. Whatever delay comes
next, no fallback changes a value, and it appends nothing or the cells it is nearest to.
-/
theorem run_bounds (events : List FluxEvent)
    (hdelays : ∀ event ∈ events, event.nanoseconds < U32_RANGE) :
    let (pll, cells) := PllDecoder.new.run events
    (1800 ≤ pll.clockNs ∧ pll.clockNs ≤ 2200) ∧
      (-550 ≤ pll.pendingNs ∧ pll.pendingNs < pll.clockNs.tdiv 2) ∧
      1250 * cells.length ≤ totalDelay events + 550 ∧
      ∀ nanoseconds < U32_RANGE,
        Exact pll nanoseconds ∧ Appended pll nanoseconds (pll.submit nanoseconds).2 := by
  dsimp only
  obtain ⟨hlast, haccount⟩ := bounded_new.run hdelays
  obtain ⟨hmin, hmax, -⟩ := hlast.clock
  refine ⟨⟨hmin, hmax⟩, ⟨hlast.phase_low, hlast.phase_high⟩, ?_, fun nanoseconds hdelay =>
    ⟨hlast.exact hdelay, hlast.appended hdelay⟩⟩
  have hlow := hlast.phase_low
  have hnew : PllDecoder.new.pendingNs = 0 := rfl
  omega

theorem run_bounds_long :
    let (pll, cells) := PllDecoder.new.run [⟨0, false⟩, ⟨99999, true⟩, ⟨1, false⟩]
    (1800 ≤ pll.clockNs ∧ pll.clockNs ≤ 2200) ∧
      (-550 ≤ pll.pendingNs ∧ pll.pendingNs < pll.clockNs.tdiv 2) ∧
      1250 * cells.length ≤ totalDelay [⟨0, false⟩, ⟨99999, true⟩, ⟨1, false⟩] + 550 ∧
      ∀ nanoseconds < U32_RANGE,
        Exact pll nanoseconds ∧ Appended pll nanoseconds (pll.submit nanoseconds).2 :=
  run_bounds [⟨0, false⟩, ⟨99999, true⟩, ⟨1, false⟩] (by decide)

end FluxBridge
