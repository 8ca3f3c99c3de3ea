import FluxBridge.Flux.Rotation
import FluxBridge.Flux.LeastBest
import Mathlib.Data.Nat.Find

/-!
# The join of an immediate capture

What `bits_to_unaligned_revolution` answers, in terms of how many cells agree under each anchor.
An anchor elects the least of its best candidates, when that one is convincing under a majority
of the anchors; the capture is cut where the first anchor that elects one says.

* `findJoin_spec` — the search ends on what the first electing anchor elects
* `join_robust` — no access out of bounds, and one damaged anchor decides nothing
* `join_of_repeating` — where a capture that repeats exactly is cut
-/

namespace FluxBridge

namespace Join

/-! ## Candidates and scores -/

/-- Cells of a nominal revolution. -/
def nominal (highDensity : Bool) : Nat := if highDensity then 200000 else 100000

/-- The shortest candidate. -/
def lower (highDensity : Bool) : Nat := nominal highDensity * 4 / 5

/-- The cells up to the end of the last anchor's window. -/
def reach : Nat := JOIN_WARMUP_CELLS + JOIN_ANCHORS.getLastD 0 + JOIN_SAMPLE_CELLS

/-- The longest candidate. -/
def upper (bits : List Bool) (highDensity : Bool) : Nat :=
  min (nominal highDensity * 6 / 5) (bits.length - reach)

/-- The capture is long enough to look for a join. -/
def LongEnough (bits : List Bool) (highDensity : Bool) : Prop :=
  lower highDensity < upper bits highDensity ∧ lower highDensity + reach ≤ bits.length

/-- The candidates, in the order in which they are tried. -/
def candidates (bits : List Bool) (highDensity : Bool) : List Nat :=
  List.range' (lower highDensity) (upper bits highDensity + 1 - lower highDensity)

/-- How many of the cells under an anchor come again `candidate` cells later. -/
def agreement (bits : List Bool) (anchor candidate : Nat) : Nat :=
  (List.range JOIN_SAMPLE_CELLS).countP fun i =>
    bits.getD (JOIN_WARMUP_CELLS + anchor + i) false ==
      bits.getD (JOIN_WARMUP_CELLS + anchor + candidate + i) false

/-- The anchors under which a candidate is convincing. -/
def votes (bits : List Bool) (candidate : Nat) : Nat :=
  JOIN_ANCHORS.countP fun anchor => decide (CONVINCING ≤ agreement bits anchor candidate)

theorem mem_candidates {bits : List Bool} {highDensity : Bool} {c : Nat}
    (hlong : LongEnough bits highDensity) :
    c ∈ candidates bits highDensity ↔ lower highDensity ≤ c ∧ c ≤ upper bits highDensity := by
  have hlt := hlong.1
  unfold candidates
  rw [List.mem_range'_1]
  omega

/-- Every window of a candidate lies inside the capture. -/
theorem candidate_fits {bits : List Bool} {highDensity : Bool} {c : Nat}
    (hlong : LongEnough bits highDensity) (hc : c ∈ candidates bits highDensity) :
    c + reach ≤ bits.length := by
  have hroom := hlong.2
  have hle := ((mem_candidates hlong).mp hc).2
  unfold upper at hle
  omega

theorem anchor_le {anchor : Nat} (ha : anchor ∈ JOIN_ANCHORS) :
    JOIN_WARMUP_CELLS + anchor + JOIN_SAMPLE_CELLS ≤ reach := by
  revert anchor
  decide

theorem agreement_le (bits : List Bool) (anchor candidate : Nat) :
    agreement bits anchor candidate ≤ JOIN_SAMPLE_CELLS := by
  unfold agreement
  exact List.countP_le_length.trans_eq (List.length_range)

theorem slice_eq {bits : List Bool} {start count : Nat} (h : start + count ≤ bits.length) :
    slice bits start count =
      some ((List.range count).map fun i => bits.getD (start + i) false) := by
  unfold slice
  rw [if_pos h]
  congr 1
  apply List.ext_getElem
  · simp only [List.length_take, List.length_drop, List.length_map, List.length_range]
    omega
  · intro i hi _
    have hin : start + i < bits.length := by
      simp only [List.length_take, List.length_drop] at hi
      omega
    simp [hin]

/-- Inside the capture the score is the number of cells that agree. -/
theorem scoreAt_eq {bits : List Bool} {anchor candidate : Nat} (ha : anchor ∈ JOIN_ANCHORS)
    (hfit : candidate + reach ≤ bits.length) :
    scoreAt bits anchor candidate = some (agreement bits anchor candidate) := by
  have hreach := anchor_le ha
  unfold scoreAt
  simp only [slice_eq (show JOIN_WARMUP_CELLS + anchor + JOIN_SAMPLE_CELLS ≤ bits.length by omega),
    slice_eq (show JOIN_WARMUP_CELLS + anchor + candidate + JOIN_SAMPLE_CELLS ≤ bits.length
      by omega), Option.bind_eq_bind, Option.bind_some, List.zip_map', List.countP_map]
  rfl

theorem mapM_some {α β : Type} {f : α → Option β} {g : α → β} {l : List α}
    (h : ∀ a ∈ l, f a = some (g a)) : l.mapM f = some (l.map g) := by
  induction l with
  | nil => rfl
  | cons a l ih =>
    rw [List.mapM_cons, h a List.mem_cons_self, ih fun b hb => h b (List.mem_cons_of_mem a hb)]
    rfl

theorem agreeing_eq {bits : List Bool} {candidate : Nat}
    (hfit : candidate + reach ≤ bits.length) :
    FluxBridge.agreeing bits candidate = some (votes bits candidate) := by
  have hscores : JOIN_ANCHORS.mapM (fun anchor => scoreAt bits anchor candidate) =
      some (JOIN_ANCHORS.map fun anchor => agreement bits anchor candidate) := by
    exact mapM_some fun anchor ha => scoreAt_eq ha hfit
  unfold FluxBridge.agreeing
  simp only [hscores, Option.bind_eq_bind, Option.bind_some, Option.pure_def, List.countP_map,
    Function.comp_def, votes]

/-- The scan over the candidates of one anchor. -/
theorem bestCandidate_eq {bits : List Bool} {leader : Nat} (hl : leader ∈ JOIN_ANCHORS)
    {candidates : List Nat} (hfit : ∀ c ∈ candidates, c + reach ≤ bits.length) :
    bestCandidate bits leader candidates =
      some (candidates.foldl (keepBetter (agreement bits leader)) (0, 0)) := by
  unfold bestCandidate
  generalize ((0, 0) : Nat × Nat) = best
  induction candidates generalizing best with
  | nil => rfl
  | cons c candidates ih =>
    have hc := scoreAt_eq hl (hfit c List.mem_cons_self)
    have hrest := ih (fun d hd => hfit d (List.mem_cons_of_mem c hd))
    rw [List.foldlM_cons, hc, List.foldl_cons, ← hrest]
    by_cases hlt : best.2 < agreement bits leader c
    · simp [keepBetter, hlt]
    · simp [keepBetter, hlt]

/-! ## Elections -/

/-- A majority of the anchors finds a candidate convincing. -/
def Believed (bits : List Bool) (candidate : Nat) : Prop :=
  JOIN_ANCHORS.length < votes bits candidate * 2

/-- What an anchor elects: the least of its best candidates, if that one is convincing under it
and under a majority of the anchors. -/
structure Elects (bits : List Bool) (highDensity : Bool) (leader join : Nat) : Prop where
  best : LeastBest (agreement bits leader) (candidates bits highDensity) join
  convincing : CONVINCING ≤ agreement bits leader join
  believed : Believed bits join

/-- The scan under one anchor: the least of its best candidates, or nothing that scores. -/
theorem bestCandidate_spec {bits : List Bool} {highDensity : Bool} {leader : Nat}
    (hlong : LongEnough bits highDensity) (hl : leader ∈ JOIN_ANCHORS) :
    (bestCandidate bits leader (candidates bits highDensity) = some (0, 0) ∧
      ∀ c ∈ candidates bits highDensity, agreement bits leader c = 0) ∨
      ∃ join, bestCandidate bits leader (candidates bits highDensity) =
          some (join, agreement bits leader join) ∧
        LeastBest (agreement bits leader) (candidates bits highDensity) join := by
  have hsorted : (candidates bits highDensity).Pairwise (· < ·) := List.pairwise_lt_range'
  rw [bestCandidate_eq hl fun c hc => candidate_fits hlong hc]
  rcases @foldl_keepBetter _ _ _ _ (agreement bits leader) _ hsorted (0, 0) with
    ⟨hend, hnone⟩ | ⟨join, hend, _, hbest⟩
  · exact .inl ⟨congrArg some hend, fun c hc => Nat.le_zero.mp (hnone c hc)⟩
  · exact .inr ⟨join, congrArg some hend, hbest⟩

/-- One round of the search: an anchor that elects a candidate ends it, any other passes on. -/
theorem findJoin_cons {bits : List Bool} {highDensity : Bool} {leader : Nat}
    (hlong : LongEnough bits highDensity) (hl : leader ∈ JOIN_ANCHORS) (leaders : List Nat)
    (nearest : Nat) :
    (∃ join, Elects bits highDensity leader join ∧
      findJoin bits (candidates bits highDensity) (leader :: leaders) nearest =
        some (.inl join)) ∨
    ((∀ join, ¬ Elects bits highDensity leader join) ∧ ∃ nearer,
      findJoin bits (candidates bits highDensity) (leader :: leaders) nearest =
        findJoin bits (candidates bits highDensity) leaders nearer) := by
  rw [findJoin]
  rcases bestCandidate_spec hlong hl with ⟨hend, hnone⟩ | ⟨join, hend, hbest⟩
  · refine .inr ⟨?_, max nearest 0, ?_⟩
    · intro join helects
      have hconv := helects.convincing
      rw [hnone join helects.best.mem] at hconv
      exact absurd hconv (by decide)
    · rw [hend]
      rfl
  · rw [hend]
    by_cases hconvincing : agreement bits leader join < CONVINCING
    · refine .inr ⟨?_, max nearest (agreement bits leader join), ?_⟩
      · intro other helects
        have hconv := helects.convincing
        rw [helects.best.unique hbest] at hconv
        omega
      · simp [hconvincing]
    · have hagreeing := agreeing_eq (candidate_fits hlong hbest.mem)
      by_cases hbelieved : Believed bits join
      · refine .inl ⟨join, ⟨hbest, not_lt.mp hconvincing, hbelieved⟩, ?_⟩
        have hmajority : JOIN_ANCHORS.length < votes bits join * 2 := hbelieved
        simp [hconvincing, hagreeing, hmajority]
      · refine .inr ⟨?_, max nearest (agreement bits leader join), ?_⟩
        · intro other helects
          have hbel := helects.believed
          rw [helects.best.unique hbest] at hbel
          exact hbelieved hbel
        · have hmajority : ¬ JOIN_ANCHORS.length < votes bits join * 2 := hbelieved
          simp [hconvincing, hagreeing, hmajority]

/--
**The search.** It ends on what the first anchor that elects a candidate elects, and finds nothing
when no anchor does. It reads nothing outside the capture.
-/
theorem findJoin_spec {bits : List Bool} {highDensity : Bool}
    (hlong : LongEnough bits highDensity) {leaders : List Nat}
    (hleaders : ∀ leader ∈ leaders, leader ∈ JOIN_ANCHORS) (nearest : Nat) :
    (∃ before leader after join, leaders = before ++ leader :: after ∧
      Elects bits highDensity leader join ∧
      (∀ other ∈ before, ∀ c, ¬ Elects bits highDensity other c) ∧
      findJoin bits (candidates bits highDensity) leaders nearest = some (.inl join)) ∨
    ((∀ other ∈ leaders, ∀ c, ¬ Elects bits highDensity other c) ∧
      ∃ score, findJoin bits (candidates bits highDensity) leaders nearest =
        some (.inr score)) := by
  induction leaders generalizing nearest with
  | nil => exact .inr ⟨nofun, nearest, rfl⟩
  | cons leader leaders ih =>
    have hl := hleaders leader List.mem_cons_self
    have hrest : ∀ other ∈ leaders, other ∈ JOIN_ANCHORS :=
      fun other ho => hleaders other (List.mem_cons_of_mem leader ho)
    rcases findJoin_cons hlong hl leaders nearest with ⟨join, helects, hend⟩ | ⟨hpass, n, hend⟩
    · exact .inl ⟨[], leader, leaders, join, rfl, helects, nofun, hend⟩
    · rw [hend]
      rcases ih hrest n with ⟨before, first, after, join, hsplit, helects, hbefore, hfound⟩ |
        ⟨hnone, hfound⟩
      · refine .inl ⟨leader :: before, first, after, join, by rw [hsplit]; rfl, helects, ?_,
          hfound⟩
        intro other ho
        rcases List.mem_cons.mp ho with rfl | ho
        · exact hpass
        · exact hbefore other ho
      · refine .inr ⟨?_, hfound⟩
        intro other ho
        rcases List.mem_cons.mp ho with rfl | ho
        · exact hpass
        · exact hnone other ho

/-- The first anchor that elects a candidate, with that candidate. -/
def FirstElects (bits : List Bool) (highDensity : Bool) (leader join : Nat) : Prop :=
  ∃ before after, JOIN_ANCHORS = before ++ leader :: after ∧
    Elects bits highDensity leader join ∧
    ∀ other ∈ before, ∀ c, ¬ Elects bits highDensity other c

/-- A capture that is too short is refused. -/
theorem join_of_short {bits : List Bool} {highDensity : Bool}
    (hshort : ¬ LongEnough bits highDensity) :
    ∃ e, bitsToUnalignedRevolution bits highDensity = some (.error e) := by
  have hcond : upper bits highDensity ≤ lower highDensity ∨
      bits.length < lower highDensity + reach := by
    by_contra hnot
    rw [not_or] at hnot
    exact hshort ⟨not_le.mp hnot.1, not_lt.mp hnot.2⟩
  exact ⟨_, if_pos hcond⟩

/-- What a capture that is long enough is cut to. -/
theorem join_of_long {bits : List Bool} {highDensity : Bool}
    (hlong : LongEnough bits highDensity) :
    (∃ leader join, FirstElects bits highDensity leader join ∧
      bitsToUnalignedRevolution bits highDensity = some (.ok (bits.take join))) ∨
    ((∀ leader ∈ JOIN_ANCHORS, ∀ c, ¬ Elects bits highDensity leader c) ∧
      ∃ e, bitsToUnalignedRevolution bits highDensity = some (.error e)) := by
  have hcond : ¬ (upper bits highDensity ≤ lower highDensity ∨
      bits.length < lower highDensity + reach) := by
    rw [not_or]
    exact ⟨not_le.mpr hlong.1, not_lt.mpr hlong.2⟩
  have hanswer : bitsToUnalignedRevolution bits highDensity =
      (findJoin bits (candidates bits highDensity) JOIN_ANCHORS 0).map _ := if_neg hcond
  rw [hanswer]
  rcases findJoin_spec hlong (fun _ h => h) 0 with
    ⟨before, leader, after, join, hsplit, helects, hbefore, hfound⟩ | ⟨hnone, score, hfound⟩
  · rw [hfound]
    exact .inl ⟨leader, join, ⟨before, after, hsplit, helects, hbefore⟩, rfl⟩
  · rw [hfound]
    exact .inr ⟨hnone, _, rfl⟩

/-! ## One damaged anchor -/

/-- The vote of an anchor. -/
def vote (bits : List Bool) (candidate anchor : Nat) : Nat :=
  if CONVINCING ≤ agreement bits anchor candidate then 1 else 0

theorem votes_eq (bits : List Bool) (c : Nat) :
    votes bits c = vote bits c 0 + vote bits c 2048 + vote bits c 4096 := by
  unfold votes vote
  simp only [JOIN_ANCHORS, List.countP_cons, List.countP_nil, decide_eq_true_eq]
  omega

/-- Two anchors that find a candidate unconvincing leave it without a majority. -/
theorem not_believed {bits : List Bool} {a b c : Nat} (ha : a ∈ JOIN_ANCHORS)
    (hb : b ∈ JOIN_ANCHORS) (hne : a ≠ b) (hless : agreement bits a c < CONVINCING)
    (hless' : agreement bits b c < CONVINCING) : ¬ Believed bits c := by
  have hvote : vote bits c a = 0 := if_neg (not_le.mpr hless)
  have hvote' : vote bits c b = 0 := if_neg (not_le.mpr hless')
  have hone : ∀ anchor, vote bits c anchor ≤ 1 := by
    intro anchor
    unfold vote
    split <;> omega
  have h0 := hone 0
  have h1 := hone 2048
  have h2 := hone 4096
  show ¬ 3 < votes bits c * 2
  rw [votes_eq]
  simp only [JOIN_ANCHORS, List.mem_cons, List.not_mem_nil, or_false] at ha hb
  rcases ha with rfl | rfl | rfl <;> rcases hb with rfl | rfl | rfl <;> omega

/-- Two anchors that find a candidate convincing are a majority. -/
theorem believed_of_two {bits : List Bool} {a b c : Nat} (ha : a ∈ JOIN_ANCHORS)
    (hb : b ∈ JOIN_ANCHORS) (hne : a ≠ b) (hconv : CONVINCING ≤ agreement bits a c)
    (hconv' : CONVINCING ≤ agreement bits b c) : Believed bits c := by
  have hvote : vote bits c a = 1 := if_pos hconv
  have hvote' : vote bits c b = 1 := if_pos hconv'
  show 3 < votes bits c * 2
  rw [votes_eq]
  simp only [JOIN_ANCHORS, List.mem_cons, List.not_mem_nil, or_false] at ha hb
  rcases ha with rfl | rfl | rfl <;> rcases hb with rfl | rfl | rfl <;> omega

/-- A majority is at least two anchors. -/
theorem two_le_votes {bits : List Bool} {c : Nat} (h : Believed bits c) : 2 ≤ votes bits c := by
  have hmajority : 3 < votes bits c * 2 := h
  omega

/-- Two anchors that find one candidate convincing, and no other, decide what can be elected. -/
theorem elected_of_two {bits : List Bool} {highDensity : Bool} {a b join : Nat}
    (hlong : LongEnough bits highDensity) (ha : a ∈ JOIN_ANCHORS) (hb : b ∈ JOIN_ANCHORS)
    (hne : a ≠ b)
    (hothers : ∀ c, lower highDensity ≤ c → c ≤ upper bits highDensity → c ≠ join →
      agreement bits a c < CONVINCING ∧ agreement bits b c < CONVINCING)
    {leader c : Nat} (helects : Elects bits highDensity leader c) : c = join := by
  by_contra hc
  obtain ⟨hle, hge⟩ := (mem_candidates hlong).mp helects.best.mem
  obtain ⟨hless, hless'⟩ := hothers c hle hge hc
  exact not_believed ha hb hne hless hless' helects.believed

/-- An anchor that finds one candidate convincing, and no other, elects it if it is believed. -/
theorem elects_of_alone {bits : List Bool} {highDensity : Bool} {a join : Nat}
    (hlong : LongEnough bits highDensity) (hjoin : join ∈ candidates bits highDensity)
    (hconv : CONVINCING ≤ agreement bits a join) (hbelieved : Believed bits join)
    (hothers : ∀ c, lower highDensity ≤ c → c ≤ upper bits highDensity → c ≠ join →
      agreement bits a c < CONVINCING) : Elects bits highDensity a join := by
  have hbeats : ∀ c ∈ candidates bits highDensity, c ≠ join →
      agreement bits a c < agreement bits a join := by
    intro c hc hne
    obtain ⟨hle, hge⟩ := (mem_candidates hlong).mp hc
    exact (hothers c hle hge hne).trans_le hconv
  refine ⟨⟨hjoin, ?_, ?_⟩, hconv, hbelieved⟩
  · intro c hc
    by_cases hne : c = join
    · rw [hne]
    · exact (hbeats c hc hne).le
  · intro c hc heq
    by_cases hne : c = join
    · exact hne.ge
    · exact absurd heq (hbeats c hc hne).ne

/--
**The join.** No access is out of bounds. A capture is only cut at a candidate that at least two
anchors find convincing, and it is cut at a given candidate whenever two anchors find that one
convincing and no other, whatever lies under the third.
-/
theorem join_robust (bits : List Bool) (highDensity : Bool) :
    ∃ answer, bitsToUnalignedRevolution bits highDensity = some answer ∧
      (∀ revolution, answer = .ok revolution → ∃ join, join ≤ bits.length ∧
        revolution = bits.take join ∧ lower highDensity ≤ join ∧
        join ≤ upper bits highDensity ∧ 2 ≤ votes bits join) ∧
      (LongEnough bits highDensity → ∀ join, lower highDensity ≤ join →
        join ≤ upper bits highDensity → ∀ a ∈ JOIN_ANCHORS, ∀ b ∈ JOIN_ANCHORS, a ≠ b →
        CONVINCING ≤ agreement bits a join → CONVINCING ≤ agreement bits b join →
        (∀ c, lower highDensity ≤ c → c ≤ upper bits highDensity → c ≠ join →
          agreement bits a c < CONVINCING ∧ agreement bits b c < CONVINCING) →
        answer = .ok (bits.take join)) := by
  by_cases hlong : LongEnough bits highDensity
  · rcases join_of_long hlong with ⟨leader, found, ⟨before, after, _, helects, _⟩, hanswer⟩ |
      ⟨hnone, e, hanswer⟩
    · obtain ⟨hle, hge⟩ := (mem_candidates hlong).mp helects.best.mem
      refine ⟨_, hanswer, ?_, ?_⟩
      · intro revolution hrevolution
        obtain rfl := Except.ok.inj hrevolution
        have hfits := candidate_fits hlong helects.best.mem
        exact ⟨found, by omega, rfl, hle, hge, two_le_votes helects.believed⟩
      · intro _ join _ _ a ha b hb hne _ _ hothers
        rw [elected_of_two hlong ha hb hne hothers helects]
    · refine ⟨_, hanswer, nofun, ?_⟩
      intro _ join hle hge a ha b hb hne hconv hconv' hothers
      have hjoin := (mem_candidates hlong).mpr ⟨hle, hge⟩
      have hbelieved := believed_of_two ha hb hne hconv hconv'
      have helects := elects_of_alone hlong hjoin hconv hbelieved
        fun c hc hc' hcne => (hothers c hc hc' hcne).1
      exact absurd helects (hnone a ha join)
  · obtain ⟨e, hanswer⟩ := join_of_short hlong
    exact ⟨_, hanswer, nofun, fun h => absurd h hlong⟩

/-! ## Captures that repeat exactly -/

/-- `period` is an exact period of the whole stream. -/
def Repeats (bits : List Bool) (period : Nat) : Prop :=
  ∀ i, i + period < bits.length → bits.getD i false = bits.getD (i + period) false

/-- The shortest candidate at which the whole window under an anchor comes again. -/
structure ShortestMatch (bits : List Bool) (highDensity : Bool) (leader join : Nat) : Prop where
  lower_le : lower highDensity ≤ join
  le_upper : join ≤ upper bits highDensity
  whole : agreement bits leader join = JOIN_SAMPLE_CELLS
  shortest : ∀ c, lower highDensity ≤ c → c < join →
    agreement bits leader c < JOIN_SAMPLE_CELLS

/-- A period matches under every anchor. -/
theorem agreement_of_repeats {bits : List Bool} {period anchor : Nat}
    (hrepeats : Repeats bits period) (ha : anchor ∈ JOIN_ANCHORS)
    (hfit : period + reach ≤ bits.length) : agreement bits anchor period = JOIN_SAMPLE_CELLS := by
  have hreach := anchor_le ha
  unfold agreement
  rw [List.countP_eq_length.mpr, List.length_range]
  intro i hi
  have hlt := List.mem_range.mp hi
  have hcell := hrepeats (JOIN_WARMUP_CELLS + anchor + i) (by omega)
  rw [hcell, Nat.add_right_comm (JOIN_WARMUP_CELLS + anchor) i period, beq_self_eq_true]

/-- A period has a majority. -/
theorem believed_of_repeats {bits : List Bool} {period : Nat} (hrepeats : Repeats bits period)
    (hfit : period + reach ≤ bits.length) : Believed bits period := by
  have hconv : ∀ anchor ∈ JOIN_ANCHORS, CONVINCING ≤ agreement bits anchor period := by
    intro anchor ha
    rw [agreement_of_repeats hrepeats ha hfit]
    decide
  exact believed_of_two (a := 0) (b := 2048) (by decide) (by decide) (by decide)
    (hconv 0 (by decide)) (hconv 2048 (by decide))

/-- When the capture repeats, an anchor elects its shortest match or nothing. -/
theorem elects_iff_shortestMatch {bits : List Bool} {highDensity : Bool} {leader period c : Nat}
    (hlong : LongEnough bits highDensity) (hl : leader ∈ JOIN_ANCHORS)
    (hperiod : period ∈ candidates bits highDensity) (hrepeats : Repeats bits period) :
    Elects bits highDensity leader c ↔
      ShortestMatch bits highDensity leader c ∧ Believed bits c := by
  have hwhole := agreement_of_repeats hrepeats hl (candidate_fits hlong hperiod)
  constructor
  · intro helects
    have hmatch : agreement bits leader c = JOIN_SAMPLE_CELLS := by
      have hbest := helects.best.best period hperiod
      rw [hwhole] at hbest
      exact le_antisymm (agreement_le bits leader c) hbest
    obtain ⟨hle, hge⟩ := (mem_candidates hlong).mp helects.best.mem
    refine ⟨⟨hle, hge, hmatch, ?_⟩, helects.believed⟩
    intro d hd hlt
    have hmem := (mem_candidates hlong).mpr ⟨hd, hlt.le.trans hge⟩
    refine lt_of_le_of_ne (agreement_le bits leader d) fun heq => ?_
    exact absurd (helects.best.least d hmem (heq.trans hmatch.symm)) (not_le.mpr hlt)
  · rintro ⟨hshortest, hbelieved⟩
    have hmem := (mem_candidates hlong).mpr ⟨hshortest.lower_le, hshortest.le_upper⟩
    refine ⟨⟨hmem, ?_, ?_⟩, ?_, hbelieved⟩
    · intro d _
      rw [hshortest.whole]
      exact agreement_le bits leader d
    · intro d hd heq
      by_contra hlt
      have hless := hshortest.shortest d ((mem_candidates hlong).mp hd).1 (not_le.mp hlt)
      rw [heq, hshortest.whole] at hless
      exact lt_irrefl _ hless
    · rw [hshortest.whole]
      decide

/-- Every anchor has a shortest match when the capture repeats, at the period or before it. -/
theorem exists_shortestMatch {bits : List Bool} {highDensity : Bool} {leader period : Nat}
    (hlong : LongEnough bits highDensity) (hl : leader ∈ JOIN_ANCHORS)
    (hperiod : period ∈ candidates bits highDensity) (hrepeats : Repeats bits period) :
    ∃ c ≤ period, ShortestMatch bits highDensity leader c := by
  obtain ⟨hle, hge⟩ := (mem_candidates hlong).mp hperiod
  have hwhole := agreement_of_repeats hrepeats hl (candidate_fits hlong hperiod)
  have hexists : ∃ c, lower highDensity ≤ c ∧ agreement bits leader c = JOIN_SAMPLE_CELLS :=
    ⟨period, hle, hwhole⟩
  obtain ⟨hfirst, hmatch⟩ := Nat.find_spec hexists
  have hbefore : Nat.find hexists ≤ period := Nat.find_min' hexists ⟨hle, hwhole⟩
  refine ⟨Nat.find hexists, hbefore, hfirst, hbefore.trans hge, hmatch, ?_⟩
  intro c hc hlt
  refine lt_of_le_of_ne (agreement_le bits leader c) fun heq => ?_
  exact Nat.find_min hexists hlt ⟨hc, heq⟩

/-- A shortest match is not beyond the period. -/
theorem ShortestMatch.le_period {bits : List Bool} {highDensity : Bool} {leader period c : Nat}
    (hlong : LongEnough bits highDensity) (hl : leader ∈ JOIN_ANCHORS)
    (hperiod : period ∈ candidates bits highDensity) (hrepeats : Repeats bits period)
    (hmatch : ShortestMatch bits highDensity leader c) : c ≤ period := by
  by_contra hlt
  have hless := hmatch.shortest period ((mem_candidates hlong).mp hperiod).1 (not_le.mp hlt)
  rw [agreement_of_repeats hrepeats hl (candidate_fits hlong hperiod)] at hless
  exact lt_irrefl _ hless

theorem ShortestMatch.unique {bits : List Bool} {highDensity : Bool} {leader c d : Nat}
    (hc : ShortestMatch bits highDensity leader c)
    (hd : ShortestMatch bits highDensity leader d) : c = d := by
  rcases lt_trichotomy c d with h | h | h
  · exact absurd hc.whole (hd.shortest c hc.lower_le h).ne
  · exact h
  · exact absurd hd.whole (hc.shortest d hd.lower_le h).ne

/-- A shortest match at which the capture repeats is believed, so its anchor elects it. -/
theorem elects_of_repeats {bits : List Bool} {highDensity : Bool} {leader period join : Nat}
    (hlong : LongEnough bits highDensity) (hl : leader ∈ JOIN_ANCHORS)
    (hperiod : period ∈ candidates bits highDensity) (hrepeats : Repeats bits period)
    (hmatch : ShortestMatch bits highDensity leader join) (hjoin : Repeats bits join) :
    Elects bits highDensity leader join := by
  have hmem := (mem_candidates hlong).mpr ⟨hmatch.lower_le, hmatch.le_upper⟩
  have hbelieved := believed_of_repeats hjoin (candidate_fits hlong hmem)
  exact (elects_iff_shortestMatch hlong hl hperiod hrepeats).mpr ⟨hmatch, hbelieved⟩

/-- Two places in one list: one is before the other, or they are the same. -/
theorem append_cons_cases {α : Type} {before before' after after' : List α} {a b : α}
    (h : before ++ a :: after = before' ++ b :: after') :
    a ∈ before' ∨ a = b ∨ b ∈ before := by
  rcases List.append_eq_append_iff.mp h with ⟨mid, hbefore, hmid⟩ | ⟨mid, hbefore, hmid⟩
  · cases mid with
    | nil => exact .inr (.inl (List.cons.inj hmid).1)
    | cons c mid =>
      obtain ⟨rfl, _⟩ := List.cons.inj hmid
      exact .inl (by rw [hbefore]; exact List.mem_append_right _ List.mem_cons_self)
  · cases mid with
    | nil => exact .inr (.inl (List.cons.inj hmid).1.symm)
    | cons c mid =>
      obtain ⟨rfl, _⟩ := List.cons.inj hmid
      exact .inr (.inr (by rw [hbefore]; exact List.mem_append_right _ List.mem_cons_self))

/-- When a capture that repeats is cut where it repeats. -/
theorem cut_at_period_iff {bits : List Bool} {highDensity : Bool} {period : Nat}
    (hlong : LongEnough bits highDensity) (hperiod : period ∈ candidates bits highDensity)
    (hrepeats : Repeats bits period) :
    (∃ join, Repeats bits join ∧
      bitsToUnalignedRevolution bits highDensity = some (.ok (bits.take join))) ↔
    ∃ before leader after join, JOIN_ANCHORS = before ++ leader :: after ∧
      ShortestMatch bits highDensity leader join ∧ Repeats bits join ∧
      ∀ other ∈ before, ∀ c, ShortestMatch bits highDensity other c →
        Repeats bits c ∨ ¬ Believed bits c := by
  have hanchor : ∀ {before after : List Nat} {leader : Nat},
      JOIN_ANCHORS = before ++ leader :: after → leader ∈ JOIN_ANCHORS := by
    intro before after leader h
    rw [h]
    exact List.mem_append_right _ List.mem_cons_self
  rcases join_of_long hlong with
    ⟨leader, found, ⟨before, after, hsplit, helects, hbefore⟩, hanswer⟩ | ⟨hnone, e, hanswer⟩
  · have hl := hanchor hsplit
    obtain ⟨hmatch, hbelieved⟩ :=
      (elects_iff_shortestMatch hlong hl hperiod hrepeats).mp helects
    rw [hanswer]
    constructor
    · rintro ⟨join, hjoin, heq⟩
      have hlen := congrArg List.length (Except.ok.inj (Option.some.inj heq))
      have hfits := candidate_fits hlong helects.best.mem
      have hpos : 0 < reach := by decide
      rw [List.length_take, List.length_take] at hlen
      obtain rfl : found = join := by omega
      refine ⟨before, leader, after, found, hsplit, hmatch, hjoin, ?_⟩
      intro other ho c hc
      have ho' : other ∈ JOIN_ANCHORS := by
        rw [hsplit]
        exact List.mem_append_left _ ho
      refine .inr fun hbel => hbefore other ho c ?_
      exact (elects_iff_shortestMatch hlong ho' hperiod hrepeats).mpr ⟨hc, hbel⟩
    · rintro ⟨before', leader', after', join, hsplit', hmatch', hjoin, hearlier⟩
      have hl' := hanchor hsplit'
      refine ⟨found, ?_, rfl⟩
      rcases append_cons_cases (hsplit.symm.trans hsplit') with hin | rfl | hin
      · exact (hearlier leader hin found hmatch).resolve_right (not_not.mpr hbelieved)
      · rw [hmatch.unique hmatch']
        exact hjoin
      · -- an anchor before the first one that elects would elect the period it has found
        exact absurd (elects_of_repeats hlong hl' hperiod hrepeats hmatch' hjoin)
          (hbefore leader' hin join)
  · rw [hanswer]
    constructor
    · rintro ⟨join, _, heq⟩
      exact absurd (Option.some.inj heq) nofun
    · rintro ⟨before', leader', after', join, hsplit', hmatch', hjoin, _⟩
      have hl' := hanchor hsplit'
      exact absurd (elects_of_repeats hlong hl' hperiod hrepeats hmatch' hjoin)
        (hnone leader' hl' join)

/--
**Captures that repeat.** Such a capture is cut at a length not beyond the period, at which the
whole window under some anchor comes again and a majority agrees. That length is an exact period
if no other shorter candidate brings a whole window again, and exactly when some anchor's shortest
match is one, and before it no anchor's shortest match that is not one is believed.
-/
theorem join_of_repeating {bits : List Bool} {highDensity : Bool} {period : Nat}
    (hlong : LongEnough bits highDensity) (hle : lower highDensity ≤ period)
    (hge : period ≤ upper bits highDensity) (hrepeats : Repeats bits period) :
    (∀ revolution, bitsToUnalignedRevolution bits highDensity = some (.ok revolution) →
      ∃ join ≤ period, revolution = bits.take join ∧ 2 ≤ votes bits join ∧
        ∃ anchor ∈ JOIN_ANCHORS, ShortestMatch bits highDensity anchor join) ∧
    ((∀ c, lower highDensity ≤ c → c < period →
        (∃ anchor ∈ JOIN_ANCHORS, agreement bits anchor c = JOIN_SAMPLE_CELLS) → Repeats bits c) →
      ∃ join, Repeats bits join ∧
        bitsToUnalignedRevolution bits highDensity = some (.ok (bits.take join))) ∧
    ((∃ join, Repeats bits join ∧
        bitsToUnalignedRevolution bits highDensity = some (.ok (bits.take join))) ↔
      ∃ before leader after join, JOIN_ANCHORS = before ++ leader :: after ∧
        ShortestMatch bits highDensity leader join ∧ Repeats bits join ∧
        ∀ other ∈ before, ∀ c, ShortestMatch bits highDensity other c →
          Repeats bits c ∨ ¬ Believed bits c) := by
  have hperiod := (mem_candidates hlong).mpr ⟨hle, hge⟩
  have hiff := cut_at_period_iff hlong hperiod hrepeats
  refine ⟨?_, ?_, hiff⟩
  · intro revolution hanswer
    rcases join_of_long hlong with
      ⟨leader, found, ⟨before, after, hsplit, helects, _⟩, hfound⟩ | ⟨_, e, hfound⟩
    · rw [hfound] at hanswer
      obtain rfl := Except.ok.inj (Option.some.inj hanswer)
      have hl : leader ∈ JOIN_ANCHORS := by
        rw [hsplit]
        exact List.mem_append_right _ List.mem_cons_self
      obtain ⟨hmatch, hbelieved⟩ :=
        (elects_iff_shortestMatch hlong hl hperiod hrepeats).mp helects
      exact ⟨found, hmatch.le_period hlong hl hperiod hrepeats, rfl, two_le_votes hbelieved,
        leader, hl, hmatch⟩
    · rw [hfound] at hanswer
      exact absurd (Option.some.inj hanswer) nofun
  · intro hothers
    have hfirst : 0 ∈ JOIN_ANCHORS := by decide
    obtain ⟨join, hjoin, hmatch⟩ := exists_shortestMatch hlong hfirst hperiod hrepeats
    refine hiff.mpr ⟨[], 0, _, join, rfl, hmatch, ?_, nofun⟩
    rcases Nat.lt_or_eq_of_le hjoin with hlt | heq
    · exact hothers join hmatch.lower_le hlt ⟨0, hfirst, hmatch.whole⟩
    · rw [heq]
      exact hrepeats

/-- A capture with one transition in each revolution. -/
def marks (period : Nat) : List Bool := (List.range 110000).map fun i => decide (i % period = 0)

theorem marks_getD {period i : Nat} (h : i < 110000) :
    (marks period).getD i false = decide (i % period = 0) := by
  unfold marks
  rw [List.getD_eq_getElem?_getD, List.getElem?_map, List.getElem?_range h]
  rfl

theorem length_marks (period : Nat) : (marks period).length = 110000 := by
  unfold marks
  rw [List.length_map, List.length_range]

theorem marks_repeats (period : Nat) : Repeats (marks period) period := by
  intro i hi
  rw [length_marks] at hi
  rw [marks_getD (by omega), marks_getD hi, Nat.add_mod_right]

theorem marks_longEnough (period : Nat) : LongEnough (marks period) false := by
  unfold LongEnough upper
  rw [length_marks]
  decide

theorem upper_marks (period : Nat) : upper (marks period) false = 102880 := by
  unfold upper
  rw [length_marks]
  decide

theorem join_of_repeating_marks : ∃ join, Repeats (marks 80000) join ∧
    bitsToUnalignedRevolution (marks 80000) false = some (.ok ((marks 80000).take join)) := by
  refine (@join_of_repeating _ _ 80000 (marks_longEnough 80000) (by decide) ?_
    (marks_repeats 80000)).2.1 ?_
  · rw [upper_marks]
    omega
  · intro c hc hlt _
    have hlower : lower false = 80000 := by decide
    omega

/-- Between two transitions every window comes again at once. -/
theorem marks_agreement {anchor : Nat} (ha : anchor ∈ JOIN_ANCHORS) :
    agreement (marks 100000) anchor 80000 = JOIN_SAMPLE_CELLS := by
  have hreach : JOIN_WARMUP_CELLS + anchor + JOIN_SAMPLE_CELLS ≤ 7120 := anchor_le ha
  have hwarm : JOIN_WARMUP_CELLS = 2000 := rfl
  unfold agreement
  rw [List.countP_eq_length.mpr, List.length_range]
  intro i hi
  have hlt := List.mem_range.mp hi
  rw [marks_getD (by omega), marks_getD (by omega), beq_iff_eq, decide_eq_decide]
  omega

/-- A capture that repeats exactly, every 100000 cells, and is cut at a length that is no period. -/
theorem not_cut_at_period : LongEnough (marks 100000) false ∧ lower false ≤ 100000 ∧
    100000 ≤ upper (marks 100000) false ∧ Repeats (marks 100000) 100000 ∧
    ¬ ∃ join, Repeats (marks 100000) join ∧
      bitsToUnalignedRevolution (marks 100000) false = some (.ok ((marks 100000).take join)) := by
  have hlong := marks_longEnough 100000
  have hle : lower false ≤ 100000 := by decide
  have hge : 100000 ≤ upper (marks 100000) false := by
    rw [upper_marks]
    omega
  refine ⟨hlong, hle, hge, marks_repeats 100000, ?_⟩
  rw [cut_at_period_iff hlong ((mem_candidates hlong).mpr ⟨hle, hge⟩) (marks_repeats 100000)]
  rintro ⟨before, leader, after, join, hsplit, hmatch, hjoin, _⟩
  have hl : leader ∈ JOIN_ANCHORS := by
    rw [hsplit]
    exact List.mem_append_right _ List.mem_cons_self
  -- no anchor finds anything shorter than the shortest candidate
  have hshortest : ShortestMatch (marks 100000) false leader 80000 := by
    refine ⟨by decide, ?_, marks_agreement hl, ?_⟩
    · rw [upper_marks]
      omega
    · intro c hc hlt
      have hlower : lower false = 80000 := by decide
      omega
  obtain rfl := hmatch.unique hshortest
  have hcell := hjoin 0 (by rw [length_marks]; omega)
  rw [marks_getD (by omega), marks_getD (by omega)] at hcell
  exact absurd hcell (by decide)

end Join

end FluxBridge
