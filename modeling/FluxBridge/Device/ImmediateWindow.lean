import FluxBridge.Transport.Polls
import FluxBridge.Device.SuperCardPro

/-!
# The window of an immediate read

An immediate read of a SuperCard Pro ends when the durations of its events add up to 260 ms. The
interface counts ticks of 50 ns at either density; the duration of an event takes them for 100 ns
at high density.

* `arrives_window` — at which transition the loop ends
* `window_iff` — when the transitions it has then cover 260 ms of the disk
-/

namespace FluxBridge

namespace SuperCardPro

/-! ## Ticks -/

/-- The ticks of the transitions that bytes report, with `pending` ticks counted before them, and
with a marker begun before them or not. -/
def transitionTicks : Nat → Bool → List Byte → List Nat
  | _, _, [] => []
  | pending, true, byte :: bytes =>
    if byte = 0 then transitionTicks pending false bytes
    else (pending + byte.toNat) :: transitionTicks 0 false bytes
  | pending, false, byte :: bytes =>
    if byte = 0xff then transitionTicks pending true bytes
    else if byte = 0 then transitionTicks (pending + 256) false bytes
    else (pending + byte.toNat) :: transitionTicks 0 false bytes

/-- The raw ticks of the transitions of a flux stream. -/
def rawTicks (bytes : List Byte) : List Nat := transitionTicks 0 false bytes

/-- The state of a loop that has not reached its duration: the ticks of the transitions so far,
and those of the one to come. -/
structure Measures (highDensity : Bool) (state : Stream) (done : List Nat) (pending : Nat) :
    Prop where
  pending_eq : state.pendingTicks = saturateU32 pending
  duration_eq : state.duration = done.sum * readResolution highDensity
  duration_lt : state.duration < 260000000
  count : state.events.length = done.length

theorem measures_start (highDensity : Bool) : Measures highDensity Stream.start [] 0 :=
  ⟨rfl, (Nat.zero_mul _).symm, by decide, rfl⟩

/-- A transition adds its ticks to the duration; saturation only ever ends the loop. -/
theorem Measures.emit {highDensity : Bool} {state : Stream} {done : List Nat} {pending : Nat}
    (h : Measures highDensity state done pending) :
    (260000000 ≤ (state.emit highDensity).duration ∧
      260000000 ≤ (done.sum + pending) * readResolution highDensity) ∨
    ((done.sum + pending) * readResolution highDensity < 260000000 ∧
      (state.emit highDensity).duration < 260000000 ∧
      Measures highDensity (state.emit highDensity) (done ++ [pending]) 0) := by
  have hlt := h.duration_lt
  have hduration : (state.emit highDensity).duration =
      saturateU64 (done.sum * readResolution highDensity +
        saturateU32 (saturateU32 pending * readResolution highDensity)) := by
    rw [← h.duration_eq, ← h.pending_eq]
    rfl
  have hcount : (state.emit highDensity).events.length = (done ++ [pending]).length := by
    show (state.events ++ [_]).length = _
    rw [List.length_append, List.length_append, h.count]
    rfl
  rw [h.duration_eq] at hlt
  have hsum : (done ++ [pending]).sum = done.sum + pending := by
    rw [List.sum_append, List.sum_singleton]
  have hcases : (260000000 ≤ (state.emit highDensity).duration ∧
      260000000 ≤ (done.sum + pending) * readResolution highDensity) ∨
      ((done.sum + pending) * readResolution highDensity < 260000000 ∧
        (state.emit highDensity).duration =
          (done.sum + pending) * readResolution highDensity) := by
    rw [hduration]
    unfold saturateU64 saturateU32 U64_MAX U32_RANGE
    cases highDensity with
    | false =>
      have hres : readResolution false = 50 := rfl
      rw [hres] at hlt ⊢
      omega
    | true =>
      have hres : readResolution true = 100 := rfl
      rw [hres] at hlt ⊢
      omega
  rcases hcases with hended | ⟨hless, hequal⟩
  · exact .inl hended
  · refine .inr ⟨hless, by omega, rfl, ?_, by omega, hcount⟩
    rw [hsum]
    exact hequal

/-- What a byte does to the loop: it is counted, or it ends a transition. -/
theorem Measures.feed {highDensity : Bool} {state : Stream} {done : List Nat} {pending : Nat}
    (h : Measures highDensity state done pending) (byte : Byte) :
    (∃ next counted, state.feed .normal highDensity byte = (next, false) ∧
      Measures highDensity next done counted ∧
      ∀ bytes, transitionTicks pending state.sawFf (byte :: bytes) =
        transitionTicks counted next.sawFf bytes) ∨
    ∃ next ticks, state.feed .normal highDensity byte =
        (next.emit highDensity, decide (260000000 ≤ (next.emit highDensity).duration)) ∧
      Measures highDensity next done ticks ∧ next.sawFf = false ∧
      ∀ bytes, transitionTicks pending state.sawFf (byte :: bytes) =
        ticks :: transitionTicks 0 false bytes := by
  obtain ⟨hpending, hduration, hlt, hcount⟩ := h
  have hadded : ∀ more, saturateU32 (state.pendingTicks + more) = saturateU32 (pending + more) := by
    intro more
    rw [hpending]
    unfold saturateU32
    omega
  unfold Stream.feed
  dsimp only
  cases hff : state.sawFf with
  | true =>
    by_cases hzero : byte = 0
    · left
      refine ⟨{ state with
        bytesSeen := state.bytesSeen + 1, sawFf := false
        indices := min (state.indices + 1) 255, pendingIndex := true }, pending, ?_,
        ⟨hpending, hduration, hlt, hcount⟩, fun bytes => ?_⟩
      · rw [if_pos rfl, if_pos hzero, if_neg (by simp)]
      · rw [transitionTicks, if_pos hzero]
    · right
      refine ⟨{ state with
        bytesSeen := state.bytesSeen + 1, sawFf := false
        pendingTicks := saturateU32 (state.pendingTicks + byte.toNat) }, pending + byte.toNat, ?_,
        ⟨hadded _, hduration, hlt, hcount⟩, rfl, fun bytes => ?_⟩
      · rw [if_pos rfl, if_neg hzero]
        rfl
      · rw [transitionTicks, if_neg hzero]
  | false =>
    by_cases hmarker : byte = 0xff
    · left
      refine ⟨{ state with bytesSeen := state.bytesSeen + 1, sawFf := true }, pending, ?_,
        ⟨hpending, hduration, hlt, hcount⟩, fun bytes => ?_⟩
      · rw [if_neg Bool.false_ne_true, if_pos hmarker]
      · rw [transitionTicks, if_pos hmarker]
    · by_cases hzero : byte = 0
      · left
        refine ⟨{ state with
          bytesSeen := state.bytesSeen + 1
          pendingTicks := saturateU32 (state.pendingTicks + 256) }, pending + 256, ?_,
          ⟨hadded 256, hduration, hlt, hcount⟩, fun bytes => ?_⟩
        · rw [if_neg Bool.false_ne_true, if_neg hmarker, if_pos hzero, hff]
        · rw [transitionTicks, if_neg hmarker, if_pos hzero]
          exact congrArg (transitionTicks (pending + 256) · bytes) hff.symm
      · right
        refine ⟨{ state with
          bytesSeen := state.bytesSeen + 1, sawFf := false
          pendingTicks := saturateU32 (state.pendingTicks + byte.toNat) }, pending + byte.toNat,
          ?_, ⟨hadded _, hduration, hlt, hcount⟩, rfl, fun bytes => ?_⟩
        · rw [if_neg Bool.false_ne_true, if_neg hmarker, if_neg hzero]
          rfl
        · rw [transitionTicks, if_neg hmarker, if_neg hzero]

/-! ## The loop -/

/-- The bytes that polls bring. -/
def bytesOf (polls : List (Option Byte)) : List Byte := polls.filterMap id

section Step

variable {mode : ReadMode} {highDensity : Bool} {state next result : Stream} {byte : Byte}
  {deadline left : Nat} {polls : List (Option Byte)}

/-- A byte that ends the loop. -/
theorem arrives_ends (hfeed : state.feed mode highDensity byte = (next, true)) :
    arrives (Stream.next mode highDensity) state (deadline + 1) (some byte :: polls) =
      some (next, deadline) := by
  rw [arrives]
  unfold Stream.next
  rw [hfeed]
  rfl

/-- A byte that does not, below the ceiling. -/
theorem arrives_goes (hfeed : state.feed mode highDensity byte = (next, false))
    (hroom : ¬ MAX_STREAM_BYTES ≤ next.bytesSeen) :
    arrives (Stream.next mode highDensity) state (deadline + 1) (some byte :: polls) =
      arrives (Stream.next mode highDensity) next deadline polls := by
  rw [arrives]
  unfold Stream.next
  rw [hfeed]
  dsimp only
  rw [if_neg Bool.false_ne_true, if_neg hroom]

/-- At the ceiling the loop has no result. -/
theorem arrives_of_goes (hfeed : state.feed mode highDensity byte = (next, false))
    (h : arrives (Stream.next mode highDensity) state (deadline + 1) (some byte :: polls) =
      some (result, left)) :
    arrives (Stream.next mode highDensity) next deadline polls = some (result, left) := by
  by_cases hroom : MAX_STREAM_BYTES ≤ next.bytesSeen
  · rw [arrives] at h
    unfold Stream.next at h
    rw [hfeed] at h
    dsimp only at h
    rw [if_neg Bool.false_ne_true, if_pos hroom] at h
    cases h
  · rw [← arrives_goes hfeed hroom]
    exact h

end Step

/-- **The window.** The loop ends with the transition that reaches the duration, and has no other
behind it. -/
theorem arrives_window {highDensity : Bool} {polls : List (Option Byte)} {deadline left : Nat}
    {state result : Stream} {done : List Nat} {pending : Nat}
    (h : Measures highDensity state done pending)
    (harrives : arrives (Stream.next .normal highDensity) state deadline polls =
      some (result, left)) :
    ∃ before last after,
      transitionTicks pending state.sawFf (bytesOf polls) = before ++ last :: after ∧
      result.events.length = done.length + before.length + 1 ∧
      (done.sum + before.sum) * readResolution highDensity < 260000000 ∧
      260000000 ≤ (done.sum + before.sum + last) * readResolution highDensity := by
  -- on the polls that are left: each byte is counted into what is pending, or ends a transition
  induction polls generalizing deadline state done pending with
  | nil => cases deadline <;> cases harrives
  | cons poll polls ih =>
    cases deadline with
    | zero => cases harrives
    | succ deadline =>
      cases poll with
      | none => exact ih h harrives
      | some byte =>
        have hbytes : bytesOf (some byte :: polls) = byte :: bytesOf polls := rfl
        rw [hbytes]
        rcases h.feed byte with ⟨next, counted, hfeed, hnext, hticks⟩ |
          ⟨next, ticks, hfeed, hnext, hff, hticks⟩
        · rw [hticks]
          exact ih hnext (arrives_of_goes hfeed harrives)
        · rw [hticks]
          rcases hnext.emit with ⟨hended, hreached⟩ | ⟨hshort, hgoes, hmeasures⟩
          · rw [decide_eq_true hended] at hfeed
            rw [arrives_ends hfeed] at harrives
            obtain ⟨rfl, -⟩ := Prod.mk.inj (Option.some.inj harrives)
            have hcount : (next.emit highDensity).events.length = done.length + 1 := by
              show (next.events ++ [_]).length = _
              rw [List.length_append, hnext.count]
              rfl
            have hless : done.sum * readResolution highDensity < 260000000 := by
              rw [← hnext.duration_eq]
              exact hnext.duration_lt
            exact ⟨[], ticks, _, rfl, hcount, hless, hreached⟩
          · rw [decide_eq_false (Nat.not_le.mpr hgoes)] at hfeed
            have hsaw : (next.emit highDensity).sawFf = false := hff
            obtain ⟨before, last, after, hsplit, hlength, hbefore, hlast⟩ :=
              ih hmeasures (arrives_of_goes hfeed harrives)
            rw [hsaw] at hsplit
            rw [List.length_append, List.length_singleton] at hlength
            rw [List.sum_append, List.sum_singleton] at hbefore hlast
            refine ⟨ticks :: before, last, after, by rw [hsplit]; rfl, ?_, ?_, ?_⟩
            · rw [hlength, List.length_cons]
              omega
            · rw [List.sum_cons, ← Nat.add_assoc]
              exact hbefore
            · rw [List.sum_cons, ← Nat.add_assoc]
              exact hlast

/-- The time on the disk that the transitions of an ended loop cover, in nanoseconds. -/
def realDuration (result : Stream) (bytes : List Byte) : Nat :=
  ((rawTicks bytes).take result.events.length).sum * 50

/--
**The window.** When the loop of an immediate read ends, its transitions cover 260 ms of the disk at
double density. At high density they do exactly when one interval takes the ticks from below 130 ms
to 260 ms or more at once.
-/
theorem window_iff {highDensity : Bool} {polls : List (Option Byte)} {deadline left : Nat}
    {result : Stream}
    (h : arrives (Stream.next .normal highDensity) Stream.start deadline polls =
      some (result, left)) :
    260000000 ≤ realDuration result (bytesOf polls) ↔
      highDensity = false ∨ ∀ count, ((rawTicks (bytesOf polls)).take count).sum < 2600000 ∨
        5200000 ≤ ((rawTicks (bytesOf polls)).take count).sum := by
  obtain ⟨before, last, after, hticks, hlength, hbefore, hlast⟩ :=
    arrives_window (measures_start highDensity) h
  have hticks : rawTicks (bytesOf polls) = before ++ last :: after := hticks
  simp only [List.sum_nil, List.length_nil, Nat.zero_add] at hlength hbefore hlast
  have htotal : ((rawTicks (bytesOf polls)).take (before.length + 1)).sum = before.sum + last := by
    rw [hticks, List.take_length_add_append, List.sum_append]
    rfl
  unfold realDuration
  rw [hlength, htotal]
  cases highDensity with
  | false =>
    have hres : readResolution false = 50 := rfl
    rw [hres] at hlast
    exact ⟨fun _ => .inl rfl, fun _ => hlast⟩
  | true =>
    have hres : readResolution true = 100 := rfl
    rw [hres] at hbefore hlast
    constructor
    · intro hreal
      refine .inr fun count => ?_
      rcases Nat.lt_or_ge before.length count with hmore | hfew
      · right
        obtain ⟨more, rfl⟩ : ∃ more, count = before.length + (more + 1) :=
          ⟨count - before.length - 1, by omega⟩
        rw [hticks, List.take_length_add_append, List.sum_append, List.take_succ_cons,
          List.sum_cons]
        omega
      · left
        have hsub : (before.take count).sum ≤ before.sum := by
          conv => rhs; rw [← List.take_append_drop count before]
          rw [List.sum_append]
          exact Nat.le_add_right _ _
        rw [hticks, List.take_append_of_le_length hfew]
        omega
    · rintro (hno | hgap)
      · cases hno
      · have hreached := hgap (before.length + 1)
        rw [htotal] at hreached
        omega

/-! ## High density -/

/-- The state behind a transition that is reported 80 ticks behind the one before. -/
def stepped (state : Stream) : Stream :=
  { state with
    bytesSeen := state.bytesSeen + 1
    duration := state.duration + 8000
    events := state.events ++ [⟨8000, state.pendingIndex⟩]
    pendingIndex := false }

theorem stepped_duration (state : Stream) :
    (stepped state).duration = state.duration + 8000 := rfl

theorem stepped_bytesSeen (state : Stream) :
    (stepped state).bytesSeen = state.bytesSeen + 1 := rfl

theorem feed_stepped {state : Stream} (hff : state.sawFf = false)
    (hpending : state.pendingTicks = 0) (hduration : state.duration < 260000000) :
    state.feed .normal true 0x50 =
      (stepped state, decide (260000000 ≤ (stepped state).duration)) := by
  have hlong : saturateU64 (state.duration + 8000) = state.duration + 8000 := by
    unfold saturateU64 U64_MAX
    omega
  have hticks : saturateU32 (saturateU32 (0 + BitVec.toNat (80 : Byte)) * readResolution true) =
      8000 := by decide
  have htarget : targetDuration .normal = 260000000 := rfl
  obtain ⟨events, ticks, index, sawFf, indices, seen, duration⟩ := state
  dsimp only at hff hpending hlong
  subst hff hpending
  unfold Stream.feed stepped
  dsimp only
  rw [if_neg Bool.false_ne_true, if_neg (by decide), if_neg (by decide)]
  unfold Stream.emit
  dsimp only
  simp only [hticks, hlong, htarget]

/-- Transitions 4 μs apart, until the loop ends. -/
theorem arrives_steady (count : Nat) {state : Stream} (hff : state.sawFf = false)
    (hpending : state.pendingTicks = 0)
    (hgoes : state.duration + count * 8000 < 260000000)
    (hends : 260000000 ≤ state.duration + (count + 1) * 8000)
    (hbytes : state.bytesSeen + count < 1000000) :
    ∃ result, arrives (Stream.next .normal true) state (count + 1)
        (List.replicate (count + 1) (some 0x50)) = some (result, 0) ∧
      result.events.length = state.events.length + (count + 1) := by
  induction count generalizing state with
  | zero =>
    have hfeed := feed_stepped hff hpending (by omega)
    have hnext := stepped_duration state
    have hevents : (stepped state).events.length = state.events.length + 1 := List.length_append
    generalize stepped state = next at hfeed hnext hevents
    have hlast : 260000000 ≤ next.duration := by omega
    refine ⟨next, ?_, hevents⟩
    rw [decide_eq_true hlast] at hfeed
    exact arrives_ends hfeed
  | succ count ih =>
    have hfeed := feed_stepped hff hpending (by omega)
    have hnext := stepped_duration state
    have hseen := stepped_bytesSeen state
    have hevents : (stepped state).events.length = state.events.length + 1 := List.length_append
    have hff' : (stepped state).sawFf = false := hff
    have hpending' : (stepped state).pendingTicks = 0 := hpending
    generalize stepped state = next at hfeed hnext hseen hevents hff' hpending'
    have hmore : ¬ 260000000 ≤ next.duration := by omega
    have hbytes' : next.bytesSeen + count < 1000000 := by omega
    have hroom : ¬ MAX_STREAM_BYTES ≤ next.bytesSeen := by
      have hlimit : MAX_STREAM_BYTES = 1048576 := by decide
      omega
    obtain ⟨result, harrives, hlength⟩ := ih hff' hpending' (by omega) (by omega) hbytes'
    refine ⟨result, ?_, by omega⟩
    rw [decide_eq_false hmore] at hfeed
    rw [List.replicate_succ, arrives_goes hfeed hroom]
    exact harrives

theorem transitionTicks_steady (count : Nat) :
    transitionTicks 0 false (List.replicate count 0x50) = List.replicate count 80 := by
  induction count with
  | zero => rfl
  | succ count ih =>
    rw [List.replicate_succ, transitionTicks, if_neg (by decide), if_neg (by decide), ih]
    rfl

/-- The polls of a high-density stream with transitions 4 μs apart. -/
def steadyPolls : List (Option Byte) := List.replicate 32500 (some 0x50)

theorem bytesOf_steadyPolls : bytesOf steadyPolls = List.replicate 32500 0x50 := by
  unfold bytesOf steadyPolls
  exact List.filterMap_replicate_of_some rfl

theorem window_steady : ∃ result,
    arrives (Stream.next .normal true) Stream.start 32500 steadyPolls = some (result, 0) ∧
      (260000000 ≤ realDuration result (bytesOf steadyPolls) ↔ true = false ∨
        ∀ count, ((rawTicks (bytesOf steadyPolls)).take count).sum < 2600000 ∨
          5200000 ≤ ((rawTicks (bytesOf steadyPolls)).take count).sum) := by
  obtain ⟨result, harrives, _⟩ := @arrives_steady 32499 Stream.start rfl rfl (by decide)
    (by decide) (by decide)
  exact ⟨result, harrives, window_iff harrives⟩

/-- A high-density read ends with 130 ms of the disk, not even a revolution. -/
theorem window_halved : ∃ result,
    arrives (Stream.next .normal true) Stream.start 32500 steadyPolls = some (result, 0) ∧
      realDuration result (bytesOf steadyPolls) = 130000000 := by
  obtain ⟨result, harrives, hlength⟩ := @arrives_steady 32499 Stream.start rfl rfl
    (by decide) (by decide) (by decide)
  refine ⟨result, harrives, ?_⟩
  have hcount : result.events.length = 32500 := hlength
  unfold realDuration rawTicks
  rw [hcount, bytesOf_steadyPolls, transitionTicks_steady, List.take_replicate,
    Nat.min_self, List.sum_replicate_nat]

end SuperCardPro

end FluxBridge
