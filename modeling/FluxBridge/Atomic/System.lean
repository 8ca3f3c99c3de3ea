import Mathlib.Logic.Relation
import FluxBridge.Atomic.Program

/-!
# Two threads on one shared state

A `Machine` says what each atomic action does to the shared state. What the program does not
decide (the answer of a device, the time, a random choice) is the action's *input*; an action
that returns `none` is blocked.

A `Thread` runs in rounds: where a round ends, `next` says which rounds may begin. A loop of the
source is a thread whose rounds are the passes of the loop, a client of a library is a thread
whose rounds are the calls it may make.

`Step` interleaves the actions of two threads in every order. An `Assume` restricts the inputs a
run may meet; `run` plays a schedule, which shows that a given run exists.
-/

namespace Atomic

variable {S : Sig}

/-- What the actions do: the shared state, the inputs, and the effect of each action. -/
structure Machine (S : Sig) where
  World : Type
  Input : Type
  exec : (o : S.Op) → Input → World → Option (S.Ret o × World)

/-- An action that was performed, with what it returned. -/
structure Event (S : Sig) where
  op : S.Op
  ret : S.Ret op

/-- The shared state together with everything performed so far, newest first. -/
structure Snap (M : Machine S) where
  world : M.World
  trace : List (Event S)

/-- Performs an action and records it. -/
def Machine.act (M : Machine S) (o : S.Op) (i : M.Input) (s : Snap M) :
    Option (S.Ret o × Snap M) :=
  (M.exec o i s.world).map fun (r, w) => (r, { world := w, trace := ⟨o, r⟩ :: s.trace })

theorem Machine.act_eq_some {M : Machine S} {o : S.Op} {i : M.Input} {s s' : Snap M}
    {r : S.Ret o} : M.act o i s = some (r, s') ↔
      M.exec o i s.world = some (r, s'.world) ∧ s'.trace = ⟨o, r⟩ :: s.trace := by
  constructor
  · intro h
    simp only [Machine.act, Option.map_eq_some_iff, Prod.exists] at h
    obtain ⟨r', w, he, heq⟩ := h
    cases heq
    exact ⟨he, rfl⟩
  · rintro ⟨he, ht⟩
    simp only [Machine.act, he, Option.map_some, ← ht]

/-- What the events of a trace contribute, the oldest one first. -/
def gather {α : Type} (f : Event S → List α) : List (Event S) → List α
  | [] => []
  | event :: rest => gather f rest ++ f event

theorem gather_append {α : Type} (f : Event S → List α) (new old : List (Event S)) :
    gather f (new ++ old) = gather f old ++ gather f new := by
  induction new with
  | nil => rw [List.nil_append, gather, List.append_nil]
  | cons event new ih => rw [List.cons_append, gather, ih, gather, List.append_assoc]

theorem gather_eq_nil {α : Type} {f : Event S → List α} {trace : List (Event S)}
    (h : ∀ event ∈ trace, f event = []) : gather f trace = [] := by
  induction trace with
  | nil => rfl
  | cons event trace ih =>
    rw [gather, ih fun event hevent => h event (List.mem_cons_of_mem _ hevent),
      h event List.mem_cons_self, List.append_nil]

theorem gather_of_act {α : Type} {M : Machine S} {o : S.Op} {i : M.Input} {s s' : Snap M}
    {r : S.Ret o} (f : Event S → List α) (h : M.act o i s = some (r, s')) :
    gather f s'.trace = gather f s.trace ++ f ⟨o, r⟩ := by
  rw [(Machine.act_eq_some.mp h).2]
  rfl

/-- A step that contributes nothing. -/
theorem gather_kept {α : Type} {M : Machine S} {o : S.Op} {i : M.Input} {s s' : Snap M}
    {r : S.Ret o} {f : Event S → List α} (h : M.act o i s = some (r, s')) (hf : f ⟨o, r⟩ = []) :
    gather f s'.trace = gather f s.trace := by
  rw [gather_of_act f h, hf, List.append_nil]

/-- A thread: its private state, the places where its rounds end, and what may begin there. -/
structure Thread (S : Sig) where
  Own : Type
  Loc : Type
  Pick : Type
  next : Loc → Pick → Option (Code S Own Loc)

/-- What the inputs of a thread's actions may be. -/
abbrev Allowed (M : Machine S) (L : Type) : Type := L → (o : S.Op) → M.Input → Snap M → Prop

/-- What the inputs of a run may be, thread by thread. -/
structure Assume (M : Machine S) (A B : Thread S) where
  left : Allowed M A.Own
  right : Allowed M B.Own

/-- A moment of a run. -/
structure Cfg (M : Machine S) (A B : Thread S) where
  snap : Snap M
  left : Prog S A.Own A.Loc
  right : Prog S B.Own B.Loc

variable {M : Machine S} {A B : Thread S}

/-- One thread performs one action, or begins its next round. -/
inductive Step (asm : Assume M A B) : Cfg M A B → Cfg M A B → Prop
  | leftAct {s s' : Snap M} {l : A.Own} {o : S.Op} {k : S.Ret o → Prog S A.Own A.Loc}
      {q : Prog S B.Own B.Loc} {i : M.Input} {r : S.Ret o} (allowed : asm.left l o i s)
      (done : M.act o i s = some (r, s')) : Step asm ⟨s, .act l o k, q⟩ ⟨s', k r, q⟩
  | leftNext {s : Snap M} {l : A.Own} {loc : A.Loc} {pick : A.Pick} {c : Code S A.Own A.Loc}
      {q : Prog S B.Own B.Loc} (begins : A.next loc pick = some c) :
      Step asm ⟨s, .ret l loc, q⟩ ⟨s, c l, q⟩
  | rightAct {s s' : Snap M} {l : B.Own} {o : S.Op} {k : S.Ret o → Prog S B.Own B.Loc}
      {p : Prog S A.Own A.Loc} {i : M.Input} {r : S.Ret o} (allowed : asm.right l o i s)
      (done : M.act o i s = some (r, s')) : Step asm ⟨s, p, .act l o k⟩ ⟨s', p, k r⟩
  | rightNext {s : Snap M} {l : B.Own} {loc : B.Loc} {pick : B.Pick} {c : Code S B.Own B.Loc}
      {p : Prog S A.Own A.Loc} (begins : B.next loc pick = some c) :
      Step asm ⟨s, p, .ret l loc⟩ ⟨s, p, c l⟩

/-- `c'` is reached from `c` by the steps of one interleaving. -/
def Reach (asm : Assume M A B) : Cfg M A B → Cfg M A B → Prop :=
  Relation.ReflTransGen (Step asm)

/-! ## Playing a schedule -/

/-- Which thread moves, with the input or the round it meets. -/
inductive Turn (M : Machine S) (A B : Thread S) where
  | left (i : M.Input)
  | leftNext (pick : A.Pick)
  | right (i : M.Input)
  | rightNext (pick : B.Pick)

section Schedule

variable (asm : Assume M A B) [∀ l o i s, Decidable (asm.left l o i s)]
  [∀ l o i s, Decidable (asm.right l o i s)]

/-- One turn of a schedule; `none` when the thread cannot make it. -/
def turn (c : Cfg M A B) : Turn M A B → Option (Cfg M A B)
  | .left i =>
    match c.left with
    | .act l o k =>
      if asm.left l o i c.snap then
        (M.act o i c.snap).map fun (r, s) => { c with snap := s, left := k r }
      else none
    | .ret _ _ => none
  | .leftNext pick =>
    match c.left with
    | .ret l loc => (A.next loc pick).map fun m => { c with left := m l }
    | .act _ _ _ => none
  | .right i =>
    match c.right with
    | .act l o k =>
      if asm.right l o i c.snap then
        (M.act o i c.snap).map fun (r, s) => { c with snap := s, right := k r }
      else none
    | .ret _ _ => none
  | .rightNext pick =>
    match c.right with
    | .ret l loc => (B.next loc pick).map fun m => { c with right := m l }
    | .act _ _ _ => none

/-- The turns of a schedule, one after the other. -/
def play : Cfg M A B → List (Turn M A B) → Option (Cfg M A B)
  | c, [] => some c
  | c, t :: ts => (turn asm c t).bind fun c' => play c' ts

variable {asm}

theorem step_of_turn {c c' : Cfg M A B} {t : Turn M A B} (h : turn asm c t = some c') :
    Step asm c c' := by
  obtain ⟨s, p, q⟩ := c
  cases t with
  | left i =>
    cases p with
    | ret l loc => simp [turn] at h
    | act l o k =>
      simp only [turn] at h
      split at h
      -- a turn is played only where the conditions on the run allow it
      · next hasm =>
        obtain ⟨⟨r, s'⟩, hact, rfl⟩ := Option.map_eq_some_iff.mp h
        exact .leftAct hasm hact
      · simp at h
  | leftNext pick =>
    cases p with
    | act l o k => simp [turn] at h
    | ret l loc =>
      obtain ⟨m, hm, rfl⟩ := Option.map_eq_some_iff.mp h
      exact .leftNext hm
  | right i =>
    cases q with
    | ret l loc => simp [turn] at h
    | act l o k =>
      simp only [turn] at h
      split at h
      · next hasm =>
        obtain ⟨⟨r, s'⟩, hact, rfl⟩ := Option.map_eq_some_iff.mp h
        exact .rightAct hasm hact
      · simp at h
  | rightNext pick =>
    cases q with
    | act l o k => simp [turn] at h
    | ret l loc =>
      obtain ⟨m, hm, rfl⟩ := Option.map_eq_some_iff.mp h
      exact .rightNext hm

/-- A schedule that plays to its end is a run. -/
theorem reach_of_play : ∀ {ts : List (Turn M A B)} {c c' : Cfg M A B},
    play asm c ts = some c' → Reach asm c c'
  | [], c, c', h => by
    cases h
    exact .refl
  | t :: ts, c, c', h => by
    obtain ⟨d, hd, hrest⟩ := Option.bind_eq_some_iff.mp h
    exact .head (step_of_turn hd) (reach_of_play hrest)

/-- A schedule whose end passes a test shows that a run ends in a moment that does. -/
theorem exists_reach_of_play {ts : List (Turn M A B)} {c : Cfg M A B} {test : Cfg M A B → Bool}
    (h : (play asm c ts).any test = true) : ∃ c', Reach asm c c' ∧ test c' = true := by
  rw [Option.any_eq_true] at h
  obtain ⟨c', hplay, htest⟩ := h
  exact ⟨c', reach_of_play hplay, htest⟩

end Schedule

end Atomic
