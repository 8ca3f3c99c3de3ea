import Mathlib.Data.List.Basic

/-!
# Programs made of atomic actions

A thread runs a program whose visible steps are atomic actions on a shared state: one section
under a lock, one channel operation, one call to a device. Between two actions the thread only
computes on its private state.

`Prog S L α` is the tree of what can happen from here on. Every node carries the private state
`L` the thread holds there, so that a statement about a run can speak about it at every moment,
and not only where a function returns.

`Code S L α` is what one writes: a computation that starts from a private state. It is a monad,
so functions of the modelled program are `do` blocks.
-/

namespace Atomic

/-- The atomic actions of a system and what each of them returns. -/
structure Sig where
  Op : Type
  Ret : Op → Type

variable {S : Sig} {L α β γ : Type}

/-- A thread's program: it has returned, or it stands before an action. -/
inductive Prog (S : Sig) (L : Type) (α : Type) where
  | ret (l : L) (a : α)
  | act (l : L) (o : S.Op) (k : S.Ret o → Prog S L α)

namespace Prog

/-- The private state where the thread now stands. -/
def priv : Prog S L α → L
  | ret l _ => l
  | act l _ _ => l

/-- The action the thread stands before, if it has not returned. -/
def next? : Prog S L α → Option S.Op
  | ret _ _ => none
  | act _ o _ => some o

/-- What the thread has returned. -/
def result? : Prog S L α → Option α
  | ret _ a => some a
  | act _ _ _ => none

def bind : Prog S L α → (α → L → Prog S L β) → Prog S L β
  | ret l a, f => f a l
  | act l o k, f => act l o fun r => (k r).bind f

end Prog

/-- A computation that starts from a private state. -/
def Code (S : Sig) (L : Type) (α : Type) : Type := L → Prog S L α

instance : Monad (Code S L) where
  pure a := fun l => .ret l a
  bind m f := fun l => (m l).bind f

/-- The thread's private state. -/
def own : Code S L L := fun l => .ret l l

/-- Replaces the private state. -/
def update (f : L → L) : Code S L Unit := fun l => .ret (f l) ()

/-- Performs one atomic action. -/
def perform (o : S.Op) : Code S L (S.Ret o) := fun l => .act l o fun r => .ret l r

/-- Performs `n` rounds of a computation. -/
def times (n : Nat) (m : Code S L Unit) : Code S L Unit :=
  match n with
  | 0 => pure ()
  | n + 1 => do m; times n m

/-! ## Which actions a program can perform -/

/--
Every action the program can reach satisfies `N` together with the private state held there,
and every value it can return satisfies `E`. The actions are not interpreted: each of them may
return anything.
-/
def Prog.Within (N : L → S.Op → Prop) (E : α → L → Prop) : Prog S L α → Prop
  | .ret l a => E a l
  | .act l o k => N l o ∧ ∀ r, (k r).Within N E

namespace Prog

variable {N N' : L → S.Op → Prop} {E E' : α → L → Prop} {F : β → L → Prop}

theorem within_bind {p : Prog S L α} {f : α → L → Prog S L β} :
    (p.bind f).Within N F ↔ p.Within N fun a l => (f a l).Within N F := by
  induction p with
  | ret l a => exact Iff.rfl
  | act l o k ih => simp only [Prog.bind, Within, ih]

theorem Within.mono {p : Prog S L α} (h : p.Within N E) (hN : ∀ l o, N l o → N' l o)
    (hE : ∀ a l, E a l → E' a l) : p.Within N' E' := by
  induction p with
  | ret l a => exact hE a l h
  | act l o k ih => exact ⟨hN l o h.1, fun r => ih r (h.2 r)⟩

end Prog

/-- `Prog.Within` for code, from one private state. -/
def Code.Within (N : L → S.Op → Prop) (E : α → L → Prop) (m : Code S L α) (l : L) : Prop :=
  (m l).Within N E

namespace Code

variable {N : L → S.Op → Prop} {F : β → L → Prop} {l : L}

theorem within_bind {m : Code S L α} {f : α → Code S L β} :
    (m >>= f).Within N F l ↔ m.Within N (fun a l => (f a).Within N F l) l :=
  Prog.within_bind

/-- The code keeps `J` of its private state, and performs none but the given actions. -/
def Keeps (J : L → Prop) (ops : S.Op → Prop) (m : Code S L α) : Prop :=
  ∀ l, J l → m.Within (fun l o => J l ∧ ops o) (fun _ l => J l) l

variable {J : L → Prop} {ops ops' : S.Op → Prop}

theorem keeps_pure {a : α} : (pure a : Code S L α).Keeps J ops := fun _ hl => hl

theorem keeps_own : (own : Code S L L).Keeps J ops := fun _ hl => hl

theorem keeps_update {f : L → L} (h : ∀ l, J l → J (f l)) :
    (update f : Code S L Unit).Keeps J ops := h

theorem keeps_perform {o : S.Op} (h : ops o) : (perform o : Code S L (S.Ret o)).Keeps J ops :=
  fun _ hl => ⟨⟨hl, h⟩, fun _ => hl⟩

theorem Keeps.bind {m : Code S L α} {f : α → Code S L β} (hm : m.Keeps J ops)
    (hf : ∀ a, (f a).Keeps J ops) : (m >>= f).Keeps J ops :=
  fun l hl => within_bind.mpr ((hm l hl).mono (fun _ _ h => h) fun a l hl => hf a l hl)

theorem Keeps.mono {m : Code S L α} (h : m.Keeps J ops) (hops : ∀ o, ops o → ops' o) :
    m.Keeps J ops' :=
  fun l hl => (h l hl).mono (fun _ o h => ⟨h.1, hops o h.2⟩) fun _ _ h => h

theorem keeps_times {m : Code S L Unit} (h : m.Keeps J ops) :
    ∀ n, (times n m).Keeps J ops
  | 0 => keeps_pure
  | n + 1 => h.bind fun _ => keeps_times h n

end Code

end Atomic
