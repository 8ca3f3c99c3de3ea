import FluxBridge.Atomic.System

/-!
# Reasoning about one thread under interference

`Side.wp p Q s` says: from `s`, whatever the other thread does in between, every action of `p`
is performed only when it is `ready`, keeps the common invariant, and where `p` returns, `Q` holds.

Between two actions the other thread may perform any of *its* actions any number of times
(`Side.Rely`). An assertion that survives this is `Stable`, which has to be checked for one
action only (`Side.stable_of_action`).

* `Side.wp_bind` composes: a function is verified once, and its callers use what was proved.
* `Side.wp_of_within` is the frame rule: code that performs only harmless actions keeps whatever
  those actions keep.
* `Outline.holds` is soundness: when the rounds of both threads are verified, every moment of
  every interleaving satisfies the invariant, and what is left of both programs is verified too.
-/

namespace Atomic

variable {S : Sig} {M : Machine S} {L α β : Type}

/-- One thread's view: its own actions and the other's, and what it has to observe. -/
structure Side (M : Machine S) (L : Type) where
  mine : S.Op → Prop
  theirs : S.Op → Prop
  allowed : Allowed M L
  /-- holds at every moment, kept by both threads -/
  inv : Snap M → Prop
  /-- what must hold whenever this thread stands before an action -/
  ready : L → S.Op → Snap M → Prop

namespace Side

variable (C : Side M L)

/-- The other thread performs one action. -/
def Other (s s' : Snap M) : Prop :=
  ∃ o i r, C.theirs o ∧ C.inv s ∧ C.inv s' ∧ M.act o i s = some (r, s')

/-- The other thread performs any number of actions. -/
def Rely : Snap M → Snap M → Prop := Relation.ReflTransGen C.Other

/-- The other thread cannot invalidate `P`. -/
def Stable (P : Snap M → Prop) : Prop := ∀ s s', C.Rely s s' → P s → P s'

/-- What has to hold for `p` to run safely and end in `Q`. -/
def wp : Prog S L α → (α → L → Snap M → Prop) → Snap M → Prop
  | .ret l a, Q, s => Q a l s
  | .act l o k, Q, s => C.mine o ∧ ∀ s₁, C.Rely s s₁ → C.inv s₁ → C.ready l o s₁ ∧
      ∀ i, C.allowed l o i s₁ → ∀ r s₂, M.act o i s₁ = some (r, s₂) →
        C.inv s₂ ∧ wp (k r) Q s₂

/-- `wp` for code, from one private state. -/
def wpc (m : Code S L α) (Q : α → L → Snap M → Prop) (l : L) (s : Snap M) : Prop :=
  C.wp (m l) Q s

variable {C}

/-! ## Stability -/

theorem stable_of_action {P : Snap M → Prop}
    (h : ∀ o i r s s', C.theirs o → C.inv s → C.inv s' → M.act o i s = some (r, s') →
      P s → P s') : C.Stable P := by
  intro s s' hr
  induction hr with
  | refl => exact id
  | tail _ hstep ih =>
    obtain ⟨o, i, r, ho, hs, hs', hact⟩ := hstep
    exact fun hP => h o i r _ _ ho hs hs' hact (ih hP)

theorem Stable.and {P Q : Snap M → Prop} (hP : C.Stable P) (hQ : C.Stable Q) :
    C.Stable fun s => P s ∧ Q s :=
  fun s s' hr h => ⟨hP s s' hr h.1, hQ s s' hr h.2⟩

theorem Stable.forall {ι : Sort*} {P : ι → Snap M → Prop} (h : ∀ x, C.Stable (P x)) :
    C.Stable fun s => ∀ x, P x s :=
  fun s s' hr hP x => h x s s' hr (hP x)

theorem Stable.imp {p : Prop} {P : Snap M → Prop} (h : p → C.Stable P) :
    C.Stable fun s => p → P s :=
  fun s s' hr hP hp => h hp s s' hr (hP hp)

theorem stable_const {p : Prop} : C.Stable fun _ => p := fun _ _ _ h => h

/-! ## The rules -/

theorem wp_mono {p : Prog S L α} {Q Q' : α → L → Snap M → Prop} {s : Snap M}
    (h : C.wp p Q s) (hQ : ∀ a l s, Q a l s → Q' a l s) : C.wp p Q' s := by
  induction p generalizing s with
  | ret l a => exact hQ a l s h
  | act l o k ih =>
    refine ⟨h.1, fun s₁ hr hi => ⟨(h.2 s₁ hr hi).1, fun i ha r s₂ hact => ?_⟩⟩
    obtain ⟨hinv, hrest⟩ := (h.2 s₁ hr hi).2 i ha r s₂ hact
    exact ⟨hinv, ih r hrest⟩

theorem wp_bind {p : Prog S L α} {f : α → L → Prog S L β} {Q : β → L → Snap M → Prop}
    {s : Snap M} : C.wp (p.bind f) Q s ↔ C.wp p (fun a l s => C.wp (f a l) Q s) s := by
  induction p generalizing s with
  | ret l a => exact Iff.rfl
  | act l o k ih => simp only [Prog.bind, wp, ih]

/-- What a thread stands before stays verified while the other thread runs. -/
theorem wp_stable {p : Prog S L α} {Q : α → L → Snap M → Prop}
    (hQ : ∀ a l, C.Stable (Q a l)) : C.Stable (C.wp p Q) := by
  intro s s' hr h
  cases p with
  | ret l a => exact hQ a l s s' hr h
  | act l o k => exact ⟨h.1, fun s₁ hr' hi => h.2 s₁ (hr.trans hr') hi⟩

/-- What the actions keep is kept by code that performs only such actions. -/
theorem wp_of_within {p : Prog S L α} {N : L → S.Op → Prop} {E : α → L → Prop}
    {P : Snap M → Prop} {s : Snap M} (hstable : C.Stable P)
    (hstep : ∀ l o, N l o → C.mine o ∧ ∀ s, C.inv s → P s → C.ready l o s ∧
      ∀ i r s', C.allowed l o i s → M.act o i s = some (r, s') → C.inv s' ∧ P s')
    (hp : p.Within N E) (hs : P s) : C.wp p (fun a l s => E a l ∧ P s) s := by
  induction p generalizing s with
  | ret l a => exact ⟨hp, hs⟩
  | act l o k ih =>
    obtain ⟨hmine, hkeep⟩ := hstep l o hp.1
    refine ⟨hmine, fun s₁ hr hi => ?_⟩
    obtain ⟨hready, hnext⟩ := hkeep s₁ hi (hstable s s₁ hr hs)
    refine ⟨hready, fun i ha r s₂ hact => ?_⟩
    obtain ⟨hinv, hP⟩ := hnext i r s₂ ha hact
    exact ⟨hinv, ih r (hp.2 r) hP⟩

section Code

variable {Q : β → L → Snap M → Prop} {l : L} {s : Snap M}

theorem wpc_mono {m : Code S L α} {Q Q' : α → L → Snap M → Prop} (h : C.wpc m Q l s)
    (hQ : ∀ a l s, Q a l s → Q' a l s) : C.wpc m Q' l s :=
  wp_mono h hQ

@[simp] theorem wpc_pure {a : α} {Q : α → L → Snap M → Prop} :
    C.wpc (pure a) Q l s ↔ Q a l s := Iff.rfl

@[simp] theorem wpc_bind {m : Code S L α} {f : α → Code S L β} :
    C.wpc (m >>= f) Q l s ↔ C.wpc m (fun a l s => C.wpc (f a) Q l s) l s :=
  wp_bind

/-- Composition: first `m`, with `R` in between. -/
theorem wpc_seq {m : Code S L α} {f : α → Code S L β} {R : α → L → Snap M → Prop}
    (hm : C.wpc m R l s) (hf : ∀ a l s, R a l s → C.wpc (f a) Q l s) :
    C.wpc (m >>= f) Q l s :=
  wpc_bind.mpr (wpc_mono hm hf)

@[simp] theorem wpc_own {Q : L → L → Snap M → Prop} : C.wpc own Q l s ↔ Q l l s := Iff.rfl

@[simp] theorem wpc_update {f : L → L} {Q : Unit → L → Snap M → Prop} :
    C.wpc (update f) Q l s ↔ Q () (f l) s := Iff.rfl

theorem wpc_perform {o : S.Op} {Q : S.Ret o → L → Snap M → Prop} :
    C.wpc (perform o) Q l s ↔ C.mine o ∧ ∀ s₁, C.Rely s s₁ → C.inv s₁ → C.ready l o s₁ ∧
      ∀ i, C.allowed l o i s₁ → ∀ r s₂, M.act o i s₁ = some (r, s₂) →
        C.inv s₂ ∧ Q r l s₂ := Iff.rfl

/--
The rule for one action, with an assertion the other thread cannot invalidate: what held before
holds when the action happens.
-/
theorem wpc_perform_of {o : S.Op} {Q : S.Ret o → L → Snap M → Prop} {P : Snap M → Prop}
    (hmine : C.mine o) (hstable : C.Stable P) (hs : P s)
    (hready : ∀ s₁, C.inv s₁ → P s₁ → C.ready l o s₁)
    (h : ∀ i r s₁ s₂, C.inv s₁ → P s₁ → C.allowed l o i s₁ → M.act o i s₁ = some (r, s₂) →
      C.inv s₂ ∧ Q r l s₂) : C.wpc (perform o) Q l s := by
  refine wpc_perform.mpr ⟨hmine, fun s₁ hr hi => ?_⟩
  have hP : P s₁ := hstable s s₁ hr hs
  exact ⟨hready s₁ hi hP, fun i ha r s₂ hact => h i r s₁ s₂ hi hP ha hact⟩

/-- The frame rule for code that keeps `J`. -/
theorem wpc_of_keeps {m : Code S L α} {J : L → Prop} {ops : S.Op → Prop} {P : Snap M → Prop}
    (hm : m.Keeps J ops) (hstable : C.Stable P)
    (hstep : ∀ l o, J l → ops o → C.mine o ∧ ∀ s, C.inv s → P s → C.ready l o s ∧
      ∀ i r s', C.allowed l o i s → M.act o i s = some (r, s') → C.inv s' ∧ P s')
    (hl : J l) (hs : P s) : C.wpc m (fun _ l s => J l ∧ P s) l s :=
  wp_of_within hstable (fun l o h => hstep l o h.1 h.2) (hm l hl) hs

/-- A loop keeps what each of its rounds keeps. -/
theorem wpc_times {m : Code S L Unit} {J : L → Snap M → Prop}
    (h : ∀ l s, J l s → C.wpc m (fun _ l s => J l s) l s) :
    ∀ (n : Nat) (l : L) (s : Snap M), J l s → C.wpc (times n m) (fun _ l s => J l s) l s
  | 0, _, _, hs => hs
  | n + 1, l, s, hs => by
    rw [times, wpc_bind]
    exact wpc_mono (h l s hs) fun _ l s hs => wpc_times h n l s hs

end Code

end Side

/-! ## Both threads -/

variable {A B : Thread S}

/-- A proof outline: the invariant, and what holds of each thread between its rounds. -/
structure Outline (asm : Assume M A B) where
  inv : Snap M → Prop
  leftOps : S.Op → Prop
  rightOps : S.Op → Prop
  leftAt : A.Loc → A.Own → Snap M → Prop
  rightAt : B.Loc → B.Own → Snap M → Prop
  leftReady : A.Own → S.Op → Snap M → Prop
  rightReady : B.Own → S.Op → Snap M → Prop

namespace Outline

variable {asm : Assume M A B} (O : Outline asm)

def left : Side M A.Own where
  mine := O.leftOps
  theirs := O.rightOps
  allowed := asm.left
  inv := O.inv
  ready := O.leftReady

def right : Side M B.Own where
  mine := O.rightOps
  theirs := O.leftOps
  allowed := asm.right
  inv := O.inv
  ready := O.rightReady

/-- A moment of a run at which the outline is met. -/
structure Holds (c : Cfg M A B) : Prop where
  inv : O.inv c.snap
  left : O.left.wp c.left O.leftAt c.snap
  right : O.right.wp c.right O.rightAt c.snap

/-- The rounds of both threads are verified. -/
structure Valid : Prop where
  leftStable : ∀ loc l, O.left.Stable (O.leftAt loc l)
  rightStable : ∀ loc l, O.right.Stable (O.rightAt loc l)
  leftRound : ∀ loc pick m l s, A.next loc pick = some m → O.inv s → O.leftAt loc l s →
    O.left.wpc m O.leftAt l s
  rightRound : ∀ loc pick m l s, B.next loc pick = some m → O.inv s → O.rightAt loc l s →
    O.right.wpc m O.rightAt l s

variable {O}

theorem Valid.step (hO : O.Valid) {c c' : Cfg M A B} (h : Step asm c c') (hc : O.Holds c) :
    O.Holds c' := by
  obtain ⟨hinv, hleft, hright⟩ := hc
  cases h with
  | leftAct allowed done =>
    obtain ⟨hinv', hrest⟩ := (hleft.2 _ .refl hinv).2 _ allowed _ _ done
    refine ⟨hinv', hrest, Side.wp_stable hO.rightStable _ _ (.single ?_) hright⟩
    exact ⟨_, _, _, hleft.1, hinv, hinv', done⟩
  | leftNext begins => exact ⟨hinv, hO.leftRound _ _ _ _ _ begins hinv hleft, hright⟩
  | rightAct allowed done =>
    obtain ⟨hinv', hrest⟩ := (hright.2 _ .refl hinv).2 _ allowed _ _ done
    refine ⟨hinv', Side.wp_stable hO.leftStable _ _ (.single ?_) hleft, hrest⟩
    exact ⟨_, _, _, hright.1, hinv, hinv', done⟩
  | rightNext begins => exact ⟨hinv, hleft, hO.rightRound _ _ _ _ _ begins hinv hright⟩

/-- **Soundness.** Every moment of every interleaving meets a valid outline. -/
theorem Valid.holds (hO : O.Valid) {c c' : Cfg M A B} (h : Reach asm c c') (hc : O.Holds c) :
    O.Holds c' := by
  induction h with
  | refl => exact hc
  | tail _ hstep ih => exact hO.step hstep ih

/--
**Invariants.** What is kept by every action that a thread is ready for is kept by every run, also
by one that meets less than the outline allows.
-/
theorem Valid.keeps (hO : O.Valid) {asm' : Assume M A B} {P : Snap M → Prop}
    (hsub : ∀ c c', Step asm' c c' → Step asm c c')
    (hleft : ∀ l o i r s s', O.leftOps o → O.leftReady l o s → asm'.left l o i s →
      M.act o i s = some (r, s') → P s → P s')
    (hright : ∀ l o i r s s', O.rightOps o → O.rightReady l o s → asm'.right l o i s →
      M.act o i s = some (r, s') → P s → P s')
    {c c' : Cfg M A B} (h : Reach asm' c c') (hc : O.Holds c) (hP : P c.snap) :
    O.Holds c' ∧ P c'.snap := by
  induction h with
  | refl => exact ⟨hc, hP⟩
  | tail _ hstep ih =>
    obtain ⟨hb, hPb⟩ := ih
    refine ⟨hO.step (hsub _ _ hstep) hb, ?_⟩
    cases hstep with
    | leftAct allowed done =>
      exact hleft _ _ _ _ _ _ hb.left.1 (hb.left.2 _ .refl hb.inv).1 allowed done hPb
    | leftNext begins => exact hPb
    | rightAct allowed done =>
      exact hright _ _ _ _ _ _ hb.right.1 (hb.right.2 _ .refl hb.inv).1 allowed done hPb
    | rightNext begins => exact hPb

/-- Whenever the left thread stands before an action, it is ready for it. -/
theorem Holds.leftReady {m : Cfg M A B} {o : S.Op} (h : O.Holds m) (ho : m.left.next? = some o) :
    O.leftOps o ∧ O.leftReady m.left.priv o m.snap := by
  obtain ⟨s, p, q⟩ := m
  cases p with
  | ret l loc => simp [Prog.next?] at ho
  | act l o' k =>
    cases ho
    exact ⟨h.left.1, (h.left.2 s .refl h.inv).1⟩

/-- Whenever the right thread stands before an action, it is ready for it. -/
theorem Holds.rightReady {m : Cfg M A B} {o : S.Op} (h : O.Holds m)
    (ho : m.right.next? = some o) : O.rightOps o ∧ O.rightReady m.right.priv o m.snap := by
  obtain ⟨s, p, q⟩ := m
  cases q with
  | ret l loc => simp [Prog.next?] at ho
  | act l o' k =>
    cases ho
    exact ⟨h.right.1, (h.right.2 s .refl h.inv).1⟩

/-- What the outline says at every place of the left thread holds at every moment. -/
theorem Holds.leftView {m : Cfg M A B} {J : A.Own → Snap M → Prop} (h : O.Holds m)
    (hat : ∀ loc l s, O.leftAt loc l s → J l s) (hready : ∀ l o s, O.leftReady l o s → J l s) :
    J m.left.priv m.snap := by
  obtain ⟨s, p, q⟩ := m
  cases p with
  | ret l loc => exact hat loc l s h.left
  | act l o k => exact hready l o s (h.left.2 s .refl h.inv).1

/-- What the outline says at every place of the right thread holds at every moment. -/
theorem Holds.rightView {m : Cfg M A B} {J : B.Own → Snap M → Prop} (h : O.Holds m)
    (hat : ∀ loc l s, O.rightAt loc l s → J l s) (hready : ∀ l o s, O.rightReady l o s → J l s) :
    J m.right.priv m.snap := by
  obtain ⟨s, p, q⟩ := m
  cases q with
  | ret l loc => exact hat loc l s h.right
  | act l o k => exact hready l o s (h.right.2 s .refl h.inv).1

/-- Where the left thread is between two rounds, what the outline says of that place holds. -/
theorem Holds.leftAt {m : Cfg M A B} {loc : A.Loc} (h : O.Holds m)
    (hloc : m.left.result? = some loc) : O.leftAt loc m.left.priv m.snap := by
  obtain ⟨s, p, q⟩ := m
  cases p with
  | ret l loc' =>
    cases hloc
    exact h.left
  | act l o k => simp [Prog.result?] at hloc

end Outline

end Atomic
