import FluxBridge.Atomic.Logic

/-!
# Runs that go on and runs that end

`Logic` says what never happens in a run. Here it is said what has to happen.

* `LeftEnabled`, `RightEnabled` — a thread can perform its next action or begin a round
* `FiniteWhile` — no run stays inside a condition for ever
* `Countdown` — each round of the left thread leaves fewer rounds to come
* `Lingering` — the right thread begins no round any more
* `Countdown.finite` — then every run is finite, in whatever order the threads move

A program is a tree without infinite branches, so a round always ends; what has to be counted are
the rounds.
-/

namespace Atomic

variable {S : Sig} {M : Machine S} {A B : Thread S}

/-! ## Being able to move -/

/-- The left thread can perform its action, or begin a round. -/
def LeftEnabled (asm : Assume M A B) (c : Cfg M A B) : Prop :=
  match c.left with
  | .act l o _ => ∃ i r s, asm.left l o i c.snap ∧ M.act o i c.snap = some (r, s)
  | .ret _ loc => ∃ pick m, A.next loc pick = some m

/-- The right thread can perform its action, or begin a round. -/
def RightEnabled (asm : Assume M A B) (c : Cfg M A B) : Prop :=
  match c.right with
  | .act l o _ => ∃ i r s, asm.right l o i c.snap ∧ M.act o i c.snap = some (r, s)
  | .ret _ loc => ∃ pick m, B.next loc pick = some m

variable {asm : Assume M A B}

theorem LeftEnabled.exists_step {c : Cfg M A B} (h : LeftEnabled asm c) :
    ∃ c', Step asm c c' := by
  obtain ⟨s, p, q⟩ := c
  cases p with
  | act l o k =>
    obtain ⟨i, r, s', allowed, done⟩ := h
    exact ⟨_, .leftAct allowed done⟩
  | ret l loc =>
    obtain ⟨pick, m, begins⟩ := h
    exact ⟨_, .leftNext begins⟩

theorem RightEnabled.exists_step {c : Cfg M A B} (h : RightEnabled asm c) :
    ∃ c', Step asm c c' := by
  obtain ⟨s, p, q⟩ := c
  cases q with
  | act l o k =>
    obtain ⟨i, r, s', allowed, done⟩ := h
    exact ⟨_, .rightAct allowed done⟩
  | ret l loc =>
    obtain ⟨pick, m, begins⟩ := h
    exact ⟨_, .rightNext begins⟩

/-! ## Coming to an end -/

/-- Every run from `c` whose moments but the last satisfy `W` is finite. -/
def FiniteWhile (asm : Assume M A B) (W : Snap M → Prop) (c : Cfg M A B) : Prop :=
  Acc (fun c' c => W c.snap ∧ Step asm c c') c

namespace Side

variable {L α : Type} {C : Side M L} {p : Prog S L α} {Q : α → L → Snap M → Prop} {s : Snap M}

/-- What every action keeps still holds where the program returns. -/
theorem wp_kept {P : Snap M → Prop}
    (hP : ∀ o i r s s', M.act o i s = some (r, s') → P s → P s') (hp : C.wp p Q s) (hs : P s) :
    C.wp p (fun a l s => Q a l s ∧ P s) s := by
  induction p generalizing s with
  | ret l a => exact ⟨hp, hs⟩
  | act l o k ih =>
    refine ⟨hp.1, fun s₁ hrely hinv => ⟨(hp.2 s₁ hrely hinv).1, fun i ha r s₂ hact => ?_⟩⟩
    have hs₁ : P s₁ :=
      stable_of_action (fun o i r s s' _ _ _ hact => hP o i r s s' hact) s s₁ hrely hs
    obtain ⟨hinv₂, hrest⟩ := (hp.2 s₁ hrely hinv).2 i ha r s₂ hact
    exact ⟨hinv₂, ih r hrest (hP o i r s₁ s₂ hact hs₁)⟩

/-- A program stays verified when the other thread does less. -/
theorem wp_theirs {theirs : S.Op → Prop} (htheirs : ∀ o, theirs o → C.theirs o)
    (hp : C.wp p Q s) : { C with theirs := theirs }.wp p Q s := by
  induction p generalizing s with
  | ret l a => exact hp
  | act l o k ih =>
    refine ⟨hp.1, fun s₁ hrely hinv => ?_⟩
    have hless : { C with theirs := theirs }.Other ≤ C.Other :=
      fun _ _ ⟨o, i, r, ho, hrest⟩ => ⟨o, i, r, htheirs o ho, hrest⟩
    have hrely : C.Rely s s₁ := Relation.ReflTransGen.mono hless s s₁ hrely
    obtain ⟨hready, hnext⟩ := hp.2 s₁ hrely hinv
    refine ⟨hready, fun i ha r s₂ hact => ?_⟩
    obtain ⟨hinv₂, hrest⟩ := hnext i ha r s₂ hact
    exact ⟨hinv₂, ih r hrest⟩

end Side

/-- `Left n loc` holds where the left thread has at most `n` rounds to come. -/
structure Countdown (O : Outline asm) (W : Snap M → Prop)
    (Left : Nat → A.Loc → A.Own → Snap M → Prop) : Prop where
  stable : ∀ n loc l, O.left.Stable (Left n loc l)
  round : ∀ n loc pick m l s, A.next loc pick = some m → W s → O.inv s → Left n loc l s →
    ∃ k < n, O.left.wpc m (Left k) l s

/-- `R` says of the right thread's program that it is the last one. -/
structure Lingering (O : Outline asm) (W : Snap M → Prop)
    (R : Prog S B.Own B.Loc → Snap M → Prop) : Prop where
  stable : ∀ q, O.right.Stable (R q)
  act : ∀ l o k i r s s', W s → O.inv s → R (.act l o k) s → asm.right l o i s →
    M.act o i s = some (r, s') → O.rightOps o ∧ O.inv s' ∧ R (k r) s'
  last : ∀ l loc pick s, W s → R (.ret l loc) s → B.next loc pick = none

/-- **Countdown.** When the rounds of one thread run out and the other begins none, runs end. -/
theorem Countdown.finite {O : Outline asm} {W : Snap M → Prop}
    {Left : Nat → A.Loc → A.Own → Snap M → Prop} {R : Prog S B.Own B.Loc → Snap M → Prop}
    (hleft : Countdown O W Left) (hright : Lingering O W R) {n : Nat}
    {p : Prog S A.Own A.Loc} {q : Prog S B.Own B.Loc} {s : Snap M} (hs : O.inv s)
    (hp : O.left.wp p (Left n) s) (hq : R q s) : FiniteWhile asm W ⟨s, p, q⟩ := by
  -- a round of the left thread takes one off `n`, an action goes down in `p` or in `q`
  induction n using Nat.strongRecOn generalizing p q s with
  | _ n ihn =>
  induction p generalizing q s with
  | ret l loc =>
    induction q generalizing s with
    | ret l' loc' =>
      refine Acc.intro _ fun c' ⟨hW, hstep⟩ => ?_
      cases hstep with
      | leftNext begins =>
        obtain ⟨k, hk, hround⟩ := hleft.round n loc _ _ l s begins hW hs hp
        exact ihn k hk hs hround hq
      | rightNext begins =>
        rw [hright.last l' loc' _ s hW hq] at begins
        cases begins
    | act l' o k ihq =>
      refine Acc.intro _ fun c' ⟨hW, hstep⟩ => ?_
      cases hstep with
      | leftNext begins =>
        obtain ⟨k, hk, hround⟩ := hleft.round n loc _ _ l s begins hW hs hp
        exact ihn k hk hs hround hq
      | rightAct allowed done =>
        obtain ⟨ho, hs', hq'⟩ := hright.act _ _ _ _ _ _ _ hW hs hq allowed done
        refine ihq _ hs' (hleft.stable n loc l s _ (.single ?_) hp) hq'
        exact ⟨_, _, _, ho, hs, hs', done⟩
  | act l o k ihp =>
    induction q generalizing s with
    | ret l' loc' =>
      refine Acc.intro _ fun c' ⟨hW, hstep⟩ => ?_
      cases hstep with
      | leftAct allowed done =>
        obtain ⟨hs', hrest⟩ := (hp.2 s .refl hs).2 _ allowed _ _ done
        refine ihp _ hs' hrest (hright.stable _ s _ (.single ?_) hq)
        exact ⟨_, _, _, hp.1, hs, hs', done⟩
      | rightNext begins =>
        rw [hright.last l' loc' _ s hW hq] at begins
        cases begins
    | act l' o' k' ihq =>
      refine Acc.intro _ fun c' ⟨hW, hstep⟩ => ?_
      cases hstep with
      | leftAct allowed done =>
        obtain ⟨hs', hrest⟩ := (hp.2 s .refl hs).2 _ allowed _ _ done
        refine ihp _ hs' hrest (hright.stable _ s _ (.single ?_) hq)
        exact ⟨_, _, _, hp.1, hs, hs', done⟩
      | rightAct allowed done =>
        obtain ⟨ho, hs', hq'⟩ := hright.act _ _ _ _ _ _ _ hW hs hq allowed done
        refine ihq _ hs' (Side.wp_stable (hleft.stable n) s _ (.single ?_) hp) hq'
        exact ⟨_, _, _, ho, hs, hs', done⟩

end Atomic
