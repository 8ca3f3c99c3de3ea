import FluxBridge.Atomic.System

/-!
# One thread and its surroundings

The runs of one program whose actions are not interpreted: what an action returns is up to the
surroundings, who know everything that was performed before. An `Env` says what they may answer.

* `Walk` — what can happen: from one place of a program to a later one
* `Prog.wlp` — a property of every action and of every return, along every walk
* `Walk.wlp` is soundness, and `Prog.runWith` walks with given answers
* `Fallible` — code that may end early with an error
-/

namespace Atomic

variable {S : Sig} {L ε α β : Type}

/-- Everything performed so far, newest first. -/
abbrev History (S : Sig) : Type := List (Event S)

/-- What the surroundings may answer, given what was performed before. -/
abbrev Env (S : Sig) : Type := History S → (o : S.Op) → S.Ret o → Prop

/-- Surroundings that may answer anything. -/
def Env.any (S : Sig) : Env S := fun _ _ _ => True

/-- From one place of a program the thread gets to another one. -/
inductive Walk (env : Env S) (p' : Prog S L α) (h' : History S) : Prog S L α → History S → Prop
  | here : Walk env p' h' p' h'
  | step {l : L} {o : S.Op} {k : S.Ret o → Prog S L α} {h : History S} {r : S.Ret o}
    (may : env h o r) (rest : Walk env p' h' (k r) (⟨o, r⟩ :: h)) : Walk env p' h' (.act l o k) h

/-- Along every walk each action meets `N` and each return meets `E`. -/
def Prog.wlp (env : Env S) (N : L → S.Op → History S → Prop) (E : α → L → History S → Prop) :
    Prog S L α → History S → Prop
  | .ret l a, h => E a l h
  | .act l o k, h => N l o h ∧ ∀ r, env h o r → (k r).wlp env N E (⟨o, r⟩ :: h)

section Rules

variable {env : Env S} {N : L → S.Op → History S → Prop} {E E' : α → L → History S → Prop}

theorem Prog.wlp_mono {p : Prog S L α} {h : History S} (hp : p.wlp env N E h)
    (hE : ∀ a l h, E a l h → E' a l h) : p.wlp env N E' h := by
  induction p generalizing h with
  | ret l a => exact hE a l h hp
  | act l o k ih => exact ⟨hp.1, fun r hr => ih r (hp.2 r hr)⟩

theorem Prog.wlp_anywhere {p : Prog S L α} {h : History S} (hp : p.wlp env N E h) :
    p.wlp env (fun _ _ _ => True) E h := by
  induction p generalizing h with
  | ret l a => exact hp
  | act l o k ih => exact ⟨trivial, fun r hr => ih r (hp.2 r hr)⟩

/-- Two verifications of one program, of which the second does not look at the actions. -/
theorem Prog.wlp_and {p : Prog S L α} {h : History S} (hp : p.wlp env N E h)
    (hp' : p.wlp env (fun _ _ _ => True) E' h) :
    p.wlp env N (fun a l h => E a l h ∧ E' a l h) h := by
  induction p generalizing h with
  | ret l a => exact ⟨hp, hp'⟩
  | act l o k ih => exact ⟨hp.1, fun r hr => ih r (hp.2 r hr) (hp'.2 r hr)⟩

/-- What no action takes back stays, whatever the program is. -/
theorem Prog.wlp_of_lasting {P : History S → Prop} (hlasting : ∀ event h, P h → P (event :: h))
    (p : Prog S L α) {h : History S} (hP : P h) :
    p.wlp env (fun _ _ _ => True) (fun _ _ h => P h) h := by
  induction p generalizing h with
  | ret l a => exact hP
  | act l o k ih => exact ⟨trivial, fun r _ => ih r (hlasting _ _ hP)⟩

/-- What every return meets, whatever the program is. -/
theorem Prog.wlp_always (p : Prog S L α) {h : History S} (hE : ∀ a l h, E a l h) :
    p.wlp env (fun _ _ _ => True) E h :=
  Prog.wlp_mono (p.wlp_of_lasting (P := fun _ => True) (fun _ _ _ => trivial) trivial)
    fun a l h _ => hE a l h

theorem Prog.wlp_bind {p : Prog S L α} {f : α → L → Prog S L β} {F : β → L → History S → Prop}
    {h : History S} :
    (p.bind f).wlp env N F h ↔ p.wlp env N (fun a l h => (f a l).wlp env N F h) h := by
  induction p generalizing h with
  | ret l a => exact Iff.rfl
  | act l o k ih => simp only [Prog.bind, wlp, ih]

/-- **Soundness.** What is left of a verified program is verified too. -/
theorem Walk.wlp {p p' : Prog S L α} {h h' : History S} (hwalk : Walk env p' h' p h)
    (hp : p.wlp env N E h) : p'.wlp env N E h' := by
  induction hwalk with
  | here => exact hp
  | step may _ ih => exact ih (hp.2 _ may)

theorem Walk.trans {p q r : Prog S L α} {h₁ h₂ h₃ : History S} (hpq : Walk env q h₂ p h₁)
    (hqr : Walk env r h₃ q h₂) : Walk env r h₃ p h₁ := by
  induction hpq with
  | here => exact hqr
  | step may _ ih => exact .step may ih

/-- A walk within the first part is one of the whole. -/
theorem Walk.bind {p p' : Prog S L α} {h h' : History S} (hwalk : Walk env p' h' p h)
    (f : α → L → Prog S L β) : Walk env (p'.bind f) h' (p.bind f) h := by
  induction hwalk with
  | here => exact .here
  | step may _ ih => exact .step may ih

/-- A walk through the whole goes through the end of the first part. -/
theorem Walk.split {p : Prog S L α} {f : α → L → Prog S L β} {h h' : History S} {l : L} {b : β}
    (hwalk : Walk env (.ret l b) h' (p.bind f) h) :
    ∃ l₁ a h₁, Walk env (.ret l₁ a) h₁ p h ∧ Walk env (.ret l b) h' (f a l₁) h₁ := by
  induction p generalizing h with
  | ret l₁ a => exact ⟨l₁, a, h, .here, hwalk⟩
  | act l₁ o k ih =>
    cases hwalk with
    | step may rest =>
      obtain ⟨l₂, a, h₁, hfirst, hrest⟩ := ih _ rest
      exact ⟨l₂, a, h₁, .step may hfirst, hrest⟩

/-- Where a verified program stands before an action, the action meets `N`. -/
theorem Walk.ready {p p' : Prog S L α} {h h' : History S} (hwalk : Walk env p' h' p h)
    (hp : p.wlp env N E h) {o : S.Op} (hnext : p'.next? = some o) : N p'.priv o h' := by
  have hp' := hwalk.wlp hp
  cases p' with
  | ret l a => cases hnext
  | act l o' k =>
    cases hnext
    exact hp'.1

end Rules

/-- What every action and every return meets holds at every moment. -/
theorem Prog.wlp_view {env : Env S} {J : L → History S → Prop} {p : Prog S L α} {h : History S}
    (hp : p.wlp env (fun l _ h => J l h) (fun _ l h => J l h) h) : J p.priv h := by
  cases p with
  | ret l a => exact hp
  | act l o k => exact hp.1

/-! ## Given answers -/

/-- Walks with given answers to the end, or to the first action that has none. -/
def Prog.runWith (answer : History S → (o : S.Op) → Option (S.Ret o)) :
    Prog S L α → History S → Prog S L α × History S
  | .ret l a, h => (.ret l a, h)
  | .act l o k, h =>
    match answer h o with
    | none => (.act l o k, h)
    | some r => (k r).runWith answer (⟨o, r⟩ :: h)

theorem Prog.walk_runWith {env : Env S} {answer : History S → (o : S.Op) → Option (S.Ret o)}
    (hanswer : ∀ h o r, answer h o = some r → env h o r) (p : Prog S L α) (h : History S) :
    Walk env (p.runWith answer h).1 (p.runWith answer h).2 p h := by
  induction p generalizing h with
  | ret l a => exact .here
  | act l o k ih =>
    unfold runWith
    split
    · exact .here
    · next r hr => exact .step (hanswer h o r hr) (ih _ _)

theorem Prog.eq_ret {p : Prog S L α} {a : α} (h : p.result? = some a) : p = .ret p.priv a := by
  cases p with
  | ret l b =>
    cases h
    rfl
  | act l o k => cases h

/-- With given answers the first part of a program runs to its end, and then the rest does. -/
theorem Prog.runWith_bind {answer : History S → (o : S.Op) → Option (S.Ret o)} {p : Prog S L α}
    {f : α → L → Prog S L β} {h h' : History S} {l : L} {a : α}
    (hp : p.runWith answer h = (.ret l a, h')) :
    (p.bind f).runWith answer h = (f a l).runWith answer h' := by
  induction p generalizing h with
  | ret l' b =>
    cases hp
    rfl
  | act l' o k ih =>
    unfold runWith at hp
    show (Prog.act l' o fun r => (k r).bind f).runWith answer h = _
    rw [runWith]
    split at hp
    · cases hp
    · next r hr => exact ih r hp

/-! ## Code that may fail -/

/-- A computation that returns a value or ends early with an error. -/
def Fallible (S : Sig) (L ε α : Type) : Type := Code S L (Except ε α)

namespace Fallible

instance : Monad (Fallible S L ε) where
  pure a := fun l => .ret l (.ok a)
  bind m f := fun l => (m l).bind fun
    | .ok a, l => f a l
    | .error e, l => .ret l (.error e)

/-- Ends with an error. -/
def fail (e : ε) : Fallible S L ε α := fun l => .ret l (.error e)

/-- Goes on with a result. -/
def ofExcept (result : Except ε α) : Fallible S L ε α := fun l => .ret l result

/-- The thread's private state. -/
def self : Fallible S L ε L := fun l => .ret l (.ok l)

/-- Changes the private state. -/
def modify (f : L → L) : Fallible S L ε Unit := fun l => .ret (f l) (.ok ())

/-- Performs one action. -/
def perform (o : S.Op) : Fallible S L ε (S.Ret o) := fun l => .act l o fun r => .ret l (.ok r)

/-- Runs to the end, and hands over how it ended. -/
def attempt (m : Fallible S L ε α) : Fallible S L ε (Except ε α) :=
  fun l => (m l).bind fun result l => .ret l (.ok result)

/-- `Prog.wlp` for code that may fail, from one private state. -/
def wlp (env : Env S) (N : L → S.Op → History S → Prop) (E : Except ε α → L → History S → Prop)
    (m : Fallible S L ε α) (l : L) (h : History S) : Prop :=
  (m l).wlp env N E h

variable {env : Env S} {N : L → S.Op → History S → Prop} {l : L} {h : History S}

theorem wlp_mono {m : Fallible S L ε α} {E E' : Except ε α → L → History S → Prop}
    (hm : m.wlp env N E l h) (hE : ∀ r l h, E r l h → E' r l h) : m.wlp env N E' l h :=
  Prog.wlp_mono hm hE

/-- Without looking at the actions. -/
theorem wlp_anywhere {m : Fallible S L ε α} {E : Except ε α → L → History S → Prop}
    (hm : m.wlp env N E l h) : m.wlp env (fun _ _ _ => True) E l h :=
  Prog.wlp_anywhere hm

/-- Composition: first `m`, which may fail, with `R` in between. -/
theorem wlp_seq {m : Fallible S L ε α} {f : α → Fallible S L ε β}
    {R : Except ε α → L → History S → Prop} {F : Except ε β → L → History S → Prop}
    (hm : m.wlp env N R l h) (herror : ∀ e l h, R (.error e) l h → F (.error e) l h)
    (hok : ∀ a l h, R (.ok a) l h → (f a).wlp env N F l h) : (m >>= f).wlp env N F l h := by
  refine Prog.wlp_bind.mpr (Prog.wlp_mono hm fun r l h hr => ?_)
  cases r with
  | ok a => exact hok a l h hr
  | error e => exact herror e l h hr

theorem wlp_and {m : Fallible S L ε α} {E E' : Except ε α → L → History S → Prop}
    (hm : m.wlp env N E l h) (hm' : m.wlp env (fun _ _ _ => True) E' l h) :
    m.wlp env N (fun r l h => E r l h ∧ E' r l h) l h :=
  Prog.wlp_and hm hm'

/-- Where the whole succeeds, so does its first part. -/
theorem walk_split {m : Fallible S L ε α} {f : α → Fallible S L ε β} {l' : L} {h' : History S}
    {b : β} (hwalk : Walk env (.ret l' (.ok b)) h' ((m >>= f) l) h) :
    ∃ l₁ a h₁, Walk env (.ret l₁ (.ok a)) h₁ (m l) h ∧
      Walk env (.ret l' (.ok b)) h' ((f a) l₁) h₁ := by
  obtain ⟨l₁, result, h₁, hfirst, hrest⟩ := Walk.split hwalk
  cases result with
  | ok a => exact ⟨l₁, a, h₁, hfirst, hrest⟩
  | error e => cases hrest

/-- An attempt goes where the code itself goes. -/
theorem walk_attempt {m : Fallible S L ε α} {l' : L} {h' : History S} {result : Except ε α}
    (hwalk : Walk env (.ret l' (.ok result)) h' (m.attempt l) h) :
    Walk env (.ret l' result) h' (m l) h := by
  obtain ⟨l₁, ended, h₁, hwalk, hdone⟩ := Walk.split hwalk
  cases hdone
  exact hwalk

theorem wlp_attempt {m : Fallible S L ε α} {F : Except ε (Except ε α) → L → History S → Prop}
    (hm : m.wlp env N (fun r l h => F (.ok r) l h) l h) : m.attempt.wlp env N F l h :=
  Prog.wlp_bind.mpr hm

section RunWith

variable {answer : History S → (o : S.Op) → Option (S.Ret o)} {m : Fallible S L ε α}
  {f : α → Fallible S L ε β} {h' : History S} {l' : L}

theorem runWith_perform {o : S.Op} {r : S.Ret o} (hr : answer h o = some r) :
    ((perform o : Fallible S L ε (S.Ret o)) l).runWith answer h =
      (.ret l (.ok r), ⟨o, r⟩ :: h) := by
  unfold perform Prog.runWith
  rw [hr]
  rfl

theorem runWith_ok {a : α} (hm : (m l).runWith answer h = (.ret l' (.ok a), h')) :
    ((m >>= f) l).runWith answer h = ((f a) l').runWith answer h' :=
  Prog.runWith_bind hm

theorem runWith_error {e : ε} (hm : (m l).runWith answer h = (.ret l' (.error e), h')) :
    ((m >>= f) l).runWith answer h = (.ret l' (.error e), h') :=
  Prog.runWith_bind hm

theorem runWith_attempt {result : Except ε α}
    (hm : (m l).runWith answer h = (.ret l' result, h')) :
    (m.attempt l).runWith answer h = (.ret l' (.ok result), h') :=
  Prog.runWith_bind hm

end RunWith

/-- The code keeps `J`, however it ends. -/
def Keeps (env : Env S) (N : L → S.Op → History S → Prop) (J : L → History S → Prop)
    (m : Fallible S L ε α) : Prop :=
  ∀ l h, J l h → m.wlp env N (fun _ l h => J l h) l h

variable {J : L → History S → Prop}

theorem keeps_pure (a : α) : (pure a : Fallible S L ε α).Keeps env N J := fun _ _ hJ => hJ

theorem keeps_fail (e : ε) : (fail e : Fallible S L ε α).Keeps env N J := fun _ _ hJ => hJ

theorem keeps_ofExcept (result : Except ε α) :
    (ofExcept result : Fallible S L ε α).Keeps env N J := fun _ _ hJ => hJ

theorem keeps_self : (self : Fallible S L ε L).Keeps env N J := fun _ _ hJ => hJ

theorem keeps_modify {f : L → L} (hf : ∀ l h, J l h → J (f l) h) :
    (modify f : Fallible S L ε Unit).Keeps env N J := hf

theorem keeps_perform {o : S.Op} (hready : ∀ l h, J l h → N l o h)
    (hnext : ∀ l h r, J l h → env h o r → J l (⟨o, r⟩ :: h)) :
    (perform o : Fallible S L ε (S.Ret o)).Keeps env N J :=
  fun l h hJ => ⟨hready l h hJ, fun r hr => hnext l h r hJ hr⟩

theorem Keeps.bind {m : Fallible S L ε α} {f : α → Fallible S L ε β} (hm : m.Keeps env N J)
    (hf : ∀ a, (f a).Keeps env N J) : (m >>= f).Keeps env N J :=
  fun l h hJ => wlp_seq (hm l h hJ) (fun _ _ _ hJ => hJ) fun a l h hJ => hf a l h hJ

theorem Keeps.attempt {m : Fallible S L ε α} (hm : m.Keeps env N J) :
    m.attempt.Keeps env N J :=
  fun l h hJ => wlp_attempt (hm l h hJ)

/-- Actions that leave `J` as it is. -/
structure Frame (env : Env S) (N : L → S.Op → History S → Prop) (J : L → History S → Prop)
    (ops : S.Op → Prop) : Prop where
  ready : ∀ l o h, ops o → J l h → N l o h
  keeps : ∀ l o h r, ops o → J l h → env h o r → J l (⟨o, r⟩ :: h)

theorem Frame.perform {ops : S.Op → Prop} (hframe : Frame env N J ops) {o : S.Op} (ho : ops o) :
    (perform o : Fallible S L ε (S.Ret o)).Keeps env N J :=
  keeps_perform (fun l h => hframe.ready l o h ho) fun l h r => hframe.keeps l o h r ho

end Fallible

end Atomic
