import FluxBridge.Controller.DeviceCalls

/-!
# The count of errors

`consecutive_errors` is meant to be the length of the unbroken run of failures that the device has
answered last. It is bumped and reset by steps of the worker, not by calls of the device: a head
wish for where the head already is resets it without a call, a seek that works is only counted once
its whole step has worked, and the calls of a command that work, or that a write makes, do not
count at all.

* `failures` — the errors answered since the last success
* `behind` — the device has answered `Ok` and errors are still counted
* `countsCall` — what a run has to meet: no error, and no read that times out, comes while the
  count is behind, no head wish for where the head is comes while errors are counted, and neither
  does a call of a command; a call of a write does not fail
* `errorsCounted_of_counts` — in such a run the count is the run of failures, and the drive is
  given up at the twentieth
-/

namespace FluxBridge

open Atomic Atomic.Side

/-- The errors that the device has answered since its last success. -/
def failures : List (Except Error Unit) → Nat
  | .error _ :: rest => failures rest + 1
  | _ => 0

/-- The last answer of the device is an error that declares the drive lost at once. -/
def Fatal (answers : List (Except Error Unit)) : Prop :=
  ∃ e rest, answers = .error e :: rest ∧ e.fatal = true

/-- The device has answered `Ok` since, and errors are still counted. -/
def behind (l : Worker) (s : Snap controller) : Bool :=
  l.consecutiveErrors ≠ 0 && failures (answers s.trace) = 0

/-- The head is known to be on a track. -/
def here (l : Worker) (track : TrackAddress) : Bool := l.positioned && l.physical = track

/-- The steps of a pass that count what they do. -/
def countsPass (l : Worker) (o : Op) (i : Outside) (s : Snap controller) : Bool :=
  match o.answer? i, o with
  | some (.error _), _ => !behind l s
  | none, .deviceReadResult => !behind l s
  | none, .takeDesired =>
    match s.world.desired.target with
    | some track => !here l track || l.consecutiveErrors = 0
    | none => true
  | _, _ => true

/-- The steps that count what they do. -/
def countsCall (l : Worker) (o : Op) (i : Outside) (s : Snap controller) : Bool :=
  l.failed || match handling s.trace with
    | none => countsPass l o i s
    | some (.noClick _) => o.answer? i ≠ some (.ok ()) || l.consecutiveErrors = 0
    | some (.write _ _) =>
      match o.answer? i with
      | some (.error _) => false
      | some (.ok ()) => l.consecutiveErrors = 0
      | none => true
    | some .shutdown => true

/-- The runs in which every call is counted. -/
@[reducible] def callsCounted (checks : Bool) : Conditions checks :=
  .of (fun l o i s => countsCall l o i s) fun _ _ _ _ => true

/-- The count of the worker, and what follows from it. -/
structure Accounted (l : Worker) (s : Snap controller) : Prop where
  count : l.consecutiveErrors = failures (answers s.trace)
  lost : l.failed = true ↔
    MAX_CONSECUTIVE_ERRORS ≤ failures (answers s.trace) ∨ Fatal (answers s.trace)
  told : l.failed = true → ToldLost s

/--
Where the worker is between two rounds, until its thread ends: the count is the run of failures, the
worker has failed just when that run has reached the ceiling or ends in a fatal error, and then the
status and an event say so.
-/
def ErrorsCounted {checks : Bool} (m : Moment checks) : Prop :=
  ∀ loc, m.left.result? = some loc → loc ≠ .ended → Accounted m.left.priv m.snap

namespace Counting

variable {l : Worker} {s s' : Snap controller} {o : Op} {i : Outside} {r : o.Ret} {e : Error}
  {h : Option Command} {c n : Nat}

theorem not_fatal_ok (rest : List (Except Error Unit)) : ¬ Fatal (.ok () :: rest) := by
  rintro ⟨e, rest', heq, -⟩
  cases heq

/-- The command in the worker's hands, and a run of `n` failures that have not ended the worker. -/
def Seen (h : Option Command) (n : Nat) (s : Snap controller) : Prop :=
  handling s.trace = h ∧ failures (answers s.trace) = n ∧ ¬ Fatal (answers s.trace)

/-- The worker counts `c` errors, and the device has answered `n` in a row. -/
def Holds (h : Option Command) (c n : Nat) (l : Worker) (s : Snap controller) : Prop :=
  l.failed = false ∧ l.consecutiveErrors = c ∧ c < MAX_CONSECUTIVE_ERRORS ∧ Seen h n s

/-- The device has answered an error that is not counted yet. -/
def Failing (h : Option Command) (c : Nat) (e : Error) (l : Worker) (s : Snap controller) : Prop :=
  l.failed = false ∧ l.consecutiveErrors = c ∧ c < MAX_CONSECUTIVE_ERRORS ∧
    handling s.trace = h ∧ ∃ rest, answers s.trace = .error e :: rest ∧ failures rest = c

/-- Between two rounds, and between the parts of a pass. -/
def Known (h : Option Command) (l : Worker) (s : Snap controller) : Prop :=
  handling s.trace = h ∧ Accounted l s

theorem Holds.known (hs : Holds h c c l s) : Known h l s := by
  obtain ⟨hfailed, hcount, hbelow, hhandling, hfailures, hfatal⟩ := hs
  refine ⟨hhandling, hcount.trans hfailures.symm, ?_, ?_⟩
  · rw [hfailed, hfailures]
    constructor
    · intro hlost
      cases hlost
    · rintro (habove | hfatal')
      · omega
      · exact absurd hfatal' hfatal
  · rw [hfailed]
    intro hlost
    cases hlost

theorem Known.holds (hs : Known h l s) (hfailed : l.failed = false) :
    Holds h l.consecutiveErrors l.consecutiveErrors l s := by
  obtain ⟨hhandling, hcount, hlost, -⟩ := hs
  have hnot :
      ¬ (MAX_CONSECUTIVE_ERRORS ≤ failures (answers s.trace) ∨ Fatal (answers s.trace)) := by
    rw [← hlost, hfailed]
    exact Bool.false_ne_true
  obtain ⟨hbelow, hfatal⟩ := not_or.mp hnot
  exact ⟨hfailed, rfl, by omega, hhandling, hcount.symm, hfatal⟩

/-! ## The steps -/

theorem seen_undisturbed : Undisturbed (Seen h n) := by
  intro o i r s s' hanswer hreceive hact hs
  unfold Seen at hs ⊢
  rw [answers_kept hanswer hact, handling_kept hreceive hact]
  exact hs

variable {checks : Bool}

/-- Where the worker is between two rounds. -/
def At (loc : Loc) (l : Worker) (s : Snap controller) : Prop :=
  match loc with
  | .top _ | .drain => ∃ h, Known h l s ∧ l.failed = false
  | .stopping | .unwinding => ∃ h, Known h l s
  | .ended => True

/-- The outline of the count. -/
abbrev counts (checks : Bool) : Outline (callsCounted checks) := workerOutline _ At

theorem seen_stable : (counts checks).left.Stable (Seen h n) := seen_undisturbed.stable

theorem known_stable : (counts checks).left.Stable (Known h l) := by
  refine workerOutline_stable fun o i r s s' ho hact hs => ?_
  obtain ⟨hanswer, hreceive, hstatus, -⟩ := Op.ofCaller_kept ho
  obtain ⟨hhandling, hcount, hlost, htold⟩ := hs
  refine ⟨by rw [handling_kept hreceive hact]; exact hhandling, ?_, ?_, fun hfailed => ?_⟩
  · rw [answers_kept hanswer hact]
    exact hcount
  · rw [answers_kept hanswer hact]
    exact hlost
  · exact (htold hfailed).kept hstatus hact

/-- A step that calls no device. -/
theorem plain_wp {o : Op} {Q : o.Ret → Worker → Snap controller → Prop} (ho : o.ofWorker = true)
    (hanswer : o.answering = false) (hreceive : o.receiving = false) (hs : Holds h c n l s)
    (hq : ∀ r s', Holds h c n l s' → Q r l s') : (counts checks).left.wpc (step o) Q l s := by
  obtain ⟨hfailed, hcount, hbelow, hseen⟩ := hs
  exact seen_undisturbed.step ho hanswer hreceive hseen fun r s₁ h₁ =>
    hq r s₁ ⟨hfailed, hcount, hbelow, h₁⟩

/-- What an answer of the device leaves in a pass; without one a read has timed out. -/
def Outcome (h : Option Command) (c : Nat) : Option (Except Error Unit) → Assertion
  | some (.ok ()) => Holds h c 0
  | some (.error e) => Failing h c e
  | none => Holds h c c

/-- What an answer leaves, where it does not come while the count is behind. -/
theorem outcome_of_act (hact : controller.act o i s = some (r, s'))
    (hreceive : o.receiving = false) (hs : Holds h c n l s)
    (hagree : o.answer? i ≠ some (.ok ()) → n = c) :
    Outcome h c (answered? ⟨o, r⟩) l s' := by
  obtain ⟨hfailed, hcount, hbelow, hhandling, hfailures, hfatal⟩ := hs
  have hanswers := answers_of_act hact
  have hhandling' : handling s'.trace = h := (handling_kept hreceive hact).trans hhandling
  rw [answered?_of_exec (exec_of_act hact)]
  cases hanswer : o.answer? i with
  | none =>
    have hsame : answers s'.trace = answers s.trace := by
      rw [hanswers, hanswer]
      rfl
    refine ⟨hfailed, hcount, hbelow, hhandling', ?_, ?_⟩
    · rw [hsame, hfailures]
      exact hagree (by simp [hanswer])
    · rw [hsame]
      exact hfatal
  | some answer =>
    have hnew : answers s'.trace = answer :: answers s.trace := by
      rw [hanswers, hanswer]
      rfl
    cases answer with
    | ok _ =>
      refine ⟨hfailed, hcount, hbelow, hhandling', ?_, ?_⟩
      · rw [hnew]
        rfl
      · rw [hnew]
        exact not_fatal_ok _
    | error e =>
      refine ⟨hfailed, hcount, hbelow, hhandling', _, hnew, ?_⟩
      rw [hfailures]
      exact hagree (by simp [hanswer])

/-- A call of a pass does not fail, nor a read time out, while the count is behind. -/
theorem behind_of_counts (hcounts : countsPass l o i s = true) (hcalls : o.answering = true)
    (hanswer : o.answer? i ≠ some (.ok ())) : behind l s = false := by
  unfold countsPass at hcounts
  cases hresult : o.answer? i with
  | none =>
    have hread : o = .deviceReadResult := by
      cases o <;>
        first
        | rfl
        | exact absurd hcalls Bool.false_ne_true
        | exact absurd hresult (Option.some_ne_none _)
    subst hread
    rw [hresult] at hcounts
    simpa using hcounts
  | some answer =>
    cases answer with
    | ok _ => exact absurd hresult hanswer
    | error e =>
      rw [hresult] at hcounts
      simpa using hcounts

/-- A call of a pass. -/
theorem call_wp {o : Op} {Q : o.Ret → Worker → Snap controller → Prop} (ho : o.ofWorker = true)
    (hreceive : o.receiving = false) (hcalls : o.answering = true) (hs : Holds none c n l s)
    (hn : n = c ∨ n = 0) (hq : ∀ r s', Outcome none c (answered? ⟨o, r⟩) l s' → Q r l s') :
    (counts checks).left.wpc (step o) Q l s := by
  obtain ⟨hfailed, hcount, hbelow, hseen⟩ := hs
  refine workerOutline_step ho seen_stable hseen fun i r s₁ s₂ h₁ hcounts hact => hq r s₂ ?_
  have hcounts : countsCall l o i s₁ = true := hcounts
  refine outcome_of_act hact hreceive ⟨hfailed, hcount, hbelow, h₁⟩ fun hanswer => ?_
  have hbehind : behind l s₁ = false := by
    unfold countsCall at hcounts
    rw [hfailed, h₁.1, Bool.false_or] at hcounts
    exact behind_of_counts hcounts hcalls hanswer
  unfold behind at hbehind
  rw [hcount, h₁.2.1] at hbehind
  simp only [Bool.and_eq_false_iff, decide_eq_false_iff_not, not_not] at hbehind
  omega

/-! ## Errors -/

/-- What the device has answered, with the command in the worker's hands. -/
def Heard (h : Option Command) (a : List (Except Error Unit)) (s : Snap controller) : Prop :=
  handling s.trace = h ∧ answers s.trace = a

variable {a : List (Except Error Unit)}

theorem heard_undisturbed : Undisturbed (Heard h a) := by
  intro o i r s s' hanswer hreceive hact hs
  unfold Heard at hs ⊢
  rw [answers_kept hanswer hact, handling_kept hreceive hact]
  exact hs

/-- Counting an error, which may end the worker. -/
theorem noteError_wp (hs : Failing h c e l s) :
    (counts checks).left.wpc (noteError e) (fun _ l s => Known h l s) l s := by
  obtain ⟨hfailed, hcount, hbelow, hhandling, rest, hanswers, hrest⟩ := hs
  have hfailures : failures (.error e :: rest) = c + 1 := by rw [failures, hrest]
  have hbumped : l.consecutiveErrors + 1 = c + 1 := by rw [hcount]
  refine wpc_bind.mpr (wpc_update.mpr (wpc_bind.mpr (wpc_own.mpr ?_)))
  split
  · next hspent =>
    -- the worker ends itself exactly where the count or the error says so
    have hends : MAX_CONSECUTIVE_ERRORS ≤ c + 1 ∨ Fatal (.error e :: rest) := by
      rcases (Bool.or_eq_true _ _).mp hspent with hfatal | habove
      · exact Or.inr ⟨e, rest, rfl, hfatal⟩
      · rw [decide_eq_true_eq, hbumped] at habove
        exact Or.inl habove
    refine wpc_mono (disconnect_wp heard_undisturbed ⟨hhandling, hanswers⟩ e)
      fun _ l' s' hs' => ?_
    obtain ⟨rfl, hheard, htold⟩ := hs'
    refine ⟨hheard.1, ?_, ?_, fun _ => htold⟩
    · rw [hheard.2, hfailures]
      exact hbumped
    · rw [hheard.2, hfailures]
      exact ⟨fun _ => hends, fun _ => rfl⟩
  · next hspent =>
    obtain ⟨hfatal, habove⟩ : e.fatal = false ∧ ¬ MAX_CONSECUTIVE_ERRORS ≤ c + 1 := by
      rw [hbumped] at hspent
      simpa using hspent
    refine Holds.known (c := c + 1) ⟨hfailed, hbumped, by omega, hhandling, ?_, ?_⟩
    · rw [hanswers, hfailures]
    · rw [hanswers]
      rintro ⟨e', rest', heq, hfatal'⟩
      injection heq with hhead _
      injection hhead with hhead
      rw [← hhead, hfatal] at hfatal'
      cases hfatal'

/-- Behind a success the count starts again. -/
theorem clearErrors_wp (hs : Holds h c 0 l s) :
    (counts checks).left.wpc clearErrors (fun _ l s => Holds h 0 0 l s) l s :=
  wpc_update.mpr ⟨hs.1, rfl, by decide, hs.2.2.2⟩

/-! ## A pass -/

/-- The device has answered `Ok`, or, under `q`, was not called. -/
def Settled (q : Prop) (c n : Nat) (l : Worker) (s : Snap controller) : Prop :=
  Holds none c 0 l s ∨ q ∧ Holds none c n l s

theorem Settled.mono {q q' : Prop} (hs : Settled q c n l s) (hq : q → q') : Settled q' c n l s :=
  hs.imp id fun h => ⟨hq h.1, h.2⟩

/-- What a part of a pass that calls the device leaves. -/
def Part (q : Prop) (c n : Nat) : Except Error Unit → Assertion
  | .ok () => Settled q c n
  | .error e => Failing none c e

variable {track : TrackAddress}

theorem positionCylinder_wp (hs : Holds none c n l s) (hn : n = c ∨ n = 0) :
    (counts checks).left.wpc (positionCylinder track) (fun r l' s' =>
      Part (l.positioned = true ∧ l.physical.cylinder = track.cylinder) c n r l' s' ∧
        l'.positioned = l.positioned ∧ l'.physical.side = l.physical.side) l s := by
  refine positionCylinder_wp_of (call_wp rfl rfl rfl hs hn fun r s₁ h₁ => ?_)
    fun hpositioned hthere => ⟨Or.inr ⟨⟨hpositioned, hthere⟩, hs⟩, rfl, rfl⟩
  cases r with
  | error e => exact ⟨h₁, rfl, rfl⟩
  | ok _ => exact ⟨Or.inl h₁, rfl, rfl⟩

theorem positionSide_wp (hs : Holds none c n l s) (hn : n = c ∨ n = 0) :
    (counts checks).left.wpc (positionSide track)
      (fun r l' s' => Part (l.positioned = true ∧ l.physical.side = track.side) c n r l' s')
      l s := by
  refine positionSide_wp_of (call_wp rfl rfl rfl hs hn fun r s₁ h₁ => ?_)
    fun hpositioned hthere => Or.inr ⟨⟨hpositioned, hthere⟩, hs⟩
  cases r with
  | error e => exact h₁
  | ok _ => exact Or.inl h₁

/-- The side, behind the cylinder: where neither calls the device, the head was on the track. -/
theorem positionSide_behind {l₁ : Worker} (hn : n = c ∨ n = 0)
    (h : Part (l.positioned = true ∧ l.physical.cylinder = track.cylinder) c n (.ok ()) l₁ s ∧
      l₁.positioned = l.positioned ∧ l₁.physical.side = l.physical.side) :
    (counts checks).left.wpc (positionSide track)
      (fun r l' s' => Part (here l track = true) c n r l' s') l₁ s := by
  obtain ⟨hcylinder | ⟨⟨hpositioned, hcylinder⟩, hs⟩, -, hside⟩ := h
  · refine wpc_mono (positionSide_wp hcylinder (Or.inr rfl)) fun r l₂ s₂ h₂ => ?_
    cases r with
    | error e => exact h₂
    | ok _ => exact Or.inl (h₂.elim id And.right)
  · refine wpc_mono (positionSide_wp hs hn) fun r l₂ s₂ h₂ => ?_
    cases r with
    | error e => exact h₂
    | ok _ =>
      refine h₂.mono fun hskip => ?_
      have hphysical : l.physical = track := by
        obtain ⟨cylinder, side⟩ := track
        rw [show l.physical = ⟨l.physical.cylinder, l.physical.side⟩ from rfl, hcylinder,
          ← hside, hskip.2]
      unfold here
      rw [hpositioned, hphysical]
      simp

/-- The end of `position`. -/
theorem confirm_wp {q : Prop} {cylinder : Nat} {side : Side} (hs : Settled q c n l s) :
    (counts checks).left.wpc (step (.confirmPosition cylinder side))
      (fun _ l s => Settled q c n l s) { l with positioned := true } s := by
  rcases hs with hs | ⟨hq, hs⟩
  · exact plain_wp (l := { l with positioned := true }) rfl rfl rfl hs fun _ _ h₁ => Or.inl h₁
  · exact plain_wp (l := { l with positioned := true }) rfl rfl rfl hs fun _ _ h₁ =>
      Or.inr ⟨hq, h₁⟩

/-- Positioning calls the device, unless the head is already on the track. -/
theorem position_wp (hs : Holds none c n l s) (hn : n = c ∨ n = 0) :
    (counts checks).left.wpc (position track)
      (fun r l' s' => Part (here l track = true) c n r l' s') l s :=
  position_wp_of (positionCylinder_wp hs hn) (fun _ _ _ h₁ => h₁.1)
    (fun _ _ h₁ => positionSide_behind hn h₁) (fun _ _ _ h₂ => h₂) fun _ _ h₂ => confirm_wp h₂

theorem applyTarget_wp {target : Option TrackAddress} (hs : Holds none c c l s)
    (hwish : ∀ track, target = some track → here l track = true → c = 0) :
    (counts checks).left.wpc (applyTarget target) (fun positioned l s =>
      if positioned then ∃ c, Holds none c c l s else Known none l s) l s := by
  refine applyTarget_wp_of (fun _ => ⟨c, hs⟩)
    (fun track _ => position_wp (l := { l with target := track }) hs (Or.inl rfl))
    (fun _ _ _ _ _ h₁ => noteError_wp h₁) fun track l₁ s₁ htarget h₁ => ?_
  -- with no call of the device, no errors are counted that the reset could drop
  have hfresh : Holds none c 0 l₁ s₁ := by
    rcases h₁ with h₁ | ⟨hhere, h₁⟩
    · exact h₁
    · have hzero : c = 0 := hwish track htarget hhere
      rw [hzero] at h₁ ⊢
      exact h₁
  exact wpc_mono (clearErrors_wp hfresh) fun _ _ _ h₂ => ⟨0, h₂⟩

theorem quickStart_wp {enabled : Bool} (hs : Holds none c n l s) :
    (counts checks).left.wpc (quickStart enabled) (fun _ l s => Holds none c n l s) l s :=
  quickStart_wp_of hs (plain_wp rfl rfl rfl hs fun _ _ h₁ => h₁)

/-- Behind a position that works the count is right, or a success is not counted yet. -/
theorem Settled.holds {q : Prop} (hs : Settled q c c l s) :
    ∃ n, (n = c ∨ n = 0) ∧ Holds none c n l s := by
  rcases hs with hs | ⟨-, hs⟩
  · exact ⟨0, Or.inr rfl, hs⟩
  · exact ⟨c, Or.inl rfl, hs⟩

theorem applyMotor_wp {side : Side} {enabled quick : Bool} (hs : Holds none c c l s) :
    (counts checks).left.wpc (applyMotor side enabled quick)
      (fun r l s => Part False c c r l s) l s := by
  refine wpc_bind.mpr (wpc_own.mpr (wpc_seq (position_wp hs (Or.inl rfl)) fun r l₁ s₁ h₁ => ?_))
  cases r with
  | error e => exact h₁
  | ok _ =>
    obtain ⟨n, hn, h₁⟩ := h₁.holds
    refine wpc_bind.mpr (call_wp rfl rfl rfl h₁ hn fun r s₂ h₂ => ?_)
    cases r with
    | error e => exact h₂
    | ok _ => exact wpc_bind.mpr (plain_wp rfl rfl rfl h₂ fun _ _ h₃ => Or.inl h₃)

theorem applyMotorWish_wp {side : Side} {enabled : Bool} (hs : Holds none c c l s) :
    (counts checks).left.wpc (applyMotorWish side enabled) (fun _ l s => Known none l s) l s := by
  refine applyMotorWish_wp_of (M := Holds none 0 0) (quickStart_wp hs)
    (fun _ _ _ h => applyMotor_wp h) (fun _ _ _ h => noteError_wp h) ?_ ?_ fun _ _ h => h.known
  · intro l s h
    have hfresh : Holds none c 0 l s := h.elim id fun h => h.1.elim
    exact clearErrors_wp hfresh
  · intro l s h
    exact plain_wp rfl rfl rfl h fun now _ h₁ =>
      Holds.known (l := { l with motorStoppedAt := some now }) h₁

/-- The wish is taken: where errors are counted, its track is not the one the head is on. -/
theorem takeDesired_wp (hs : Holds none c c l s) :
    (counts checks).left.wpc (step .takeDesired) (fun wish l s => Holds none c c l s ∧
      ∀ track, wish.target = some track → here l track = true → c = 0) l s := by
  obtain ⟨hfailed, hcount, hbelow, hseen⟩ := hs
  refine workerOutline_step rfl seen_stable hseen fun i wish s₁ s₂ h₁ hcounts hact => ?_
  have hcounts : countsCall l .takeDesired i s₁ = true := hcounts
  refine ⟨⟨hfailed, hcount, hbelow,
    seen_undisturbed .takeDesired i wish s₁ s₂ rfl rfl hact h₁⟩, fun track htarget hhere => ?_⟩
  have hexec := exec_of_act hact
  simp only [exec, Option.some.injEq, Prod.mk.injEq] at hexec
  rw [← hexec.1] at htarget
  unfold countsCall countsPass at hcounts
  rw [hfailed, h₁.1, Bool.false_or] at hcounts
  simp only [Op.answer?, htarget, hhere, Bool.not_true, Bool.false_or, decide_eq_true_eq]
    at hcounts
  rw [← hcount, hcounts]

theorem applyDesired_wp (hs : Holds none c c l s) :
    (counts checks).left.wpc applyDesired (fun _ l s => Known none l s) l s :=
  applyDesired_wp_of (M := fun _ l s => ∃ c, Holds none c c l s) (takeDesired_wp hs)
    (fun _ _ _ _ h₁ => h₁) (fun _ _ _ h₁ => applyTarget_wp h₁.1 h₁.2)
    (fun _ _ ⟨_, h₂⟩ => h₂.known) fun _ _ _ _ ⟨_, h₂⟩ => applyMotorWish_wp h₂

theorem reportDisk_wp {changed present : Bool} (hs : Holds none c n l s) :
    (counts checks).left.wpc (reportDisk changed present)
      (fun _ l s => Holds none c n l s) l s := by
  unfold reportDisk
  split
  · refine wpc_bind.mpr (plain_wp rfl rfl rfl hs fun _ s₁ h₁ => ?_)
    exact wpc_bind.mpr (plain_wp rfl rfl rfl h₁ fun _ s₂ h₂ => h₂)
  · exact hs

theorem refreshStatus_wp (hs : Holds none c c l s) :
    (counts checks).left.wpc refreshStatus (fun _ l s => Known none l s) l s := by
  refine wpc_bind.mpr (plain_wp rfl rfl rfl hs fun now s₁ h₁ => ?_)
  have h₁ : Holds none c c { l with nextStatus := now + 250 * NANOS_PER_MILLI } s₁ := h₁
  refine wpc_bind.mpr (wpc_update.mpr (wpc_bind.mpr
    (plain_wp rfl rfl rfl h₁ fun old s₂ h₂ => ?_)))
  refine wpc_bind.mpr (call_wp rfl rfl rfl h₂ (Or.inl rfl) fun r s₃ h₃ => ?_)
  cases r with
  | error e => exact noteError_wp h₃
  | ok new =>
    refine wpc_bind.mpr (wpc_own.mpr (wpc_seq (reportDisk_wp h₃) fun _ l₄ s₄ h₄ => ?_))
    refine wpc_bind.mpr (plain_wp rfl rfl rfl h₄ fun _ s₅ h₅ => ?_)
    exact wpc_mono (clearErrors_wp h₅) fun _ _ _ h₆ => h₆.known

theorem refreshStatusIfDue_wp (hs : Holds none c c l s) :
    (counts checks).left.wpc refreshStatusIfDue (fun _ l s => Known none l s) l s := by
  refine wpc_bind.mpr (wpc_own.mpr (wpc_bind.mpr (plain_wp rfl rfl rfl hs fun now s₁ h₁ => ?_)))
  split
  · exact h₁.known
  · exact refreshStatus_wp h₁

theorem captureTarget_wp (hs : Holds none c n l s) :
    (counts checks).left.wpc captureTarget (fun _ l s => Holds none c n l s) l s := by
  refine wpc_bind.mpr (plain_wp rfl rfl rfl hs fun status s₁ h₁ => ?_)
  split
  · exact h₁
  refine wpc_bind.mpr (wpc_own.mpr ?_)
  split
  · exact h₁
  split
  · exact h₁
  · exact wpc_bind.mpr (plain_wp rfl rfl rfl h₁ fun _ _ h₂ => h₂)

theorem readTrack_wp (hs : Holds none c n l s) (hn : n = c ∨ n = 0) :
    (counts checks).left.wpc (readTrack track)
      (fun r l s => Outcome none c (readAnswer r) l s) l s := by
  refine wpc_bind.mpr (wpc_own.mpr (wpc_bind.mpr
    (plain_wp rfl rfl rfl hs fun reports s₁ h₁ => ?_)))
  refine wpc_seq (wpc_times (J := Holds none c n)
    (fun _ _ h => plain_wp rfl rfl rfl h fun _ _ h => h) reports _ _ h₁) fun _ l₂ s₂ h₂ => ?_
  exact call_wp rfl rfl rfl h₂ hn fun _ _ h => h

theorem keepCapture_wp {capture : RawCapture} (hs : Holds none c 0 l s) :
    (counts checks).left.wpc (keepCapture track capture) (fun _ l s => Known none l s) l s := by
  refine wpc_bind.mpr (plain_wp rfl rfl rfl hs fun _ s₁ h₁ => ?_)
  refine wpc_seq (clearErrors_wp h₁) fun _ l₂ s₂ h₂ => ?_
  have h₂ : Holds none 0 0 { l₂ with generation := (l₂.generation + 1) % USIZE_RANGE } s₂ := h₂
  refine wpc_bind.mpr (wpc_update.mpr (wpc_bind.mpr (wpc_own.mpr ?_)))
  exact wpc_bind.mpr (plain_wp rfl rfl rfl h₂ fun _ _ h₃ => h₃.known)

theorem captureIfNeeded_wp (hs : Holds none c c l s) :
    (counts checks).left.wpc captureIfNeeded (fun _ l s => Known none l s) l s := by
  refine captureIfNeeded_wp_of (M := fun _ r l s => ∃ q : Prop, Part q c c r l s)
    (R := fun _ r => Outcome none c (readAnswer r)) (captureTarget_wp hs)
    (fun _ _ h => h.known)
    (fun _ _ _ h => wpc_mono (position_wp h (Or.inl rfl)) fun _ _ _ h₁ => ⟨_, h₁⟩)
    (fun _ _ _ _ ⟨_, h⟩ => noteError_wp h) ?_ (fun _ _ _ _ h => Holds.known h) ?_ ?_ ?_
  · rintro wanted l s ⟨q, h⟩
    obtain ⟨n, hn, h⟩ := Settled.holds h
    exact readTrack_wp h hn
  · intro wanted e l s hother h
    rw [readAnswer_error hother] at h
    exact noteError_wp h
  · intro wanted capture e l s hvalid h
    rw [readAnswer_ok hvalid] at h
    exact noteError_wp h
  · intro wanted capture l s hvalid h
    rw [readAnswer_ok hvalid] at h
    exact keepCapture_wp h

/-! ## Commands -/

/-- What holds when a command was taken. -/
def Taken (command : Command) (l : Worker) (s : Snap controller) : Prop :=
  ∃ c, Holds (some command) c c l s

/-- A call of a no-click command: while errors are counted it does not work. -/
theorem noClickCall_wp {side : Side} {o : Op} {Q : o.Ret → Worker → Snap controller → Prop}
    (ho : o.ofWorker = true) (hreceive : o.receiving = false)
    (hs : Holds (some (.noClick side)) c c l s)
    (hq : ∀ r s', Outcome (some (.noClick side)) c (answered? ⟨o, r⟩) l s' →
      (answered? ⟨o, r⟩ = some (.ok ()) → c = 0) → Q r l s') :
    (counts checks).left.wpc (step o) Q l s := by
  obtain ⟨hfailed, hcount, hbelow, hseen⟩ := hs
  refine workerOutline_step ho seen_stable hseen fun i r s₁ s₂ h₁ hcounts hact => hq r s₂ ?_ ?_
  · exact outcome_of_act hact hreceive ⟨hfailed, hcount, hbelow, h₁⟩ fun _ => rfl
  · intro hok
    have hcounts : countsCall l o i s₁ = true := hcounts
    unfold countsCall at hcounts
    rw [answered?_of_exec (exec_of_act hact)] at hok
    rw [hfailed, h₁.1, Bool.false_or] at hcounts
    simp only [hok, ne_eq, not_true_eq_false, decide_false, Bool.false_or, decide_eq_true_eq]
      at hcounts
    rw [← hcount, hcounts]

theorem noClick_wp {side : Side} (hs : Taken (.noClick side) l s) :
    (counts checks).left.wpc (noClick side) (fun r l s =>
      match r with
      | .ok () => Holds (some (.noClick side)) 0 0 l s
      | .error e => ∃ c, Failing (some (.noClick side)) c e l s) l s := by
  obtain ⟨c, hs⟩ := hs
  refine wpc_bind.mpr (noClickCall_wp rfl rfl hs fun r s₁ h₁ hzero => ?_)
  cases r with
  | error e => exact ⟨c, h₁⟩
  | ok _ =>
    have hzero : c = 0 := hzero rfl
    subst hzero
    refine noClickCall_wp rfl rfl h₁ fun r s₂ h₂ _ => ?_
    cases r with
    | error e => exact ⟨0, h₂⟩
    | ok _ => exact h₂

/-- The calls of a write, none of which fails, and none of which works while errors are counted. -/
theorem attemptWrite_wp {id : WriteId} {request : WriteRequest}
    (hs : Taken (.write id request) l s) :
    (counts checks).left.wpc (attemptWrite checks request)
      (fun _ l s => Taken (.write id request) l s) l s := by
  obtain ⟨c, hfailed, hcount, hbelow, hseen⟩ := hs
  have hkeeps : (attemptWrite checks request).Keeps
      (fun l => l.failed = false ∧ l.consecutiveErrors = c) (Op.ofWriting ·) :=
    attemptWrite_keeps (fun _ _ _ h => h) checks request
  refine wpc_mono (workerOutline_frame hkeeps seen_stable (fun o ho => ?_) ⟨hfailed, hcount⟩ hseen)
    fun _ l' s' h => ⟨c, h.1.1, h.1.2, hbelow, h.2⟩
  have hkind : o.ofWorker = true ∧ o.receiving = false := by
    cases o <;> simp_all [Op.ofWriting, Op.ofPosition, Op.ofWorker, Op.receiving]
  refine ⟨hkind.1, fun l i r s s' hl h₁ hcounts hact => ?_⟩
  have hcounts : countsCall l o i s = true := hcounts
  unfold countsCall at hcounts
  rw [hl.1, h₁.1, Bool.false_or] at hcounts
  have hholds : Holds (some (.write id request)) c c l s := ⟨hl.1, hl.2, hbelow, h₁⟩
  -- the condition rules out an error of any call, and a success behind counted errors
  have houtcome := outcome_of_act hact hkind.2 hholds fun _ => rfl
  rw [answered?_of_exec (exec_of_act hact)] at houtcome
  cases hanswer : o.answer? i with
  | none =>
    rw [hanswer] at houtcome
    exact houtcome.2.2.2
  | some answer =>
    cases answer with
    | error e =>
      rw [hanswer] at hcounts
      cases hcounts
    | ok _ =>
      rw [hanswer] at hcounts houtcome
      have hzero : c = 0 := by rw [← hl.2]; simpa using hcounts
      rw [hzero]
      exact houtcome.2.2.2

theorem performWrite_wp {id : WriteId} {request : WriteRequest}
    (hs : Taken (.write id request) l s) :
    (counts checks).left.wpc (performWrite checks id request)
      (fun flow l s => Taken (.write id request) l s ∧ flow ≠ .stop) l s := by
  refine wpc_seq (attemptWrite_wp hs) fun r l₁ s₁ h₁ => ?_
  cases r with
  | none => exact ⟨h₁, nofun⟩
  | some result =>
    obtain ⟨c, h₁⟩ := h₁
    refine wpc_bind.mpr (plain_wp rfl rfl rfl h₁ fun _ s₂ h₂ => ?_)
    exact wpc_bind.mpr (plain_wp rfl rfl rfl h₂ fun _ s₃ h₃ => ⟨⟨c, h₃⟩, nofun⟩)

theorem Known.next (hs : Known h l s) :
    (l.failed = true → At .stopping l s) ∧ (l.failed = false → At .drain l s) :=
  ⟨fun _ => ⟨h, hs⟩, fun hfailed => ⟨h, hs, hfailed⟩⟩

theorem process_wp {command : Command} (hs : Taken command l s) :
    (counts checks).left.wpc (process checks command) (fun flow l s => At flow.next l s) l s := by
  cases command with
  | noClick side =>
    refine wpc_seq (noClick_wp hs) fun r l₁ s₁ h₁ => ?_
    cases r with
    | error e =>
      obtain ⟨c, h₁⟩ := h₁
      exact wpc_seq (noteError_wp h₁) fun _ l₂ s₂ h₂ => failedFlow_wp h₂.next
    | ok _ => exact failedFlow_wp (Holds.known h₁).next
  | write id request =>
    refine process_write_wp (wpc_mono (performWrite_wp hs) fun flow l₁ s₁ h₁ => ?_)
    obtain ⟨⟨c, h₁⟩, hstop⟩ := h₁
    cases flow with
    | go => exact h₁.known.next
    | stop => exact absurd rfl hstop
    | unwound => exact ⟨_, h₁.known⟩
  | shutdown =>
    obtain ⟨c, hs⟩ := hs
    exact ⟨_, hs.known⟩

/-! ## The loop -/

theorem at_stable (loc : Loc) : (counts checks).left.Stable (At loc l) := by
  have hknown : (counts checks).left.Stable fun s => ∃ h, Known h l s :=
    fun s s' hr ⟨h, hs⟩ => ⟨h, known_stable s s' hr hs⟩
  have hkept : (counts checks).left.Stable fun s => ∃ h, Known h l s ∧ l.failed = false :=
    fun s s' hr ⟨h, hs, hfailed⟩ => ⟨h, known_stable s s' hr hs, hfailed⟩
  cases loc with
  | top hot => exact hkept
  | drain => exact hkept
  | stopping => exact hknown
  | unwinding => exact hknown
  | ended => exact stable_const

/-- Looking for a command: what is known of the count stays, with what was found. -/
theorem seen_of_receive (hact : controller.act o i s = some (r, s')) (hanswer : o.answering = false)
    (hs : Holds h c n l s) : Holds (handling s'.trace) c n l s' := by
  obtain ⟨hfailed, hcount, hbelow, -, hfailures, hfatal⟩ := hs
  refine ⟨hfailed, hcount, hbelow, rfl, ?_, ?_⟩
  · rw [answers_kept hanswer hact]
    exact hfailures
  · rw [answers_kept hanswer hact]
    exact hfatal

/-- A step behind the loop: nothing is counted any more. -/
theorem ending_wp {o : Op} {Q : o.Ret → Worker → Snap controller → Prop} (ho : o.ofWorker = true)
    (hq : ∀ r s', Q r l s') : (counts checks).left.wpc (step o) Q l s :=
  workerOutline_step (P := fun _ => True) ho stable_const trivial fun _ r _ s₂ _ _ _ => hq r s₂

theorem loop : Loop (counts checks).left checks At Taken fun l s => ∃ c, Holds none c c l s where
  hot _ _ h := h
  select l s h := by
    obtain ⟨h, hknown, hfailed⟩ := h
    obtain ⟨-, hcount, hbelow, hseen⟩ := hknown.holds hfailed
    refine workerOutline_step rfl seen_stable hseen fun i r s₁ s₂ h₁ _ hact => ?_
    have h₂ := seen_of_receive hact rfl ⟨hfailed, hcount, hbelow, h₁⟩
    cases r with
    | command c =>
      rw [handling_of_select hact] at h₂
      exact ⟨_, h₂⟩
    | nudge => exact ⟨_, h₂.known, hfailed⟩
    | timeout => exact ⟨_, h₂.known, hfailed⟩
  receive l s h := by
    obtain ⟨h, hknown, hfailed⟩ := h
    obtain ⟨-, hcount, hbelow, hseen⟩ := hknown.holds hfailed
    refine workerOutline_step rfl seen_stable hseen fun i r s₁ s₂ h₁ _ hact => ?_
    have h₂ := seen_of_receive hact rfl ⟨hfailed, hcount, hbelow, h₁⟩
    rw [handling_of_receive hact] at h₂
    cases r with
    | some c => exact ⟨_, h₂⟩
    | none => exact ⟨_, h₂⟩
  process _ _ _ h := process_wp h
  pass l s h := by
    obtain ⟨c, h⟩ := h
    exact passRound_wp (applyDesired_wp h)
      (fun _ _ h hfailed => refreshStatusIfDue_wp (h.holds hfailed))
      (fun _ _ h hfailed => captureIfNeeded_wp (h.holds hfailed))
      (fun _ _ h hfailed => h.next.1 hfailed) (fun _ _ _ h hfailed => h.next.2 hfailed)
  stop l s _ := by
    refine wpc_bind.mpr (ending_wp rfl fun _ _ => wpc_bind.mpr (ending_wp rfl fun _ _ => ?_))
    exact wpc_bind.mpr (ending_wp rfl fun _ _ => trivial)
  unwind l s _ := wpc_bind.mpr (ending_wp rfl fun _ _ => trivial)

theorem valid : (counts checks).Valid :=
  workerOutline_valid (fun loc _ => at_stable loc) fun _ _ _ _ hm h => loop.round hm h

end Counting

/-! ## The count in a run -/

section Runs

variable {checks : Bool} {m : Moment checks}

/--
**The count.** In a run in which every call is counted, the count is the run of failures that the
device has answered last, and the drive is given up just when that run has reached the ceiling or
ends in a fatal error.
-/
theorem errorsCounted_of_counts (h : Reachable (callsCounted checks) m) : ErrorsCounted m := by
  have hholds := h.holds Counting.valid fun config status head now =>
    ⟨trivial, ⟨none, ⟨rfl, rfl, ⟨fun h => (nomatch h), fun h => ?_⟩, fun h => (nomatch h)⟩, rfl⟩,
      trivial⟩
  · intro loc hloc hrunning
    have hat : Counting.At loc m.left.priv m.snap := hholds.leftAt hloc
    cases loc with
    | top hot =>
      obtain ⟨h, hknown, -⟩ := hat
      exact hknown.2
    | drain =>
      obtain ⟨h, hknown, -⟩ := hat
      exact hknown.2
    | stopping =>
      obtain ⟨h, hknown⟩ := hat
      exact hknown.2
    | unwinding =>
      obtain ⟨h, hknown⟩ := hat
      exact hknown.2
    | ended => exact absurd rfl hrunning
  · rcases h with habove | ⟨e, rest, heq, -⟩
    · have habove : MAX_CONSECUTIVE_ERRORS ≤ 0 := habove
      exact absurd habove (by decide)
    · cases heq

/-- Let the worker pass when a status reading is due, which the device ends with an error. -/
def statusTimesOut : Schedule true :=
  working [{}] ++
    working [{}, {}, { now := 2 }, { now := 2 }, {}, { status := .error (.timeout "status") }, {}]

theorem errorsCounted_of_counts_once : ∃ m : Moment true,
    m.left.result? = some (.top false) ∧ answers m.snap.trace = [.error (.timeout "status")] ∧
      ErrorsCounted m := by
  have hplay : ((play (callsCounted true) (opened true .normal ⟨0, .lower⟩) statusTimesOut).any
      fun m => m.left.result? = some (.top false) ∧
        answers m.snap.trace = [.error (.timeout "status")]) = true := by
    decide +kernel
  obtain ⟨m, hrun, htest⟩ := exists_reach_of_play hplay
  obtain ⟨hloc, hanswers⟩ : m.left.result? = some (.top false) ∧
      answers m.snap.trace = [.error (.timeout "status")] := by simpa using htest
  exact ⟨m, hloc, hanswers, errorsCounted_of_counts ⟨hrun⟩⟩

/-- Take the head to a track, fail a status reading, and ask for the same track again. -/
def pollBetween : Schedule true :=
  calling (.seek ⟨0, .lower⟩) 4 {} ++ working [{}] ++
    working [{}, {}, {}, {}, {}, { now := 2 }, { now := 2 }, {},
      { status := .error (.timeout "status") }, {}] ++
    calling (.seek ⟨0, .lower⟩) 4 {} ++ working [{}] ++ working [{}, {}, {}, {}, {}]

/-- A head wish for where the head is resets the count, though the device was not called. -/
theorem poll_resets_count : ¬ ∀ (checks : Bool) (m : Moment checks),
    Reachable (anyRun checks) m → ErrorsCounted m := by
  intro h
  have hplay : ((play (anyRun true) (opened true .normal ⟨5, .upper⟩) pollBetween).any
      fun m => m.left.result? = some (.top false) ∧ m.left.priv.consecutiveErrors = 0 ∧
        failures (answers m.snap.trace) = 1) = true := by
    decide +kernel
  obtain ⟨m, hrun, htest⟩ := exists_reach_of_play hplay
  obtain ⟨hloc, hcount, hfailures⟩ : m.left.result? = some (.top false) ∧
      m.left.priv.consecutiveErrors = 0 ∧ failures (answers m.snap.trace) = 1 := by
    simpa using htest
  have hcounted := (h true m ⟨hrun⟩ _ hloc nofun).count
  rw [hcount, hfailures] at hcounted
  cases hcounted

end Runs

end FluxBridge
