import FluxBridge.Controller.DeviceCalls

/-!
# The most recent motor wish

`set_motor` records a wish, `apply_desired` takes it and hands it to the device. Between the two
it is in the worker's hands only, and an error on the way drops it.

* `motorWish` — what has become of the most recent wish: recorded, taken, or passed
* `wishSpared` — what a run has to meet: no device call fails while a wish is in the worker's
  hands, unless the failure ends the worker
* `wishKept_of_spared` — in such a run the most recent wish is still recorded or was passed
-/

namespace FluxBridge

open Atomic Atomic.Side

/-! ## What becomes of a wish -/

/-- The most recent motor wish, and what has become of it. -/
inductive MotorWish where
  | never
  /-- it is in `Desired` -/
  | recorded (side : Side) (enabled : Bool)
  /-- `apply_desired` has taken it -/
  | taken (side : Side) (enabled : Bool)
  /-- `Device::set_motor` was called for it and returned `Ok` -/
  | passed (side : Side) (enabled : Bool)
  deriving DecidableEq, Repr

namespace MotorWish

/-- `apply_desired` takes what is recorded. -/
def take : MotorWish → MotorWish
  | recorded side enabled => taken side enabled
  | wish => wish

/-- `Device::set_motor` has returned `Ok`. -/
def switch (on : Bool) : MotorWish → MotorWish
  | taken side enabled => if on = enabled then passed side enabled else taken side enabled
  | wish => wish

def recorded? : MotorWish → Option (Side × Bool)
  | recorded side enabled => some (side, enabled)
  | _ => none

def taken? : MotorWish → Option (Side × Bool)
  | taken side enabled => some (side, enabled)
  | _ => none

theorem recorded?_take (wish : MotorWish) : wish.take.recorded? = none := by
  cases wish <;> rfl

theorem recorded?_switch (on : Bool) (wish : MotorWish) :
    (wish.switch on).recorded? = wish.recorded? := by
  cases wish with
  | taken side enabled =>
    unfold switch
    dsimp only
    split <;> rfl
  | _ => rfl

theorem taken?_take (wish : MotorWish) : wish.take.taken? = wish.recorded?.or wish.taken? := by
  cases wish <;> rfl

theorem taken?_switch {on : Bool} {wish : MotorWish} {held : Side × Bool}
    (h : (wish.switch on).taken? = some held) : wish.taken? = some held ∧ on ≠ held.2 := by
  cases wish with
  | taken side enabled =>
    unfold switch at h
    dsimp only at h
    split at h
    · cases h
    · next hon =>
      cases h
      exact ⟨rfl, hon⟩
  | _ => cases h

end MotorWish

/-- What has become of the most recent motor wish, from what was performed, newest first. -/
def motorWish : List (Event controllerSig) → MotorWish
  | [] => .never
  | ⟨.wishMotor side enabled, _⟩ :: _ => .recorded side enabled
  | ⟨.takeDesired, _⟩ :: rest => (motorWish rest).take
  | ⟨.deviceMotor on _, .ok ()⟩ :: rest => (motorWish rest).switch on
  | _ :: rest => motorWish rest

/--
Where the worker is between two rounds and has not failed, the most recent wish is still in
`Desired`, or was passed to the device.
-/
def WishKept {checks : Bool} (m : Moment checks) : Prop :=
  m.left.priv.failed = false → ∀ loc, m.left.result? = some loc →
    match motorWish m.snap.trace with
    | .never | .passed _ _ => True
    | .recorded side enabled => m.snap.world.desired.motor = some (side, enabled)
    | .taken _ _ => False

/--
The steps that drop no wish: a device call of `position` or `set_motor` that fails while a wish
is in the worker's hands ends the worker.
-/
def sparesWish (l : Worker) (o : Op) (i : Outside) (s : Snap controller) : Bool :=
  match o with
  | .deviceSeek _ | .deviceSide _ | .deviceMotor _ _ =>
    match i.result with
    | .ok () => true
    | .error e => spent l e || (motorWish s.trace).taken?.isNone
  | _ => true

/-- The runs that drop no wish. -/
@[reducible] def wishSpared (checks : Bool) : Conditions checks :=
  .of (fun l o i s => sparesWish l o i s) fun _ _ _ _ => true

/-- What is recorded is in `Desired`. -/
def Noted (s : Snap controller) : Prop :=
  s.world.desired.motor = (motorWish s.trace).recorded?

/-- No wish but `wish` is in the worker's hands. -/
def InHand (wish : Option (Side × Bool)) (s : Snap controller) : Prop :=
  ∀ held, (motorWish s.trace).taken? = some held → wish = some held

/-- The outline of the wish. -/
def wishes (checks : Bool) : Outline (wishSpared checks) where
  inv := Noted
  leftOps o := o.ofWorker = true
  rightOps o := o.ofCaller = true
  leftAt _ l s := l.failed = false → InHand none s
  rightAt _ _ _ := True
  leftReady _ _ _ := True
  rightReady _ _ _ := True

namespace Wishes

variable {s s' : Snap controller} {o : Op} {i : Outside} {r : o.Ret}

/-! ## What one step does to a wish -/

/-- The steps that concern a motor wish. -/
def handles : Op → Bool
  | .wishMotor _ _ | .takeDesired | .deviceMotor _ _ => true
  | _ => false

theorem motorWish_cons (ho : handles o = false) (trace : List (Event controllerSig)) :
    motorWish (⟨o, r⟩ :: trace) = motorWish trace := by
  cases o <;> first | rfl | cases ho

theorem motorWish_deviceMotor {on quick : Bool} {r : Except Error Unit}
    {trace : List (Event controllerSig)} :
    motorWish (⟨.deviceMotor on quick, r⟩ :: trace) =
      if r = .ok () then (motorWish trace).switch on else motorWish trace := by
  cases r <;> rfl

theorem exec_desired_motor (h : exec o i s.world = some (r, s'.world)) (ho : handles o = false) :
    s'.world.desired.motor = s.world.desired.motor := by
  by_cases hwishes : o.wishes = true
  · cases o <;> simp only [Op.wishes, Bool.false_eq_true] at hwishes
    · cases ho
    · simp only [exec, Option.some.injEq, Prod.mk.injEq, true_and] at h
      rw [← h]
    · simp only [exec, Option.some.injEq, Prod.mk.injEq, true_and] at h
      rw [← h]
    · cases ho
  · rw [exec_desired h (by simpa using hwishes)]

theorem noted_of_act (h : controller.act o i s = some (r, s')) (hs : Noted s) : Noted s' := by
  have htrace := (Machine.act_eq_some.mp h).2
  have hexec := exec_of_act h
  unfold Noted at hs ⊢
  by_cases ho : handles o = true
  · cases o <;> simp only [handles, Bool.false_eq_true] at ho
    · simp only [exec, Option.some.injEq, Prod.mk.injEq, true_and] at hexec
      rw [htrace, ← hexec]
      rfl
    · simp only [exec, Option.some.injEq, Prod.mk.injEq] at hexec
      rw [htrace, ← hexec.2]
      exact (MotorWish.recorded?_take _).symm
    · rw [htrace, motorWish_deviceMotor, exec_desired hexec rfl, hs]
      split
      · rw [MotorWish.recorded?_switch]
      · rfl
  · rw [htrace, motorWish_cons (by simpa using ho), exec_desired_motor hexec (by simpa using ho)]
    exact hs

/-- Only `apply_desired` takes a wish. -/
theorem inHand_of_act {wish : Option (Side × Bool)} (ho : o ≠ .takeDesired)
    (h : controller.act o i s = some (r, s')) (hs : InHand wish s) : InHand wish s' := by
  have htrace := (Machine.act_eq_some.mp h).2
  intro held hheld
  rw [htrace] at hheld
  by_cases hhandles : handles o = true
  · cases o <;> simp only [handles, Bool.false_eq_true] at hhandles
    · cases hheld
    · exact absurd rfl ho
    · rw [motorWish_deviceMotor] at hheld
      split at hheld
      · exact hs held (MotorWish.taken?_switch hheld).1
      · exact hs held hheld
  · rw [motorWish_cons (by simpa using hhandles)] at hheld
    exact hs held hheld

/-- Taking the wishes: what is in the worker's hands now is what was recorded. -/
theorem inHand_of_take {wish : Desired} (h : controller.act .takeDesired i s = some (wish, s'))
    (hnoted : Noted s) (hs : InHand none s) : InHand wish.motor s' := by
  obtain ⟨hexec, htrace⟩ := Machine.act_eq_some.mp h
  simp only [exec, Option.some.injEq, Prod.mk.injEq] at hexec
  intro held hheld
  have htaken : (motorWish s.trace).take.taken? = some held := by rw [htrace] at hheld; exact hheld
  rw [MotorWish.taken?_take, Option.or_eq_some_iff] at htaken
  rw [← hexec.1, hnoted]
  rcases htaken with hrecorded | ⟨-, htaken⟩
  · exact hrecorded
  · cases hs held htaken

/-- Passing a wish to the device: it leaves the worker's hands. -/
theorem inHand_of_motor {wish : Side × Bool} {quick : Bool}
    (h : controller.act (.deviceMotor wish.2 quick) i s = some (.ok (), s'))
    (hs : InHand (some wish) s) : InHand none s' := by
  have htrace := (Machine.act_eq_some.mp h).2
  intro held hheld
  rw [htrace, motorWish_deviceMotor, if_pos rfl] at hheld
  obtain ⟨htaken, hon⟩ := MotorWish.taken?_switch hheld
  cases hs held htaken
  exact absurd rfl hon

/-! ## The worker -/

variable {checks : Bool} {l : Worker} {wish : Option (Side × Bool)} {e : Error}

/-- While the worker has not failed, no wish but `wish` is in its hands. -/
def Holds (wish : Option (Side × Bool)) (l : Worker) (s : Snap controller) : Prop :=
  l.failed = false → InHand wish s

/-- What an error leaves: it ends the worker, or no wish is in its hands. -/
def Escapes (e : Error) (l : Worker) (s : Snap controller) : Prop :=
  spent l e = false → Holds none l s

theorem holds_stable : (wishes checks).left.Stable (Holds wish l) := by
  refine Stable.imp fun _ => stable_of_action fun o i r s s' ho _ _ h hs => ?_
  have ho : o.ofCaller = true := ho
  refine inHand_of_act ?_ h hs
  rintro rfl
  cases ho

theorem step_wp {o : Op} {P : Snap controller → Prop}
    {Q : o.Ret → Worker → Snap controller → Prop} (ho : o.ofWorker = true)
    (hstable : (wishes checks).left.Stable P) (hs : P s)
    (h : ∀ i r s₁ s₂, Noted s₁ → P s₁ → sparesWish l o i s₁ = true →
      controller.act o i s₁ = some (r, s₂) → Q r l s₂) :
    (wishes checks).left.wpc (step o) Q l s :=
  wpc_perform_of ho hstable hs (fun _ _ _ => trivial) fun i r s₁ s₂ hinv h₁ ha hact =>
    ⟨noted_of_act hact hinv, h i r s₁ s₂ hinv h₁ ha hact⟩

/-- A step that takes no wish. -/
theorem plain_wp {o : Op} {Q : o.Ret → Worker → Snap controller → Prop} (ho : o.ofWorker = true)
    (htake : o ≠ .takeDesired) (hs : Holds wish l s) (h : ∀ r s', Holds wish l s' → Q r l s') :
    (wishes checks).left.wpc (step o) Q l s :=
  step_wp ho holds_stable hs fun _ r _ s₂ _ h₁ _ hact =>
    h r s₂ fun hfailed => inHand_of_act htake hact (h₁ hfailed)

/-- The frame: code that takes no wish. -/
theorem frame_wp {α : Type} {m : WorkerM α} {ops : Op → Bool}
    (hm : ∀ J, Unaffected J → (∀ w g, J w → J { w with generation := g }) → m.Keeps J (ops ·))
    (hops : ∀ o, ops o = true → o.ofWorker = true ∧ o ≠ .takeDesired) (hs : Holds none l s) :
    (wishes checks).left.wpc m (fun _ l s => Holds none l s) l s := by
  cases hfailed : l.failed with
  | true =>
    refine wpc_mono (wpc_of_keeps (P := fun _ => True) (hm _ unaffected_failed fun _ _ h => h)
      stable_const ?_ hfailed trivial) fun _ l' _ h hopen => ?_
    · intro _ o _ ho
      exact ⟨(hops o ho).1, fun s₁ hinv _ => ⟨trivial, fun _ _ _ _ hact =>
        ⟨noted_of_act hact hinv, trivial⟩⟩⟩
    · rw [h.1] at hopen
      cases hopen
  | false =>
    refine wpc_mono (wpc_of_keeps (P := InHand none) (hm _ unaffected_true fun _ _ h => h)
      ?_ ?_ trivial (hs hfailed)) fun _ _ _ h _ => h.2
    · intro s₁ s₂ hrely hs₁
      exact holds_stable (l := l) s₁ s₂ hrely (fun _ => hs₁) hfailed
    · intro _ o _ ho
      obtain ⟨hworker, htake⟩ := hops o ho
      exact ⟨hworker, fun s₁ hinv h₁ => ⟨trivial, fun _ _ _ _ hact =>
        ⟨noted_of_act hact hinv, inHand_of_act htake hact h₁⟩⟩⟩

/-! ## Errors -/

theorem escapes_of_spared (hspared : (spent l e || (motorWish s.trace).taken?.isNone) = true)
    (hsame : motorWish s'.trace = motorWish s.trace) : Escapes e l s' := by
  intro hspent _ held hheld
  rw [hspent, Bool.false_or, Option.isNone_iff_eq_none] at hspared
  rw [hsame, hspared] at hheld
  cases hheld

theorem noteError_wp (h : Escapes e l s) :
    (wishes checks).left.wpc (noteError e) (fun _ l s => Holds none l s) l s := by
  refine wpc_bind.mpr (wpc_update.mpr (wpc_bind.mpr (wpc_own.mpr ?_)))
  split
  · -- the worker has failed: nothing is promised any more
    refine wpc_bind.mpr (wpc_update.mpr ?_)
    have hlost : Holds none { l with consecutiveErrors := l.consecutiveErrors + 1, failed := true }
        s := by
      intro hfailed
      cases hfailed
    refine wpc_bind.mpr (plain_wp rfl (by simp) hlost fun _ s₁ h₁ => ?_)
    exact wpc_bind.mpr (plain_wp rfl (by simp) h₁ fun _ s₂ h₂ => h₂)
  · next hspent => exact h (by simpa [spent] using hspent)

/-- What follows from a device call: a wish stays in the worker's hands, or the error escapes. -/
def Outcome (wish : Option (Side × Bool)) (r : Except Error Unit) (l : Worker)
    (s : Snap controller) : Prop :=
  match r with
  | .ok () => Holds wish l s
  | .error e => Escapes e l s

theorem deviceSeek_wp {c : Nat} (hs : Holds wish l s) :
    (wishes checks).left.wpc (step (.deviceSeek c)) (Outcome wish) l s := by
  refine step_wp rfl holds_stable hs fun i r s₁ s₂ _ h₁ hspared hact => ?_
  have hsame : motorWish s₂.trace = motorWish s₁.trace := by
    rw [(Machine.act_eq_some.mp hact).2]
    exact motorWish_cons rfl _
  have hresult : r = i.result := (exec_deviceSeek (exec_of_act hact)).1
  simp only [sparesWish, ← hresult] at hspared
  cases r with
  | error e => exact escapes_of_spared hspared hsame
  | ok _ => exact fun hfailed => inHand_of_act (by simp) hact (h₁ hfailed)

theorem deviceSide_wp {side : Side} (hs : Holds wish l s) :
    (wishes checks).left.wpc (step (.deviceSide side)) (Outcome wish) l s := by
  refine step_wp rfl holds_stable hs fun i r s₁ s₂ _ h₁ hspared hact => ?_
  have hsame : motorWish s₂.trace = motorWish s₁.trace := by
    rw [(Machine.act_eq_some.mp hact).2]
    exact motorWish_cons rfl _
  have hresult : r = i.result := (exec_deviceSide (exec_of_act hact)).1
  simp only [sparesWish, ← hresult] at hspared
  cases r with
  | error e => exact escapes_of_spared hspared hsame
  | ok _ => exact fun hfailed => inHand_of_act (by simp) hact (h₁ hfailed)

/-- The call that passes the wish on. -/
theorem deviceMotor_wp {wish : Side × Bool} {quick : Bool} (hs : Holds (some wish) l s) :
    (wishes checks).left.wpc (step (.deviceMotor wish.2 quick)) (Outcome none) l s := by
  refine step_wp rfl holds_stable hs fun i r s₁ s₂ _ h₁ hspared hact => ?_
  obtain ⟨hexec, htrace⟩ := Machine.act_eq_some.mp hact
  have hresult : r = i.result := by
    simp only [exec, Option.some.injEq, Prod.mk.injEq] at hexec
    exact hexec.1.symm
  simp only [sparesWish, ← hresult] at hspared
  cases r with
  | error e => exact escapes_of_spared hspared (by rw [htrace, motorWish_deviceMotor]; rfl)
  | ok _ => exact fun hfailed => inHand_of_motor hact (h₁ hfailed)

/-! ## The wishes of a pass -/

theorem positionCylinder_wp {track : TrackAddress} (hs : Holds wish l s) :
    (wishes checks).left.wpc (positionCylinder track) (Outcome wish) l s := by
  refine positionCylinder_wp_of (wpc_mono (deviceSeek_wp hs) fun r l₁ s₁ h₁ => ?_) fun _ _ => hs
  cases r <;> exact h₁

theorem positionSide_wp {track : TrackAddress} (hs : Holds wish l s) :
    (wishes checks).left.wpc (positionSide track) (Outcome wish) l s := by
  refine positionSide_wp_of (wpc_mono (deviceSide_wp hs) fun r l₁ s₁ h₁ => ?_) fun _ _ => hs
  cases r <;> exact h₁

theorem position_wp {track : TrackAddress} (hs : Holds wish l s) :
    (wishes checks).left.wpc (position track) (Outcome wish) l s := by
  refine position_wp_of (positionCylinder_wp hs) (fun _ _ _ h => h)
    (fun _ _ h => positionSide_wp h) (fun _ _ _ h => h) fun l₂ s₂ h₂ => ?_
  have h₂ : Holds wish { l₂ with positioned := true } s₂ := h₂
  exact plain_wp rfl (by simp) h₂ fun _ _ h₃ => h₃

theorem applyTarget_wp {target : Option TrackAddress} (hs : Holds wish l s) :
    (wishes checks).left.wpc (applyTarget target)
      (fun positioned l s => if positioned then Holds wish l s else Holds none l s) l s :=
  applyTarget_wp_of (fun _ => hs) (fun _ _ => position_wp hs)
    (fun _ _ _ _ _ h₁ => noteError_wp h₁) fun _ _ _ _ h₁ => wpc_update.mpr h₁

theorem quickStart_wp {enabled : Bool} (hs : Holds wish l s) :
    (wishes checks).left.wpc (quickStart enabled) (fun _ l s => Holds wish l s) l s :=
  quickStart_wp_of hs (plain_wp rfl (by simp) hs fun _ _ h₁ => h₁)

theorem applyMotor_wp {wish : Side × Bool} {quick : Bool} (hs : Holds (some wish) l s) :
    (wishes checks).left.wpc (applyMotor wish.1 wish.2 quick) (Outcome none) l s := by
  refine wpc_bind.mpr (wpc_own.mpr (wpc_seq (position_wp hs) fun r l₁ s₁ h₁ => ?_))
  cases r with
  | error e => exact h₁
  | ok _ =>
    refine wpc_seq (deviceMotor_wp h₁) fun r l₂ s₂ h₂ => ?_
    cases r with
    | error e => exact h₂
    | ok _ =>
      have h₂ : Holds none l₂ s₂ := h₂
      exact wpc_bind.mpr (plain_wp rfl (by simp) h₂ fun _ _ h₃ => h₃)

theorem applyMotorWish_wp {wish : Side × Bool} (hs : Holds (some wish) l s) :
    (wishes checks).left.wpc (applyMotorWish wish.1 wish.2) (fun _ l s => Holds none l s) l s := by
  refine applyMotorWish_wp_of (M := Holds none) (quickStart_wp hs) (fun _ _ _ h => applyMotor_wp h)
    (fun _ _ _ h => noteError_wp h) (fun _ _ h => wpc_update.mpr h) ?_ fun _ _ h => h
  intro l s h
  exact plain_wp rfl (by simp) h fun _ _ h₁ => h₁

/-- A pass hands on the wish it takes. -/
theorem applyDesired_wp (hs : Holds none l s) :
    (wishes checks).left.wpc applyDesired (fun _ l s => Holds none l s) l s := by
  have htake : (wishes checks).left.wpc (step .takeDesired)
      (fun wish l s => Holds wish.motor l s) l s :=
    step_wp rfl holds_stable hs fun i wish s₁ s₂ hnoted h₁ _ hact hfailed =>
      inHand_of_take hact hnoted (h₁ hfailed)
  exact applyDesired_wp_of (M := Holds) htake (fun _ _ _ _ h₁ => h₁)
    (fun _ _ _ h₁ => applyTarget_wp h₁) (fun _ _ h₂ => h₂)
    fun _ _ _ _ h₂ => applyMotorWish_wp h₂

/-! ## The rest of the loop -/

/-- The parts of a round that take no wish. -/
theorem of_part {o : Op} (ho : o.ofWriting = true ∨ o.ofNoClick = true ∨ o.ofStatus = true ∨
    o.ofCapture = true ∨ o.ofEnding = true) : o.ofWorker = true ∧ o ≠ .takeDesired := by
  cases o with
  | takeDesired => rcases ho with ho | ho | ho | ho | ho <;> cases ho
  | _ =>
    refine ⟨?_, by simp⟩
    first | rfl | (rcases ho with ho | ho | ho | ho | ho <;> cases ho)

theorem performWrite_wp {id : WriteId} {request : WriteRequest} (hs : Holds none l s) :
    (wishes checks).left.wpc (performWrite checks id request)
      (fun _ l s => Holds none l s) l s := by
  refine wpc_seq (frame_wp (fun _ hJ _ => attemptWrite_keeps hJ.place checks request)
    (fun _ ho => of_part (Or.inl ho)) hs) fun r l₁ s₁ h₁ => ?_
  cases r with
  | none => exact h₁
  | some result =>
    refine wpc_bind.mpr (plain_wp rfl (by simp) h₁ fun _ s₂ h₂ => ?_)
    exact wpc_bind.mpr (plain_wp rfl (by simp) h₂ fun _ s₃ h₃ => h₃)

theorem process_wp {c : Command} (hs : Holds none l s) :
    (wishes checks).left.wpc (process checks c) (fun _ l s => Holds none l s) l s := by
  cases c with
  | noClick side =>
    exact frame_wp (fun _ hJ _ => processNoClick_keeps hJ.errors checks side)
      (fun _ ho => of_part (Or.inr (Or.inl ho))) hs
  | write id request =>
    refine process_write_wp (I := fun _ => Holds none) (wpc_mono (performWrite_wp hs) ?_)
    intro flow l₁ s₁ h₁
    cases flow with
    | go => exact ⟨fun _ => h₁, fun _ => h₁⟩
    | stop => exact h₁
    | unwound => exact h₁
  | shutdown => exact hs

theorem rounds : Rounds (wishes checks).left checks (fun _ => Holds none) (fun _ => Holds none)
    (Holds none) where
  hot _ _ h := h
  select _ _ h := plain_wp rfl (by simp) h fun r _ h₁ => by cases r <;> exact h₁
  receive _ _ h := plain_wp rfl (by simp) h fun r _ h₁ => by cases r <;> exact h₁
  process _ _ _ h := process_wp h
  desired _ _ h := applyDesired_wp h
  status _ _ h := frame_wp (fun _ hJ _ => refreshStatusIfDue_keeps hJ.errors hJ.schedule)
    (fun _ ho => of_part (by simp [ho])) h
  capture _ _ h := frame_wp (fun _ => captureIfNeeded_keeps) (fun _ ho => of_part (by simp [ho])) h
  failed _ _ h _ := h
  again _ _ _ h _ := h
  stop _ _ h := frame_wp (fun _ _ _ => stopRound_keeps) (fun _ ho => of_part (by simp [ho])) h
  unwind _ _ h := frame_wp (fun _ _ _ => unwindRound_keeps) (fun _ ho => of_part (by simp [ho])) h

theorem callRound_wp {call : Call} {b : Bridge} :
    (wishes checks).right.wpc (callRound checks call) (fun _ _ _ => True) b s := by
  refine callRound_wp_of (fun _ ho => ho) (fun _ _ _ => trivial) ?_
  exact fun _ _ _ _ _ _ _ _ hact hinv => noted_of_act hact hinv

theorem valid : (wishes checks).Valid where
  leftStable _ _ := holds_stable
  rightStable _ _ := stable_const
  leftRound _ _ _ _ _ hm _ h := rounds.round hm h
  rightRound := rightRound_of_call fun _ _ _ _ _ => callRound_wp

end Wishes

/-! ## The wish in a run -/

section Runs

variable {checks : Bool} {m : Moment checks}

/--
**Motor wishes.** In a run that drops no wish, the most recent one is recorded or was passed to
the device, wherever the worker is between two rounds.
-/
theorem wishKept_of_spared (h : Reachable (wishSpared checks) m) : WishKept m := by
  have hholds := h.holds Wishes.valid fun config status head now =>
    ⟨rfl, fun _ _ hheld => (nomatch hheld), trivial⟩
  intro hfailed loc hloc
  have hhand : InHand none m.snap := hholds.leftAt hloc hfailed
  have hnoted : Noted m.snap := hholds.inv
  unfold Noted at hnoted
  unfold InHand at hhand
  cases hwish : motorWish m.snap.trace with
  | never => trivial
  | passed side enabled => trivial
  | recorded side enabled =>
    rw [hwish] at hnoted
    exact hnoted
  | taken side enabled =>
    rw [hwish] at hhand
    cases hhand _ rfl

/-- Wish the motor on and let the worker pass once. -/
def motorThenPass : Schedule true :=
  calling (.setMotor .lower true) 4 {} ++ working [{}] ++ working (.replicate 9 {})

theorem wishKept_of_spared_passed : ∃ m : Moment true, m.left.priv.failed = false ∧
    m.left.result? = some (.top false) ∧
    motorWish m.snap.trace = .passed .lower true ∧ WishKept m := by
  have hplay : ((play (wishSpared true) (opened true .normal ⟨5, .upper⟩) motorThenPass).any
      fun m => m.left.priv.failed = false ∧ m.left.result? = some (.top false) ∧
        motorWish m.snap.trace = .passed .lower true) = true := by
    decide +kernel
  obtain ⟨m, hrun, htest⟩ := exists_reach_of_play hplay
  obtain ⟨hfailed, hloc, hwish⟩ : m.left.priv.failed = false ∧
      m.left.result? = some (.top false) ∧
      motorWish m.snap.trace = .passed .lower true := by simpa using htest
  exact ⟨m, hfailed, hloc, hwish, wishKept_of_spared ⟨hrun⟩⟩

/-- Wish a track and the motor on; in the pass that takes both the seek times out. -/
def motorThenTimeout : Schedule true :=
  calling (.seek ⟨5, .lower⟩) 4 {} ++ calling (.setMotor .lower true) 4 {} ++ working [{}]
    ++ working [{}, {}, { result := .error (.timeout "seek") }, {}, {}]

/-- A seek that times out drops the motor wish of its pass, and the worker goes on without it. -/
theorem drops_motor_wish : ¬ ∀ (checks : Bool) (m : Moment checks),
    Reachable (anyRun checks) m → WishKept m := by
  intro h
  have hplay : ((play (anyRun true) (opened true .normal ⟨5, .upper⟩) motorThenTimeout).any
      fun m => m.left.priv.failed = false ∧ m.left.result? = some (.top false) ∧
        motorWish m.snap.trace = .taken .lower true) = true := by
    decide +kernel
  obtain ⟨m, hrun, htest⟩ := exists_reach_of_play hplay
  obtain ⟨hfailed, hloc, hwish⟩ : m.left.priv.failed = false ∧
      m.left.result? = some (.top false) ∧
      motorWish m.snap.trace = .taken .lower true := by simpa using htest
  have hkept := h true m ⟨hrun⟩ hfailed _ hloc
  rw [hwish] at hkept
  exact hkept

end Runs

end FluxBridge
