import FluxBridge.Controller.LostDevice

/-!
# The end of a lost drive

`note_error` sets `failed`, and the worker leaves its loop at the next look at it. What it still
does after it has said so, is to switch the motor off and to end.

* `lossIsFinal_of_reachable` — after the first `Disconnected` event the worker makes one more call
  of the device, sends no event, caches nothing and takes no command, and the status stays
  as it is
* `sinceLoss` — what the worker has done since then
-/

namespace FluxBridge

open Atomic Atomic.Side

/-- What a worker does that leaves its loop. -/
def finals : List Op := [.deviceMotor false true, .markStopped, .exit]

/-- The step that offers a `Disconnected` event. -/
def Op.tellsLoss : Op → Bool
  | .trySendEvent event => event.isDisconnected
  | _ => false

/-- The steps of the worker since it first offered a `Disconnected` event, the oldest first. -/
def sinceLoss : List (Event controllerSig) → Option (List Op)
  | [] => none
  | ⟨o, _⟩ :: rest =>
    match sinceLoss rest with
    | some ops => some (if o.ofCaller then ops else ops ++ [o])
    | none => if o.tellsLoss then some [] else none

/-! ## The outline -/

namespace Finality

/-- A worker that has given up the drive is about to end, and the status says so. -/
def Final (s : Snap controller) : Prop :=
  ∀ ops, sinceLoss s.trace = some ops → ops <+: finals ∧ s.world.status.working = false

/-- The drive is not lost. -/
def Quiet (l : Worker) (s : Snap controller) : Prop :=
  l.failed = false ∧ sinceLoss s.trace = none

/-- The drive is lost, and of its end the worker has performed `ops`. -/
structure Ending (ops : List Op) (s : Snap controller) : Prop where
  since : sinceLoss s.trace = some ops
  stopped : s.world.status.working = false

/-- Between two rounds, or in the middle of one. -/
def Known (l : Worker) (s : Snap controller) : Prop :=
  (l.failed = false → sinceLoss s.trace = none) ∧ (l.failed = true → Ending [] s)

/-- Where the worker is between two rounds. -/
def At : Loc → Assertion
  | .top _ | .drain => Quiet
  | .stopping => Known
  | .unwinding => Quiet
  | .ended => fun _ s => sinceLoss s.trace = none ∨ Ending finals s

end Finality

open Finality in
/-- The outline of the end. -/
def farewell {checks : Bool} (asm : Conditions checks) : Outline asm where
  inv := Final
  leftOps o := o.ofWorker = true
  rightOps o := o.ofCaller = true
  leftAt := At
  rightAt _ _ _ := True
  leftReady _ _ _ := True
  rightReady _ _ _ := True

namespace Finality

variable {checks : Bool} {asm : Conditions checks} {l : Worker} {o : Op} {i : Outside} {r : o.Ret}
  {s s' : Snap controller}

/-! ## One step -/

/-- The caller adds nothing to what was done since the loss. -/
theorem sinceLoss_of_caller (ho : o.ofCaller = true) (h : controller.act o i s = some (r, s')) :
    sinceLoss s'.trace = sinceLoss s.trace := by
  rw [(Machine.act_eq_some.mp h).2, sinceLoss]
  cases sinceLoss s.trace with
  | some ops => simp only [ho, if_true]
  | none => cases o <;> first | rfl | cases ho

/-- Until an event tells of the loss, nothing is counted. -/
theorem sinceLoss_of_hopeful (ho : o.tellsLoss = false) (h : controller.act o i s = some (r, s'))
    (hs : sinceLoss s.trace = none) : sinceLoss s'.trace = none := by
  rw [(Machine.act_eq_some.mp h).2, sinceLoss, hs]
  simp only [ho, Bool.false_eq_true, if_false]

/-- From then on each step of the worker is. -/
theorem sinceLoss_of_worker {ops : List Op} (ho : o.ofCaller = false)
    (h : controller.act o i s = some (r, s')) (hs : sinceLoss s.trace = some ops) :
    sinceLoss s'.trace = some (ops ++ [o]) := by
  rw [(Machine.act_eq_some.mp h).2, sinceLoss, hs]
  simp only [ho, Bool.false_eq_true, if_false]

/-- The caller does not disturb the end. -/
theorem Ending.kept {ops : List Op} (ho : o.ofCaller = true)
    (h : controller.act o i s = some (r, s')) (hs : Ending ops s) : Ending ops s' := by
  constructor
  · rw [sinceLoss_of_caller ho h]
    exact hs.since
  · rw [exec_status (exec_of_act h) (Op.ofCaller_kept ho).2.2.1]
    exact hs.stopped

/-- Without a loss there is nothing to show. -/
theorem final_of_none (hs : sinceLoss s.trace = none) : Final s := by
  intro ops hops
  rw [hs] at hops
  cases hops

/-- On the way through the end. -/
theorem Ending.final {ops : List Op} (hs : Ending ops s) (hops : ops <+: finals) : Final s := by
  intro ops' hops'
  rw [hs.since] at hops'
  cases hops'
  exact ⟨hops, hs.stopped⟩

theorem Quiet.known (hs : Quiet l s) : Known l s :=
  ⟨fun _ => hs.2, fun h => absurd (hs.1.symm.trans h) Bool.false_ne_true⟩

/-! ## The worker -/

section Worker

theorem stable_of_caller {P : Snap controller → Prop}
    (h : ∀ (o : Op) (i : Outside) (r : o.Ret) (s s' : Snap controller), o.ofCaller = true →
      controller.act o i s = some (r, s') → P s → P s') : (farewell asm).left.Stable P :=
  stable_of_action fun o i r s s' ho _ _ hact hs => h o i r s s' ho hact hs

/-- The caller tells of no loss. -/
theorem none_stable : (farewell asm).left.Stable fun s => sinceLoss s.trace = none :=
  stable_of_caller fun _ _ _ _ _ ho hact hs => (sinceLoss_of_caller ho hact).trans hs

theorem ending_stable {ops : List Op} : (farewell asm).left.Stable (Ending ops) :=
  stable_of_caller fun _ _ _ _ _ ho hact hs => hs.kept ho hact

theorem quiet_stable : (farewell asm).left.Stable (Quiet l) := stable_const.and none_stable

theorem known_stable : (farewell asm).left.Stable (Known l) :=
  (Stable.imp fun _ => none_stable).and (Stable.imp fun _ => ending_stable)

theorem at_stable (loc : Loc) : (farewell asm).left.Stable (At loc l) := by
  cases loc with
  | top hot => exact quiet_stable
  | drain => exact quiet_stable
  | stopping => exact known_stable
  | unwinding => exact quiet_stable
  | ended => exact fun s s' hr h => h.imp (none_stable s s' hr) (ending_stable s s' hr)

/-- One step of a worker that has not lost the drive. -/
theorem quiet_wp {Q : o.Ret → Worker → Snap controller → Prop} (ho : o.ofWorker = true)
    (hhope : o.tellsLoss = false) (hs : Quiet l s) (h : ∀ r s, Quiet l s → Q r l s) :
    (farewell asm).left.wpc (step o) Q l s :=
  wpc_perform_of ho none_stable hs.2 (fun _ _ _ => trivial) fun i r s₁ s₂ _ h₁ _ hact => by
    have h₂ := sinceLoss_of_hopeful hhope hact h₁
    exact ⟨final_of_none h₂, h r s₂ ⟨hs.1, h₂⟩⟩

/-- The frame: code that does not give up the drive. -/
theorem frame_wp {α : Type} {m : WorkerM α} {ops : Op → Bool}
    (hm : m.Keeps (fun l => l.failed = false) (ops ·))
    (hops : ∀ o, ops o = true → o.ofWorker = true ∧ o.tellsLoss = false) (hs : Quiet l s) :
    (farewell asm).left.wpc m (fun _ l s => Quiet l s) l s := by
  refine wpc_of_keeps hm none_stable ?_ hs.1 hs.2
  refine fun l' o _ ho => ⟨(hops o ho).1, fun s₁ _ h₁ => ⟨trivial, fun i r s₂ _ hact => ?_⟩⟩
  have h₂ := sinceLoss_of_hopeful (hops o ho).2 hact h₁
  exact ⟨final_of_none h₂, h₂⟩

/-! ### Errors -/

/-- Giving up the drive: first the status, then the event. -/
theorem disconnect_wp {e : Error} (hs : sinceLoss s.trace = none) :
    (farewell asm).left.wpc (disconnect e) (fun _ l s => Known l s) l s := by
  refine wpc_bind.mpr (wpc_update.mpr (wpc_bind.mpr ?_))
  refine wpc_perform_of rfl none_stable hs (fun _ _ _ => trivial) fun i r s₁ s₂ _ h₁ _ hact => ?_
  have h₂ := sinceLoss_of_hopeful rfl hact h₁
  have hstopped : s₂.world.status.working = false := by
    have hexec := exec_of_act hact
    simp only [exec, Option.some.injEq, Prod.mk.injEq, true_and] at hexec
    rw [← hexec]
  refine ⟨final_of_none h₂, ?_⟩
  have hstable : (farewell asm).left.Stable fun s =>
      sinceLoss s.trace = none ∧ s.world.status.working = false := by
    refine none_stable.and (stable_of_caller fun o i r s s' ho hact hs => ?_)
    rw [exec_status (exec_of_act hact) (Op.ofCaller_kept ho).2.2.1]
    exact hs
  refine wpc_bind.mpr (wpc_perform_of rfl hstable ⟨h₂, hstopped⟩ (fun _ _ _ => trivial)
    fun i r s₃ s₄ _ h₃ _ hact => ?_)
  have h₄ : Ending [] s₄ := by
    constructor
    · rw [(Machine.act_eq_some.mp hact).2, sinceLoss, h₃.1]
      rfl
    · rw [exec_status (exec_of_act hact) rfl]
      exact h₃.2
  refine ⟨h₄.final List.nil_prefix, fun hfailed => ?_, fun _ => h₄⟩
  cases hfailed

/-- An error disconnects, or leaves the worker quiet. -/
theorem noteError_wp {e : Error} (hs : Quiet l s) :
    (farewell asm).left.wpc (noteError e) (fun _ l s => Known l s) l s := by
  refine wpc_bind.mpr (wpc_update.mpr (wpc_bind.mpr (wpc_own.mpr ?_)))
  split
  · exact disconnect_wp hs.2
  · exact Quiet.known ⟨hs.1, hs.2⟩

/-! ### A pass -/

theorem keepFailed_place : PlaceKeeps fun l => l.failed = false := fun _ _ _ h => h

theorem hopeful_of_position (ho : o.ofPosition = true) :
    o.ofWorker = true ∧ o.tellsLoss = false := by
  cases o <;> first | exact ⟨rfl, rfl⟩ | cases ho

/-- `position` tells of no loss itself. -/
theorem position_wp {track : TrackAddress} (hs : Quiet l s) :
    (farewell asm).left.wpc (position track) (fun _ l s => Quiet l s) l s :=
  frame_wp (position_keeps keepFailed_place track) (fun _ => hopeful_of_position) hs

/-- The motor half of the wishes: an error of it is noted last. -/
theorem applyMotorWish_wp {side : Side} {enabled : Bool} (hs : Quiet l s) :
    (farewell asm).left.wpc (applyMotorWish side enabled) (fun _ l s => Known l s) l s := by
  refine applyMotorWish_wp_of (P := Quiet) (M := Quiet) (R := fun _ => Quiet)
    (quickStart_wp_of hs (quiet_wp rfl rfl hs fun _ _ h => h)) (fun quick l₁ s₁ h₁ => ?_)
    (fun _ _ _ h => noteError_wp h) (fun _ _ h => wpc_update.mpr h)
    (fun l₃ s₃ h₃ => quiet_wp rfl rfl h₃ fun _ _ h => Quiet.known ⟨h.1, h.2⟩)
    fun _ _ h => h.known
  refine wpc_bind.mpr (wpc_own.mpr (wpc_seq (position_wp h₁) fun r l₂ s₂ h₂ => ?_))
  cases r with
  | error e => exact h₂
  | ok _ =>
    refine wpc_bind.mpr (quiet_wp rfl rfl h₂ fun r s₃ h₃ => ?_)
    cases r with
    | error e => exact h₃
    | ok _ => exact wpc_bind.mpr (quiet_wp rfl rfl h₃ fun _ s₄ h₄ => h₄)

/-- An error of the head ends the wishes, so at most one error is noted. -/
theorem applyDesired_wp (hs : Quiet l s) :
    (farewell asm).left.wpc applyDesired (fun _ l s => Known l s) l s := by
  refine applyDesired_wp_of (W := fun _ => Quiet) (M := fun _ => Quiet)
    (quiet_wp rfl rfl hs fun _ _ h => h) (fun _ _ _ _ h => h) (fun wish l₁ s₁ h₁ => ?_)
    (fun _ _ h => h.known) fun _ _ _ _ h => applyMotorWish_wp h
  exact applyTarget_wp_of (M := fun _ _ => Quiet) (fun _ => h₁) (fun _ _ => position_wp h₁)
    (fun _ _ _ _ _ h => noteError_wp h) fun _ _ _ _ h => wpc_update.mpr h

/-- A change of the disk is no loss. -/
theorem reportDisk_wp {changed present : Bool} (hs : Quiet l s) :
    (farewell asm).left.wpc (reportDisk changed present) (fun _ l s => Quiet l s) l s := by
  unfold reportDisk
  split
  · refine wpc_bind.mpr (quiet_wp rfl rfl hs fun _ s₁ h₁ => ?_)
    exact wpc_bind.mpr (quiet_wp rfl rfl h₁ fun _ s₂ h₂ => h₂)
  · exact hs

/-- The error of a status reading is noted last. -/
theorem refreshStatus_wp (hs : Quiet l s) :
    (farewell asm).left.wpc refreshStatus (fun _ l s => Known l s) l s := by
  refine wpc_bind.mpr (quiet_wp rfl rfl hs fun now s₁ h₁ => wpc_bind.mpr (wpc_update.mpr ?_))
  refine wpc_bind.mpr (quiet_wp rfl rfl h₁ fun old s₂ h₂ => ?_)
  refine wpc_bind.mpr (quiet_wp rfl rfl h₂ fun r s₃ h₃ => ?_)
  cases r with
  | error e => exact noteError_wp h₃
  | ok new =>
    refine wpc_bind.mpr (wpc_own.mpr (wpc_seq (reportDisk_wp h₃) fun _ l₄ s₄ h₄ => ?_))
    exact wpc_bind.mpr (quiet_wp rfl rfl h₄ fun _ s₅ h₅ =>
      wpc_update.mpr (Quiet.known ⟨h₅.1, h₅.2⟩))

theorem refreshStatusIfDue_wp (hs : Quiet l s) :
    (farewell asm).left.wpc refreshStatusIfDue (fun _ l s => Known l s) l s := by
  refine wpc_bind.mpr (wpc_own.mpr (wpc_bind.mpr (quiet_wp rfl rfl hs fun now s₁ h₁ => ?_)))
  split
  · exact h₁.known
  · exact refreshStatus_wp h₁

/-- So is that of a capture. -/
theorem captureIfNeeded_wp (hs : Quiet l s) :
    (farewell asm).left.wpc captureIfNeeded (fun _ l s => Known l s) l s := by
  refine captureIfNeeded_wp_of (P := fun _ => Quiet) (M := fun _ _ => Quiet)
    (R := fun _ _ => Quiet) ?_ (fun _ _ h => h.known) (fun _ _ _ h => position_wp h)
    (fun _ _ _ _ h => noteError_wp h) (fun wanted l s h => ?_) (fun _ _ _ _ h => h.known)
    (fun _ _ _ _ _ h => noteError_wp h) (fun _ _ _ _ _ _ h => noteError_wp h)
    fun wanted raw l s _ h => ?_
  · refine frame_wp captureTarget_keeps (fun o ho => ?_) hs
    cases o <;> first | exact ⟨rfl, rfl⟩ | cases ho
  · refine wpc_bind.mpr (wpc_own.mpr (wpc_bind.mpr (quiet_wp rfl rfl h fun reports s₁ h₁ => ?_)))
    refine frame_wp (awaitCapture_keeps wanted reports) (fun o ho => ?_) h₁
    cases o <;> first | exact ⟨rfl, rfl⟩ | cases ho
  · refine wpc_bind.mpr (quiet_wp rfl rfl h fun _ s₁ h₁ => wpc_bind.mpr (wpc_update.mpr ?_))
    refine wpc_bind.mpr (wpc_update.mpr (wpc_bind.mpr (wpc_own.mpr ?_)))
    exact quiet_wp rfl rfl ⟨h₁.1, h₁.2⟩ fun _ _ h₂ => h₂.known

/-! ### Commands and the end -/

/-- A lost worker goes on to stop, any other one to the next command. -/
theorem Known.next (hs : Known l s) :
    (l.failed = true → At .stopping l s) ∧ (l.failed = false → At .drain l s) :=
  ⟨fun _ => hs, fun hfailed => ⟨hfailed, hs.1 hfailed⟩⟩

theorem noClick_wp {side : Side} (hs : Quiet l s) :
    (farewell asm).left.wpc (noClick side) (fun _ l s => Quiet l s) l s := by
  refine wpc_bind.mpr (quiet_wp rfl rfl hs fun r s₁ h₁ => ?_)
  cases r with
  | error e => exact h₁
  | ok _ => exact quiet_wp rfl rfl h₁ fun _ _ h₂ => h₂

/-- The result of a write is told and not noted, so it ends nothing. -/
theorem performWrite_wp {id : WriteId} {request : WriteRequest} (hs : Quiet l s) :
    (farewell asm).left.wpc (performWrite checks id request)
      (fun flow l s => Quiet l s ∧ flow ≠ .stop) l s := by
  refine wpc_seq (frame_wp (attemptWrite_keeps keepFailed_place checks request)
    (fun o ho => ?_) hs) fun r l₁ s₁ h₁ => ?_
  · cases o <;> first | exact ⟨rfl, rfl⟩ | cases ho
  cases r with
  | none => exact ⟨h₁, by decide⟩
  | some result =>
    refine wpc_bind.mpr (quiet_wp rfl rfl h₁ fun _ s₂ h₂ => ?_)
    have hhope : Op.tellsLoss (.trySendEvent (writeEvent id request result)) = false := by
      cases result <;> rfl
    exact wpc_bind.mpr (quiet_wp rfl hhope h₂ fun _ s₃ h₃ => ⟨h₃, by decide⟩)

/-- After a command the worker is where its flow says. -/
theorem process_wp {c : Command} (hs : Quiet l s) :
    (farewell asm).left.wpc (process checks c) (fun flow l s => At flow.next l s) l s := by
  cases c with
  | noClick side =>
    refine wpc_seq (noClick_wp hs) fun r l₁ s₁ h₁ => ?_
    cases r with
    | error e => exact wpc_seq (noteError_wp h₁) fun _ l₂ s₂ h₂ => failedFlow_wp h₂.next
    | ok _ => exact failedFlow_wp h₁.known.next
  | write id request =>
    refine process_write_wp (wpc_mono (performWrite_wp hs) fun flow l₁ s₁ h₁ => ?_)
    cases flow with
    | go => exact h₁.1.known.next
    | stop => exact absurd rfl h₁.2
    | unwound => exact h₁.1
  | shutdown => exact hs.known

/-- A step of the end: it is the next of the last steps, when the drive was lost. -/
theorem ending_wp (before : List Op) (ho : o.ofWorker = true) (hcaller : o.ofCaller = false)
    (hhope : o.tellsLoss = false) (hfinals : before ++ [o] <+: finals)
    (hstatus : ∀ w i r w', exec o i w = some (r, w') → w.status.working = false →
      w'.status.working = false)
    (hs : sinceLoss s.trace = none ∨ Ending before s) :
    (farewell asm).left.wpc (step o)
      (fun _ _ s => sinceLoss s.trace = none ∨ Ending (before ++ [o]) s) l s := by
  have hstable : (farewell asm).left.Stable fun s => sinceLoss s.trace = none ∨ Ending before s :=
    fun s s' hr h => h.imp (none_stable s s' hr) (ending_stable s s' hr)
  refine wpc_perform_of ho hstable hs (fun _ _ _ => trivial) fun i r s₁ s₂ _ h₁ _ hact => ?_
  rcases h₁ with hnone | hending
  · have h₂ := sinceLoss_of_hopeful hhope hact hnone
    exact ⟨final_of_none h₂, .inl h₂⟩
  · have h₂ : Ending (before ++ [o]) s₂ := ⟨sinceLoss_of_worker hcaller hact hending.since,
      hstatus _ _ _ _ (exec_of_act hact) hending.stopped⟩
    exact ⟨h₂.final hfinals, .inr h₂⟩

/-- The stop performs the three steps of the end, one after the other. -/
theorem stopRound_wp (hs : Known l s) :
    (farewell asm).left.wpc stopRound (fun loc l s => At loc l s) l s := by
  have hstart : sinceLoss s.trace = none ∨ Ending [] s := by
    cases hfailed : l.failed with
    | false => exact .inl (hs.1 hfailed)
    | true => exact .inr (hs.2 hfailed)
  refine wpc_seq (ending_wp [] rfl rfl rfl ⟨[.markStopped, .exit], rfl⟩ ?_ hstart)
    fun _ l₁ s₁ h₁ => ?_
  · intro w i r w' h hw
    rw [exec_status h rfl]
    exact hw
  refine wpc_seq (ending_wp [.deviceMotor false true] rfl rfl rfl ⟨[.exit], rfl⟩ ?_ h₁)
    fun _ l₂ s₂ h₂ => ?_
  · intro w i r w' h hw
    simp only [exec, Option.some.injEq, Prod.mk.injEq, true_and] at h
    rw [← h]
  refine wpc_seq (ending_wp [.deviceMotor false true, .markStopped] rfl rfl rfl
    ⟨[], rfl⟩ ?_ h₂) fun _ l₃ s₃ h₃ => h₃
  intro w i r w' h hw
  rw [exec_status h rfl]
  exact hw

theorem loop : Loop (farewell asm).left checks At (fun _ => Quiet) Quiet where
  hot _ _ h := h
  select _ _ h := quiet_wp rfl rfl h fun r _ h₁ => by cases r <;> exact h₁
  receive _ _ h := quiet_wp rfl rfl h fun r _ h₁ => by cases r <;> exact h₁
  process _ _ _ h := process_wp h
  pass _ _ h := passRound_wp (applyDesired_wp h)
    (fun _ _ h hfailed => refreshStatusIfDue_wp ⟨hfailed, h.1 hfailed⟩)
    (fun _ _ h hfailed => captureIfNeeded_wp ⟨hfailed, h.1 hfailed⟩)
    (fun _ _ h hfailed => h.next.1 hfailed) fun _ _ _ h hfailed => h.next.2 hfailed
  stop _ _ h := stopRound_wp h
  unwind _ _ h := wpc_bind.mpr (quiet_wp rfl rfl h fun _ _ h₁ => .inl h₁.2)

end Worker

theorem valid : (@farewell checks asm).Valid where
  leftStable loc _ := at_stable loc
  rightStable _ _ := stable_const
  leftRound _ _ _ _ _ hm _ h := loop.round hm h
  rightRound := rightRound_of_call fun _ _ _ _ _ =>
    callRound_wp_of (fun _ ho => ho) (fun _ _ _ => trivial)
      fun _ o i r s s' ho _ hact hs ops hops => by
        rw [sinceLoss_of_caller ho hact] at hops
        rw [exec_status (exec_of_act hact) (Op.ofCaller_kept ho).2.2.1]
        exact hs ops hops

end Finality

/-! ## Every interleaving -/

section Runs

variable {checks : Bool} {m : Moment checks}

/-- What is so once the worker has offered a `Disconnected` event. -/
structure LossIsFinal (m : Moment checks) : Prop where
  /-- the worker has performed the first of its last three steps, and nothing else -/
  last : ∀ ops, sinceLoss m.snap.trace = some ops → ops <+: finals
  stopped : ∀ ops, sinceLoss m.snap.trace = some ops → m.snap.world.status.working = false
  /-- when the thread has ended, it has performed all three -/
  ended : ∀ ops, sinceLoss m.snap.trace = some ops → m.left.result? = some .ended → ops = finals

/--
**Loss is final.** In every interleaving, whatever the device answers: after the worker has offered
a `Disconnected` event, it only switches the motor off, marks the status and ends. It makes no
other call of the device, offers no other event, takes no command and caches nothing; the status
never again says that the drive works.
-/
theorem lossIsFinal_of_reachable (h : Reachable (anyRun checks) m) : LossIsFinal m := by
  have hholds := h.holds Finality.valid fun config status head now =>
    ⟨Finality.final_of_none rfl, ⟨rfl, rfl⟩, trivial⟩
  refine ⟨fun ops hops => (hholds.inv ops hops).1, fun ops hops => (hholds.inv ops hops).2, ?_⟩
  intro ops hops hloc
  have hended : sinceLoss m.snap.trace = none ∨ Finality.Ending finals m.snap :=
    hholds.leftAt hloc
  rcases hended with hnone | hending
  · rw [hnone] at hops
    cases hops
  · exact Option.some.inj (hops.symm.trans hending.since)

theorem lossIsFinal_of_reachable_disconnected : ∃ m : Moment true,
    m.left.result? = some .ended ∧ sinceLoss m.snap.trace = some finals ∧
      m.snap.world.status.working = false := by
  have hplay : ((play (anyRun true) (opened true .normal ⟨0, .lower⟩)
      (statusFails .disconnected ++ working [{}, {}, {}])).any fun m =>
      m.left.result? = some .ended ∧ (sinceLoss m.snap.trace).isSome) = true := by
    decide +kernel
  obtain ⟨m, hrun, htest⟩ := exists_reach_of_play hplay
  obtain ⟨hended, hlost⟩ : m.left.result? = some .ended ∧ (sinceLoss m.snap.trace).isSome := by
    simpa using htest
  obtain ⟨ops, hops⟩ := Option.isSome_iff_exists.mp hlost
  have hfinal := lossIsFinal_of_reachable ⟨hrun⟩
  have hall := hfinal.ended ops hops hended
  exact ⟨m, hended, by rw [hops, hall], hfinal.stopped ops hops⟩

end Runs

end FluxBridge
