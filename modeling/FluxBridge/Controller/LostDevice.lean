import FluxBridge.Controller.DeviceCalls

/-!
# A device that says it is gone

`Error::kind` sorts a broken pipe, a reset connection and an unexpected end of file with
`Error::Disconnected`. `note_error` takes only the last of these for the end of the drive, and the
errors of a write and of the last `set_motor` do not come to it at all.

* `Gone` — a call of the device has failed with an error of the kind `Disconnected`
* `hearsLoss` — what a run has to meet: such an error is one that ends the worker, and it does not
  come from a write, nor from the `set_motor` that ends the thread
* `lossKnown_of_heard` — in such a run the caller is told at the end of the round
-/

namespace FluxBridge

open Atomic Atomic.Side

/-- A call of the device has failed with an error of the kind `Disconnected`. -/
def Gone (trace : List (Event controllerSig)) : Prop :=
  ∃ e, .error e ∈ answers trace ∧ e.kind = .disconnected

/-- The worker handles a command whose device errors it does not count. -/
def unheard (trace : List (Event controllerSig)) : Bool :=
  match handling trace with
  | some (.write _ _) | some .shutdown => true
  | _ => false

/-- The steps that let no loss of the device pass. -/
def hearsLoss (l : Worker) (o : Op) (i : Outside) (s : Snap controller) : Bool :=
  match o.answer? i with
  | some (.error e) => e.kind ≠ .disconnected || !unheard s.trace && (l.failed || spent l e)
  | _ => true

/-- The runs in which every loss of the device is heard. -/
@[reducible] def lossHeard (checks : Bool) : Conditions checks :=
  .of (fun l o i s => hearsLoss l o i s) fun _ _ _ _ => true

/--
Where the worker is between two rounds, a device that has said it is gone has ended it: it has
failed, the status says so, and a `Disconnected` event was offered.
-/
def LossKnown {checks : Bool} (m : Moment checks) : Prop :=
  ∀ loc, m.left.result? = some loc → Gone m.snap.trace →
    m.left.priv.failed = true ∧ m.snap.world.status.working = false ∧ Offered m.snap.trace

namespace Losses

variable {l : Worker} {s s' : Snap controller} {o : Op} {i : Outside} {r : o.Ret} {e : Error}

/-- The drive is not lost, and the device has not said that it is gone. -/
def Calm (l : Worker) (s : Snap controller) : Prop := l.failed = false ∧ ¬ Gone s.trace

/-- What an error leaves: it ends the worker, or the device has not said that it is gone. -/
def Escapes (e : Error) (l : Worker) (s : Snap controller) : Prop :=
  l.failed = false ∧ (spent l e = false → ¬ Gone s.trace)

/-- What an answer of the device leaves. -/
def Outcome : Option (Except Error Unit) → Assertion
  | some (.error e) => Escapes e
  | _ => Calm

/-- Between two rounds. -/
def Known (l : Worker) (s : Snap controller) : Prop :=
  (l.failed = false → ¬ Gone s.trace) ∧ (l.failed = true → ToldLost s)

/-- Where the worker is between two rounds; it stops on a loss or on a shutdown. -/
def At : Loc → Assertion
  | .top _ | .drain => Calm
  | .stopping => fun l s => Known l s ∧ (l.failed = false → unheard s.trace = true)
  | .unwinding | .ended => Known

/-- A calm worker knows all there is to know. -/
theorem Calm.known (h : Calm l s) : Known l s :=
  ⟨fun _ => h.2, fun hfailed => absurd (h.1.symm.trans hfailed) Bool.false_ne_true⟩

/-- The device is gone from the first answer on that says so. -/
theorem gone_of_act (h : controller.act o i s = some (r, s')) :
    Gone s'.trace ↔ (∃ e, o.answer? i = some (.error e) ∧ e.kind = .disconnected) ∨
      Gone s.trace := by
  unfold Gone
  rw [answers_of_act h]
  constructor
  · rintro ⟨e, hmem, hkind⟩
    rcases List.mem_append.mp hmem with hnew | hold
    · exact Or.inl ⟨e, Option.mem_toList.mp hnew, hkind⟩
    · exact Or.inr ⟨e, hold, hkind⟩
  · rintro (⟨e, hnew, hkind⟩ | ⟨e, hold, hkind⟩)
    · exact ⟨e, List.mem_append_left _ (Option.mem_toList.mpr hnew), hkind⟩
    · exact ⟨e, List.mem_append_right _ hold, hkind⟩

/-- What the worker has not heard of stays so until a command is received. -/
theorem unheard_kept (ho : o.receiving = false) (h : controller.act o i s = some (r, s')) :
    unheard s'.trace = unheard s.trace := by
  unfold unheard
  rw [handling_kept ho h]

/-- A step that asks the device nothing hears of no loss. -/
theorem not_gone_kept (ho : o.answering = false) (h : controller.act o i s = some (r, s'))
    (hs : ¬ Gone s.trace) : ¬ Gone s'.trace := by
  unfold Gone at hs ⊢
  rw [answers_kept ho h]
  exact hs

theorem not_gone_undisturbed : Undisturbed fun s => ¬ Gone s.trace :=
  fun _ _ _ _ _ hanswer _ hact hs => not_gone_kept hanswer hact hs

/-- While a command is handled whose errors are not counted, no call says that the device is
gone. -/
theorem not_gone_unheard (h : controller.act o i s = some (r, s'))
    (hhears : hearsLoss l o i s = true) (hunheard : unheard s.trace = true)
    (hs : ¬ Gone s.trace) : ¬ Gone s'.trace := by
  rw [gone_of_act h]
  rintro (⟨e, hanswer, hkind⟩ | hgone)
  · unfold hearsLoss at hhears
    rw [hanswer] at hhears
    simp [hkind, hunheard] at hhears
  · exact hs hgone

/-! ## The steps -/

variable {checks : Bool}

/-- The outline of the losses. -/
abbrev losses (checks : Bool) : Outline (lossHeard checks) := workerOutline _ At

theorem not_gone_stable : (losses checks).left.Stable fun s => ¬ Gone s.trace :=
  not_gone_undisturbed.stable

theorem unheard_stable : (losses checks).left.Stable fun s => unheard s.trace = true := by
  refine workerOutline_stable fun o i r s s' ho hact hs => ?_
  rw [unheard_kept (Op.ofCaller_kept ho).2.1 hact]
  exact hs

theorem known_stable : (losses checks).left.Stable (Known l) :=
  (Stable.imp fun _ => not_gone_stable).and (Stable.imp fun _ => toldLost_stable)

theorem calm_stable : (losses checks).left.Stable (Calm l) := stable_const.and not_gone_stable

theorem at_stable (loc : Loc) : (losses checks).left.Stable (At loc l) := by
  cases loc with
  | stopping => exact known_stable.and (Stable.imp fun _ => unheard_stable)
  | top hot => exact calm_stable
  | drain => exact calm_stable
  | unwinding => exact known_stable
  | ended => exact known_stable

/-- A step that may call the device. -/
theorem answer_wp {o : Op} (ho : o.ofWorker = true) (hs : Calm l s) :
    (losses checks).left.wpc (step o) (fun r l s => Outcome (answered? ⟨o, r⟩) l s) l s := by
  obtain ⟨hfailed, hgone⟩ := hs
  refine workerOutline_step ho not_gone_stable hgone fun i r s₁ s₂ h₁ hhears hact => ?_
  have hhears : hearsLoss l o i s₁ = true := hhears
  have hnow := gone_of_act hact
  rw [answered?_of_exec (exec_of_act hact)]
  unfold hearsLoss at hhears
  cases hanswer : o.answer? i with
  | none => exact ⟨hfailed, fun h => h₁ ((hnow.mp h).resolve_left (by simp [hanswer]))⟩
  | some answer =>
    cases answer with
    | ok _ => exact ⟨hfailed, fun h => h₁ ((hnow.mp h).resolve_left (by simp [hanswer]))⟩
    | error e =>
      refine ⟨hfailed, fun hspent h => ?_⟩
      rcases hnow.mp h with ⟨e', he', hkind⟩ | hold
      · rw [hanswer] at he' hhears
        cases he'
        simp [hkind, hfailed, hspent] at hhears
      · exact h₁ hold

/-- A step that calls no device. -/
theorem plain_wp {o : Op} {Q : o.Ret → Worker → Snap controller → Prop} (ho : o.ofWorker = true)
    (hanswer : o.answering = false) (hs : Calm l s) (h : ∀ r s', Calm l s' → Q r l s') :
    (losses checks).left.wpc (step o) Q l s :=
  workerOutline_step ho not_gone_stable hs.2 fun _ r _ s₂ h₁ _ hact =>
    h r s₂ ⟨hs.1, not_gone_kept hanswer hact h₁⟩

/-- The frame: code that calls no device. -/
theorem frame_wp {α : Type} {m : WorkerM α} {ops : Op → Bool}
    (hm : m.Keeps (fun l => l.failed = false) (ops ·))
    (hops : ∀ o, ops o = true → o.ofWorker = true ∧ o.answering = false) (hs : Calm l s) :
    (losses checks).left.wpc m (fun _ l s => Calm l s) l s :=
  workerOutline_frame hm not_gone_stable (fun o ho => ⟨(hops o ho).1, fun _ _ _ _ _ _ h₁ _ hact =>
    not_gone_kept (hops o ho).2 hact h₁⟩) hs.1 hs.2

/-! ## Errors -/

/-- An error ends the worker, or leaves things as they were. -/
theorem noteError_wp (h : Escapes e l s) :
    (losses checks).left.wpc (noteError e) (fun _ l s => Known l s) l s := by
  refine wpc_bind.mpr (wpc_update.mpr (wpc_bind.mpr (wpc_own.mpr ?_)))
  split
  · refine wpc_mono (disconnect_wp (P := fun _ => True) (fun _ _ _ _ _ _ _ _ h => h) trivial e)
      fun _ l' s' hs' => ?_
    obtain ⟨rfl, -, htold⟩ := hs'
    exact ⟨fun hkept => absurd hkept Bool.true_eq_false.mp, fun _ => htold⟩
  · next hspent =>
    have hcalm : ¬ Gone s.trace := h.2 (by simpa [spent] using hspent)
    exact Calm.known ⟨h.1, hcalm⟩

/-! ## A pass -/

/-- A seek is calm, or its error is the loss. -/
theorem positionCylinder_wp {track : TrackAddress} (hs : Calm l s) :
    (losses checks).left.wpc (positionCylinder track) (fun r l s => Outcome (some r) l s) l s := by
  refine positionCylinder_wp_of (wpc_mono (answer_wp rfl hs) fun r l₁ s₁ h₁ => ?_) fun _ _ => hs
  cases r <;> exact h₁

theorem positionSide_wp {track : TrackAddress} (hs : Calm l s) :
    (losses checks).left.wpc (positionSide track) (fun r l s => Outcome (some r) l s) l s := by
  refine positionSide_wp_of (wpc_mono (answer_wp rfl hs) fun r l₁ s₁ h₁ => ?_) fun _ _ => hs
  cases r <;> exact h₁

/-- `position` ends early with the first error, so only its result can be the loss. -/
theorem position_wp {track : TrackAddress} (hs : Calm l s) :
    (losses checks).left.wpc (position track) (fun r l s => Outcome (some r) l s) l s := by
  refine position_wp_of (positionCylinder_wp hs) (fun _ _ _ h => h)
    (fun _ _ h => positionSide_wp h) (fun _ _ _ h => h) fun l₂ s₂ h₂ => ?_
  have h₂ : Calm { l₂ with positioned := true } s₂ := h₂
  exact plain_wp rfl rfl h₂ fun _ _ h₃ => h₃

/-- A target that is reached leaves the worker calm; one that is not is noted. -/
theorem applyTarget_wp {target : Option TrackAddress} (hs : Calm l s) :
    (losses checks).left.wpc (applyTarget target)
      (fun positioned l s => if positioned then Calm l s else Known l s) l s :=
  applyTarget_wp_of (fun _ => hs) (fun _ _ => position_wp hs)
    (fun _ _ _ _ _ h₁ => noteError_wp h₁) fun _ _ _ _ h₁ => wpc_update.mpr h₁

/-- The clock says nothing of the device. -/
theorem quickStart_wp {enabled : Bool} (hs : Calm l s) :
    (losses checks).left.wpc (quickStart enabled) (fun _ l s => Calm l s) l s :=
  quickStart_wp_of hs (plain_wp rfl rfl hs fun _ _ h₁ => h₁)

/-- The answer of `set_motor` is that of `position` or of the device. -/
theorem applyMotor_wp {side : Side} {enabled quick : Bool} (hs : Calm l s) :
    (losses checks).left.wpc (applyMotor side enabled quick)
      (fun r l s => Outcome (some r) l s) l s := by
  refine wpc_bind.mpr (wpc_own.mpr (wpc_seq (position_wp hs) fun r l₁ s₁ h₁ => ?_))
  cases r with
  | error e => exact h₁
  | ok _ =>
    refine wpc_seq (answer_wp rfl h₁) fun r l₂ s₂ h₂ => ?_
    cases r with
    | error e => exact h₂
    | ok _ => exact wpc_bind.mpr (plain_wp rfl rfl h₂ fun _ _ h₃ => h₃)

/-- An error of the motor is noted. -/
theorem applyMotorWish_wp {side : Side} {enabled : Bool} (hs : Calm l s) :
    (losses checks).left.wpc (applyMotorWish side enabled) (fun _ l s => Known l s) l s := by
  refine applyMotorWish_wp_of (M := Calm) (quickStart_wp hs) (fun _ _ _ h => applyMotor_wp h)
    (fun _ _ _ h => noteError_wp h) (fun _ _ h => wpc_update.mpr h) ?_ fun _ _ h => h.known
  intro l s h
  exact plain_wp rfl rfl h fun _ _ h₁ => Calm.known ⟨h₁.1, h₁.2⟩

/-- After the wishes a loss is known. -/
theorem applyDesired_wp (hs : Calm l s) :
    (losses checks).left.wpc applyDesired (fun _ l s => Known l s) l s :=
  applyDesired_wp_of (W := fun _ => Calm) (M := fun _ => Calm)
    (plain_wp rfl rfl hs fun _ _ h₁ => h₁) (fun _ _ _ _ h₁ => h₁)
    (fun _ _ _ h₁ => applyTarget_wp h₁) (fun _ _ h₂ => h₂.known)
    fun _ _ _ _ h₂ => applyMotorWish_wp h₂

theorem reportDisk_wp {changed present : Bool} (hs : Calm l s) :
    (losses checks).left.wpc (reportDisk changed present) (fun _ l s => Calm l s) l s := by
  unfold reportDisk
  split
  · refine wpc_bind.mpr (plain_wp rfl rfl hs fun _ s₁ h₁ => ?_)
    exact wpc_bind.mpr (plain_wp rfl rfl h₁ fun _ s₂ h₂ => h₂)
  · exact hs

/-- After a reading of the status a loss is known. -/
theorem refreshStatus_wp (hs : Calm l s) :
    (losses checks).left.wpc refreshStatus (fun _ l s => Known l s) l s := by
  refine wpc_bind.mpr (plain_wp rfl rfl hs fun now s₁ h₁ => ?_)
  have h₁ : Calm { l with nextStatus := now + 250 * NANOS_PER_MILLI } s₁ := h₁
  refine wpc_bind.mpr (wpc_update.mpr (wpc_bind.mpr (plain_wp rfl rfl h₁ fun old s₂ h₂ => ?_)))
  refine wpc_seq (answer_wp rfl h₂) fun r l₃ s₃ h₃ => ?_
  cases r with
  | error e => exact noteError_wp h₃
  | ok new =>
    refine wpc_bind.mpr (wpc_own.mpr ?_)
    refine wpc_seq (reportDisk_wp h₃) fun _ l₄ s₄ h₄ => ?_
    exact wpc_bind.mpr (plain_wp rfl rfl h₄ fun _ s₅ h₅ =>
      wpc_update.mpr (Calm.known ⟨h₅.1, h₅.2⟩))

theorem refreshStatusIfDue_wp (hs : Calm l s) :
    (losses checks).left.wpc refreshStatusIfDue (fun _ l s => Known l s) l s := by
  refine wpc_bind.mpr (wpc_own.mpr (wpc_bind.mpr (plain_wp rfl rfl hs fun now s₁ h₁ => ?_)))
  split
  · exact h₁.known
  · exact refreshStatus_wp h₁

/-- The result of a read is all the device has said meanwhile. -/
theorem readTrack_wp {wanted : TrackAddress} (hs : Calm l s) :
    (losses checks).left.wpc (readTrack wanted)
      (fun r l s => Outcome (readAnswer r) l s) l s := by
  refine wpc_bind.mpr (wpc_own.mpr (wpc_bind.mpr (plain_wp rfl rfl hs fun reports s₁ h₁ => ?_)))
  refine wpc_seq (wpc_times (J := Calm) (fun _ _ h => plain_wp rfl rfl h fun _ _ h => h)
    reports _ _ h₁) fun _ l₂ s₂ h₂ => ?_
  exact answer_wp rfl h₂

/-- Keeping a capture asks the device nothing. -/
theorem keepCapture_wp {wanted : TrackAddress} {capture : RawCapture} (hs : Calm l s) :
    (losses checks).left.wpc (keepCapture wanted capture) (fun _ l s => Known l s) l s := by
  refine wpc_bind.mpr (plain_wp rfl rfl hs fun _ s₁ h₁ => wpc_bind.mpr (wpc_update.mpr ?_))
  have h₁ : Calm { l with
      consecutiveErrors := 0, generation := (l.generation + 1) % USIZE_RANGE } s₁ := h₁
  refine wpc_bind.mpr (wpc_update.mpr (wpc_bind.mpr (wpc_own.mpr ?_)))
  exact wpc_bind.mpr (plain_wp rfl rfl h₁ fun _ _ h₂ => h₂.known)

/-- After a capture a loss is known, a timeout being none. -/
theorem captureIfNeeded_wp (hs : Calm l s) :
    (losses checks).left.wpc captureIfNeeded (fun _ l s => Known l s) l s := by
  have htarget : (losses checks).left.wpc captureTarget (fun _ l s => Calm l s) l s := by
    refine frame_wp captureTarget_keeps (fun o ho => ?_) hs
    cases o <;> simp_all [Op.ofTarget, Op.ofWorker, Op.answering]
  refine captureIfNeeded_wp_of htarget (fun _ _ h => h.known) (fun _ _ _ h => position_wp h)
    (fun _ _ _ _ h => noteError_wp h) (fun _ _ _ h => readTrack_wp h)
    (fun _ _ _ _ h => Calm.known h) ?_ ?_ ?_
  · intro wanted e l s hother h
    rw [readAnswer_error hother] at h
    exact noteError_wp h
  · intro wanted capture e l s hvalid h
    rw [readAnswer_ok hvalid] at h
    exact noteError_wp h
  · intro wanted capture l s hvalid h
    rw [readAnswer_ok hvalid] at h
    exact keepCapture_wp h

/-! ## Commands and the end -/

/-- What holds when a command was taken. -/
def Taken (c : Command) (l : Worker) (s : Snap controller) : Prop :=
  Calm l s ∧ handling s.trace = some c

/-- The no-click step ends with the first error. -/
theorem noClick_wp {side : Side} (hs : Calm l s) :
    (losses checks).left.wpc (noClick side) (fun r l s => Outcome (some r) l s) l s := by
  refine wpc_seq (answer_wp rfl hs) fun r l₁ s₁ h₁ => ?_
  cases r with
  | error e => exact h₁
  | ok _ => exact answer_wp rfl h₁

/-- A write, none of whose device errors says that the device is gone. -/
theorem performWrite_wp {id : WriteId} {request : WriteRequest}
    (hs : Taken (.write id request) l s) :
    (losses checks).left.wpc (performWrite checks id request)
      (fun flow l s => Calm l s ∧ flow ≠ .stop) l s := by
  obtain ⟨⟨hfailed, hgone⟩, hhandling⟩ := hs
  have hunheard : unheard s.trace = true := by
    unfold unheard
    rw [hhandling]
  have hkeeps : (attemptWrite checks request).Keeps (fun l => l.failed = false) (Op.ofWriting ·) :=
    attemptWrite_keeps (fun _ _ _ h => h) checks request
  refine wpc_seq (workerOutline_frame (P := fun s => ¬ Gone s.trace ∧ unheard s.trace = true) hkeeps
    (not_gone_stable.and unheard_stable) (fun o ho => ?_) hfailed ⟨hgone, hunheard⟩)
    fun r l₁ s₁ h₁ => ?_
  · have hkind : o.ofWorker = true ∧ o.receiving = false := by
      cases o <;> simp_all [Op.ofWriting, Op.ofPosition, Op.ofWorker, Op.receiving]
    refine ⟨hkind.1, fun l i r s s' _ h hhears hact => ?_⟩
    refine ⟨not_gone_unheard hact hhears h.2 h.1, ?_⟩
    rw [unheard_kept hkind.2 hact]
    exact h.2
  have h₁ : Calm l₁ s₁ := ⟨h₁.1, h₁.2.1⟩
  cases r with
  | none => exact ⟨h₁, by decide⟩
  | some result =>
    refine wpc_bind.mpr (plain_wp rfl rfl h₁ fun _ s₂ h₂ => ?_)
    exact wpc_bind.mpr (plain_wp rfl rfl h₂ fun _ s₃ h₃ => ⟨h₃, by decide⟩)

/-- A worker that has failed goes on to stop, any other one to the next command. -/
theorem Known.next (h : Known l s) :
    (l.failed = true → At .stopping l s) ∧ (l.failed = false → At .drain l s) := by
  refine ⟨fun hfailed => ⟨h, fun hkept => ?_⟩, fun hkept => ⟨hkept, h.1 hkept⟩⟩
  rw [hfailed] at hkept
  cases hkept

/-- After a command the worker is where its flow says, with any loss known. -/
theorem process_wp {c : Command} (hs : Taken c l s) :
    (losses checks).left.wpc (process checks c) (fun flow l s => At flow.next l s) l s := by
  cases c with
  | noClick side =>
    refine wpc_seq (noClick_wp hs.1) fun r l₁ s₁ h₁ => ?_
    cases r with
    | error e => exact wpc_seq (noteError_wp h₁) fun _ l₂ s₂ h₂ => failedFlow_wp h₂.next
    | ok _ => exact failedFlow_wp (Calm.known h₁).next
  | write id request =>
    refine process_write_wp (wpc_mono (performWrite_wp hs) fun flow l₁ s₁ h₁ => ?_)
    have hknown : Known l₁ s₁ := h₁.1.known
    cases flow with
    | go => exact hknown.next
    | stop => exact absurd rfl h₁.2
    | unwound => exact hknown
  | shutdown =>
    refine ⟨hs.1.known, fun _ => ?_⟩
    unfold unheard
    rw [hs.2]

/-- The end of the thread takes nothing back. -/
theorem toldLost_ending (ho : o.ofEnding = true) (h : controller.act o i s = some (r, s'))
    (hs : ToldLost s) : ToldLost s' := by
  by_cases hstatus : o.statuses = true
  · refine ⟨?_, hs.2.kept h⟩
    have hexec := exec_of_act h
    cases o <;> simp only [Op.statuses, Op.ofEnding, Bool.false_eq_true] at hstatus ho
    simp only [exec, Option.some.injEq, Prod.mk.injEq, true_and] at hexec
    rw [← hexec]
  · exact hs.kept (by simpa using hstatus) h

/-- A step of the end of the thread. -/
theorem ending_wp {o : Op} (ho : o.ofEnding = true) (hs : At .stopping l s) :
    (losses checks).left.wpc (step o) (fun _ l s => At .stopping l s) l s := by
  refine workerOutline_step (Op.ofWorker_of_ending ho) (at_stable .stopping) hs
    fun i r s₁ s₂ h₁ hhears hact => ?_
  obtain ⟨⟨hkept, htold⟩, hunheard⟩ := h₁
  have hreceiving : o.receiving = false := by
    cases o <;> first | rfl | cases ho
  refine ⟨⟨fun hfailed => ?_, fun hfailed => toldLost_ending ho hact (htold hfailed)⟩,
    fun hfailed => ?_⟩
  · exact not_gone_unheard hact hhears (hunheard hfailed) (hkept hfailed)
  · rw [unheard_kept hreceiving hact]
    exact hunheard hfailed

/-- What is known of a loss stays known to the end of the thread. -/
theorem stopRound_wp (hs : At .stopping l s) :
    (losses checks).left.wpc stopRound (fun loc l s => At loc l s) l s := by
  refine wpc_seq (ending_wp rfl hs) fun _ l₁ s₁ h₁ => ?_
  refine wpc_seq (ending_wp rfl h₁) fun _ l₂ s₂ h₂ => ?_
  exact wpc_seq (ending_wp rfl h₂) fun _ l₃ s₃ h₃ => h₃.1

theorem unwindRound_wp (hs : Known l s) :
    (losses checks).left.wpc unwindRound (fun loc l s => At loc l s) l s := by
  refine wpc_seq (workerOutline_step rfl known_stable hs fun i r s₁ s₂ h₁ _ hact => ?_)
    fun _ l₂ s₂ (h₂ : Known l₂ s₂) => h₂
  exact ⟨fun hfailed => not_gone_kept rfl hact (h₁.1 hfailed),
    fun hfailed => (h₁.2 hfailed).kept rfl hact⟩

theorem loop : Loop (losses checks).left checks At Taken Calm where
  hot _ _ h := h
  select l s h := by
    refine workerOutline_step rfl calm_stable h fun i r s₁ s₂ h₁ _ hact => ?_
    have hcalm : Calm l s₂ := ⟨h₁.1, not_gone_kept rfl hact h₁.2⟩
    cases r with
    | command c => exact ⟨hcalm, handling_of_select hact⟩
    | nudge => exact hcalm
    | timeout => exact hcalm
  receive l s h := by
    refine workerOutline_step rfl calm_stable h fun i r s₁ s₂ h₁ _ hact => ?_
    have hcalm : Calm l s₂ := ⟨h₁.1, not_gone_kept rfl hact h₁.2⟩
    cases r with
    | some c => exact ⟨hcalm, handling_of_receive hact⟩
    | none => exact hcalm
  process _ _ _ h := process_wp h
  pass _ _ h := passRound_wp (applyDesired_wp h)
    (fun _ _ h hfailed => refreshStatusIfDue_wp ⟨hfailed, h.1 hfailed⟩)
    (fun _ _ h hfailed => captureIfNeeded_wp ⟨hfailed, h.1 hfailed⟩)
    (fun _ _ h hfailed => h.next.1 hfailed) (fun _ _ _ h hfailed => h.next.2 hfailed)
  stop _ _ h := stopRound_wp h
  unwind _ _ h := unwindRound_wp h

theorem valid : (losses checks).Valid :=
  workerOutline_valid (fun loc _ => at_stable loc) fun _ _ _ _ hm h => loop.round hm h

end Losses

/-! ## The losses of a run -/

section Runs

variable {checks : Bool} {m : Moment checks}

/--
**Losses.** In a run in which every loss of the device is heard, the worker has failed, the status
says so and the caller was told, at the end of the round in which the device said that it is gone.
-/
theorem lossKnown_of_heard (h : Reachable (lossHeard checks) m) : LossKnown m := by
  have hholds := h.holds Losses.valid fun config status head now =>
    ⟨trivial, ⟨rfl, fun ⟨_, hmem, _⟩ => List.not_mem_nil hmem⟩, trivial⟩
  intro loc hloc hgone
  have hat : Losses.At loc m.left.priv m.snap := hholds.leftAt hloc
  have hknown : Losses.Known m.left.priv m.snap := by
    cases loc with
    | top hot => exact Losses.Calm.known hat
    | drain => exact Losses.Calm.known hat
    | stopping => exact hat.1
    | unwinding => exact hat
    | ended => exact hat
  cases hfailed : m.left.priv.failed with
  | false => exact absurd hgone (hknown.1 hfailed)
  | true => exact ⟨rfl, hknown.2 hfailed⟩

/-- Let the worker pass when a status reading is due, which the device ends with an error. -/
def statusFails (e : Error) : Schedule true :=
  working [{}] ++
    working [{}, {}, { now := 2 }, { now := 2 }, {}, { status := .error e }, {}, {}]

theorem lossKnown_of_heard_disconnected : ∃ m : Moment true,
    m.left.result? = some .stopping ∧ answers m.snap.trace = [.error .disconnected] ∧
      LossKnown m := by
  have hplay : ((play (lossHeard true) (opened true .normal ⟨0, .lower⟩)
      (statusFails .disconnected)).any
      fun m => m.left.result? = some .stopping ∧
        answers m.snap.trace = [.error .disconnected]) = true := by
    decide +kernel
  obtain ⟨m, hrun, htest⟩ := exists_reach_of_play hplay
  obtain ⟨hloc, hanswers⟩ : m.left.result? = some .stopping ∧
      answers m.snap.trace = [.error .disconnected] := by simpa using htest
  exact ⟨m, hloc, hanswers, lossKnown_of_heard ⟨hrun⟩⟩

/-- A broken pipe is the end of the device, and the worker goes on. -/
theorem brokenPipe_passed : ¬ ∀ (checks : Bool) (m : Moment checks),
    Reachable (anyRun checks) m → LossKnown m := by
  intro h
  have hplay : ((play (anyRun true) (opened true .normal ⟨0, .lower⟩)
      ((statusFails (.io .brokenPipe)).dropLast)).any
      fun m => m.left.priv.failed = false ∧ m.left.result? = some (.top false) ∧
        answers m.snap.trace = [.error (.io .brokenPipe)]) = true := by
    decide +kernel
  obtain ⟨m, hrun, htest⟩ := exists_reach_of_play hplay
  obtain ⟨hfailed, hloc, hanswers⟩ : m.left.priv.failed = false ∧
      m.left.result? = some (.top false) ∧
      answers m.snap.trace = [.error (.io .brokenPipe)] := by simpa using htest
  have hgone : Gone m.snap.trace := by
    refine ⟨.io .brokenPipe, ?_, rfl⟩
    rw [hanswers]
    exact List.mem_cons_self
  rw [(h true m ⟨hrun⟩ _ hloc hgone).1] at hfailed
  cases hfailed

end Runs

end FluxBridge
