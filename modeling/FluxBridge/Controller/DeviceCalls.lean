import FluxBridge.Controller.Rounds

/-!
# What the device has answered

What was performed so far says which calls of the device failed, which command is in the worker's
hands and whether the caller was told that the drive is lost.

* `answers` — how the calls of the device ended, newest first
* `handling` — the command that the worker took last
* `Offered` — a `Disconnected` event was offered to the channel
* `ToldLost` — and the status says so, too
* `workerOutline` — an outline of the worker alone: the caller only has to leave it be
-/

namespace FluxBridge

open Atomic Atomic.Side

/-- An error that ends the worker. -/
def spent (l : Worker) (e : Error) : Bool :=
  e.fatal || MAX_CONSECUTIVE_ERRORS ≤ l.consecutiveErrors + 1

/-- How a read ended: an invalid capture is a failure, and a timeout is neither. -/
def readAnswer : Except Error RawCapture → Option (Except Error Unit)
  | .ok capture => some (validateCapture capture)
  | .error (.timeout _) => none
  | .error e => some (.error e)

theorem readAnswer_error {e : Error} (h : ∀ what, e ≠ .timeout what) :
    readAnswer (.error e) = some (.error e) := by
  cases e with
  | timeout what => exact absurd rfl (h what)
  | _ => rfl

theorem readAnswer_ok {capture : RawCapture} {valid : Except Error Unit}
    (h : validateCapture capture = valid) : readAnswer (.ok capture) = some valid := by
  rw [readAnswer, h]

/-- How a step that calls the device will end. -/
def Op.answer? (o : Op) (i : Outside) : Option (Except Error Unit) :=
  match o with
  | .deviceSeek _ | .deviceSide _ | .deviceMotor _ _ | .deviceNoClick | .deviceWrite _ _ _ _ =>
    some i.result
  | .deviceStatus => some (i.status.map fun _ => ())
  | .deviceReadResult => readAnswer i.capture
  | _ => none

/-- How a call of the device has ended. -/
def answered? : Event controllerSig → Option (Except Error Unit)
  | ⟨.deviceSeek _, r⟩ => some r
  | ⟨.deviceSide _, r⟩ => some r
  | ⟨.deviceMotor _ _, r⟩ => some r
  | ⟨.deviceNoClick, r⟩ => some r
  | ⟨.deviceWrite _ _ _ _, r⟩ => some r
  | ⟨.deviceStatus, r⟩ => some (r.map fun _ => ())
  | ⟨.deviceReadResult, r⟩ => readAnswer r
  | _ => none

/-- How the calls of the device have ended, newest first. -/
def answers (trace : List (Event controllerSig)) : List (Except Error Unit) :=
  trace.filterMap answered?

/-- The command that the worker has taken last, if it took one when it last looked. -/
def handling : List (Event controllerSig) → Option Command
  | [] => none
  | ⟨.selectCommand, .command c⟩ :: _ => some c
  | ⟨.selectCommand, _⟩ :: _ => none
  | ⟨.tryRecvCommand, c⟩ :: _ => c
  | _ :: rest => handling rest

/-- A `Disconnected` event was offered to the event channel. -/
def Offered (trace : List (Event controllerSig)) : Prop :=
  ∃ event ∈ trace, ∃ e, event.op = .trySendEvent (.disconnected e)

namespace Op

/-- The steps that end a call of the device. -/
def answering : Op → Bool
  | .deviceSeek _ | .deviceSide _ | .deviceMotor _ _ | .deviceNoClick | .deviceStatus
  | .deviceReadResult | .deviceWrite _ _ _ _ => true
  | _ => false

/-- The steps that look for a command. -/
def receiving : Op → Bool
  | .selectCommand | .tryRecvCommand => true
  | _ => false

end Op

section Steps

variable {o : Op} {i : Outside} {r : o.Ret} {s s' : Snap controller}

theorem answered?_of_exec {w w' : World} (h : exec o i w = some (r, w')) :
    answered? ⟨o, r⟩ = o.answer? i := by
  cases o with
  | deviceSeek cylinder =>
    have hresult := (exec_deviceSeek h).1
    rw [hresult]
    rfl
  | deviceSide side =>
    have hresult := (exec_deviceSide h).1
    rw [hresult]
    rfl
  | _ =>
    first
    | rfl
    | (simp only [exec, Option.some.injEq, Prod.mk.injEq] at h
       rw [← h.1]
       rfl)

theorem answered?_of_not_answering (h : o.answering = false) : answered? ⟨o, r⟩ = none := by
  cases o <;> first | rfl | cases h

theorem answers_of_act (h : controller.act o i s = some (r, s')) :
    answers s'.trace = (o.answer? i).toList ++ answers s.trace := by
  rw [(Machine.act_eq_some.mp h).2, answers, List.filterMap_cons,
    answered?_of_exec (exec_of_act h)]
  cases o.answer? i <;> rfl

/-- A step that ends no call adds no answer. -/
theorem answers_kept (ho : o.answering = false) (h : controller.act o i s = some (r, s')) :
    answers s'.trace = answers s.trace := by
  rw [(Machine.act_eq_some.mp h).2, answers, List.filterMap_cons_none]
  · rfl
  · exact answered?_of_not_answering ho

theorem handling_kept (ho : o.receiving = false) (h : controller.act o i s = some (r, s')) :
    handling s'.trace = handling s.trace := by
  rw [(Machine.act_eq_some.mp h).2]
  cases o <;> first | rfl | cases ho

theorem handling_of_select {c : Command}
    (h : controller.act .selectCommand i s = some (.command c, s')) :
    handling s'.trace = some c := by
  rw [(Machine.act_eq_some.mp h).2]
  rfl

theorem handling_of_receive {c : Option Command}
    (h : controller.act .tryRecvCommand i s = some (c, s')) : handling s'.trace = c := by
  rw [(Machine.act_eq_some.mp h).2]
  rfl

theorem Offered.kept (h : controller.act o i s = some (r, s')) (hs : Offered s.trace) :
    Offered s'.trace := by
  obtain ⟨event, hmem, hop⟩ := hs
  rw [(Machine.act_eq_some.mp h).2]
  exact ⟨event, List.mem_cons_of_mem _ hmem, hop⟩

theorem offered_of_act {e : Error} {sent : Bool}
    (h : controller.act (.trySendEvent (.disconnected e)) i s = some (sent, s')) :
    Offered s'.trace := by
  rw [(Machine.act_eq_some.mp h).2]
  exact ⟨_, List.mem_cons_self, e, rfl⟩

/-- The caller was told that the drive is lost. -/
def ToldLost (s : Snap controller) : Prop :=
  s.world.status.working = false ∧ Offered s.trace

theorem ToldLost.kept (ho : o.statuses = false) (h : controller.act o i s = some (r, s'))
    (hs : ToldLost s) : ToldLost s' := by
  refine ⟨?_, hs.2.kept h⟩
  rw [exec_status (exec_of_act h) ho]
  exact hs.1

/-- An assertion that only answers of the device and the taking of commands can change. -/
def Undisturbed (P : Snap controller → Prop) : Prop :=
  ∀ (o : Op) (i : Outside) (r : o.Ret) (s s' : Snap controller), o.answering = false →
    o.receiving = false → controller.act o i s = some (r, s') → P s → P s'

/-- The steps of the caller call no device, take no command and leave the status alone. -/
theorem Op.ofCaller_kept (ho : o.ofCaller = true) :
    o.answering = false ∧ o.receiving = false ∧ o.statuses = false ∧ o.partials = false := by
  cases o <;> simp_all [ofCaller, ofCall, answering, receiving, statuses, partials]

end Steps

/-! ## The worker alone -/

section Outline

variable {checks : Bool}

/-- An outline that asks something of the worker only. -/
def workerOutline (asm : Conditions checks) (I : Loc → Assertion) : Outline asm where
  inv _ := True
  leftOps o := o.ofWorker = true
  rightOps o := o.ofCaller = true
  leftAt := I
  rightAt _ _ _ := True
  leftReady _ _ _ := True
  rightReady _ _ _ := True

variable {asm : Conditions checks} {I : Loc → Assertion} {l : Worker} {s : Snap controller}

theorem workerOutline_stable {P : Snap controller → Prop}
    (h : ∀ (o : Op) (i : Outside) (r : o.Ret) (s s' : Snap controller), o.ofCaller = true →
      controller.act o i s = some (r, s') → P s → P s') :
    (workerOutline asm I).left.Stable P :=
  stable_of_action fun o i r s s' ho _ _ hact hs => h o i r s s' ho hact hs

/-- One step of the worker. -/
theorem workerOutline_step {o : Op} {P : Snap controller → Prop}
    {Q : o.Ret → Worker → Snap controller → Prop} (ho : o.ofWorker = true)
    (hstable : (workerOutline asm I).left.Stable P) (hs : P s)
    (h : ∀ i r s₁ s₂, P s₁ → asm.left l o i s₁ → controller.act o i s₁ = some (r, s₂) →
      Q r l s₂) :
    (workerOutline asm I).left.wpc (step o) Q l s :=
  wpc_perform_of ho hstable hs (fun _ _ _ => trivial) fun i r s₁ s₂ _ h₁ ha hact =>
    ⟨trivial, h i r s₁ s₂ h₁ ha hact⟩

/-- The frame: code whose steps keep `P`. -/
theorem workerOutline_frame {α : Type} {m : WorkerM α} {J : Worker → Prop} {ops : Op → Bool}
    {P : Snap controller → Prop} (hm : m.Keeps J (ops ·))
    (hstable : (workerOutline asm I).left.Stable P)
    (hops : ∀ o, ops o = true → o.ofWorker = true ∧ ∀ (l : Worker) (i : Outside) (r : o.Ret)
      (s s' : Snap controller), J l → P s → asm.left l o i s →
      controller.act o i s = some (r, s') → P s') (hl : J l) (hs : P s) :
    (workerOutline asm I).left.wpc m (fun _ l s => J l ∧ P s) l s :=
  wpc_of_keeps hm hstable (fun l o hJ ho => ⟨(hops o ho).1, fun s₁ _ h₁ =>
    ⟨trivial, fun i r s₂ ha hact => ⟨trivial, (hops o ho).2 l i r s₁ s₂ hJ h₁ ha hact⟩⟩⟩) hl hs

theorem Undisturbed.stable {P : Snap controller → Prop} (hP : Undisturbed P) :
    (workerOutline asm I).left.Stable P :=
  workerOutline_stable fun o i r s s' ho hact hs =>
    hP o i r s s' (Op.ofCaller_kept ho).1 (Op.ofCaller_kept ho).2.1 hact hs

/-- A step that calls no device and takes no command. -/
theorem Undisturbed.step {o : Op} {P : Snap controller → Prop}
    {Q : o.Ret → Worker → Snap controller → Prop} (hP : Undisturbed P) (ho : o.ofWorker = true)
    (hanswer : o.answering = false) (hreceive : o.receiving = false) (hs : P s)
    (hq : ∀ r s', P s' → Q r l s') : (workerOutline asm I).left.wpc (FluxBridge.step o) Q l s :=
  workerOutline_step ho hP.stable hs fun i r s₁ s₂ h₁ _ hact =>
    hq r s₂ (hP o i r s₁ s₂ hanswer hreceive hact h₁)

theorem toldLost_stable : (workerOutline asm I).left.Stable ToldLost :=
  workerOutline_stable fun _ _ _ _ _ ho hact hs => hs.kept (Op.ofCaller_kept ho).2.2.1 hact

/-- Giving up the drive tells the caller. -/
theorem disconnect_wp {P : Snap controller → Prop} (hP : Undisturbed P) (hs : P s) (e : Error) :
    (workerOutline asm I).left.wpc (disconnect e) (fun _ l' s' =>
      l' = { l with failed := true } ∧ P s' ∧ ToldLost s') l s := by
  refine wpc_bind.mpr (wpc_update.mpr (wpc_bind.mpr ?_))
  refine workerOutline_step rfl hP.stable hs fun i r s₁ s₂ h₁ _ hact => ?_
  have h₂ : P s₂ := hP .markStopped i r s₁ s₂ rfl rfl hact h₁
  have hstopped : s₂.world.status.working = false := by
    have hexec := exec_of_act hact
    simp only [exec, Option.some.injEq, Prod.mk.injEq, true_and] at hexec
    rw [← hexec]
  have hstable : (workerOutline asm I).left.Stable fun s =>
      P s ∧ s.world.status.working = false := by
    refine hP.stable.and (workerOutline_stable fun o i r s s' ho hact hs => ?_)
    rw [exec_status (exec_of_act hact) (Op.ofCaller_kept ho).2.2.1]
    exact hs
  refine wpc_bind.mpr (workerOutline_step rfl hstable ⟨h₂, hstopped⟩ fun i r s₃ s₄ h₃ _ hact => ?_)
  refine ⟨rfl, hP (.trySendEvent (.disconnected e)) i r s₃ s₄ rfl rfl hact h₃.1, ?_,
    offered_of_act hact⟩
  rw [exec_status (exec_of_act hact) rfl]
  exact h₃.2

theorem workerOutline_valid (hstable : ∀ loc l, (workerOutline asm I).left.Stable (I loc l))
    (hround : ∀ loc (m : WorkerM Loc) l s, round checks loc = some m → I loc l s →
      (workerOutline asm I).left.wpc m I l s) : (workerOutline asm I).Valid where
  leftStable := hstable
  rightStable _ _ := stable_const
  leftRound loc _ m l s hm _ h := hround loc m l s hm h
  rightRound := rightRound_of_call fun _ _ _ _ _ =>
    callRound_wp_of (fun _ ho => ho) (fun _ _ _ => trivial) fun _ _ _ _ _ _ _ _ _ _ => trivial

end Outline

end FluxBridge
