import FluxBridge.Atomic.Progress
import FluxBridge.Controller.WriteOrder

/-!
# Dropping a bridge

`Drop for Bridge` sends `Shutdown` with a blocking send and joins the worker. Whether it returns
depends on the worker, who may be anywhere in its loop, and on what the device answers.

* `neverStuck_of_reachable` — the worker is never blocked, and the caller only in `drop`, while
  the worker runs
* `roomForShutdown_of_reachable` — the queue does not stay full while `drop` waits for room
* `dropReturns_of_reachable` — once `Shutdown` is in the queue, every run ends, and it ends with
  the worker's thread ended and `drop` returned

A device call that does not return is outside the model: every `Device` method has deadlines.
-/

namespace FluxBridge

open Atomic Atomic.Side

/-! ## Who can be blocked -/

namespace Op

/-- The step that asks the worker to end. -/
def sends : Op → Bool
  | .sendShutdown => true
  | _ => false

theorem eq_of_sends {o : Op} (h : o.sends = true) : o = .sendShutdown := by
  cases o <;> first | rfl | cases h

end Op

/-- Only `drop` waits: for room in the queue, and for the worker's end. -/
theorem exec_enabled {o : Op} (hsend : o ≠ .sendShutdown) (hjoin : o ≠ .join) (i : Outside)
    (w : World) : ∃ r w', exec o i w = some (r, w') := by
  cases o with
  | sendShutdown => exact absurd rfl hsend
  | join => exact absurd rfl hjoin
  | tryRecvCommand =>
    simp only [exec]
    split <;> exact ⟨_, _, rfl⟩
  | tryRecvEvent =>
    simp only [exec]
    split <;> exact ⟨_, _, rfl⟩
  | deviceSeek cylinder =>
    simp only [exec]
    split <;> exact ⟨_, _, rfl⟩
  | deviceSide side =>
    simp only [exec]
    split <;> exact ⟨_, _, rfl⟩
  | _ => exact ⟨_, _, rfl⟩

theorem act_enabled {o : Op} (hsend : o ≠ .sendShutdown) (hjoin : o ≠ .join) (i : Outside)
    (s : Snap controller) : ∃ r s', controller.act o i s = some (r, s') := by
  obtain ⟨r, w, h⟩ := exec_enabled hsend hjoin i s.world
  exact ⟨r, ⟨w, ⟨o, r⟩ :: s.trace⟩, Machine.act_eq_some.mpr ⟨h, rfl⟩⟩

/-- The blocking send of `drop` finds no room. -/
def Full (s : Snap controller) : Prop :=
  s.world.workerAlive = true ∧ COMMAND_CAPACITY ≤ s.world.commands.length

theorem sendShutdown_enabled {s : Snap controller} (h : ¬ Full s) (i : Outside) :
    ∃ r s', controller.act .sendShutdown i s = some (r, s') := by
  have hexec : ∃ w, exec .sendShutdown i s.world = some ((), w) := by
    simp only [exec]
    split
    · exact ⟨_, rfl⟩
    split
    · exact ⟨_, rfl⟩
    · next halive hroom => exact absurd ⟨by simpa using halive, Nat.le_of_not_lt hroom⟩ h
  obtain ⟨w, hw⟩ := hexec
  exact ⟨(), ⟨w, ⟨.sendShutdown, ()⟩ :: s.trace⟩, Machine.act_eq_some.mpr ⟨hw, rfl⟩⟩

theorem not_sendShutdown_of_full {s s' : Snap controller} {i : Outside} {r : Unit} (h : Full s)
    (hact : controller.act .sendShutdown i s = some (r, s')) : False := by
  have hexec := exec_of_act hact
  obtain ⟨halive, hfull⟩ := h
  simp only [exec, halive, Bool.not_true, Bool.false_eq_true, if_false,
    if_neg (Nat.not_lt.mpr hfull)] at hexec
  cases hexec

theorem join_enabled {s : Snap controller} (h : s.world.workerAlive = false) (i : Outside) :
    ∃ r s', controller.act .join i s = some (r, s') := by
  refine ⟨(), ⟨s.world, ⟨.join, ()⟩ :: s.trace⟩, Machine.act_eq_some.mpr ⟨?_, rfl⟩⟩
  simp only [exec, h, Bool.false_eq_true, if_false]

/-- Who can move at a moment of a run. -/
structure NeverStuck {checks : Bool} (m : Moment checks) : Prop where
  /-- the worker moves until its thread has ended -/
  worker : m.left.result? = some .ended ∨ LeftEnabled (anyRun checks) m
  /-- the caller moves until the bridge is dropped, unless `drop` waits for a worker that runs -/
  caller : m.right.result? = some .dropped ∨ RightEnabled (anyRun checks) m ∨
    (m.left.result? ≠ some .ended ∧
      (m.right.next? = some .sendShutdown ∧ Full m.snap ∨ m.right.next? = some .join))

/-! ## The outline -/

namespace Dropping

/-- The steps of the worker that take no command and do not end the thread. -/
def busy : Op → Bool
  | .selectCommand | .tryRecvCommand | .exit => false
  | o => o.ofWorker

/-- The worker runs, and when `drop` has sent its message, it is still in the queue. -/
structure Running (s : Snap controller) : Prop where
  alive : s.world.workerAlive = true
  queued : Closing s.trace → .shutdown ∈ s.world.commands

/-- The worker runs and has taken `c`. -/
structure Taken (c : Command) (s : Snap controller) : Prop where
  alive : s.world.workerAlive = true
  queued : Closing s.trace → c = .shutdown ∨ .shutdown ∈ s.world.commands

/-- What holds of the worker between its rounds. -/
def Between : Loc → Assertion
  | .top _, _, s | .drain, _, s => Running s
  | .stopping, _, s | .unwinding, _, s => s.world.workerAlive = true
  | .ended, _, s => s.world.workerAlive = false

end Dropping

open Dropping in
/-- The outline, for a caller that performs `theirs`: the message is its last command. -/
def dropping {checks : Bool} (asm : Conditions checks) (theirs : Op → Prop) : Outline asm where
  inv s := s.world.commands.length ≤ COMMAND_CAPACITY
  leftOps o := o.ofWorker = true
  rightOps := theirs
  leftAt := Between
  rightAt loc _ s := Closing s.trace → loc = .dropped
  leftReady _ _ _ := True
  rightReady _ _ _ := True

namespace Dropping

variable {checks : Bool} {asm : Conditions checks} {theirs : Op → Prop} {l : Worker} {o : Op}
  {i : Outside} {r : o.Ret} {s s' : Snap controller}

/-! ## One step -/

theorem length_commands_of_act (h : controller.act o i s = some (r, s'))
    (hs : s.world.commands.length ≤ COMMAND_CAPACITY) :
    s'.world.commands.length ≤ COMMAND_CAPACITY := by
  have hexec := exec_of_act h
  by_cases ho : o.commands = true
  · cases o <;> simp only [Op.commands, Bool.false_eq_true] at ho
    · simp only [exec, Option.some.injEq] at hexec
      unfold World.select at hexec
      grind
    · simp only [exec] at hexec
      grind
    · simp only [exec, World.trySend] at hexec
      grind
    · simp only [exec] at hexec
      grind
  · rwa [exec_commands hexec (by simpa using ho)]

theorem closing_of_act (ho : o ≠ .sendShutdown) (h : controller.act o i s = some (r, s'))
    (hs : Closing s'.trace) : Closing s.trace :=
  Classical.byContradiction fun hopen => WriteOrder.not_closing_kept ho h hopen hs

/-- A step of the caller leaves the commands in front of the queue. -/
theorem commands_of_caller (ho : o.ofCaller = true) (h : controller.act o i s = some (r, s')) :
    ∃ sent, s'.world.commands = s.world.commands ++ sent := by
  have hexec := exec_of_act h
  cases o with
  | trySendCommand command =>
    rcases exec_trySendCommand hexec with ⟨-, -, hsent⟩ | ⟨-, hsame⟩
    · exact ⟨_, hsent⟩
    · exact ⟨[], by rw [hsame, List.append_nil]⟩
  | sendShutdown =>
    rcases exec_sendShutdown hexec with ⟨-, hsent⟩ | hsame
    · exact ⟨_, hsent⟩
    · exact ⟨[], by rw [hsame, List.append_nil]⟩
  | _ =>
    first
    | exact ⟨[], by rw [exec_commands hexec rfl, List.append_nil]⟩
    | cases ho

theorem alive_of_caller (ho : o.ofCaller = true) (h : controller.act o i s = some (r, s')) :
    s'.world.workerAlive = s.world.workerAlive :=
  exec_workerAlive (exec_of_act h) (by rintro rfl; cases ho)

theorem Running.of_caller (ho : o.ofCaller = true) (h : controller.act o i s = some (r, s'))
    (hs : Running s) : Running s' where
  alive := (alive_of_caller ho h).trans hs.alive
  queued hclosing := by
    by_cases hsend : o = .sendShutdown
    · subst hsend
      rcases exec_sendShutdown (exec_of_act h) with ⟨-, hsent⟩ | hsame
      · rw [hsent]
        exact List.mem_append_right _ List.mem_cons_self
      · -- a running worker receives, so the message went into the queue
        have hexec := exec_of_act h
        simp only [exec, hs.alive, Bool.not_true, Bool.false_eq_true, if_false] at hexec
        grind
    · obtain ⟨sent, hcommands⟩ := commands_of_caller ho h
      rw [hcommands]
      exact List.mem_append_left _ (hs.queued (closing_of_act hsend h hclosing))

theorem busy_plain (ho : busy o = true) :
    o.ofWorker = true ∧ o.commands = false ∧ o ≠ .exit ∧ o ≠ .sendShutdown := by
  cases o <;> simp_all [busy, Op.ofWorker, Op.commands]

/-- What the queue, the messages sent and the worker's life say. -/
def Steady (P : Snap controller → Prop) : Prop :=
  ∀ (o : Op) (i : Outside) (r : o.Ret) (s s' : Snap controller), busy o = true →
    controller.act o i s = some (r, s') → P s → P s'

theorem steady_running : Steady Running := by
  intro o i r s s' ho h hs
  obtain ⟨-, hcommands, hexit, hsend⟩ := busy_plain ho
  constructor
  · rw [exec_workerAlive (exec_of_act h) hexit]
    exact hs.alive
  · rw [exec_commands (exec_of_act h) hcommands]
    exact fun hclosing => hs.queued (closing_of_act hsend h hclosing)

/-! ## The worker -/

section Worker

theorem step_wp {P : Snap controller → Prop} {Q : o.Ret → Worker → Snap controller → Prop}
    (ho : o.ofWorker = true) (hstable : (dropping asm theirs).left.Stable P) (hs : P s)
    (h : ∀ i r s₁ s₂, s₁.world.commands.length ≤ COMMAND_CAPACITY → P s₁ →
      controller.act o i s₁ = some (r, s₂) → Q r l s₂) :
    (dropping asm theirs).left.wpc (step o) Q l s :=
  wpc_perform_of ho hstable hs (fun _ _ _ => trivial) fun i r s₁ s₂ hinv h₁ _ hact =>
    ⟨length_commands_of_act hact hinv, h i r s₁ s₂ hinv h₁ hact⟩

/-- The frame: code that takes no command and does not end the thread. -/
theorem frame_wp {α : Type} {m : WorkerM α} {ops : Op → Bool} {P : Snap controller → Prop}
    (hm : m.Keeps (fun _ => True) (ops ·)) (hops : ∀ o, ops o = true → busy o = true)
    (hP : Steady P) (hstable : (dropping asm theirs).left.Stable P) (hs : P s) :
    (dropping asm theirs).left.wpc m (fun _ _ s => P s) l s := by
  refine wpc_mono (wpc_of_keeps hm hstable ?_ trivial hs) fun _ _ _ h => h.2
  refine fun l o _ ho => ⟨(busy_plain (hops o ho)).1, fun s₁ hinv h₁ => ⟨trivial, ?_⟩⟩
  exact fun i r s₂ _ hact =>
    ⟨length_commands_of_act hact hinv, hP o i r s₁ s₂ (hops o ho) hact h₁⟩

/-- The parts of a round but the taking of a command and the end of the thread. -/
theorem busy_of_part (ho : o.ofWishes = true ∨ o.ofStatus = true ∨ o.ofCapture = true ∨
    o.ofNoClick = true ∨ o.ofWriting = true) : busy o = true := by
  cases o <;> first | rfl | (rcases ho with ho | ho | ho | ho | ho <;> cases ho)

theorem performWrite_keeps (id : WriteId) (request : WriteRequest) :
    (performWrite checks id request).Keeps (fun _ => True) (busy ·) := by
  refine Code.Keeps.bind ((attemptWrite_keeps unaffected_true.place checks request).mono
    fun _ ho => busy_of_part (by simp [ho])) fun r => ?_
  cases r with
  | none => exact Code.keeps_pure
  | some result =>
    refine (keeps_step rfl).bind fun _ => ?_
    exact (keeps_step rfl).bind fun _ => Code.keeps_pure

theorem process_keeps (c : Command) :
    (process checks c).Keeps (fun _ => True) (busy ·) := by
  cases c with
  | noClick side =>
    exact (processNoClick_keeps unaffected_true.errors checks side).mono
      fun _ ho => busy_of_part (by simp [ho])
  | write id request =>
    refine (performWrite_keeps id request).bind fun flow => ?_
    cases flow with
    | go => exact failedFlow_keeps
    | stop => exact Code.keeps_pure
    | unwound => exact Code.keeps_pure
  | shutdown => exact Code.keeps_pure

theorem running_stable (htheirs : ∀ o, theirs o → o.ofCaller = true) :
    (dropping asm theirs).left.Stable Running :=
  stable_of_action fun o _ _ _ _ ho _ _ hact => Running.of_caller (htheirs o ho) hact

theorem alive_stable (htheirs : ∀ o, theirs o → o.ofCaller = true) (alive : Bool) :
    (dropping asm theirs).left.Stable fun s => s.world.workerAlive = alive :=
  stable_of_action fun o _ _ _ _ ho _ _ hact hs =>
    (alive_of_caller (htheirs o ho) hact).trans hs

theorem Taken.of_head {c : Command} (hs : Running s)
    (hcommands : s.world.commands = c :: s'.world.commands)
    (ho : o = .selectCommand ∨ o = .tryRecvCommand)
    (hact : controller.act o i s = some (r, s')) : Taken c s' := by
  constructor
  · rw [exec_workerAlive (exec_of_act hact) (by rcases ho with rfl | rfl <;> simp)]
    exact hs.alive
  · intro hclosing
    have hmem := hs.queued
      (closing_of_act (by rcases ho with rfl | rfl <;> simp) hact hclosing)
    rw [hcommands] at hmem
    exact (List.mem_cons.mp hmem).imp_left Eq.symm

theorem Running.of_look (ho : o = .selectCommand ∨ o = .tryRecvCommand)
    (hcommands : s'.world.commands = s.world.commands)
    (hact : controller.act o i s = some (r, s')) (hs : Running s) : Running s' := by
  constructor
  · rw [exec_workerAlive (exec_of_act hact) (by rcases ho with rfl | rfl <;> simp)]
    exact hs.alive
  · rw [hcommands]
    exact fun hclosing => hs.queued
      (closing_of_act (by rcases ho with rfl | rfl <;> simp) hact hclosing)

theorem process_wp {c : Command} (htheirs : ∀ o, theirs o → o.ofCaller = true)
    (hs : Taken c s) : (dropping asm theirs).left.wpc (process checks c)
      (fun flow l s => Between flow.next l s) l s := by
  by_cases hc : c = .shutdown
  · subst hc
    exact hs.alive
  · have hrunning : Running s :=
      ⟨hs.alive, fun hclosing => (hs.queued hclosing).resolve_left hc⟩
    refine wpc_mono (frame_wp (process_keeps c) (fun _ ho => ho) steady_running
      (running_stable htheirs) hrunning) fun flow l s h => ?_
    cases flow with
    | go => exact h
    | stop => exact h.alive
    | unwound => exact h.alive

/-- The end of the thread, of which nothing has to be known but that it comes. -/
theorem ending_wp {P : Snap controller → Prop}
    (hexit : ∀ s, s.world.workerAlive = false → P s) :
    (dropping asm theirs).left.wpc (do step .exit; pure .ended : WorkerM Loc)
      (fun loc _ s => loc = .ended ∧ P s) l s := by
  refine wpc_bind.mpr (step_wp (P := fun _ => True) rfl stable_const trivial ?_)
  intro i r s₁ s₂ _ _ hact
  refine ⟨rfl, hexit s₂ ?_⟩
  have hexec := exec_of_act hact
  simp only [exec, Option.some.injEq, Prod.mk.injEq, true_and] at hexec
  rw [← hexec]

theorem stopRound_wp {P : Snap controller → Prop}
    (hexit : ∀ s, s.world.workerAlive = false → P s) :
    (dropping asm theirs).left.wpc stopRound (fun loc _ s => loc = .ended ∧ P s) l s := by
  refine wpc_bind.mpr (step_wp (P := fun _ => True) rfl stable_const trivial ?_)
  intro _ _ _ _ _ _ _
  refine wpc_bind.mpr (step_wp (P := fun _ => True) rfl stable_const trivial ?_)
  exact fun _ _ _ _ _ _ _ => ending_wp hexit

theorem rounds (htheirs : ∀ o, theirs o → o.ofCaller = true) :
    Rounds (dropping asm theirs).left checks Between (fun c _ s => Taken c s)
      (fun _ s => Running s) where
  hot _ _ hs := hs
  select l s hs := by
    refine step_wp rfl (running_stable htheirs) hs fun i r s₁ s₂ _ h₁ hact => ?_
    cases r with
    | command c =>
      exact Taken.of_head h₁ (exec_selectCommand (exec_of_act hact)).2 (.inl rfl) hact
    | nudge =>
      exact Running.of_look (.inl rfl)
        (exec_selectCommand_other (exec_of_act hact) (by simp)) hact h₁
    | timeout =>
      exact Running.of_look (.inl rfl)
        (exec_selectCommand_other (exec_of_act hact) (by simp)) hact h₁
  receive l s hs := by
    refine step_wp rfl (running_stable htheirs) hs fun i r s₁ s₂ _ h₁ hact => ?_
    cases r with
    | some c =>
      exact Taken.of_head h₁ (exec_tryRecvCommand (exec_of_act hact)).2 (.inr rfl) hact
    | none =>
      have hsame := (exec_tryRecvCommand_none (exec_of_act hact)).1
      exact Running.of_look (.inr rfl) (by rw [hsame]) hact h₁
  process c l s hs := process_wp htheirs hs
  desired l s hs := frame_wp (applyDesired_keeps unaffected_true)
    (fun _ ho => busy_of_part (by simp [ho])) steady_running (running_stable htheirs) hs
  status l s hs := frame_wp (refreshStatusIfDue_keeps unaffected_true.errors fun _ _ h => h)
    (fun _ ho => busy_of_part (by simp [ho])) steady_running (running_stable htheirs) hs
  capture l s hs := frame_wp (captureIfNeeded_keeps unaffected_true fun _ _ h => h)
    (fun _ ho => busy_of_part (by simp [ho])) steady_running (running_stable htheirs) hs
  failed _ _ hs _ := hs.alive
  again _ _ _ hs _ := hs
  stop _ _ _ := wpc_mono (stopRound_wp fun _ h => h) fun loc l s h => by
    obtain ⟨rfl, h⟩ := h
    exact h
  unwind _ _ _ := wpc_mono (ending_wp fun _ h => h) fun loc l s h => by
    obtain ⟨rfl, h⟩ := h
    exact h

end Worker

/-! ## Both threads -/

theorem between_stable (htheirs : ∀ o, theirs o → o.ofCaller = true) (loc : Loc) (l : Worker) :
    (dropping asm theirs).left.Stable (Between loc l) := by
  cases loc with
  | top hot => exact running_stable htheirs
  | drain => exact running_stable htheirs
  | stopping => exact alive_stable htheirs true
  | unwinding => exact alive_stable htheirs true
  | ended => exact alive_stable htheirs false

/-- Whatever the other thread does, the caller's message is its own. -/
theorem open_stable :
    (dropping asm (Op.ofCaller · = true)).right.Stable fun s => ¬ Closing s.trace :=
  stable_of_action fun o i r s s' ho _ _ hact hs =>
    WriteOrder.not_closing_kept (by rintro rfl; cases ho) hact hs

theorem rightAt_stable (loc : Holding) (b : Bridge) :
    (dropping asm (Op.ofCaller · = true)).right.Stable
      ((dropping asm (Op.ofCaller · = true)).rightAt loc b) :=
  stable_of_action fun o i r s s' ho _ _ hact hs hclosing =>
    hs (closing_of_act (by rintro rfl; cases ho) hact hclosing)

/-- The steps of the calls other than `drop`. -/
def speaks : Op → Bool
  | .sendShutdown | .join => false
  | o => o.ofCall

theorem speaks_plain (ho : speaks o = true) : o.ofCaller = true ∧ o ≠ .sendShutdown := by
  cases o <;> first | cases ho; done | exact ⟨rfl, by simp⟩

theorem submitWrite_keeps (request : WriteRequest) :
    (Bridge.submitWrite checks request).Keeps (fun _ => True) (speaks ·) := by
  refine (clamp_keeps request.track).bind fun track => ?_
  dsimp only
  split
  · exact Code.keeps_pure
  refine (keeps_step rfl).bind fun status => ?_
  split
  · exact Code.keeps_pure
  refine (keeps_step rfl).bind fun front => ?_
  split
  · exact Code.keeps_pure
  · exact Code.keeps_pure
  refine Code.keeps_own.bind fun b => (Code.keeps_update fun _ _ => trivial).bind fun _ => ?_
  refine (keeps_step rfl).bind fun r => ?_
  cases r with
  | error e => exact Code.keeps_pure
  | ok _ => exact Code.keeps_pure

theorem perform_keeps_speaks {call : Call} (hdrop : call ≠ .drop) :
    (Bridge.perform checks call).Keeps (fun _ => True) (speaks ·) := by
  by_cases hcall : ∃ request, call = .submitWrite request
  · obtain ⟨request, rfl⟩ := hcall
    exact submitWrite_keeps request
  · refine (perform_keeps_plain (fun request h => hcall ⟨request, h⟩) hdrop).mono ?_
    intro o ho
    cases o <;> first | rfl | exact ho

/-- One step of the caller. -/
theorem call_wp {b : Bridge} {P : Snap controller → Prop}
    {Q : o.Ret → Bridge → Snap controller → Prop} (ho : o.ofCaller = true)
    (hstable : (dropping asm (Op.ofCaller · = true)).right.Stable P) (hs : P s)
    (h : ∀ i r s₁ s₂, P s₁ → controller.act o i s₁ = some (r, s₂) → Q r b s₂) :
    (dropping asm (Op.ofCaller · = true)).right.wpc (step o) Q b s :=
  wpc_perform_of ho hstable hs (fun _ _ _ => trivial) fun i r s₁ s₂ hinv h₁ _ hact =>
    ⟨length_commands_of_act hact hinv, h i r s₁ s₂ h₁ hact⟩

/-- Only `drop` sends the message, and it is the last call. -/
theorem callRound_wp {call : Call} {b : Bridge} (hopen : ¬ Closing s.trace) :
    (dropping asm (Op.ofCaller · = true)).right.wpc (callRound checks call)
      (dropping asm (Op.ofCaller · = true)).rightAt b s := by
  by_cases hdrop : call = .drop
  · subst hdrop
    refine wpc_bind.mpr (call_wp (P := fun _ => True) rfl stable_const trivial ?_)
    intro _ _ _ s₁ _ _
    refine wpc_bind.mpr (wpc_bind.mpr (call_wp (P := fun _ => True) rfl stable_const trivial ?_))
    intro _ _ _ s₂ _ _
    refine wpc_bind.mpr (call_wp (P := fun _ => True) rfl stable_const trivial ?_)
    intro _ _ _ s₃ _ _
    refine wpc_bind.mpr (call_wp (P := fun _ => True) rfl stable_const trivial ?_)
    exact fun _ _ _ _ _ _ _ => rfl
  · refine wpc_bind.mpr (call_wp rfl open_stable hopen fun i r s₁ s₂ h₁ hact => ?_)
    have h₂ := WriteOrder.not_closing_kept (by simp) hact h₁
    refine wpc_seq (wpc_of_keeps (perform_keeps_speaks hdrop) open_stable ?_ trivial h₂) ?_
    · refine fun b o _ ho => ⟨(speaks_plain ho).1, fun s hinv h => ⟨trivial, ?_⟩⟩
      exact fun i r s' _ hact => ⟨length_commands_of_act hact hinv,
        WriteOrder.not_closing_kept (speaks_plain ho).2 hact h⟩
    rintro answer b s₃ ⟨-, h₃⟩
    refine wpc_bind.mpr (call_wp rfl open_stable h₃ fun i r s₄ s₅ h₄ hact => ?_)
    exact fun hclosing => absurd hclosing (WriteOrder.not_closing_kept (by simp) hact h₄)

theorem valid : (dropping asm (Op.ofCaller · = true)).Valid where
  leftStable := between_stable fun _ ho => ho
  rightStable := rightAt_stable
  leftRound _ _ _ _ _ hm _ h := (rounds fun _ ho => ho).round hm h
  rightRound := rightRound_of_call fun _ _ _ _ hat =>
    callRound_wp fun hclosing => by cases hat hclosing

theorem holds_fromDevice (config : BridgeConfig) (status : DriveStatus) (head : TrackAddress)
    (now : Nat) :
    (dropping asm (Op.ofCaller · = true)).Holds (fromDevice checks config status head now) := by
  have hopen : ∀ w : World, ¬ Closing (Snap.trace (M := controller) ⟨w, []⟩) :=
    fun _ ⟨_, hmem, _⟩ => absurd hmem List.not_mem_nil
  exact ⟨Nat.zero_le _, ⟨rfl, fun h => absurd h (hopen _)⟩, fun h => absurd h (hopen _)⟩

theorem holds_of_reachable {m : Moment checks} (h : Reachable asm m) :
    (dropping asm (Op.ofCaller · = true)).Holds m :=
  h.holds valid holds_fromDevice

/-! ## Counting the rounds -/

/-- The message is among the first `k` commands of the queue. -/
def Within (k : Nat) (s : Snap controller) : Prop := .shutdown ∈ s.world.commands.take k

/-- At most `n` rounds are left to a worker that has the message in its queue. -/
def RoundsLeft (n : Nat) : Loc → Assertion
  | .top _, _, s => ∃ k, Within k s ∧ 2 * k + 1 ≤ n
  | .drain, _, s => ∃ k, Within k s ∧ 2 * k ≤ n
  | .stopping, _, _ | .unwinding, _, _ => 1 ≤ n
  | .ended, _, _ => True

theorem within_stable {k : Nat} :
    (dropping asm (Op.ofCaller · = true)).left.Stable (Within k) := by
  refine stable_of_action fun o i r s s' ho _ _ hact hs => ?_
  obtain ⟨sent, hcommands⟩ := commands_of_caller ho hact
  unfold Within
  rw [hcommands, List.take_append]
  exact List.mem_append_left _ hs

theorem steady_within {k : Nat} : Steady (Within k) := by
  intro o i r s s' ho hact hs
  unfold Within
  rw [exec_commands (exec_of_act hact) (busy_plain ho).2.1]
  exact hs

/-- The head of the queue is the message, or the message is nearer by one. -/
theorem Within.head {k : Nat} {c : Command} (hs : Within k s)
    (hcommands : s.world.commands = c :: s'.world.commands) :
    ∃ j, k = j + 1 ∧ (c = .shutdown ∨ Within j s') := by
  unfold Within at hs ⊢
  rw [hcommands] at hs
  cases k with
  | zero => exact absurd hs List.not_mem_nil
  | succ j => exact ⟨j, rfl, (List.mem_cons.mp hs).imp_left Eq.symm⟩

theorem roundsLeft_stable (n : Nat) (loc : Loc) (l : Worker) :
    (dropping asm (Op.ofCaller · = true)).left.Stable (RoundsLeft n loc l) := by
  cases loc with
  | top hot =>
    rintro s s' hrely ⟨k, hk, hn⟩
    exact ⟨k, within_stable s s' hrely hk, hn⟩
  | drain =>
    rintro s s' hrely ⟨k, hk, hn⟩
    exact ⟨k, within_stable s s' hrely hk, hn⟩
  | stopping => exact stable_const
  | unwinding => exact stable_const
  | ended => exact stable_const

/-- A command is processed, and the message is nearer by one, or was the command. -/
theorem process_countdown {c : Command} {j n : Nat} (hj : 2 * j + 1 ≤ n)
    (hs : c = .shutdown ∨ Within j s) :
    (dropping asm (Op.ofCaller · = true)).left.wpc (process checks c)
      (fun flow l s => RoundsLeft n flow.next l s) l s := by
  rcases hs with rfl | hs
  · exact Nat.le_trans (Nat.le_add_left 1 _) hj
  · refine wpc_mono (frame_wp (process_keeps c) (fun _ ho => ho) steady_within within_stable hs)
      fun flow l s h => ?_
    cases flow with
    | go => exact ⟨j, h, by omega⟩
    | stop => exact Nat.le_trans (Nat.le_add_left 1 _) hj
    | unwound => exact Nat.le_trans (Nat.le_add_left 1 _) hj

theorem selectRound_countdown {k n : Nat} (hk : 2 * k ≤ n) (hs : Within k s) :
    (dropping asm (Op.ofCaller · = true)).left.wpc (selectRound checks) (RoundsLeft n) l s := by
  refine wpc_bind.mpr (step_wp rfl within_stable hs fun i r s₁ s₂ _ h₁ hact => ?_)
  have hlooked : s₂.world.commands = s₁.world.commands → RoundsLeft n .drain l s₂ := by
    intro hsame
    refine ⟨k, ?_, hk⟩
    unfold Within
    rw [hsame]
    exact h₁
  cases r with
  | nudge => exact hlooked (exec_selectCommand_other (exec_of_act hact) (by simp))
  | timeout => exact hlooked (exec_selectCommand_other (exec_of_act hact) (by simp))
  | command c =>
    obtain ⟨j, rfl, hj⟩ := h₁.head (exec_selectCommand (exec_of_act hact)).2
    exact wpc_seq (process_countdown (by omega) hj) fun _ _ _ h => h

theorem drainRound_countdown {k n : Nat} (hk : 2 * k ≤ n + 1) (hs : Within k s) :
    (dropping asm (Op.ofCaller · = true)).left.wpc (drainRound checks) (RoundsLeft n) l s := by
  refine wpc_bind.mpr (step_wp rfl within_stable hs fun i r s₁ s₂ _ h₁ hact => ?_)
  cases r with
  | none =>
    -- the message is in the queue, so the drain does not find it empty
    unfold Within at h₁
    rw [(exec_tryRecvCommand_none (exec_of_act hact)).2, List.take_nil] at h₁
    exact absurd h₁ List.not_mem_nil
  | some c =>
    obtain ⟨j, rfl, hj⟩ := h₁.head (exec_tryRecvCommand (exec_of_act hact)).2
    exact wpc_seq (process_countdown (by omega) hj) fun _ _ _ h => h

theorem countdown :
    Countdown (dropping asm (Op.ofCaller · = true)) (fun _ => True) RoundsLeft where
  stable := roundsLeft_stable
  round n loc pick m l s hm _ _ hs := by
    cases loc with
    | top hot =>
      cases hm
      obtain ⟨k, hk, hn⟩ := hs
      refine ⟨n - 1, by omega, ?_⟩
      split
      · exact ⟨k, hk, by omega⟩
      · exact selectRound_countdown (by omega) hk
    | drain =>
      cases hm
      obtain ⟨k, hk, hn⟩ := hs
      have hpos : 0 < k := by
        rcases Nat.eq_zero_or_pos k with rfl | hpos
        · exact absurd hk List.not_mem_nil
        · exact hpos
      exact ⟨n - 1, by omega, drainRound_countdown (by omega) hk⟩
    | stopping =>
      cases hm
      refine ⟨0, hs, wpc_mono (stopRound_wp (P := fun _ => True) fun _ _ => trivial) ?_⟩
      rintro loc l s ⟨rfl, -⟩
      trivial
    | unwinding =>
      cases hm
      refine ⟨0, hs, wpc_mono (ending_wp (P := fun _ => True) fun _ _ => trivial) ?_⟩
      rintro loc l s ⟨rfl, -⟩
      trivial
    | ended => cases hm

/-- The call under way is the last one. -/
def LastCall (asm : Conditions checks) (q : Prog controllerSig Bridge Holding)
    (s : Snap controller) : Prop :=
  Closing s.trace ∧
    (dropping asm (Op.ofCaller · = true)).right.wp q
      (dropping asm (Op.ofCaller · = true)).rightAt s

theorem lingering :
    Lingering (dropping asm (Op.ofCaller · = true)) (fun _ => True) (LastCall asm) where
  stable q := by
    refine Stable.and ?_ (wp_stable rightAt_stable)
    exact stable_of_action fun _ _ _ _ _ _ _ _ hact hs => WriteOrder.Closing.kept hact hs
  act l o k i r s s' _ hinv hs allowed done := by
    obtain ⟨hinv', hrest⟩ := (hs.2.2 s .refl hinv).2 i allowed r s' done
    exact ⟨hs.2.1, hinv', WriteOrder.Closing.kept done hs.1, hrest⟩
  last l loc pick s _ hs := by
    have hdropped : loc = .dropped := hs.2 hs.1
    rw [hdropped]

/-! ## Waiting for room -/

/-- At most `n` rounds begin with a queue that is full. -/
def RoundsFull (n : Nat) (loc : Loc) (_ : Worker) (s : Snap controller) : Prop :=
  Full s → match loc with
    | .top _ => 3 ≤ n
    | .drain => 2 ≤ n
    | .stopping | .unwinding => 1 ≤ n
    | .ended => False

/-- The caller is in the blocking send. -/
def Sending (q : Prog controllerSig Bridge Holding) (_ : Snap controller) : Prop :=
  q.next? = some .sendShutdown

theorem still {P : Snap controller → Prop} : (dropping asm fun _ => False).left.Stable P :=
  stable_of_action fun _ _ _ _ _ ho => ho.elim

theorem steady_not_full : Steady fun s => ¬ Full s := by
  rintro o i r s s' ho hact hs ⟨halive, hfull⟩
  obtain ⟨-, hcommands, hexit, -⟩ := busy_plain ho
  rw [exec_workerAlive (exec_of_act hact) hexit] at halive
  rw [exec_commands (exec_of_act hact) hcommands] at hfull
  exact hs ⟨halive, hfull⟩

/-- A command taken makes room. -/
theorem not_full_of_head {c : Command} (hinv : s.world.commands.length ≤ COMMAND_CAPACITY)
    (hcommands : s.world.commands = c :: s'.world.commands) : ¬ Full s' := by
  rintro ⟨-, hfull⟩
  rw [hcommands, List.length_cons] at hinv
  omega

theorem process_full {c : Command} {n : Nat} (hs : ¬ Full s) :
    (dropping asm fun _ => False).left.wpc (process checks c)
      (fun flow l s => RoundsFull n flow.next l s) l s :=
  wpc_mono (frame_wp (process_keeps c) (fun _ ho => ho) steady_not_full still hs)
    fun _ _ _ hnot hfull => absurd hfull hnot

theorem roundsFull_ended (h : s.world.workerAlive = false) : RoundsFull 0 .ended l s := by
  rintro ⟨halive, -⟩
  rw [h] at halive
  cases halive

theorem countdown_full : Countdown (dropping asm fun _ => False) Full RoundsFull where
  stable _ _ _ := still
  round n loc pick m l s hm hfull _ hs := by
    cases loc with
    | top hot =>
      cases hm
      refine ⟨2, hs hfull, ?_⟩
      split
      · exact fun _ => Nat.le_refl 2
      refine wpc_bind.mpr (step_wp rfl still hfull fun i r s₁ s₂ hinv h₁ hact => ?_)
      cases r with
      | nudge => exact fun _ => Nat.le_refl 2
      | timeout => exact fun _ => Nat.le_refl 2
      | command c =>
        have hroom := not_full_of_head hinv (exec_selectCommand (exec_of_act hact)).2
        exact wpc_seq (process_full hroom) fun _ _ _ h => h
    | drain =>
      cases hm
      refine ⟨1, hs hfull, ?_⟩
      refine wpc_bind.mpr (step_wp rfl still hfull fun i r s₁ s₂ hinv h₁ hact => ?_)
      cases r with
      | none =>
        obtain ⟨-, hcapacity⟩ := h₁
        rw [(exec_tryRecvCommand_none (exec_of_act hact)).2] at hcapacity
        cases hcapacity
      | some c =>
        have hroom := not_full_of_head hinv (exec_tryRecvCommand (exec_of_act hact)).2
        exact wpc_seq (process_full hroom) fun _ _ _ h => h
    | stopping =>
      cases hm
      refine ⟨0, hs hfull, wpc_mono (stopRound_wp fun _ h => h) ?_⟩
      rintro loc l s ⟨rfl, h⟩
      exact roundsFull_ended h
    | unwinding =>
      cases hm
      refine ⟨0, hs hfull, wpc_mono (ending_wp fun _ h => h) ?_⟩
      rintro loc l s ⟨rfl, h⟩
      exact roundsFull_ended h
    | ended => cases hm

theorem lingering_full : Lingering (dropping asm fun _ => False) Full Sending where
  stable _ := stable_const
  act l o k i r s s' hfull _ hs _ done := by
    cases hs
    exact (not_sendShutdown_of_full hfull done).elim
  last _ _ _ _ _ hs := by cases hs

/-! ## Nobody is stuck -/

theorem neverStuck {m : Moment checks}
    (h : (dropping (anyRun checks) (Op.ofCaller · = true)).Holds m) : NeverStuck m := by
  have hend : m.left.result? = some .ended → m.snap.world.workerAlive = false :=
    fun hresult => h.leftAt hresult
  obtain ⟨s, p, q⟩ := m
  constructor
  · cases p with
    | ret l loc =>
      cases loc with
      | ended => exact .inl rfl
      | _ => exact .inr ⟨(), _, rfl⟩
    | act l o k =>
      have ho : o.ofWorker = true := (h.leftReady rfl).1
      obtain ⟨r, s', hact⟩ := act_enabled (o := o) (by rintro rfl; cases ho)
        (by rintro rfl; cases ho) {} s
      exact .inr ⟨{}, r, s', rfl, hact⟩
  · cases q with
    | ret b loc =>
      cases loc with
      | dropped => exact .inl rfl
      | holds => exact .inr (.inl ⟨.pollEvent, _, rfl⟩)
    | act b o k =>
      right
      by_cases hsend : o = .sendShutdown
      · subst hsend
        by_cases hfull : Full s
        · refine .inr ⟨fun hresult => ?_, .inl ⟨rfl, hfull⟩⟩
          exact absurd hfull.1 (by rw [hend hresult]; simp)
        · obtain ⟨r, s', hact⟩ := sendShutdown_enabled hfull {}
          exact .inl ⟨{}, r, s', rfl, hact⟩
      by_cases hjoin : o = .join
      · subst hjoin
        by_cases halive : s.world.workerAlive = false
        · obtain ⟨r, s', hact⟩ := join_enabled halive {}
          exact .inl ⟨{}, r, s', rfl, hact⟩
        · exact .inr ⟨fun hresult => halive (hend hresult), .inr rfl⟩
      · obtain ⟨r, s', hact⟩ := act_enabled hsend hjoin {} s
        exact .inl ⟨{}, r, s', rfl, hact⟩

end Dropping

/-- A moment from which no step is possible is one after the bridge was dropped. -/
theorem NeverStuck.ended {checks : Bool} {m : Moment checks} (h : NeverStuck m)
    (hlast : ∀ m', ¬ Step (anyRun checks) m m') :
    m.left.result? = some .ended ∧ m.right.result? = some .dropped := by
  have hleft : m.left.result? = some .ended := by
    refine h.worker.resolve_right fun henabled => ?_
    obtain ⟨m', hstep⟩ := henabled.exists_step
    exact hlast m' hstep
  refine ⟨hleft, h.caller.resolve_right ?_⟩
  rintro (henabled | ⟨hrunning, -⟩)
  · obtain ⟨m', hstep⟩ := henabled.exists_step
    exact hlast m' hstep
  · exact hrunning hleft

/-! ## What a caller may rely on -/

section Runs

open Dropping

variable {checks : Bool} {m : Moment checks}

/--
**Nobody is stuck.** At every moment of every run the worker can go on until its thread has ended,
and so can the caller until the bridge is dropped, but for the two places where `drop` waits for a
worker that has not ended.
-/
theorem neverStuck_of_reachable (h : Reachable (anyRun checks) m) : NeverStuck m :=
  neverStuck (holds_of_reachable h)

/-- Fill the queue while the worker does not move, and drop the bridge. -/
def fillThenDrop : Schedule true :=
  (List.replicate 64 (calling (.noClickStep .lower) 3 {})).flatten ++ calling .drop 1 {}

/-- `drop` waits to send its message. -/
def waitsForRoom (m : Moment true) : Bool :=
  match m.right.next? with
  | some .sendShutdown => m.snap.world.workerAlive && m.snap.world.commands.length == 64
  | _ => false

theorem full_of_waitsForRoom {m : Moment true} (h : waitsForRoom m = true) :
    m.right.next? = some .sendShutdown ∧ Full m.snap := by
  unfold waitsForRoom at h
  split at h
  · next hnext =>
    simp only [Bool.and_eq_true, beq_iff_eq] at h
    exact ⟨hnext, h.1, Nat.le_of_eq h.2.symm⟩
  · cases h

theorem exists_waitsForRoom : ∃ m : Moment true, Reachable (anyRun true) m ∧
    m.right.next? = some .sendShutdown ∧ Full m.snap := by
  have hplay : ((play (anyRun true) (opened true .normal ⟨5, .upper⟩) fillThenDrop).any
      waitsForRoom) = true := by
    decide +kernel
  obtain ⟨m, hrun, htest⟩ := exists_reach_of_play hplay
  exact ⟨m, ⟨hrun⟩, full_of_waitsForRoom htest⟩

/-- With a full queue it is the worker who goes on. -/
theorem neverStuck_of_reachable_full : ∃ m : Moment true,
    m.right.next? = some .sendShutdown ∧ Full m.snap ∧ NeverStuck m := by
  obtain ⟨m, hreachable, hnext, hfull⟩ := exists_waitsForRoom
  exact ⟨m, hnext, hfull, neverStuck_of_reachable hreachable⟩

/--
**`drop` gets room.** The queue does not stay full for ever while `drop` waits to send `Shutdown`,
whatever the worker was doing and in whatever order the channels are served.
-/
theorem roomForShutdown_of_reachable (h : Reachable (anyRun checks) m)
    (hsend : m.right.next? = some .sendShutdown) : FiniteWhile (anyRun checks) Full m := by
  have hholds := holds_of_reachable h
  obtain ⟨s, p, q⟩ := m
  have hp : (dropping (anyRun checks) fun _ => False).left.wp p (RoundsFull 3) s := by
    refine wp_mono (wp_theirs (fun _ ho => ho.elim) hholds.left) fun loc l s hat hfull => ?_
    cases loc with
    | ended => exact absurd hfull.1 (by rw [show s.world.workerAlive = false from hat]; simp)
    | top hot => exact Nat.le_refl 3
    | drain => exact Nat.le_succ 2
    | stopping => exact Nat.succ_le_succ (Nat.zero_le 2)
    | unwinding => exact Nat.succ_le_succ (Nat.zero_le 2)
  exact countdown_full.finite lingering_full hholds.inv hp hsend

theorem roomForShutdown_of_reachable_full : ∃ m : Moment true,
    Full m.snap ∧ FiniteWhile (anyRun true) Full m := by
  obtain ⟨m, hreachable, hnext, hfull⟩ := exists_waitsForRoom
  exact ⟨m, hfull, roomForShutdown_of_reachable hreachable hnext⟩

/--
**`drop` returns.** Once `Shutdown` is sent, no run goes on for ever, and where a run ends, the
worker's thread has ended and `drop` has returned.
-/
theorem dropReturns_of_reachable (h : Reachable (anyRun checks) m)
    (hclosing : Closing m.snap.trace) :
    FiniteWhile (anyRun checks) (fun _ => True) m ∧
      ∀ m', Reach (anyRun checks) m m' → (∀ m'', ¬ Step (anyRun checks) m' m'') →
        m'.left.result? = some .ended ∧ m'.right.result? = some .dropped := by
  constructor
  · have hholds := holds_of_reachable h
    obtain ⟨s, p, q⟩ := m
    have hp : (dropping (anyRun checks) (Op.ofCaller · = true)).left.wp p
        (RoundsLeft (2 * COMMAND_CAPACITY + 1)) s := by
      refine wp_mono (wp_kept (P := fun s : Snap controller => Closing s.trace ∧
        s.world.commands.length ≤ COMMAND_CAPACITY) ?_ hholds.left ⟨hclosing, hholds.inv⟩) ?_
      · exact fun o i r s s' hact hs =>
          ⟨WriteOrder.Closing.kept hact hs.1, length_commands_of_act hact hs.2⟩
      rintro loc l s ⟨hat, hclosed, hlength⟩
      have hwithin : Running s → Within COMMAND_CAPACITY s := by
        intro hrunning
        unfold Within
        rw [List.take_of_length_le hlength]
        exact hrunning.queued hclosed
      cases loc with
      | top hot => exact ⟨COMMAND_CAPACITY, hwithin hat, Nat.le_refl _⟩
      | drain => exact ⟨COMMAND_CAPACITY, hwithin hat, Nat.le_succ _⟩
      | stopping => exact Nat.le_add_left 1 _
      | unwinding => exact Nat.le_add_left 1 _
      | ended => trivial
    exact countdown.finite lingering hholds.inv hp ⟨hclosing, hholds.right⟩
  · intro m' hreach hlast
    obtain ⟨run⟩ := h
    exact (neverStuck (holds_of_reachable ⟨run.trans hreach⟩)).ended hlast

/-- Read a track, queue a write and drop the bridge, before the worker has begun. -/
def readWriteDrop : Schedule true :=
  calling (.readTrack ⟨3, .upper⟩) 5 {} ++ calling (.submitWrite oneWord) 5 {}
    ++ calling .drop 2 {}

theorem dropReturns_of_reachable_readWriteDrop : ∃ m : Moment true,
    m.snap.world.commands.length = 2 ∧ FiniteWhile (anyRun true) (fun _ => True) m := by
  have hplay : ((play (anyRun true) (opened true .normal ⟨5, .upper⟩) readWriteDrop).any
      fun m => m.snap.world.commands.length = 2 ∧
        m.snap.trace.any fun event => event.op.sends) = true := by
    decide +kernel
  obtain ⟨m, hrun, htest⟩ := exists_reach_of_play hplay
  obtain ⟨hlength, event, hevent, hsends⟩ : m.snap.world.commands.length = 2 ∧
      ∃ event ∈ m.snap.trace, event.op.sends = true := by simpa using htest
  exact ⟨m, hlength, (dropReturns_of_reachable ⟨hrun⟩ ⟨event, hevent, Op.eq_of_sends hsends⟩).1⟩

end Runs

end FluxBridge
