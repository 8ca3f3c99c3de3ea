import FluxBridge.Controller.Rounds

/-!
# The outcome of every accepted write

A write that was accepted is in the command queue, in the worker's hands, or has an outcome: an
event in its channel, or one that was polled (`Owes`).

* `keepsOutcomes`, `keepsIds` — what a run has to meet: the event channel has room for each
  outcome, the worker does not end with writes in its queue, no panic, no id used twice
* `outcomesMet_of_kept` — in such a run each accepted write has exactly one outcome whenever the
  worker has nothing left to do
-/

namespace FluxBridge

open Atomic Atomic.Side

/-! ## The ledger -/

/-- The write whose outcome an event is. -/
def BridgeEvent.outcomeId? : BridgeEvent → Option WriteId
  | .writeCompleted id _ _ | .writeFailed id _ _ => some id
  | .diskChanged _ | .disconnected _ => none

/-- The writes in the command queue. -/
def queued (w : World) : List WriteId := w.commands.filterMap Command.writeId?

/-- The writes that were put into the command queue, newest first. -/
def entered : List (Event controllerSig) → List WriteId
  | [] => []
  | ⟨.trySendCommand (.write id _), .ok ()⟩ :: rest => id :: entered rest
  | _ :: rest => entered rest

/-- How often `submit_write` has tried to put a write into the command queue. -/
def attempts : List (Event controllerSig) → Nat
  | [] => 0
  | ⟨.trySendCommand (.write _ _), _⟩ :: rest => attempts rest + 1
  | _ :: rest => attempts rest

/-- The ids that `submit_write` has returned, newest first. -/
def acceptedIds : List (Event controllerSig) → List WriteId
  | [] => []
  | ⟨.returned (.submitWrite _) (.accepted (.ok id)), _⟩ :: rest => id :: acceptedIds rest
  | _ :: rest => acceptedIds rest

/-- The outcomes that were polled, newest first. -/
def polledIds : List (Event controllerSig) → List WriteId
  | [] => []
  | ⟨.tryRecvEvent, some sent⟩ :: rest => sent.event.outcomeId?.toList ++ polledIds rest
  | _ :: rest => polledIds rest

/-- The outcomes in the event channel. -/
def pendingIds (w : World) : List WriteId := w.events.filterMap fun sent => sent.event.outcomeId?

/-- The outcomes of writes: polled, or still in the event channel. -/
def outcomes (s : Snap controller) : List WriteId := polledIds s.trace ++ pendingIds s.world

/-- The worker has nothing left to do: its queue is empty between two passes, or it has ended. -/
def Settled {checks : Bool} (m : Moment checks) : Prop :=
  (m.snap.world.commands = [] ∧ ∃ hot, m.left.result? = some (.top hot)) ∨
    m.left.result? = some .ended

/-- Each id that `submit_write` has returned has exactly one outcome. -/
def OutcomesMet {checks : Bool} (m : Moment checks) : Prop :=
  Settled m → ∀ id ∈ acceptedIds m.snap.trace, (outcomes m.snap).count id = 1

/-- Besides the queue and the outcomes, the writes `ids` are in the worker's hands. -/
def Owes (ids : List WriteId) (s : Snap controller) : Prop :=
  ∀ id, (entered s.trace).count id =
    (queued s.world).count id + ids.count id + (outcomes s).count id

/-- The ids were given once each. -/
structure Numbered (s : Snap controller) : Prop where
  nodup : (entered s.trace).Nodup
  upTo : ∀ id ∈ entered s.trace, id.get ≤ attempts s.trace
  bound : attempts s.trace < USIZE_RANGE
  returned : ∀ id ∈ acceptedIds s.trace, id ∈ entered s.trace

theorem Numbered.congr {s s' : Snap controller} (hs : Numbered s)
    (hentered : entered s'.trace = entered s.trace)
    (hattempts : attempts s'.trace = attempts s.trace)
    (haccepted : acceptedIds s'.trace = acceptedIds s.trace) : Numbered s' := by
  refine ⟨?_, ?_, ?_, ?_⟩
  · rw [hentered]
    exact hs.nodup
  · rw [hentered, hattempts]
    exact hs.upTo
  · rw [hattempts]
    exact hs.bound
  · rw [hentered, haccepted]
    exact hs.returned

namespace Outcomes

variable {s s' : Snap controller} {o : Op} {i : Outside} {r : o.Ret}

/-- The steps that move no write. -/
def idle : Op → Bool
  | .selectCommand | .tryRecvCommand | .tryRecvEvent => false
  | .trySendCommand command => command.writeId?.isNone
  | .trySendEvent event => event.outcomeId?.isNone
  | _ => true

theorem entered_of_idle (ho : idle o = true) (trace : List (Event controllerSig)) :
    entered (⟨o, r⟩ :: trace) = entered trace := by
  cases o with
  | trySendCommand command => cases command <;> simp_all [idle, Command.writeId?, entered]
  | _ => rfl

theorem polledIds_of_idle (ho : idle o = true) (trace : List (Event controllerSig)) :
    polledIds (⟨o, r⟩ :: trace) = polledIds trace := by
  cases o with
  | tryRecvEvent => simp [idle] at ho
  | _ => rfl

theorem queued_of_idle (ho : idle o = true) (h : exec o i s.world = some (r, s'.world)) :
    queued s'.world = queued s.world := by
  unfold queued
  by_cases hcom : o.commands = true
  · cases o <;> simp only [Op.commands, Bool.false_eq_true] at hcom
    · simp [idle] at ho
    · simp [idle] at ho
    · next command =>
      have hid : command.writeId? = none := by simpa [idle] using ho
      rcases exec_trySendCommand h with ⟨-, -, hcommands⟩ | ⟨-, hworld⟩
      · rw [hcommands, List.filterMap_append]
        simp [hid]
      · rw [hworld]
    · rcases exec_sendShutdown h with ⟨-, hcommands⟩ | hworld
      · rw [hcommands, List.filterMap_append]
        simp [Command.writeId?]
      · rw [hworld]
  · rw [exec_commands h (by simpa using hcom)]

theorem pendingIds_of_idle (ho : idle o = true) (h : exec o i s.world = some (r, s'.world)) :
    pendingIds s'.world = pendingIds s.world := by
  unfold pendingIds
  by_cases hev : o.events = true
  · cases o <;> simp only [Op.events, Bool.false_eq_true] at hev
    · next event =>
      have hid : event.outcomeId? = none := by simpa [idle] using ho
      rcases exec_trySendEvent h with hevents | hevents
      · rw [hevents]
      · rw [hevents, List.filterMap_append]
        simp [hid]
    · simp [idle] at ho
  · rw [exec_events h (by simpa using hev)]

theorem owes_of_idle {ids : List WriteId} (ho : idle o = true)
    (h : controller.act o i s = some (r, s')) (hs : Owes ids s) : Owes ids s' := by
  intro id
  have hid := hs id
  have htrace := (Machine.act_eq_some.mp h).2
  unfold outcomes at hid ⊢
  rw [htrace, entered_of_idle ho, polledIds_of_idle ho, queued_of_idle ho (exec_of_act h),
    pendingIds_of_idle ho (exec_of_act h)]
  exact hid

/-! ## The steps that move a write -/

/-- Entering the queue. -/
theorem owes_of_enter {ids : List WriteId} {id : WriteId} {request : WriteRequest}
    {r : Except Error Unit}
    (h : controller.act (.trySendCommand (.write id request)) i s = some (r, s'))
    (hs : Owes ids s) : Owes ids s' := by
  have htrace := (Machine.act_eq_some.mp h).2
  have hevents : s'.world.events = s.world.events := exec_events (exec_of_act h) rfl
  intro id'
  have hid := hs id'
  unfold outcomes pendingIds queued at hid ⊢
  rcases exec_trySendCommand (exec_of_act h) with ⟨hr, -, hcommands⟩ | ⟨hr, hworld⟩
  · subst hr
    have hentered : entered s'.trace = id :: entered s.trace := by rw [htrace]; rfl
    have hpolled : polledIds s'.trace = polledIds s.trace := by rw [htrace]; rfl
    rw [hentered, hpolled, hevents, hcommands, List.filterMap_append]
    simp only [List.count_append, List.count_cons, Command.writeId?, List.filterMap_cons,
      List.filterMap_nil, List.count_nil] at hid ⊢
    omega
  · have hentered : entered s'.trace = entered s.trace := by
      rw [htrace]
      cases r with
      | error e => rfl
      | ok _ => exact absurd rfl hr
    have hpolled : polledIds s'.trace = polledIds s.trace := by rw [htrace]; rfl
    rw [hentered, hpolled, hworld]
    exact hid

/-- Being polled. -/
theorem owes_of_poll {ids : List WriteId} {r : Option Sent}
    (h : controller.act .tryRecvEvent i s = some (r, s')) (hs : Owes ids s) : Owes ids s' := by
  have htrace := (Machine.act_eq_some.mp h).2
  have hcommands : s'.world.commands = s.world.commands := exec_commands (exec_of_act h) rfl
  have hentered : entered s'.trace = entered s.trace := by rw [htrace]; rfl
  intro id
  have hid := hs id
  unfold outcomes pendingIds queued at hid ⊢
  rw [hentered, hcommands]
  cases r with
  | none =>
    have hpolled : polledIds s'.trace = polledIds s.trace := by rw [htrace]; rfl
    have hevents : s'.world.events = s.world.events := exec_tryRecvEvent_none (exec_of_act h)
    rw [hpolled, hevents]
    exact hid
  | some sent =>
    have hpolled : polledIds s'.trace = sent.event.outcomeId?.toList ++ polledIds s.trace := by
      rw [htrace]
      rfl
    have hevents := exec_tryRecvEvent (exec_of_act h)
    rw [hpolled]
    rw [hevents, List.filterMap_cons] at hid
    -- an outcome moves from the event channel to the polled ones, anything else leaves both alone
    cases hout : sent.event.outcomeId? with
    | none =>
      simp only [hout] at hid
      simpa using hid
    | some out =>
      simp only [hout] at hid
      simp only [Option.toList_some, List.count_append, List.count_cons, List.count_nil] at hid ⊢
      omega

/-- Being taken by the worker. -/
theorem owes_of_take {c : Command} (hcommands : s.world.commands = c :: s'.world.commands)
    (hevents : s'.world.events = s.world.events) (hentered : entered s'.trace = entered s.trace)
    (hpolled : polledIds s'.trace = polledIds s.trace) (hs : Owes [] s) :
    Owes c.writeId?.toList s' := by
  intro id
  have hid := hs id
  unfold outcomes pendingIds queued at hid ⊢
  rw [hcommands, List.filterMap_cons] at hid
  rw [hentered, hpolled, hevents]
  cases hc : c.writeId? with
  | none =>
    simp only [hc] at hid
    exact hid
  | some taken =>
    simp only [hc] at hid
    simp only [Option.toList_some, List.count_cons, List.count_nil] at hid ⊢
    omega

/-- Getting an outcome. -/
theorem owes_of_outcome {id : WriteId} {event : BridgeEvent} {r : Bool}
    (hevent : event.outcomeId? = some id)
    (h : controller.act (.trySendEvent event) i s = some (r, s'))
    (hroom : s.world.events.length < EVENT_CAPACITY) (hs : Owes [id] s) : Owes [] s' := by
  have htrace := (Machine.act_eq_some.mp h).2
  have hcommands : s'.world.commands = s.world.commands := exec_commands (exec_of_act h) rfl
  have hentered : entered s'.trace = entered s.trace := by rw [htrace]; rfl
  have hpolled : polledIds s'.trace = polledIds s.trace := by rw [htrace]; rfl
  have hevents := exec_trySendEvent_of_room (exec_of_act h) hroom
  intro id'
  have hid := hs id'
  unfold outcomes pendingIds queued at hid ⊢
  rw [hentered, hpolled, hcommands, hevents, List.filterMap_append]
  simp only [List.filterMap_cons, hevent, List.filterMap_nil, List.count_append, List.count_cons,
    List.count_nil] at hid ⊢
  omega

end Outcomes

/-! ## The conditions -/

/--
The steps of the worker that lose no write: an outcome is sent while its channel has room, the
thread ends with no write in its queue, and the sum of the placement check does not overflow in
a build that panics then.
-/
def keepsOutcomes (checks : Bool) (o : Op) (w : World) : Bool :=
  match o with
  | .trySendEvent event => event.outcomeId?.isNone || w.events.length < EVENT_CAPACITY
  | .exit => w.commands.all fun c => c.writeId?.isNone
  | .revolutionBits request =>
    !checks || request.startBit + INDEX_WRITE_SLACK_BITS < USIZE_RANGE
  | _ => true

/-- The steps of the caller that use no id twice: fewer writes than there are ids. -/
def keepsIds (o : Op) (s : Snap controller) : Bool :=
  match o with
  | .trySendCommand (.write _ _) => attempts s.trace + 1 < USIZE_RANGE
  | _ => true

/-- The runs that lose no write and use no id twice. -/
@[reducible] def outcomesKept (checks : Bool) : Conditions checks :=
  .of (fun _ o _ s => keepsOutcomes checks o s.world) fun _ o _ s => keepsIds o s

/-- The thread has ended with no write in its queue, and takes no more. -/
def Ended (s : Snap controller) : Prop :=
  queued s.world = [] ∧ s.world.workerAlive = false

/-- The outline of the ledger. -/
def ledger (checks : Bool) : Outline (outcomesKept checks) where
  inv := Numbered
  leftOps o := o.ofWorker = true
  rightOps o := o.ofCaller = true
  leftAt loc _ s :=
    match loc with
    | .ended => Owes [] s ∧ Ended s
    | .unwinding => False
    | .top _ | .drain | .stopping => Owes [] s
  rightAt _ b s := attempts s.trace + 1 < USIZE_RANGE → b.nextWrite = attempts s.trace + 1
  leftReady _ _ _ := True
  rightReady _ _ _ := True

namespace Outcomes

variable {checks : Bool} {l : Worker} {s s' : Snap controller} {ids : List WriteId}

/-! ## What the other thread cannot take back -/

theorem owes_of_caller {o : Op} {i : Outside} {r : o.Ret} (ho : o.ofCaller = true)
    (h : controller.act o i s = some (r, s')) (hs : Owes ids s) : Owes ids s' := by
  by_cases hidle : idle o = true
  · exact owes_of_idle hidle h hs
  · cases o <;> simp only [idle, Op.ofCaller, Op.ofCall, not_true_eq_false, Bool.false_eq_true]
      at hidle ho
    · next command =>
      cases command with
      | write id request => exact owes_of_enter h hs
      | noClick side => exact absurd rfl hidle
      | shutdown => exact absurd rfl hidle
    · exact owes_of_poll h hs

theorem owes_stable : (ledger checks).left.Stable (Owes ids) :=
  stable_of_action fun _ _ _ _ _ ho _ _ h hs => owes_of_caller ho h hs

theorem ended_stable : (ledger checks).left.Stable Ended := by
  refine stable_of_action fun o i r s s' ho _ _ h hs => ?_
  have ho : o.ofCaller = true := ho
  have hexec := exec_of_act h
  have halive : s'.world.workerAlive = s.world.workerAlive := by
    refine exec_workerAlive hexec ?_
    rintro rfl
    cases ho
  refine ⟨?_, by rw [halive]; exact hs.2⟩
  by_cases hidle : idle o = true
  · rw [queued_of_idle hidle hexec]
    exact hs.1
  · cases o <;> simp only [idle, Op.ofCaller, Op.ofCall, not_true_eq_false, Bool.false_eq_true]
      at hidle ho
    · rcases exec_trySendCommand hexec with ⟨-, hon, -⟩ | ⟨-, hworld⟩
      · rw [hs.2] at hon
        cases hon
      · rw [hworld]
        exact hs.1
    · unfold queued
      rw [exec_commands hexec rfl]
      exact hs.1

theorem leftAt_stable (loc : Loc) : (ledger checks).left.Stable ((ledger checks).leftAt loc l) := by
  cases loc with
  | ended => exact owes_stable.and ended_stable
  | unwinding => exact stable_const
  | top hot => exact owes_stable
  | drain => exact owes_stable
  | stopping => exact owes_stable

/-- The worker gives no ids. -/
theorem numbered_of_worker {o : Op} {i : Outside} {r : o.Ret} (ho : o.ofWorker = true)
    (h : controller.act o i s = some (r, s')) (hs : Numbered s) : Numbered s' := by
  have htrace := (Machine.act_eq_some.mp h).2
  have hsame : entered s'.trace = entered s.trace ∧ attempts s'.trace = attempts s.trace ∧
      acceptedIds s'.trace = acceptedIds s.trace := by
    rw [htrace]
    cases o <;> simp_all [Op.ofWorker, entered, attempts, acceptedIds]
  obtain ⟨hentered, hattempts, haccepted⟩ := hsame
  exact hs.congr hentered hattempts haccepted

/-! ## The worker -/

theorem step_wp {o : Op} {P : Snap controller → Prop}
    {Q : o.Ret → Worker → Snap controller → Prop} (ho : o.ofWorker = true)
    (hstable : (ledger checks).left.Stable P) (hs : P s)
    (h : ∀ i r s₁ s₂, P s₁ → keepsOutcomes checks o s₁.world = true →
      controller.act o i s₁ = some (r, s₂) → Q r l s₂) :
    (ledger checks).left.wpc (step o) Q l s :=
  wpc_perform_of ho hstable hs (fun _ _ _ => trivial) fun i r s₁ s₂ hinv h₁ ha hact =>
    ⟨numbered_of_worker ho hact hinv, h i r s₁ s₂ h₁ ha hact⟩

/-- The frame: code that moves no write. -/
theorem frame_wp {α : Type} {m : WorkerM α} {ops : Op → Bool}
    (hm : m.Keeps (fun _ => True) (ops ·))
    (hops : ∀ o, ops o = true → o.ofWorker = true ∧ idle o = true) (hs : Owes ids s) :
    (ledger checks).left.wpc m (fun _ _ s => Owes ids s) l s := by
  refine wpc_mono (wpc_of_keeps hm owes_stable ?_ trivial hs) fun _ _ _ h => h.2
  intro _ o _ ho
  obtain ⟨hworker, hidle⟩ := hops o ho
  exact ⟨hworker, fun s₁ hinv h₁ => ⟨trivial, fun i r s₂ _ hact =>
    ⟨numbered_of_worker hworker hact hinv, owes_of_idle hidle hact h₁⟩⟩⟩

theorem idle_wp {o : Op} {Q : o.Ret → Worker → Snap controller → Prop}
    (ho : o.ofWorker = true) (hidle : idle o = true) (hs : Owes ids s)
    (h : ∀ r s', Owes ids s' → Q r l s') : (ledger checks).left.wpc (step o) Q l s :=
  step_wp ho owes_stable hs fun _ r _ s₂ h₁ _ hact => h r s₂ (owes_of_idle hidle hact h₁)

theorem position_wp {track : TrackAddress} (hs : Owes ids s) :
    (ledger checks).left.wpc (position track) (fun _ _ s => Owes ids s) l s :=
  frame_wp (position_keeps unaffected_true.place track)
    (fun o ho => by cases o <;> simp_all [Op.ofPosition, Op.ofWorker, idle]) hs

/-- The sum of the placement check does not panic. -/
theorem fromIndex_ne_none {startBit trackBits : Nat}
    (h : (!checks || startBit + INDEX_WRITE_SLACK_BITS < USIZE_RANGE) = true) :
    fromIndex checks startBit trackBits ≠ none := by
  unfold fromIndex addUsize
  split
  · simp
  · cases checks
    · split <;> simp
    · simp only [Bool.not_true, Bool.false_or, decide_eq_true_eq] at h
      rw [if_pos h]
      simp

theorem attemptWrite_wp {request : WriteRequest} (hs : Owes ids s) :
    (ledger checks).left.wpc (attemptWrite checks request)
      (fun r _ s => r ≠ none ∧ Owes ids s) l s := by
  refine wpc_seq (position_wp hs) fun r l₁ s₁ h₁ => ?_
  cases r with
  | error e => exact ⟨by simp, h₁⟩
  | ok _ =>
    refine wpc_bind.mpr (step_wp rfl owes_stable h₁ fun i trackBits s₂ s₃ h₂ ha hact => ?_)
    have h₃ : Owes ids s₃ := owes_of_idle rfl hact h₂
    have hsum : fromIndex checks request.startBit trackBits ≠ none := fromIndex_ne_none ha
    dsimp only
    split
    · next hnone => exact absurd hnone hsum
    split
    · exact ⟨by simp, h₃⟩
    · refine wpc_bind.mpr (wpc_own.mpr (wpc_bind.mpr (idle_wp rfl rfl h₃ fun r s₄ h₄ => ?_)))
      exact ⟨by simp, h₄⟩

/-- A write that was taken up gets an outcome. -/
theorem performWrite_wp {id : WriteId} {request : WriteRequest} (hs : Owes [id] s) :
    (ledger checks).left.wpc (performWrite checks id request)
      (fun flow _ s => flow = .go ∧ Owes [] s) l s := by
  refine wpc_seq (attemptWrite_wp hs) fun r l₁ s₁ h₁ => ?_
  obtain ⟨hsome, h₁⟩ := h₁
  cases r with
  | none => exact absurd rfl hsome
  | some result =>
    refine wpc_bind.mpr (idle_wp rfl rfl h₁ fun _ s₂ h₂ => ?_)
    have hevent : (writeEvent id request result).outcomeId? = some id := by
      cases result <;> rfl
    refine wpc_bind.mpr (step_wp rfl owes_stable h₂ fun i r s₃ s₄ h₃ ha hact => ⟨rfl, ?_⟩)
    have hroom : s₃.world.events.length < EVENT_CAPACITY := by
      simpa [keepsOutcomes, hevent] using ha
    exact owes_of_outcome hevent hact hroom h₃

theorem idle_of_errors {o : Op} (ho : o.ofErrors = true) :
    o.ofWorker = true ∧ idle o = true := by
  cases o with
  | trySendEvent event =>
    cases event <;> simp_all [Op.ofErrors, BridgeEvent.isDisconnected, Op.ofWorker, idle,
      BridgeEvent.outcomeId?]
  | _ => simp_all [Op.ofErrors, Op.ofWorker, idle]

theorem idle_of_wishes {o : Op} (ho : o.ofWishes = true) :
    o.ofWorker = true ∧ idle o = true := by
  by_cases herrors : o.ofErrors = true
  · exact idle_of_errors herrors
  · cases o <;> simp_all [Op.ofWishes, Op.ofPosition, Op.ofWorker, idle]

theorem idle_of_status {o : Op} (ho : o.ofStatus = true) :
    o.ofWorker = true ∧ idle o = true := by
  by_cases herrors : o.ofErrors = true
  · exact idle_of_errors herrors
  · cases o with
    | trySendEvent event =>
      cases event <;> simp_all [Op.ofStatus, Op.ofErrors, BridgeEvent.isDiskChanged, Op.ofWorker,
        idle, BridgeEvent.outcomeId?]
    | _ => simp_all [Op.ofStatus, Op.ofWorker, idle]

theorem idle_of_capture {o : Op} (ho : o.ofCapture = true) :
    o.ofWorker = true ∧ idle o = true := by
  by_cases herrors : o.ofErrors = true
  · exact idle_of_errors herrors
  · cases o <;> simp_all [Op.ofCapture, Op.ofTarget, Op.ofAwaiting, Op.ofPosition, Op.ofWorker,
      idle]

theorem noteError_wp {e : Error} (hs : Owes ids s) :
    (ledger checks).left.wpc (noteError e) (fun _ _ s => Owes ids s) l s :=
  frame_wp (noteError_keeps unaffected_true.errors e) (fun _ => idle_of_errors) hs

theorem noClick_wp {side : Side} (hs : Owes ids s) :
    (ledger checks).left.wpc (noClick side) (fun _ _ s => Owes ids s) l s := by
  refine wpc_bind.mpr (idle_wp rfl rfl hs fun r s₁ h₁ => ?_)
  cases r with
  | error e => exact h₁
  | ok _ => exact idle_wp rfl rfl h₁ fun _ _ h₂ => h₂

theorem process_wp {c : Command} (hs : Owes c.writeId?.toList s) :
    (ledger checks).left.wpc (process checks c)
      (fun flow l s => (ledger checks).leftAt flow.next l s) l s := by
  cases c with
  | noClick side =>
    exact process_noClick_wp (P := fun _ s => Owes [] s) (noClick_wp hs)
      (fun _ _ _ h => noteError_wp h) fun _ _ h => ⟨fun _ => h, fun _ => h⟩
  | write id request =>
    refine process_write_wp (wpc_mono (performWrite_wp hs) fun flow l₁ s₁ h₁ => ?_)
    obtain ⟨rfl, h₁⟩ := h₁
    exact ⟨fun _ => h₁, fun _ => h₁⟩
  | shutdown => exact hs

/-- Receiving from the command queue changes neither the events nor what the caller has done. -/
theorem same_of_receive {o : Op} {i : Outside} {r : o.Ret}
    (ho : o = .selectCommand ∨ o = .tryRecvCommand) (h : controller.act o i s = some (r, s')) :
    s'.world.events = s.world.events ∧ entered s'.trace = entered s.trace ∧
      polledIds s'.trace = polledIds s.trace := by
  have htrace := (Machine.act_eq_some.mp h).2
  rcases ho with rfl | rfl
  · exact ⟨exec_events (exec_of_act h) rfl, by rw [htrace]; rfl, by rw [htrace]; rfl⟩
  · exact ⟨exec_events (exec_of_act h) rfl, by rw [htrace]; rfl, by rw [htrace]; rfl⟩

theorem owes_of_untaken {o : Op} {i : Outside} {r : o.Ret}
    (ho : o = .selectCommand ∨ o = .tryRecvCommand) (h : controller.act o i s = some (r, s'))
    (hcommands : s'.world.commands = s.world.commands) (hs : Owes ids s) : Owes ids s' := by
  obtain ⟨hevents, hentered, hpolled⟩ := same_of_receive ho h
  intro id
  have hid := hs id
  unfold outcomes pendingIds queued at hid ⊢
  rw [hentered, hpolled, hevents, hcommands]
  exact hid

theorem selectCommand_wp (hs : Owes [] s) :
    (ledger checks).left.wpc (step .selectCommand) (fun r _ s =>
      match r with
      | .command c => Owes c.writeId?.toList s
      | .nudge | .timeout => Owes [] s) l s := by
  refine step_wp rfl owes_stable hs fun i r s₁ s₂ h₁ _ hact => ?_
  obtain ⟨hevents, hentered, hpolled⟩ := same_of_receive (Or.inl rfl) hact
  cases r with
  | command c =>
    exact owes_of_take (exec_selectCommand (exec_of_act hact)).2 hevents hentered hpolled h₁
  | nudge =>
    exact owes_of_untaken (Or.inl rfl) hact
      (exec_selectCommand_other (exec_of_act hact) (by simp)) h₁
  | timeout =>
    exact owes_of_untaken (Or.inl rfl) hact
      (exec_selectCommand_other (exec_of_act hact) (by simp)) h₁

theorem tryRecvCommand_wp (hs : Owes [] s) :
    (ledger checks).left.wpc (step .tryRecvCommand) (fun r _ s =>
      match r with
      | some c => Owes c.writeId?.toList s
      | none => Owes [] s) l s := by
  refine step_wp rfl owes_stable hs fun i r s₁ s₂ h₁ _ hact => ?_
  obtain ⟨hevents, hentered, hpolled⟩ := same_of_receive (Or.inr rfl) hact
  cases r with
  | some c =>
    exact owes_of_take (exec_tryRecvCommand (exec_of_act hact)).2 hevents hentered hpolled h₁
  | none =>
    have hworld := (exec_tryRecvCommand_none (exec_of_act hact)).1
    exact owes_of_untaken (Or.inr rfl) hact (by rw [hworld]) h₁

theorem stopRound_wp (hs : Owes [] s) :
    (ledger checks).left.wpc stopRound (ledger checks).leftAt l s := by
  refine wpc_bind.mpr (idle_wp rfl rfl hs fun _ s₁ h₁ => ?_)
  refine wpc_bind.mpr (idle_wp rfl rfl h₁ fun _ s₂ h₂ => ?_)
  refine wpc_bind.mpr (step_wp rfl owes_stable h₂ fun i _ s₃ s₄ h₃ ha hact => ?_)
  refine ⟨owes_of_idle rfl hact h₃, ?_⟩
  have hexec := exec_of_act hact
  simp only [exec, Option.some.injEq, Prod.mk.injEq] at hexec
  unfold Ended queued
  rw [← hexec.2]
  refine ⟨?_, rfl⟩
  rw [List.filterMap_eq_nil_iff]
  intro c hc
  have hnone := List.all_eq_true.mp ha c hc
  simpa using hnone

theorem rounds : Rounds (ledger checks).left checks (ledger checks).leftAt
    (fun c _ s => Owes c.writeId?.toList s) (fun _ s => Owes [] s) where
  hot _ _ h := h
  select _ _ h := wpc_mono (selectCommand_wp h) fun r _ _ h₁ => by cases r <;> exact h₁
  receive _ _ h := wpc_mono (tryRecvCommand_wp h) fun r _ _ h₁ => by cases r <;> exact h₁
  process _ _ _ h := process_wp h
  desired _ _ h := frame_wp (applyDesired_keeps unaffected_true) (fun _ => idle_of_wishes) h
  status _ _ h := frame_wp
    (refreshStatusIfDue_keeps unaffected_true.errors unaffected_true.schedule)
    (fun _ => idle_of_status) h
  capture _ _ h := frame_wp (captureIfNeeded_keeps unaffected_true fun _ _ h => h)
    (fun _ => idle_of_capture) h
  failed _ _ h _ := h
  again _ _ _ h _ := h
  stop _ _ h := stopRound_wp h
  unwind _ _ h := h.elim

/-! ## The caller -/

section Caller

variable {b : Bridge}

/-- The bridge's next id is behind all those given. -/
def NextId (b : Bridge) (s : Snap controller) : Prop :=
  attempts s.trace + 1 < USIZE_RANGE → b.nextWrite = attempts s.trace + 1

theorem attempts_of_worker {o : Op} {i : Outside} {r : o.Ret} (ho : o.ofWorker = true)
    (h : controller.act o i s = some (r, s')) : attempts s'.trace = attempts s.trace := by
  rw [(Machine.act_eq_some.mp h).2]
  cases o <;> simp_all [Op.ofWorker, attempts]

theorem attempts_stable (P : Nat → Prop) :
    (ledger checks).right.Stable fun s => P (attempts s.trace) := by
  refine stable_of_action fun o i r s s' ho _ _ h hs => ?_
  rw [attempts_of_worker ho h]
  exact hs

theorem nextId_stable : (ledger checks).right.Stable (NextId b) :=
  attempts_stable fun n => n + 1 < USIZE_RANGE → b.nextWrite = n + 1

/-- A step of the caller that neither tries to enter a write nor returns from a call. -/
theorem numbered_of_other {o : Op} {i : Outside} {r : o.Ret} (ho : o.ofOther = true)
    (h : controller.act o i s = some (r, s')) :
    attempts s'.trace = attempts s.trace ∧ (Numbered s → Numbered s') := by
  have htrace := (Machine.act_eq_some.mp h).2
  have hsame : entered s'.trace = entered s.trace ∧ attempts s'.trace = attempts s.trace ∧
      acceptedIds s'.trace = acceptedIds s.trace := by
    rw [htrace]
    cases o with
    | trySendCommand command =>
      cases command <;> simp_all [Op.ofOther, Command.writeId?, entered, attempts, acceptedIds]
    | _ => simp_all [Op.ofOther, entered, attempts, acceptedIds]
  obtain ⟨hentered, hattempts, haccepted⟩ := hsame
  exact ⟨hattempts, fun hs => hs.congr hentered hattempts haccepted⟩

theorem other_wp {o : Op} {Q : o.Ret → Bridge → Snap controller → Prop} (ho : o.ofOther = true)
    (hb : NextId b s) (h : ∀ r s', NextId b s' → Q r b s') :
    (ledger checks).right.wpc (step o) Q b s := by
  refine wpc_perform_of (Op.ofCaller_of_call (Op.ofCall_of_other ho)) nextId_stable hb
    (fun _ _ _ => trivial) fun i r s₁ s₂ hinv hb₁ _ hact => ?_
  obtain ⟨hattempts, hnumbered⟩ := numbered_of_other ho hact
  refine ⟨hnumbered hinv, h r s₂ ?_⟩
  unfold NextId
  rw [hattempts]
  exact hb₁

/-- What `submit_write` may return as accepted. -/
def Accepts (answer : Answer) (s : Snap controller) : Prop :=
  ∀ id, answer = .accepted (.ok id) → id ∈ entered s.trace

theorem accepts_stable {answer : Answer} : (ledger checks).right.Stable (Accepts answer) := by
  refine stable_of_action fun o i r s s' ho _ _ h hs => ?_
  have ho : o.ofWorker = true := ho
  have hentered : entered s'.trace = entered s.trace := by
    rw [(Machine.act_eq_some.mp h).2]
    cases o <;> simp_all [Op.ofWorker, entered]
  intro id hanswer
  rw [hentered]
  exact hs id hanswer

/-- Entering a write gives it the next id. -/
theorem numbered_of_enter {id : WriteId} {request : WriteRequest} {i : Outside}
    {r : Except Error Unit} (hs : Numbered s) (hid : id.get = attempts s.trace + 1)
    (hroom : attempts s.trace + 1 < USIZE_RANGE)
    (h : controller.act (.trySendCommand (.write id request)) i s = some (r, s')) :
    Numbered s' ∧ attempts s'.trace = attempts s.trace + 1 ∧
      (r = .ok () → id ∈ entered s'.trace) := by
  have htrace := (Machine.act_eq_some.mp h).2
  have hattempts : attempts s'.trace = attempts s.trace + 1 := by rw [htrace]; rfl
  have haccepted : acceptedIds s'.trace = acceptedIds s.trace := by rw [htrace]; rfl
  cases r with
  | error e =>
    have hentered : entered s'.trace = entered s.trace := by rw [htrace]; rfl
    refine ⟨⟨?_, fun id' hid' => ?_, by omega, ?_⟩, hattempts, fun hr => by cases hr⟩
    · rw [hentered]
      exact hs.nodup
    · rw [hentered] at hid'
      have := hs.upTo id' hid'
      omega
    · rw [hentered, haccepted]
      exact hs.returned
  | ok _ =>
    have hentered : entered s'.trace = id :: entered s.trace := by rw [htrace]; rfl
    -- every id that was given out is at most the number of attempts so far
    have hnew : id ∉ entered s.trace := fun hmem => by
      have := hs.upTo id hmem
      omega
    refine ⟨⟨?_, fun id' hid' => ?_, by omega, fun id' hid' => ?_⟩, hattempts, fun _ => ?_⟩
    · rw [hentered]
      exact List.nodup_cons.mpr ⟨hnew, hs.nodup⟩
    · rw [hentered, List.mem_cons] at hid'
      rcases hid' with rfl | hid'
      · omega
      · have := hs.upTo id' hid'
        omega
    · rw [haccepted] at hid'
      rw [hentered]
      exact List.mem_cons_of_mem _ (hs.returned id' hid')
    · rw [hentered]
      exact List.mem_cons_self

theorem enqueueWrite_wp {request : WriteRequest} (hb : NextId b s) :
    (ledger checks).right.wpc (Bridge.enqueueWrite request)
      (fun answer b s => NextId b s ∧ Accepts answer s) b s := by
  refine wpc_bind.mpr (wpc_own.mpr (wpc_bind.mpr (wpc_update.mpr (wpc_bind.mpr ?_))))
  refine wpc_perform_of rfl
    (attempts_stable fun n => n + 1 < USIZE_RANGE → b.nextWrite = n + 1) hb
    (fun _ _ _ => trivial) fun i r s₁ s₂ hinv hb₁ ha hact => ?_
  have hroom : attempts s₁.trace + 1 < USIZE_RANGE := of_decide_eq_true ha
  obtain ⟨hnumbered, hattempts, hentered⟩ := numbered_of_enter hinv (hb₁ hroom) hroom hact
  have hnext : NextId { b with nextWrite := max ((b.nextWrite + 1) % USIZE_RANGE) 1 } s₂ := by
    intro hlt
    rw [hattempts] at hlt ⊢
    show max ((b.nextWrite + 1) % USIZE_RANGE) 1 = _
    rw [hb₁ hroom, Nat.mod_eq_of_lt hlt]
    omega
  refine ⟨hnumbered, ?_⟩
  cases r with
  | error e => exact ⟨hnext, fun _ h => by cases h⟩
  | ok _ =>
    refine ⟨hnext, fun id h => ?_⟩
    cases h
    exact hentered rfl

theorem submitWrite_wp {request : WriteRequest} (hb : NextId b s) :
    (ledger checks).right.wpc (Bridge.submitWrite checks request)
      (fun answer b s => NextId b s ∧ Accepts answer s) b s := by
  refine wpc_bind.mpr (wpc_bind.mpr (wpc_own.mpr (wpc_pure.mpr ?_)))
  dsimp only
  split
  · exact ⟨hb, fun _ h => by cases h⟩
  refine wpc_bind.mpr (other_wp rfl hb fun status s₁ h₁ => ?_)
  split
  · exact ⟨h₁, fun _ h => by cases h⟩
  refine wpc_bind.mpr (other_wp rfl h₁ fun front s₂ h₂ => ?_)
  split
  · exact ⟨h₂, fun _ h => by cases h⟩
  · exact ⟨h₂, fun _ h => by cases h⟩
  · exact enqueueWrite_wp h₂

theorem perform_wp {call : Call} (hb : NextId b s) :
    (ledger checks).right.wpc (Bridge.perform checks call) (fun answer b s =>
      NextId b s ∧ ∀ request, call = .submitWrite request → Accepts answer s) b s := by
  by_cases hcall : ∃ request, call = .submitWrite request
  · obtain ⟨request, rfl⟩ := hcall
    exact wpc_mono (submitWrite_wp hb) fun _ _ _ h => ⟨h.1, fun _ _ => h.2⟩
  · have hkeeps : (Bridge.perform checks call).Keeps (fun b' => b' = b) (Op.ofOther ·) :=
      perform_keeps_other fun request h => hcall ⟨request, h⟩
    refine wpc_mono (wpc_of_keeps hkeeps nextId_stable ?_ rfl hb) ?_
    · intro _ o _ ho
      refine ⟨Op.ofCaller_of_call (Op.ofCall_of_other ho), fun s₁ hinv h₁ => ⟨trivial, ?_⟩⟩
      intro i r s₂ _ hact
      obtain ⟨hattempts, hnumbered⟩ := numbered_of_other ho hact
      refine ⟨hnumbered hinv, ?_⟩
      unfold NextId
      rw [hattempts]
      exact h₁
    · rintro answer b' s' ⟨rfl, hb'⟩
      exact ⟨hb', fun request h => absurd ⟨request, h⟩ hcall⟩

theorem numbered_of_called {call : Call} {i : Outside} {r : Unit}
    (h : controller.act (.called call) i s = some (r, s')) (hs : Numbered s) : Numbered s' := by
  have htrace := (Machine.act_eq_some.mp h).2
  have hentered : entered s'.trace = entered s.trace := by rw [htrace]; rfl
  have hattempts : attempts s'.trace = attempts s.trace := by rw [htrace]; rfl
  have haccepted : acceptedIds s'.trace = acceptedIds s.trace := by rw [htrace]; rfl
  exact hs.congr hentered hattempts haccepted

theorem numbered_of_returned {call : Call} {answer : Answer} {i : Outside} {r : Unit}
    (h : controller.act (.returned call answer) i s = some (r, s'))
    (hanswer : ∀ request, call = .submitWrite request → Accepts answer s) (hs : Numbered s) :
    Numbered s' := by
  have htrace := (Machine.act_eq_some.mp h).2
  have hentered : entered s'.trace = entered s.trace := by rw [htrace]; rfl
  have hattempts : attempts s'.trace = attempts s.trace := by rw [htrace]; rfl
  refine ⟨hentered ▸ hs.nodup, hentered ▸ hattempts ▸ hs.upTo, hattempts ▸ hs.bound, ?_⟩
  rw [hentered, htrace]
  intro id hid
  unfold acceptedIds at hid
  split at hid
  · next heq => cases heq
  · next request id' _ rest heq =>
    cases heq
    rw [List.mem_cons] at hid
    rcases hid with rfl | hid
    · exact hanswer request rfl id rfl
    · exact hs.returned id hid
  · next heq =>
    cases heq
    exact hs.returned id hid

theorem callRound_wp {call : Call} (hb : NextId b s) :
    (ledger checks).right.wpc (callRound checks call) (fun _ b s => NextId b s) b s := by
  refine wpc_bind.mpr (wpc_perform_of rfl nextId_stable hb (fun _ _ _ => trivial)
    fun i r s₁ s₂ hinv hb₁ _ hact => ⟨numbered_of_called hact hinv, ?_⟩)
  have hb₂ : NextId b s₂ := by
    have hattempts : attempts s₂.trace = attempts s₁.trace := by
      rw [(Machine.act_eq_some.mp hact).2]
      rfl
    unfold NextId
    rw [hattempts]
    exact hb₁
  refine wpc_seq (perform_wp hb₂) fun answer b₃ s₃ h₃ => ?_
  obtain ⟨hb₃, hanswer⟩ := h₃
  refine wpc_bind.mpr (wpc_perform_of rfl
    (nextId_stable.and (Stable.forall fun request => Stable.imp fun _ => accepts_stable))
    ⟨hb₃, hanswer⟩ (fun _ _ _ => trivial) fun i r s₄ s₅ hinv h₄ _ hact => ?_)
  refine ⟨numbered_of_returned hact h₄.2 hinv, ?_⟩
  show NextId b₃ s₅
  have hattempts : attempts s₅.trace = attempts s₄.trace := by
    rw [(Machine.act_eq_some.mp hact).2]
    rfl
  unfold NextId
  rw [hattempts]
  exact h₄.1

end Caller

theorem valid : (ledger checks).Valid where
  leftStable loc _ := leftAt_stable loc
  rightStable _ _ := nextId_stable
  leftRound _ _ _ _ _ hm _ h := rounds.round hm h
  rightRound := rightRound_of_call fun _ _ _ _ hb => callRound_wp hb

end Outcomes

/-! ## The outcome of a run -/

section Runs

variable {checks : Bool} {m : Moment checks}

theorem ledger_of_reachable (h : Reachable (outcomesKept checks) m) : (ledger checks).Holds m := by
  refine h.holds Outcomes.valid fun config status head now => ⟨⟨?_, ?_, ?_, ?_⟩, ?_, fun _ => rfl⟩
  · exact List.nodup_nil
  · exact fun _ hid => absurd hid List.not_mem_nil
  · show 0 < USIZE_RANGE
    decide
  · exact fun _ hid => absurd hid List.not_mem_nil
  · exact fun _ => rfl

/-- Where the worker has nothing left to do, every write in the ledger has its outcome. -/
theorem count_of_settled (h : Reachable (outcomesKept checks) m) (hsettled : Settled m)
    (id : WriteId) : (entered m.snap.trace).count id = (outcomes m.snap).count id := by
  have hholds := ledger_of_reachable h
  rcases hsettled with ⟨hcommands, hot, hloc⟩ | hloc
  · have howes : Owes [] m.snap := hholds.leftAt hloc
    have hid := howes id
    rw [queued, hcommands] at hid
    simpa using hid
  · obtain ⟨howes, hqueued, -⟩ : Owes [] m.snap ∧ Ended m.snap := hholds.leftAt hloc
    have hid := howes id
    rw [hqueued] at hid
    simpa using hid

/--
**Write outcomes.** In a run that loses no write and uses no id twice, each accepted write has
exactly one outcome whenever the worker has nothing left to do.
-/
theorem outcomesMet_of_kept (h : Reachable (outcomesKept checks) m) : OutcomesMet m := by
  intro hsettled id hid
  have hnumbered : Numbered m.snap := (ledger_of_reachable h).inv
  rw [← count_of_settled h hsettled id]
  exact List.count_eq_one_of_mem hnumbered.nodup (hnumbered.returned id hid)

/-- A write of one word at the index of cylinder 0. -/
def oneWord : WriteRequest :=
  { track := ⟨0, .lower⟩, words := [0], bitLen := 16, startBit := 0 }

/-- Submit a write, let the worker perform it, and let it pass once. -/
def writeThenPass : Schedule true :=
  calling (.submitWrite oneWord) 5 {} ++ working (.replicate 8 {}) ++ working (.replicate 4 {})

theorem outcomesMet_of_writeThenPass : ∃ m : Moment true, Settled m ∧
    acceptedIds m.snap.trace = [⟨1⟩] ∧ OutcomesMet m := by
  have hplay : ((play (outcomesKept true) (opened true .normal ⟨5, .upper⟩) writeThenPass).any
      fun m => m.left.result? = some (.top false) ∧ m.snap.world.commands = [] ∧
        acceptedIds m.snap.trace = [⟨1⟩]) = true := by
    decide +kernel
  obtain ⟨m, hrun, htest⟩ := exists_reach_of_play hplay
  obtain ⟨hloc, hcommands, haccepted⟩ : m.left.result? = some (.top false) ∧
      m.snap.world.commands = [] ∧ acceptedIds m.snap.trace = [⟨1⟩] := by simpa using htest
  exact ⟨m, Or.inl ⟨hcommands, false, hloc⟩, haccepted, outcomesMet_of_kept ⟨hrun⟩⟩

/-- Submit a write while the worker follows a seek that finds the device gone. -/
def writeThenLost : Schedule true :=
  calling (.seek ⟨5, .lower⟩) 4 {} ++ working [{}] ++ working (.replicate 2 {})
    ++ calling (.submitWrite oneWord) 5 {}
    ++ [.left { result := .error .disconnected }, .left {}, .left {}]
    ++ working (.replicate 3 {})

/-- A worker that stops on a device failure leaves an accepted write without an outcome. -/
theorem write_without_outcome : ¬ ∀ (checks : Bool) (m : Moment checks),
    Reachable (anyRun checks) m → OutcomesMet m := by
  intro h
  have hplay : ((play (anyRun true) (opened true .normal ⟨5, .upper⟩) writeThenLost).any
      fun m => m.left.result? = some .ended ∧ acceptedIds m.snap.trace = [⟨1⟩] ∧
        outcomes m.snap = []) = true := by
    decide +kernel
  obtain ⟨m, hrun, htest⟩ := exists_reach_of_play hplay
  obtain ⟨hloc, haccepted, houtcomes⟩ : m.left.result? = some .ended ∧
      acceptedIds m.snap.trace = [⟨1⟩] ∧ outcomes m.snap = [] := by simpa using htest
  have hmet := h true m ⟨hrun⟩ (Or.inr hloc) ⟨1⟩ (by rw [haccepted]; exact List.mem_cons_self)
  rw [houtcomes] at hmet
  cases hmet

end Runs

end FluxBridge
