import FluxBridge.Controller.DeviceCalls
import FluxBridge.Controller.WriteOutcomes

/-!
# The order of the writes, and the end of the worker

The command queue is a FIFO between one caller and one worker, and the shutdown message goes
through it, too. What was performed so far says which writes went in, which came out, which of
them have an outcome and which reached the device.

* `InOrder` — the writes come out in the order in which they were accepted, each of them once, and
  none is left when `drop` returns
* `orderly` — what a run has to meet: the worker does not declare the drive lost, and no start
  position overflows
* `inOrder_of_orderly` — such a run is `InOrder` at every moment
-/

namespace FluxBridge

open Atomic Atomic.Side

/-! ## The books -/

/-- A write as it stands in the queue. -/
abbrev Write : Type := WriteId × WriteRequest

def Command.write? : Command → Option Write
  | .write id request => some (id, request)
  | .noClick _ | .shutdown => none

/-- A write goes into the queue. -/
def accepts : Event controllerSig → List Write
  | ⟨.trySendCommand command, .ok ()⟩ => command.write?.toList
  | _ => []

/-- `submit_write` returns the id of a write, whose track it has clamped. -/
def submits (maxCylinders : Nat) : Event controllerSig → List Write
  | ⟨.returned (.submitWrite request) (.accepted (.ok id)), _⟩ =>
    [(id, { request with track := clampTrack request.track maxCylinders })]
  | _ => []

/-- The worker takes a write up. -/
def takes : Event controllerSig → List Write
  | ⟨.selectCommand, .command command⟩ => command.write?.toList
  | ⟨.tryRecvCommand, some command⟩ => command.write?.toList
  | _ => []

/-- `perform_write` ends: an outcome is offered. -/
def finishes : Event controllerSig → List WriteId
  | ⟨.trySendEvent event, _⟩ => event.outcomeId?.toList
  | _ => []

/-- `Device::write_track` is called. -/
def writes : Event controllerSig → List (WriteRequest × Nat)
  | ⟨.deviceWrite request bits _ _, _⟩ => [(request, bits)]
  | _ => []

/-- The writes in the queue, the first one first. -/
def queuedWrites (w : World) : List Write := w.commands.filterMap Command.write?

/-- What the device is to be told of a write. -/
def Write.carried (write : Write) : WriteRequest × Nat := (write.2, write.2.bitLen)

/-- What the last call of `Device::set_motor` asked for. -/
def lastMotor : List (Event controllerSig) → Option Bool
  | [] => none
  | ⟨.deviceMotor enabled _, _⟩ :: _ => some enabled
  | _ :: rest => lastMotor rest

/-- `drop` has sent its shutdown message. -/
def Closing (trace : List (Event controllerSig)) : Prop :=
  ∃ event ∈ trace, event.op = .sendShutdown

/-- `drop` has returned. -/
def DropReturned (trace : List (Event controllerSig)) : Prop :=
  ∃ event ∈ trace, ∃ answer, event.op = .returned .drop answer

/-- The worker's last act: every write was performed, the motor is off and the status says so. -/
structure Finished (s : Snap controller) : Prop where
  queued : queuedWrites s.world = []
  performed : (gather takes s.trace).map Prod.fst = gather finishes s.trace
  motor : lastMotor s.trace = some false
  working : s.world.status.working = false

/-- The writes of a run, up to one moment of it. -/
structure InOrder {checks : Bool} (maxCylinders : Nat) (m : Moment checks) : Prop where
  /-- what went into the queue has come out in the same order, or is still there -/
  fifo : gather accepts m.snap.trace = gather takes m.snap.trace ++ queuedWrites m.snap.world
  /-- what `submit_write` has accepted is what went in, but for the call that is under way -/
  submitted : ∃ pending, pending.length ≤ 1 ∧
    gather accepts m.snap.trace = gather (submits maxCylinders) m.snap.trace ++ pending
  /-- what came out was performed in the same order, but for the write in the worker's hands -/
  performed : ∃ hand, hand.length ≤ 1 ∧
    (gather takes m.snap.trace).map Prod.fst = gather finishes m.snap.trace ++ hand
  /-- the device is called in the same order, at most once for each of them -/
  written : (gather writes m.snap.trace).Sublist
    ((gather takes m.snap.trace).map Write.carried)
  /-- a call of the device is for the write that was taken last, on its track -/
  carried : ∀ request bits fromIndex density,
    m.left.next? = some (.deviceWrite request bits fromIndex density) →
      (∃ id, (gather takes m.snap.trace).getLast? = some (id, request)) ∧
        bits = request.bitLen ∧ m.left.priv.positioned = true ∧
        m.left.priv.physical = request.track
  dropped : DropReturned m.snap.trace →
    gather takes m.snap.trace = gather accepts m.snap.trace ∧ Finished m.snap

/-! ## The conditions -/

/-- The start position of a request does not overflow in a build that panics then. -/
def fits (checks : Bool) (request : WriteRequest) : Bool :=
  !checks || request.startBit + INDEX_WRITE_SLACK_BITS < USIZE_RANGE

/-- The calls of a caller whose start positions do not overflow. -/
def fittingCall (checks : Bool) : Op → Bool
  | .called (.submitWrite request) => fits checks request
  | _ => true

/-- The runs in which the drive is not declared lost and no start position overflows. -/
@[reducible] def orderly (checks : Bool) : Conditions checks :=
  .of (fun l _ _ _ => !l.failed) fun _ o _ _ => fittingCall checks o

/-! ## The invariant -/

/-- Nothing is sent behind the shutdown message. -/
def Sealed : List (Event controllerSig) → Prop
  | [] => True
  | ⟨.trySendCommand _, _⟩ :: rest => ¬ Closing rest ∧ Sealed rest
  | _ :: rest => Sealed rest

/-- The command queue, at every moment. -/
structure Books (checks : Bool) (s : Snap controller) : Prop where
  fifo : gather accepts s.trace = gather takes s.trace ++ queuedWrites s.world
  fits : ∀ write ∈ queuedWrites s.world, fits checks write.2 = true
  closing : .shutdown ∈ s.world.commands → Closing s.trace
  last : ∀ front rest, s.world.commands = front ++ .shutdown :: rest → rest = []
  shut : Sealed s.trace
  finished : s.world.workerAlive = false → Finished s
  dropped : DropReturned s.trace → s.world.workerAlive = false

/-- The worker's side: `hand` was taken and is not performed, and the device knows of `tried`. -/
def InHands (hand tried : List Write) (s : Snap controller) : Prop :=
  ∃ done, gather takes s.trace = done ++ hand ∧ gather finishes s.trace = done.map Prod.fst ∧
    (gather writes s.trace).Sublist ((done ++ tried).map Write.carried)

/-- The worker has not ended. -/
structure AtWork (hand tried : List Write) (s : Snap controller) : Prop where
  alive : s.world.workerAlive = true
  hands : InHands hand tried s

/-- The worker stops for the shutdown message: nothing is left in the queue. -/
def Drained (s : Snap controller) : Prop := Closing s.trace ∧ queuedWrites s.world = []

/-- What went in is what `submit_write` has accepted, and `pending`. -/
def Pending (maxCylinders : Nat) (pending : List Write) (s : Snap controller) : Prop :=
  gather accepts s.trace = gather (submits maxCylinders) s.trace ++ pending

/-- The outline of the queue. -/
def order (checks : Bool) (maxCylinders : Nat) : Outline (orderly checks) where
  inv := Books checks
  leftOps o := o.ofWorker = true
  rightOps o := o.ofCaller = true
  leftAt loc l s :=
    match loc with
    | .top _ | .drain => AtWork [] [] s
    -- in an orderly run a worker that was declared lost does nothing any more
    | .stopping => AtWork [] [] s ∧ (l.failed = false → Drained s)
    | .unwinding => False
    | .ended => InHands [] [] s
  rightAt loc b s :=
    b.maxCylinders = maxCylinders ∧ Pending maxCylinders [] s ∧
      match loc with
      | .holds => ¬ Closing s.trace
      | .dropped => True
  leftReady l o s :=
    (∃ hand tried, hand.length ≤ 1 ∧ tried.Sublist hand ∧ InHands hand tried s) ∧
      match o with
      | .deviceWrite request bits _ _ => (∃ id, InHands [(id, request)] [] s) ∧
        bits = request.bitLen ∧ l.positioned = true ∧ l.physical = request.track
      | _ => True
  rightReady _ o s :=
    (∃ pending, pending.length ≤ 1 ∧ Pending maxCylinders pending s) ∧
      match o with
      | .trySendCommand command => ¬ Closing s.trace ∧ command ≠ .shutdown ∧
        ∀ write, command.write? = some write → fits checks write.2 = true
      | .sendShutdown => ¬ Closing s.trace
      | .returned .drop _ => s.world.workerAlive = false
      | _ => True

namespace WriteOrder

variable {checks : Bool} {maxCylinders : Nat} {s s' : Snap controller} {o : Op} {i : Outside}
  {r : o.Ret}

/-! ## What a step leaves alone -/

/-- The steps that no book is about. -/
def bystander : Op → Bool
  | .selectCommand | .tryRecvCommand | .trySendCommand _ | .sendShutdown => false
  | .trySendEvent event => event.outcomeId?.isNone
  | .deviceWrite _ _ _ _ | .exit | .returned _ _ => false
  | _ => true

theorem accepts_of_not_commands (ho : o.commands = false) : accepts ⟨o, r⟩ = [] := by
  cases o <;> first | rfl | cases ho

theorem takes_of_not_commands (ho : o.commands = false) : takes ⟨o, r⟩ = [] := by
  cases o <;> first | rfl | cases ho

theorem finishes_of_bystander (ho : bystander o = true) : finishes ⟨o, r⟩ = [] := by
  cases o with
  | trySendEvent event =>
    have hnone : event.outcomeId? = none := by simpa [bystander] using ho
    show event.outcomeId?.toList = []
    rw [hnone]
    rfl
  | _ => rfl

theorem writes_of_bystander (ho : bystander o = true) : writes ⟨o, r⟩ = [] := by
  cases o <;> first | rfl | cases ho

theorem commands_of_bystander (ho : bystander o = true) : o.commands = false := by
  cases o <;> first | rfl | cases ho

/-- The steps of the caller are in none of the worker's books. -/
theorem of_caller (ho : o.ofCaller = true) :
    takes ⟨o, r⟩ = [] ∧ finishes ⟨o, r⟩ = [] ∧ writes ⟨o, r⟩ = [] := by
  cases o <;> first | exact ⟨rfl, rfl, rfl⟩ | cases ho

/-- The steps of the worker are in none of the caller's books. -/
theorem of_worker (ho : o.ofWorker = true) :
    accepts ⟨o, r⟩ = [] ∧ submits maxCylinders ⟨o, r⟩ = [] := by
  cases o <;> first | exact ⟨rfl, rfl⟩ | cases ho

theorem lastMotor_of_caller (ho : o.ofCaller = true) (trace : List (Event controllerSig)) :
    lastMotor (⟨o, r⟩ :: trace) = lastMotor trace := by
  cases o <;> first | rfl | cases ho

theorem Closing.kept (h : controller.act o i s = some (r, s')) (hs : Closing s.trace) :
    Closing s'.trace := by
  obtain ⟨event, hevent, hop⟩ := hs
  rw [(Machine.act_eq_some.mp h).2]
  exact ⟨event, List.mem_cons_of_mem _ hevent, hop⟩

theorem not_closing_kept (ho : o ≠ .sendShutdown) (h : controller.act o i s = some (r, s'))
    (hs : ¬ Closing s.trace) : ¬ Closing s'.trace := by
  rintro ⟨event, hevent, hop⟩
  rw [(Machine.act_eq_some.mp h).2] at hevent
  rcases List.mem_cons.mp hevent with rfl | hevent
  · exact ho hop
  · exact hs ⟨event, hevent, hop⟩

/-- `drop` has returned before, or does so with this step, when the worker has ended. -/
theorem dead_of_dropReturned (ho : ∀ answer, o = .returned .drop answer →
      s.world.workerAlive = false)
    (hs : DropReturned s.trace → s.world.workerAlive = false)
    (h : controller.act o i s = some (r, s')) (hreturn : DropReturned s'.trace) :
    s.world.workerAlive = false := by
  obtain ⟨event, hevent, answer, hop⟩ := hreturn
  rw [(Machine.act_eq_some.mp h).2] at hevent
  rcases List.mem_cons.mp hevent with rfl | hevent
  · exact ho answer hop
  · exact hs ⟨event, hevent, answer, hop⟩

theorem sealed_of_act (ho : ∀ command, o = .trySendCommand command → ¬ Closing s.trace)
    (h : controller.act o i s = some (r, s')) (hs : Sealed s.trace) : Sealed s'.trace := by
  rw [(Machine.act_eq_some.mp h).2]
  cases o with
  | trySendCommand command => exact ⟨ho command rfl, hs⟩
  | _ => exact hs

/-! ## The books over one step -/

theorem queuedWrites_of_not_commands (ho : o.commands = false)
    (h : controller.act o i s = some (r, s')) : queuedWrites s'.world = queuedWrites s.world := by
  unfold queuedWrites
  rw [exec_commands (exec_of_act h) ho]

/-- A step that leaves the queue as it is, and is not the end of the worker. -/
theorem books_of_same (haccepts : accepts ⟨o, r⟩ = []) (htakes : takes ⟨o, r⟩ = [])
    (hsend : ∀ command, o ≠ .trySendCommand command) (hexit : o ≠ .exit)
    (hreturned : ∀ answer, o = .returned .drop answer → s.world.workerAlive = false)
    (hcommands : s'.world.commands = s.world.commands) (h : controller.act o i s = some (r, s'))
    (hfinished : s.world.workerAlive = false → Finished s → Finished s') (hs : Books checks s) :
    Books checks s' := by
  have halive := exec_workerAlive (exec_of_act h) hexit
  have hqueue : queuedWrites s'.world = queuedWrites s.world := by
    unfold queuedWrites
    rw [hcommands]
  refine ⟨?_, ?_, ?_, ?_, ?_, ?_, ?_⟩
  · rw [gather_kept h haccepts, gather_kept h htakes, hqueue]
    exact hs.fifo
  · rw [hqueue]
    exact hs.fits
  · rw [hcommands]
    exact fun hshutdown => Closing.kept h (hs.closing hshutdown)
  · rw [hcommands]
    exact hs.last
  · exact sealed_of_act (fun command hcommand => absurd hcommand (hsend command)) h hs.shut
  · rw [halive]
    exact fun hdead => hfinished hdead (hs.finished hdead)
  · rw [halive]
    exact dead_of_dropReturned hreturned hs.dropped h

/-- What has ended stays so. -/
theorem finished_of_caller (ho : o.ofCaller = true) (h : controller.act o i s = some (r, s'))
    (hdead : s.world.workerAlive = false) (hs : Finished s) : Finished s' := by
  obtain ⟨htakes, hfinishes, -⟩ := @of_caller o r ho
  have hexec := exec_of_act h
  refine ⟨?_, ?_, ?_, ?_⟩
  · rw [← hs.queued]
    by_cases hcommands : o.commands = true
    · unfold queuedWrites
      cases o with
      | trySendCommand command =>
        rcases exec_trySendCommand hexec with ⟨-, halive, -⟩ | ⟨-, hworld⟩
        · rw [hdead] at halive
          cases halive
        · rw [hworld]
      | sendShutdown =>
        rcases exec_sendShutdown hexec with ⟨halive, -⟩ | hworld
        · rw [hdead] at halive
          cases halive
        · rw [hworld]
      | selectCommand => cases ho
      | tryRecvCommand => cases ho
      | _ => cases hcommands
    · exact queuedWrites_of_not_commands (by simpa using hcommands) h
  · rw [gather_kept h htakes, gather_kept h hfinishes]
    exact hs.performed
  · rw [(Machine.act_eq_some.mp h).2, lastMotor_of_caller ho]
    exact hs.motor
  · rw [exec_status hexec (Op.ofCaller_kept ho).2.2.1]
    exact hs.working

/-- The worker takes the first command of the queue. -/
theorem books_of_take {c : Command} (ho : o = .selectCommand ∨ o = .tryRecvCommand)
    (htakes : takes ⟨o, r⟩ = c.write?.toList)
    (hcommands : s.world.commands = c :: s'.world.commands)
    (halive : s.world.workerAlive = true) (h : controller.act o i s = some (r, s'))
    (hs : Books checks s) : Books checks s' := by
  have hworker : o.ofWorker = true := by rcases ho with rfl | rfl <;> rfl
  have hqueue : queuedWrites s.world = c.write?.toList ++ queuedWrites s'.world := by
    unfold queuedWrites
    rw [hcommands, List.filterMap_cons]
    cases c.write? <;> rfl
  have halive' : s'.world.workerAlive = true := by
    rw [exec_workerAlive (exec_of_act h) (by rcases ho with rfl | rfl <;> simp), halive]
  refine ⟨?_, ?_, ?_, ?_, ?_, ?_, ?_⟩
  · rw [gather_kept h (@of_worker 0 o r hworker).1, gather_of_act takes h, htakes,
      List.append_assoc, ← hqueue]
    exact hs.fifo
  · intro write hwrite
    exact hs.fits write (by rw [hqueue]; exact List.mem_append_right _ hwrite)
  · intro hshutdown
    exact Closing.kept h (hs.closing (by rw [hcommands]; exact List.mem_cons_of_mem _ hshutdown))
  · intro front rest hlast
    exact hs.last (c :: front) rest (by rw [hcommands, hlast]; rfl)
  · exact sealed_of_act (fun command hcommand => by rcases ho with rfl | rfl <;> cases hcommand) h
      hs.shut
  · intro hdead
    rw [halive'] at hdead
    cases hdead
  · intro hreturn
    have hdead := dead_of_dropReturned
      (fun answer hreturned => by rcases ho with rfl | rfl <;> cases hreturned) hs.dropped h hreturn
    rw [halive] at hdead
    cases hdead

/-- Before the shutdown message was sent it is not in the queue. -/
theorem shutdown_not_mem (hs : Books checks s) (hopen : ¬ Closing s.trace) :
    .shutdown ∉ s.world.commands := fun hmem => hopen (hs.closing hmem)

theorem last_of_not_mem {commands : List Command} {c : Command} (h : .shutdown ∉ commands)
    (front rest : List Command) (heq : commands ++ [c] = front ++ .shutdown :: rest) :
    rest = [] := by
  rcases List.eq_nil_or_concat rest with hnil | ⟨most, final, rfl⟩
  · exact hnil
  · exfalso
    have hsplit : commands ++ [c] = (front ++ .shutdown :: most) ++ [final] := by
      rw [heq, List.concat_eq_append, List.append_assoc]
      rfl
    refine h ?_
    rw [(List.append_inj' hsplit rfl).1]
    exact List.mem_append_right _ List.mem_cons_self

/-- The caller puts into the queue what it accepts, and nothing else, before the shutdown. -/
theorem books_of_put (ho : o.ofCaller = true) (hreturned : ∀ answer, o ≠ .returned .drop answer)
    (hopen : ¬ Closing s.trace)
    (hqueue : queuedWrites s'.world = queuedWrites s.world ++ accepts ⟨o, r⟩)
    (hfits : ∀ write ∈ accepts ⟨o, r⟩, fits checks write.2 = true)
    (hclosing : .shutdown ∈ s'.world.commands → Closing s'.trace)
    (hlast : ∀ front rest, s'.world.commands = front ++ .shutdown :: rest → rest = [])
    (h : controller.act o i s = some (r, s')) (hs : Books checks s) : Books checks s' := by
  have halive : s'.world.workerAlive = s.world.workerAlive := by
    refine exec_workerAlive (exec_of_act h) ?_
    rintro rfl
    cases ho
  refine ⟨?_, ?_, hclosing, hlast, sealed_of_act (fun _ _ => hopen) h hs.shut, ?_, ?_⟩
  · rw [gather_of_act accepts h, gather_kept h (of_caller ho).1, hs.fifo, hqueue,
      List.append_assoc]
  · intro write hwrite
    rw [hqueue] at hwrite
    rcases List.mem_append.mp hwrite with hwrite | hwrite
    · exact hs.fits write hwrite
    · exact hfits write hwrite
  · rw [halive]
    exact fun hdead => finished_of_caller ho h hdead (hs.finished hdead)
  · rw [halive]
    exact dead_of_dropReturned (fun answer hreturn => absurd hreturn (hreturned answer)) hs.dropped
      h

/-- The caller puts a command into the queue, or finds it full, or the worker gone. -/
theorem books_of_send {c : Command} {r : Except Error Unit} (hopen : ¬ Closing s.trace)
    (hc : c ≠ .shutdown) (hfits : ∀ write, c.write? = some write → fits checks write.2 = true)
    (h : controller.act (.trySendCommand c) i s = some (r, s')) (hs : Books checks s) :
    Books checks s' := by
  have hnone := shutdown_not_mem hs hopen
  rcases exec_trySendCommand (exec_of_act h) with ⟨rfl, -, hcommands⟩ | ⟨hr, hworld⟩
  · refine books_of_put rfl (by simp) hopen ?_ ?_ ?_ ?_ h hs
    · unfold queuedWrites
      rw [hcommands, List.filterMap_append, List.filterMap_cons, List.filterMap_nil]
      show _ = _ ++ c.write?.toList
      cases c.write? <;> rfl
    · exact fun write hwrite => hfits write (Option.mem_toList.mp hwrite)
    · rw [hcommands]
      intro hshutdown
      rcases List.mem_append.mp hshutdown with hmem | hmem
      · exact absurd hmem hnone
      · exact absurd (List.mem_singleton.mp hmem).symm hc
    · rw [hcommands]
      exact last_of_not_mem hnone
  · have haccepts : accepts ⟨.trySendCommand c, r⟩ = [] := by
      cases r with
      | error e => rfl
      | ok _ => exact absurd rfl hr
    refine books_of_put rfl (by simp) hopen ?_ ?_ ?_ ?_ h hs
    · rw [hworld, haccepts, List.append_nil]
    · rw [haccepts]
      exact fun write hwrite => absurd hwrite List.not_mem_nil
    · rw [hworld]
      exact fun hshutdown => absurd hshutdown hnone
    · rw [hworld]
      exact hs.last

/-- `drop` puts the shutdown message into the queue, or finds the worker gone. -/
theorem books_of_shutdown {r : Unit} (hopen : ¬ Closing s.trace)
    (h : controller.act .sendShutdown i s = some (r, s')) (hs : Books checks s) :
    Books checks s' := by
  have hclosed : Closing s'.trace := by
    rw [(Machine.act_eq_some.mp h).2]
    exact ⟨_, List.mem_cons_self, rfl⟩
  refine books_of_put rfl (by simp) hopen ?_ (fun _ hwrite => absurd hwrite List.not_mem_nil)
    (fun _ => hclosed) ?_ h hs
  · unfold queuedWrites
    rcases exec_sendShutdown (exec_of_act h) with ⟨-, hcommands⟩ | hworld
    · rw [hcommands, List.filterMap_append]
      rfl
    · rw [hworld]
      exact (List.append_nil _).symm
  · rcases exec_sendShutdown (exec_of_act h) with ⟨-, hcommands⟩ | hworld
    · rw [hcommands]
      exact last_of_not_mem (shutdown_not_mem hs hopen)
    · rw [hworld]
      exact hs.last

/-- A step of the worker that takes no command and does not end it. -/
theorem books_of_worker (ho : o.ofWorker = true) (htakes : takes ⟨o, r⟩ = []) (hexit : o ≠ .exit)
    (hcommands : s'.world.commands = s.world.commands) (halive : s.world.workerAlive = true)
    (h : controller.act o i s = some (r, s')) (hs : Books checks s) : Books checks s' := by
  refine books_of_same (@of_worker 0 o r ho).1 htakes ?_ hexit ?_ hcommands h (fun hdead => ?_) hs
  · rintro command rfl
    cases ho
  · rintro answer rfl
    cases ho
  · rw [halive] at hdead
    cases hdead

/-! ## The worker's hands over one step -/

variable {hand tried : List Write}

theorem inHands_kept (htakes : takes ⟨o, r⟩ = []) (hfinishes : finishes ⟨o, r⟩ = [])
    (hwrites : writes ⟨o, r⟩ = []) (h : controller.act o i s = some (r, s'))
    (hs : InHands hand tried s) : InHands hand tried s' := by
  unfold InHands
  rw [gather_kept h htakes, gather_kept h hfinishes, gather_kept h hwrites]
  exact hs

/-- A write comes into the worker's hands. -/
theorem inHands_of_take {c : Command} (htakes : takes ⟨o, r⟩ = c.write?.toList)
    (hfinishes : finishes ⟨o, r⟩ = []) (hwrites : writes ⟨o, r⟩ = [])
    (h : controller.act o i s = some (r, s')) (hs : InHands [] [] s) :
    InHands c.write?.toList [] s' := by
  obtain ⟨done, htaken, hfinished, hwritten⟩ := hs
  refine ⟨done, ?_, ?_, ?_⟩
  · rw [gather_of_act takes h, htakes, htaken, List.append_nil]
  · rw [gather_kept h hfinishes, hfinished]
  · rw [gather_kept h hwrites]
    exact hwritten

/-- The device is called for it. -/
theorem inHands_of_write {id : WriteId} {request : WriteRequest} {fromIndex : Bool}
    {density : DensityMode} {r : Except Error Unit}
    (h : controller.act (.deviceWrite request request.bitLen fromIndex density) i s = some (r, s'))
    (hs : InHands [(id, request)] [] s) : InHands [(id, request)] [(id, request)] s' := by
  obtain ⟨done, htaken, hfinished, hwritten⟩ := hs
  refine ⟨done, ?_, ?_, ?_⟩
  · rw [gather_kept h rfl, htaken]
  · rw [gather_kept h rfl, hfinished]
  · rw [gather_of_act writes h, List.map_append]
    rw [List.append_nil] at hwritten
    exact hwritten.append (List.Sublist.refl _)

/-- Its outcome is offered: it is done. -/
theorem inHands_of_outcome {id : WriteId} {request : WriteRequest} {event : BridgeEvent} {r : Bool}
    (hevent : event.outcomeId? = some id) (htried : tried.Sublist [(id, request)])
    (h : controller.act (.trySendEvent event) i s = some (r, s'))
    (hs : InHands [(id, request)] tried s) : InHands [] [] s' := by
  obtain ⟨done, htaken, hfinished, hwritten⟩ := hs
  refine ⟨done ++ [(id, request)], ?_, ?_, ?_⟩
  · rw [gather_kept h rfl, htaken, List.append_nil]
  · rw [gather_of_act finishes h, hfinished, List.map_append]
    show _ ++ event.outcomeId?.toList = _
    rw [hevent]
    rfl
  · rw [gather_kept h rfl, List.append_nil]
    exact hwritten.trans (((List.Sublist.refl done).append htried).map _)

/-! ## What the caller cannot take back -/

theorem inHands_of_caller (ho : o.ofCaller = true) (h : controller.act o i s = some (r, s'))
    (hs : InHands hand tried s) : InHands hand tried s' :=
  inHands_kept (of_caller ho).1 (of_caller ho).2.1 (of_caller ho).2.2 h hs

theorem inHands_stable : (order checks maxCylinders).left.Stable (InHands hand tried) :=
  stable_of_action fun _ _ _ _ _ ho _ _ h hs => inHands_of_caller ho h hs

theorem atWork_stable : (order checks maxCylinders).left.Stable (AtWork hand tried) := by
  refine stable_of_action fun o i r s s' ho _ _ h hs => ⟨?_, inHands_of_caller ho h hs.hands⟩
  have ho : o.ofCaller = true := ho
  rw [exec_workerAlive (exec_of_act h) ?_]
  · exact hs.alive
  · rintro rfl
    cases ho

/-- Behind the shutdown message the caller sends nothing. -/
theorem drained_stable : (order checks maxCylinders).left.Stable Drained := by
  refine stable_of_action fun o i r s s' ho _ hbooks h hs => ⟨Closing.kept h hs.1, ?_⟩
  have ho : o.ofCaller = true := ho
  have hbooks : Books checks s' := hbooks
  by_cases hcommands : o.commands = true
  · cases o with
    | trySendCommand command =>
      have hshut := hbooks.shut
      rw [(Machine.act_eq_some.mp h).2] at hshut
      exact absurd hs.1 hshut.1
    | sendShutdown =>
      unfold queuedWrites
      rcases exec_sendShutdown (exec_of_act h) with ⟨-, hcommands⟩ | hworld
      · rw [hcommands, List.filterMap_append]
        exact (List.append_nil _).trans hs.2
      · rw [hworld]
        exact hs.2
    | selectCommand => cases ho
    | tryRecvCommand => cases ho
    | _ => cases hcommands
  · rw [queuedWrites_of_not_commands (by simpa using hcommands) h]
    exact hs.2

theorem motorOff_stable :
    (order checks maxCylinders).left.Stable fun s => lastMotor s.trace = some false := by
  refine stable_of_action fun o i r s s' ho _ _ h hs => ?_
  rw [(Machine.act_eq_some.mp h).2, lastMotor_of_caller ho]
  exact hs

theorem stopped_stable :
    (order checks maxCylinders).left.Stable fun s => s.world.status.working = false := by
  refine stable_of_action fun o i r s s' ho _ _ h hs => ?_
  rw [exec_status (exec_of_act h) (Op.ofCaller_kept ho).2.2.1]
  exact hs

theorem leftAt_stable (loc : Loc) (l : Worker) :
    (order checks maxCylinders).left.Stable ((order checks maxCylinders).leftAt loc l) := by
  cases loc with
  | top hot => exact atWork_stable
  | drain => exact atWork_stable
  | stopping => exact atWork_stable.and (Stable.imp fun _ => drained_stable)
  | unwinding => exact stable_const
  | ended => exact inHands_stable

/-! ## The worker -/

section Worker

variable {l : Worker}

/-- At most one write is in the worker's hands. -/
structure Holdable (hand tried : List Write) : Prop where
  one : hand.length ≤ 1
  tried : tried.Sublist hand

theorem holdable_none : Holdable [] [] := ⟨Nat.zero_le 1, List.Sublist.refl _⟩

/-- One step of the worker; a drive that is declared lost makes none. -/
theorem step_wp {o : Op} {P : Snap controller → Prop}
    {Q : o.Ret → Worker → Snap controller → Prop} (ho : o.ofWorker = true)
    (hstable : (order checks maxCylinders).left.Stable P) (hs : P s)
    (hready : ∀ s, P s → (order checks maxCylinders).leftReady l o s)
    (h : ∀ i r s₁ s₂, Books checks s₁ → P s₁ → l.failed = false →
      controller.act o i s₁ = some (r, s₂) → Books checks s₂ ∧ Q r l s₂) :
    (order checks maxCylinders).left.wpc (step o) Q l s :=
  wpc_perform_of ho hstable hs (fun s₁ _ h₁ => hready s₁ h₁) fun i r s₁ s₂ hbooks h₁ ha hact =>
    have hkept : (!l.failed) = true := ha
    h i r s₁ s₂ hbooks h₁ (by simpa using hkept) hact

theorem ready_of_atWork (hhold : Holdable hand tried) (ho : bystander o = true)
    (hs : AtWork hand tried s) : (order checks maxCylinders).leftReady l o s := by
  refine ⟨⟨hand, tried, hhold.one, hhold.tried, hs.hands⟩, ?_⟩
  cases o <;> trivial

theorem atWork_of_bystander (hworker : o.ofWorker = true) (ho : bystander o = true)
    (h : controller.act o i s = some (r, s')) (hbooks : Books checks s)
    (hs : AtWork hand tried s) : Books checks s' ∧ AtWork hand tried s' := by
  have hcommands := commands_of_bystander ho
  have hexit : o ≠ .exit := by
    rintro rfl
    cases ho
  refine ⟨books_of_worker hworker (takes_of_not_commands hcommands) hexit
    (exec_commands (exec_of_act h) hcommands) hs.alive h hbooks, ?_, ?_⟩
  · rw [exec_workerAlive (exec_of_act h) hexit]
    exact hs.alive
  · exact inHands_kept (takes_of_not_commands hcommands) (finishes_of_bystander ho)
      (writes_of_bystander ho) h hs.hands

/-- The frame: code that none of the books is about. -/
theorem within_wp {α : Type} {m : WorkerM α} {ops : Op → Bool} {E : α → Worker → Prop}
    (hm : m.Within (fun _ o => ops o = true) E l)
    (hops : ∀ o, ops o = true → o.ofWorker = true ∧ bystander o = true)
    (hhold : Holdable hand tried) (hs : AtWork hand tried s) :
    (order checks maxCylinders).left.wpc m (fun a l s => E a l ∧ AtWork hand tried s) l s := by
  refine wp_of_within atWork_stable (fun l o ho => ?_) hm hs
  obtain ⟨hworker, hother⟩ := hops o ho
  refine ⟨hworker, fun s hbooks hs => ?_⟩
  have hready : (order checks maxCylinders).leftReady l o s := ready_of_atWork hhold hother hs
  exact ⟨hready, fun i r s' _ hact => atWork_of_bystander hworker hother hact hbooks hs⟩

theorem frame_wp {α : Type} {m : WorkerM α} {ops : Op → Bool}
    (hm : m.Keeps (fun _ => True) (ops ·))
    (hops : ∀ o, ops o = true → o.ofWorker = true ∧ bystander o = true)
    (hhold : Holdable hand tried) (hs : AtWork hand tried s) :
    (order checks maxCylinders).left.wpc m (fun _ _ s => AtWork hand tried s) l s :=
  wpc_mono (within_wp ((hm l trivial).mono (fun _ _ h => h.2) fun _ _ h => h) hops hhold hs)
    fun _ _ _ h => h.2

theorem bystander_wp {o : Op} {Q : o.Ret → Worker → Snap controller → Prop}
    (hworker : o.ofWorker = true) (ho : bystander o = true) (hhold : Holdable hand tried)
    (hs : AtWork hand tried s) (h : ∀ r s', AtWork hand tried s' → Q r l s') :
    (order checks maxCylinders).left.wpc (step o) Q l s := by
  refine step_wp hworker atWork_stable hs (fun _ => ready_of_atWork hhold ho) ?_
  intro i r s₁ s₂ hbooks h₁ _ hact
  obtain ⟨hbooks', h₂⟩ := atWork_of_bystander hworker ho hact hbooks h₁
  exact ⟨hbooks', h r s₂ h₂⟩

/-! ### Positioning -/

/-- The worker has moved to a track. -/
def Arrived (track : TrackAddress) (r : Except Error Unit) (l : Worker) : Prop :=
  r = .ok () → l.positioned = true ∧ l.physical = track

theorem positionCylinder_within (track : TrackAddress) (l : Worker) :
    (positionCylinder track).Within (fun _ (o : Op) => o.ofPosition = true)
      (fun r l' => l'.positioned = l.positioned ∧ l'.physical.side = l.physical.side ∧
        (r = .ok () → l'.physical.cylinder = track.cylinder)) l := by
  unfold positionCylinder
  refine Code.within_bind.mpr ?_
  show Code.Within _ _ (if _ then _ else _) l
  split
  · refine ⟨rfl, fun r => ?_⟩
    cases r with
    | error e => exact ⟨rfl, rfl, fun h => by cases h⟩
    | ok _ => exact ⟨rfl, rfl, fun _ => rfl⟩
  · next hskip =>
    have hthere : l.positioned = true ∧ l.physical.cylinder = track.cylinder := by
      simpa using hskip
    exact ⟨rfl, rfl, fun _ => hthere.2⟩

theorem positionSide_within (track : TrackAddress) (l : Worker) :
    (positionSide track).Within (fun _ (o : Op) => o.ofPosition = true)
      (fun r l' => l'.physical.cylinder = l.physical.cylinder ∧
        (r = .ok () → l'.physical.side = track.side)) l := by
  unfold positionSide
  refine Code.within_bind.mpr ?_
  show Code.Within _ _ (if _ then _ else _) l
  split
  · refine ⟨rfl, fun r => ?_⟩
    cases r with
    | error e => exact ⟨rfl, fun h => by cases h⟩
    | ok _ => exact ⟨rfl, fun _ => rfl⟩
  · next hskip =>
    have hthere : l.positioned = true ∧ l.physical.side = track.side := by simpa using hskip
    exact ⟨rfl, fun _ => hthere.2⟩

theorem position_within (track : TrackAddress) (l : Worker) :
    (position track).Within (fun _ (o : Op) => o.ofPosition = true) (Arrived track) l := by
  unfold position
  refine Code.within_bind.mpr ((positionCylinder_within track l).mono (fun _ _ h => h) ?_)
  rintro r l₁ ⟨-, -, hcylinder⟩
  cases r with
  | error e => exact fun h => by cases h
  | ok _ =>
    refine Code.within_bind.mpr ((positionSide_within track l₁).mono (fun _ _ h => h) ?_)
    rintro r l₂ ⟨hsame, hside⟩
    cases r with
    | error e => exact fun h => by cases h
    | ok _ =>
      refine ⟨rfl, fun _ _ => ⟨rfl, ?_⟩⟩
      show l₂.physical = track
      rw [show l₂.physical = ⟨l₂.physical.cylinder, l₂.physical.side⟩ from rfl, hsame,
        hcylinder rfl, hside rfl]

/-! ### A write -/

/-- The steps that are neither part of a write, nor the end of the thread. -/
theorem bystander_of_part (ho : o.ofWishes = true ∨ o.ofStatus = true ∨ o.ofCapture = true ∨
    o.ofNoClick = true) : o.ofWorker = true ∧ bystander o = true := by
  cases o with
  | trySendEvent event =>
    cases event with
    | diskChanged present => exact ⟨rfl, rfl⟩
    | disconnected e => exact ⟨rfl, rfl⟩
    | _ => rcases ho with ho | ho | ho | ho <;> cases ho
  | _ => first | exact ⟨rfl, rfl⟩ | (rcases ho with ho | ho | ho | ho <;> cases ho)

theorem bystander_of_position (ho : o.ofPosition = true) :
    o.ofWorker = true ∧ bystander o = true :=
  bystander_of_part (Or.inl (Op.ofWishes_of_position ho))

theorem noteError_wp {e : Error} (hhold : Holdable hand tried) (hs : AtWork hand tried s) :
    (order checks maxCylinders).left.wpc (noteError e) (fun _ _ s => AtWork hand tried s) l s :=
  frame_wp (noteError_keeps unaffected_true.errors e)
    (fun _ ho => bystander_of_part (Or.inl (Op.ofWishes_of_errors ho))) hhold hs

/-- The device is called on the track of the write, with its words and its length. -/
theorem attemptWrite_wp {id : WriteId} {request : WriteRequest}
    (hfits : fits checks request = true) (hs : AtWork [(id, request)] [] s) :
    (order checks maxCylinders).left.wpc (attemptWrite checks request)
      (fun r _ s => r ≠ none ∧ ∃ tried, Holdable [(id, request)] tried ∧
        AtWork [(id, request)] tried s) l s := by
  have hhold : Holdable [(id, request)] [] := ⟨Nat.le_refl 1, List.nil_sublist _⟩
  refine wpc_seq (within_wp (position_within request.track l)
    (fun _ => bystander_of_position) hhold hs) fun r l₁ s₁ h₁ => ?_
  obtain ⟨harrived, h₁⟩ := h₁
  cases r with
  | error e => exact ⟨by simp, [], hhold, h₁⟩
  | ok _ =>
    refine wpc_bind.mpr (bystander_wp rfl rfl hhold h₁ fun trackBits s₂ h₂ => ?_)
    dsimp only
    split
    · next hnone => exact absurd hnone (Outcomes.fromIndex_ne_none hfits)
    split
    · exact ⟨by simp, [], hhold, h₂⟩
    · refine wpc_bind.mpr (wpc_own.mpr (wpc_bind.mpr ?_))
      refine step_wp rfl atWork_stable h₂ (fun s h => ?_) fun i r s₃ s₄ hbooks h₃ _ hact => ?_
      · obtain ⟨hpositioned, hphysical⟩ := harrived rfl
        exact ⟨⟨_, [], hhold.one, hhold.tried, h.hands⟩, ⟨id, h.hands⟩, rfl, hpositioned, hphysical⟩
      · refine ⟨books_of_worker rfl rfl (by simp) (exec_commands (exec_of_act hact) rfl) h₃.alive
          hact hbooks, by simp, [(id, request)], ⟨Nat.le_refl 1, List.Sublist.refl _⟩, ?_,
          inHands_of_write hact h₃.hands⟩
        rw [exec_workerAlive (exec_of_act hact) (by simp)]
        exact h₃.alive

/-- A write that was taken is performed. -/
theorem performWrite_wp {id : WriteId} {request : WriteRequest}
    (hfits : fits checks request = true) (hs : AtWork [(id, request)] [] s) :
    (order checks maxCylinders).left.wpc (performWrite checks id request)
      (fun flow _ s => flow = .go ∧ AtWork [] [] s) l s := by
  refine wpc_seq (attemptWrite_wp hfits hs) fun r l₁ s₁ h₁ => ?_
  obtain ⟨hsome, tried, hhold, h₁⟩ := h₁
  cases r with
  | none => exact absurd rfl hsome
  | some result =>
    refine wpc_bind.mpr (bystander_wp rfl rfl hhold h₁ fun _ s₂ h₂ => ?_)
    have hevent : (writeEvent id request result).outcomeId? = some id := by
      cases result <;> rfl
    refine wpc_bind.mpr (step_wp rfl atWork_stable h₂ (fun s h => ?_) ?_)
    · exact ⟨⟨_, tried, hhold.one, hhold.tried, h.hands⟩, trivial⟩
    · intro i r s₃ s₄ hbooks h₃ _ hact
      refine ⟨books_of_worker rfl rfl (by simp) (exec_commands (exec_of_act hact) rfl) h₃.alive
        hact hbooks, rfl, ?_,
        inHands_of_outcome hevent hhold.tried hact h₃.hands⟩
      rw [exec_workerAlive (exec_of_act hact) (by simp)]
      exact h₃.alive

/-! ### The loop -/

/-- What holds when the worker has taken a command. -/
structure Received (checks : Bool) (c : Command) (s : Snap controller) : Prop where
  work : AtWork c.write?.toList [] s
  fits : ∀ write, c.write? = some write → fits checks write.2 = true
  drained : c = .shutdown → Drained s

theorem received_of_take {c : Command} (ho : o = .selectCommand ∨ o = .tryRecvCommand)
    (htakes : takes ⟨o, r⟩ = c.write?.toList)
    (hcommands : s.world.commands = c :: s'.world.commands)
    (h : controller.act o i s = some (r, s')) (hbooks : Books checks s) (hs : AtWork [] [] s) :
    Books checks s' ∧ Received checks c s' := by
  have hbooks' := books_of_take ho htakes hcommands hs.alive h hbooks
  have hnothing : finishes ⟨o, r⟩ = [] ∧ writes ⟨o, r⟩ = [] := by
    rcases ho with rfl | rfl <;> exact ⟨rfl, rfl⟩
  refine ⟨hbooks', ⟨?_, inHands_of_take htakes hnothing.1 hnothing.2 h hs.hands⟩, ?_, ?_⟩
  · rw [exec_workerAlive (exec_of_act h) (by rcases ho with rfl | rfl <;> simp)]
    exact hs.alive
  · intro write hwrite
    refine hbooks.fits write ?_
    unfold queuedWrites
    rw [hcommands, List.filterMap_cons, hwrite]
    exact List.mem_cons_self
  · rintro rfl
    refine ⟨Closing.kept h (hbooks.closing (by rw [hcommands]; exact List.mem_cons_self)), ?_⟩
    unfold queuedWrites
    rw [hbooks.last [] s'.world.commands hcommands]
    rfl

/-- Looking at the queue without taking anything. -/
theorem untaken_of_look (ho : o = .selectCommand ∨ o = .tryRecvCommand)
    (htakes : takes ⟨o, r⟩ = []) (hcommands : s'.world.commands = s.world.commands)
    (h : controller.act o i s = some (r, s')) (hbooks : Books checks s) (hs : AtWork [] [] s) :
    Books checks s' ∧ AtWork [] [] s' := by
  have hworker : o.ofWorker = true := by rcases ho with rfl | rfl <;> rfl
  have hexit : o ≠ .exit := by rcases ho with rfl | rfl <;> simp
  have hnothing : finishes ⟨o, r⟩ = [] ∧ writes ⟨o, r⟩ = [] := by
    rcases ho with rfl | rfl <;> exact ⟨rfl, rfl⟩
  refine ⟨books_of_worker hworker htakes hexit hcommands hs.alive h hbooks, ?_,
    inHands_kept htakes hnothing.1 hnothing.2 h hs.hands⟩
  rw [exec_workerAlive (exec_of_act h) hexit]
  exact hs.alive

theorem selectCommand_wp (hs : AtWork [] [] s) :
    (order checks maxCylinders).left.wpc (step .selectCommand) (fun r _ s =>
      match r with
      | .command c => Received checks c s
      | .nudge | .timeout => AtWork [] [] s) l s := by
  refine step_wp rfl atWork_stable hs (fun s h => ?_) fun i r s₁ s₂ hbooks h₁ _ hact => ?_
  · exact ⟨⟨[], [], holdable_none.one, holdable_none.tried, h.hands⟩, trivial⟩
  cases r with
  | command c =>
    exact received_of_take (Or.inl rfl) rfl (exec_selectCommand (exec_of_act hact)).2 hact hbooks h₁
  | nudge =>
    exact untaken_of_look (Or.inl rfl) rfl
      (exec_selectCommand_other (exec_of_act hact) (by simp)) hact hbooks h₁
  | timeout =>
    exact untaken_of_look (Or.inl rfl) rfl
      (exec_selectCommand_other (exec_of_act hact) (by simp)) hact hbooks h₁

theorem tryRecvCommand_wp (hs : AtWork [] [] s) :
    (order checks maxCylinders).left.wpc (step .tryRecvCommand) (fun r _ s =>
      match r with
      | some c => Received checks c s
      | none => AtWork [] [] s) l s := by
  refine step_wp rfl atWork_stable hs (fun s h => ?_) fun i r s₁ s₂ hbooks h₁ _ hact => ?_
  · exact ⟨⟨[], [], holdable_none.one, holdable_none.tried, h.hands⟩, trivial⟩
  cases r with
  | some c =>
    exact received_of_take (Or.inr rfl) rfl (exec_tryRecvCommand (exec_of_act hact)).2 hact hbooks
      h₁
  | none =>
    have hworld := (exec_tryRecvCommand_none (exec_of_act hact)).1
    exact untaken_of_look (Or.inr rfl) rfl (by rw [hworld]) hact hbooks h₁

theorem process_wp {c : Command} (hs : Received checks c s) :
    (order checks maxCylinders).left.wpc (process checks c)
      (fun flow l s => (order checks maxCylinders).leftAt flow.next l s) l s := by
  cases c with
  | noClick side =>
    refine process_noClick_wp (P := fun _ s => AtWork [] [] s)
      (frame_wp (noClick_keeps side) (fun _ ho => bystander_of_part (by simp [ho])) holdable_none
        hs.work)
      (fun _ _ _ h => noteError_wp holdable_none h) fun l s h => ⟨fun hlost => ⟨h, ?_⟩, fun _ => h⟩
    rw [hlost]
    exact fun h => by cases h
  | write id request =>
    refine process_write_wp (wpc_mono (performWrite_wp (hs.fits _ rfl) hs.work) ?_)
    rintro flow l₁ s₁ ⟨rfl, h₁⟩
    refine ⟨fun hlost => ⟨h₁, ?_⟩, fun _ => h₁⟩
    rw [hlost]
    exact fun h => by cases h
  | shutdown => exact ⟨hs.work, fun _ => hs.drained rfl⟩

/-- The worker has left the loop for the shutdown message. -/
structure Leaving (s : Snap controller) : Prop where
  work : AtWork [] [] s
  drained : Drained s

theorem leaving_stable : (order checks maxCylinders).left.Stable Leaving := fun s s' hrely hs =>
  ⟨atWork_stable s s' hrely hs.work, drained_stable s s' hrely hs.drained⟩

theorem leaving_of_bystander (hworker : o.ofWorker = true) (ho : bystander o = true)
    (h : controller.act o i s = some (r, s')) (hbooks : Books checks s) (hs : Leaving s) :
    Books checks s' ∧ Leaving s' := by
  obtain ⟨hbooks', hwork⟩ := atWork_of_bystander hworker ho h hbooks hs.work
  refine ⟨hbooks', hwork, Closing.kept h hs.drained.1, ?_⟩
  rw [queuedWrites_of_not_commands (commands_of_bystander ho) h]
  exact hs.drained.2

/-- The worker ends. -/
theorem books_of_exit {r : Unit} (hmotor : lastMotor s.trace = some false)
    (hstopped : s.world.status.working = false) (hs : Leaving s)
    (h : controller.act .exit i s = some (r, s')) (hbooks : Books checks s) :
    Books checks s' ∧ InHands [] [] s' := by
  have hexec := exec_of_act h
  have hcommands := exec_commands hexec rfl
  have hqueue := queuedWrites_of_not_commands rfl h
  have hdead : s'.world.workerAlive = false := by
    simp only [exec, Option.some.injEq, Prod.mk.injEq, true_and] at hexec
    rw [← hexec]
  have hhands : InHands [] [] s' := inHands_kept rfl rfl rfl h hs.work.hands
  refine ⟨⟨?_, ?_, ?_, ?_, ?_, ?_, ?_⟩, hhands⟩
  · rw [gather_kept h rfl, gather_kept h rfl, hqueue]
    exact hbooks.fifo
  · rw [hqueue]
    exact hbooks.fits
  · rw [hcommands]
    exact fun hshutdown => Closing.kept h (hbooks.closing hshutdown)
  · rw [hcommands]
    exact hbooks.last
  · exact sealed_of_act (by simp) h hbooks.shut
  · refine fun _ => ⟨hqueue.trans hs.drained.2, ?_, ?_, ?_⟩
    · obtain ⟨done, htaken, hfinished, -⟩ := hhands
      rw [htaken, hfinished, List.append_nil]
    · rw [(Machine.act_eq_some.mp h).2]
      exact hmotor
    · rw [exec_status hexec rfl]
      exact hstopped
  · exact fun _ => hdead

/-- The end: the motor is switched off, and the status says that the worker has stopped. -/
theorem stopRound_wp (hs : AtWork [] [] s) (hdrained : l.failed = false → Drained s) :
    (order checks maxCylinders).left.wpc stopRound (order checks maxCylinders).leftAt l s := by
  refine wpc_bind.mpr (step_wp rfl (atWork_stable.and (Stable.imp fun _ => drained_stable))
    ⟨hs, hdrained⟩ (fun _ h => ready_of_atWork holdable_none rfl h.1) ?_)
  intro i r s₁ s₂ hbooks₁ h₁ hkept hact
  obtain ⟨hbooks₂, h₂⟩ := leaving_of_bystander rfl rfl hact hbooks₁ ⟨h₁.1, h₁.2 hkept⟩
  have hmotor₂ : lastMotor s₂.trace = some false := by
    rw [(Machine.act_eq_some.mp hact).2]
    rfl
  refine ⟨hbooks₂, wpc_bind.mpr (step_wp rfl (leaving_stable.and motorOff_stable) ⟨h₂, hmotor₂⟩
    (fun _ h => ready_of_atWork holdable_none rfl h.1.work) ?_)⟩
  rintro i r s₃ s₄ hbooks₃ ⟨h₃, hmotor₃⟩ - hact
  obtain ⟨hbooks₄, h₄⟩ := leaving_of_bystander rfl rfl hact hbooks₃ h₃
  have hmotor₄ : lastMotor s₄.trace = some false := by
    rw [(Machine.act_eq_some.mp hact).2]
    exact hmotor₃
  have hstopped₄ : s₄.world.status.working = false := by
    have hexec := exec_of_act hact
    simp only [exec, Option.some.injEq, Prod.mk.injEq, true_and] at hexec
    rw [← hexec]
  refine ⟨hbooks₄, wpc_bind.mpr (step_wp rfl
    (leaving_stable.and (motorOff_stable.and stopped_stable)) ⟨h₄, hmotor₄, hstopped₄⟩
    (fun _ h => ?_) ?_)⟩
  · exact ⟨⟨[], [], holdable_none.one, holdable_none.tried, h.1.work.hands⟩, trivial⟩
  · rintro i r s₅ s₆ hbooks₅ ⟨h₅, hmotor₅, hstopped₅⟩ - hact
    exact books_of_exit hmotor₅ hstopped₅ h₅ hact hbooks₅

theorem rounds : Rounds (order checks maxCylinders).left checks
    (order checks maxCylinders).leftAt (fun c _ s => Received checks c s)
    (fun _ s => AtWork [] [] s) where
  hot _ _ h := h
  select _ _ h := wpc_mono (selectCommand_wp h) fun r _ _ h₁ => by cases r <;> exact h₁
  receive _ _ h := wpc_mono (tryRecvCommand_wp h) fun r _ _ h₁ => by cases r <;> exact h₁
  process _ _ _ h := process_wp h
  desired _ _ h := frame_wp (applyDesired_keeps unaffected_true)
    (fun _ ho => bystander_of_part (Or.inl ho)) holdable_none h
  status _ _ h := frame_wp
    (refreshStatusIfDue_keeps unaffected_true.errors unaffected_true.schedule)
    (fun _ ho => bystander_of_part (Or.inr (Or.inl ho))) holdable_none h
  capture _ _ h := frame_wp (captureIfNeeded_keeps unaffected_true fun _ _ h => h)
    (fun _ ho => bystander_of_part (Or.inr (Or.inr (Or.inl ho)))) holdable_none h
  failed l _ h hlost := ⟨h, fun hkept => by rw [hlost] at hkept; cases hkept⟩
  again _ _ _ h _ := h
  stop _ _ h := stopRound_wp h.1 h.2
  unwind _ _ h := h.elim

end Worker

/-! ## The caller -/

section Caller

variable {b : Bridge} {pending : List Write}

theorem pending_kept (haccepts : accepts ⟨o, r⟩ = []) (hsubmits : submits maxCylinders ⟨o, r⟩ = [])
    (h : controller.act o i s = some (r, s')) (hs : Pending maxCylinders pending s) :
    Pending maxCylinders pending s' := by
  unfold Pending
  rw [gather_kept h haccepts, gather_kept h hsubmits]
  exact hs

theorem pending_stable :
    (order checks maxCylinders).right.Stable (Pending maxCylinders pending) :=
  stable_of_action fun _ _ _ _ _ ho _ _ h hs =>
    pending_kept (@of_worker maxCylinders _ _ ho).1 (of_worker ho).2 h hs

theorem open_stable : (order checks maxCylinders).right.Stable fun s => ¬ Closing s.trace := by
  refine stable_of_action fun o i r s s' ho _ _ h hs => not_closing_kept ?_ h hs
  rintro rfl
  cases ho

/-- A worker that has ended does not come back. -/
theorem dead_stable :
    (order checks maxCylinders).right.Stable fun s => s.world.workerAlive = false := by
  refine stable_of_action fun o i r s s' ho _ _ h hs => ?_
  by_cases hexit : o = .exit
  · subst hexit
    have hexec := exec_of_act h
    simp only [exec, Option.some.injEq, Prod.mk.injEq, true_and] at hexec
    rw [← hexec]
  · rw [exec_workerAlive (exec_of_act h) hexit]
    exact hs

/-- Between two calls: everything accepted was returned, and `drop` was not called. -/
structure Between (maxCylinders : Nat) (s : Snap controller) : Prop where
  pending : Pending maxCylinders [] s
  opened : ¬ Closing s.trace

theorem between_stable : (order checks maxCylinders).right.Stable (Between maxCylinders) :=
  fun s s' hrely hs =>
    ⟨pending_stable s s' hrely hs.pending, open_stable s s' hrely hs.opened⟩

/-- One step of the caller. -/
theorem call_wp {o : Op} {P : Snap controller → Prop}
    {Q : o.Ret → Bridge → Snap controller → Prop} (ho : o.ofCaller = true)
    (hstable : (order checks maxCylinders).right.Stable P) (hs : P s)
    (hready : ∀ s, P s → (order checks maxCylinders).rightReady b o s)
    (h : ∀ i r s₁ s₂, Books checks s₁ → P s₁ → fittingCall checks o = true →
      controller.act o i s₁ = some (r, s₂) → Books checks s₂ ∧ Q r b s₂) :
    (order checks maxCylinders).right.wpc (step o) Q b s :=
  wpc_perform_of ho hstable hs (fun s₁ _ h₁ => hready s₁ h₁) fun i r s₁ s₂ hbooks h₁ ha hact =>
    h i r s₁ s₂ hbooks h₁ ha hact

/-- A step of the caller that leaves the queue as it is. -/
theorem books_of_caller (ho : o.ofCaller = true) (hcommands : o.commands = false)
    (hreturned : ∀ answer, o = .returned .drop answer → s.world.workerAlive = false)
    (h : controller.act o i s = some (r, s')) (hs : Books checks s) : Books checks s' := by
  refine books_of_same (accepts_of_not_commands hcommands) (takes_of_not_commands hcommands) ?_ ?_
    hreturned (exec_commands (exec_of_act h) hcommands) h
    (fun hdead => finished_of_caller ho h hdead) hs
  · rintro command rfl
    cases hcommands
  · rintro rfl
    cases ho

theorem accepts_of_plain (ho : o.ofPlain = true) : accepts ⟨o, r⟩ = [] := by
  cases o with
  | trySendCommand command =>
    cases command with
    | noClick side => cases r <;> rfl
    | _ => cases ho
  | _ => rfl

theorem ready_of_between (ho : o.ofPlain = true) (hs : Between maxCylinders s) :
    (order checks maxCylinders).rightReady b o s := by
  refine ⟨⟨[], Nat.zero_le 1, hs.pending⟩, ?_⟩
  cases o with
  | trySendCommand command =>
    cases command with
    | noClick side => exact ⟨hs.opened, by simp, fun _ h => by cases h⟩
    | _ => cases ho
  | _ => trivial

theorem between_of_plain (ho : o.ofPlain = true) (h : controller.act o i s = some (r, s'))
    (hbooks : Books checks s) (hs : Between maxCylinders s) :
    Books checks s' ∧ Between maxCylinders s' := by
  have hcaller := Op.ofCaller_of_call (Op.ofCall_of_other (Op.ofOther_of_plain ho))
  have hsubmits : submits maxCylinders ⟨o, r⟩ = [] := by
    cases o <;> first | rfl | cases ho
  have hreturned : ∀ answer, o = .returned .drop answer → s.world.workerAlive = false := by
    rintro answer rfl
    cases ho
  refine ⟨?_, pending_kept (accepts_of_plain ho) hsubmits h hs.pending,
    not_closing_kept (by rintro rfl; cases ho) h hs.opened⟩
  cases o with
  | trySendCommand command =>
    cases command with
    | noClick side =>
      exact books_of_send hs.opened (by simp) (fun _ h => by cases h) h hbooks
    | _ => cases ho
  | _ => first | exact books_of_caller hcaller rfl hreturned h hbooks | cases ho

theorem plain_wp {o : Op} {Q : o.Ret → Bridge → Snap controller → Prop} (ho : o.ofPlain = true)
    (hs : Between maxCylinders s) (h : ∀ r s', Between maxCylinders s' → Q r b s') :
    (order checks maxCylinders).right.wpc (step o) Q b s := by
  refine call_wp (Op.ofCaller_of_call (Op.ofCall_of_other (Op.ofOther_of_plain ho)))
    between_stable hs (fun _ => ready_of_between ho) fun i r s₁ s₂ hbooks h₁ _ hact => ?_
  obtain ⟨hbooks', h₂⟩ := between_of_plain ho hact hbooks h₁
  exact ⟨hbooks', h r s₂ h₂⟩

/-- What a call that returns with this answer has put into the queue. -/
def put (maxCylinders : Nat) (call : Call) (answer : Answer) : List Write :=
  submits maxCylinders ⟨.returned call answer, ()⟩

theorem put_of_other {call : Call} {answer : Answer}
    (hcall : ∀ request, call ≠ .submitWrite request) : put maxCylinders call answer = [] := by
  cases call with
  | submitWrite request => exact absurd rfl (hcall request)
  | _ => rfl

theorem put_length (call : Call) (answer : Answer) :
    (put maxCylinders call answer).length ≤ 1 := by
  unfold put submits
  split
  · exact Nat.le_refl 1
  · exact Nat.zero_le 1

/-- Where a call stands before it returns. -/
structure Returning (maxCylinders : Nat) (call : Call) (answer : Answer) (b : Bridge)
    (s : Snap controller) : Prop where
  cylinders : b.maxCylinders = maxCylinders
  pending : Pending maxCylinders (put maxCylinders call answer) s
  dead : call = .drop → s.world.workerAlive = false
  opened : call ≠ .drop → ¬ Closing s.trace

theorem returning_refused {request : WriteRequest} {answer : Answer}
    (hput : put maxCylinders (.submitWrite request) answer = [])
    (hb : b.maxCylinders = maxCylinders) (hs : Between maxCylinders s) :
    Returning maxCylinders (.submitWrite request) answer b s where
  cylinders := hb
  pending := by
    rw [hput]
    exact hs.pending
  dead h := by cases h
  opened _ := hs.opened

theorem enqueueWrite_wp {request : WriteRequest} (hb : b.maxCylinders = maxCylinders)
    (hfits : fits checks request = true) (hs : Between maxCylinders s) :
    (order checks maxCylinders).right.wpc
      (Bridge.enqueueWrite { request with track := clampTrack request.track maxCylinders })
      (Returning maxCylinders (.submitWrite request)) b s := by
  refine wpc_bind.mpr (wpc_own.mpr (wpc_bind.mpr (wpc_update.mpr (wpc_bind.mpr ?_))))
  refine call_wp rfl between_stable hs (fun s h => ?_) fun i r s₁ s₂ hbooks h₁ _ hact => ?_
  · refine ⟨⟨[], Nat.zero_le 1, h.pending⟩, h.opened, by simp, fun write hwrite => ?_⟩
    cases hwrite
    exact hfits
  · have hopened := not_closing_kept (by simp) hact h₁.opened
    refine ⟨books_of_send h₁.opened (by simp) (fun write hwrite => ?_) hact hbooks, ?_⟩
    · cases hwrite
      exact hfits
    · cases r with
      | error e =>
        exact returning_refused rfl hb ⟨pending_kept rfl rfl hact h₁.pending, hopened⟩
      | ok _ =>
        refine ⟨hb, ?_, (fun h => by cases h), fun _ => hopened⟩
        have hpending := h₁.pending
        unfold Pending at hpending ⊢
        rw [gather_of_act accepts hact, gather_kept hact rfl, hpending, List.append_nil]
        rfl

theorem submitWrite_wp {request : WriteRequest} (hb : b.maxCylinders = maxCylinders)
    (hfits : fits checks request = true) (hs : Between maxCylinders s) :
    (order checks maxCylinders).right.wpc (Bridge.submitWrite checks request)
      (Returning maxCylinders (.submitWrite request)) b s := by
  refine wpc_bind.mpr (wpc_bind.mpr (wpc_own.mpr (wpc_pure.mpr ?_)))
  rw [hb]
  dsimp only
  split
  · exact returning_refused rfl hb hs
  refine wpc_bind.mpr (plain_wp rfl hs fun status s₁ h₁ => ?_)
  split
  · exact returning_refused rfl hb h₁
  refine wpc_bind.mpr (plain_wp rfl h₁ fun front s₂ h₂ => ?_)
  split
  · exact returning_refused rfl hb h₂
  · exact returning_refused rfl hb h₂
  · exact enqueueWrite_wp hb hfits h₂

/-- `drop` returns when the worker has ended. -/
theorem drop_wp (hb : b.maxCylinders = maxCylinders) (hs : Between maxCylinders s) :
    (order checks maxCylinders).right.wpc Bridge.drop (Returning maxCylinders .drop) b s := by
  refine wpc_bind.mpr (call_wp rfl between_stable hs (fun s h => ?_) ?_)
  · exact ⟨⟨[], Nat.zero_le 1, h.pending⟩, h.opened⟩
  intro i r s₁ s₂ hbooks h₁ _ hact
  have h₂ : Pending maxCylinders [] s₂ := pending_kept rfl rfl hact h₁.pending
  refine ⟨books_of_shutdown h₁.opened hact hbooks, ?_⟩
  refine wpc_bind.mpr (call_wp rfl pending_stable h₂ (fun s h => ?_) ?_)
  · exact ⟨⟨[], Nat.zero_le 1, h⟩, trivial⟩
  intro i r s₃ s₄ hbooks h₃ _ hact
  refine ⟨books_of_caller rfl rfl (by simp) hact hbooks, hb, pending_kept rfl rfl hact h₃, ?_,
    fun h => absurd rfl h⟩
  intro _
  have hexec := exec_of_act hact
  simp only [exec] at hexec
  split at hexec
  · cases hexec
  · next hdead =>
    simp only [Option.some.injEq, Prod.mk.injEq, true_and] at hexec
    rw [← hexec]
    simpa using hdead

theorem perform_wp {call : Call} (hb : b.maxCylinders = maxCylinders)
    (hfits : fittingCall checks (.called call) = true) (hs : Between maxCylinders s) :
    (order checks maxCylinders).right.wpc (Bridge.perform checks call)
      (Returning maxCylinders call) b s := by
  by_cases hsubmit : ∃ request, call = .submitWrite request
  · obtain ⟨request, rfl⟩ := hsubmit
    exact submitWrite_wp hb hfits hs
  by_cases hdrop : call = .drop
  · subst hdrop
    exact drop_wp hb hs
  have hcall : ∀ request, call ≠ .submitWrite request := fun request h => hsubmit ⟨request, h⟩
  have hkeeps : (Bridge.perform checks call).Keeps (fun b => b.maxCylinders = maxCylinders)
      (Op.ofPlain ·) := perform_keeps_plain hcall hdrop
  refine wpc_mono (wpc_of_keeps hkeeps between_stable ?_ hb hs) ?_
  · intro b o _ ho
    refine ⟨Op.ofCaller_of_call (Op.ofCall_of_other (Op.ofOther_of_plain ho)),
      fun s hbooks h => ?_⟩
    have hready : (order checks maxCylinders).rightReady b o s := ready_of_between ho h
    exact ⟨hready, fun i r s' _ hact => between_of_plain ho hact hbooks h⟩
  · rintro answer b s ⟨hb, h⟩
    refine ⟨hb, ?_, fun h => absurd h hdrop, fun _ => h.opened⟩
    rw [put_of_other hcall]
    exact h.pending

theorem returning_stable {call : Call} {answer : Answer} :
    (order checks maxCylinders).right.Stable (Returning maxCylinders call answer b) :=
  fun s s' hrely hs => ⟨hs.cylinders, pending_stable s s' hrely hs.pending,
    fun hdrop => dead_stable s s' hrely (hs.dead hdrop),
    fun hdrop => open_stable s s' hrely (hs.opened hdrop)⟩

/-- A call, from its beginning to its end. -/
theorem callRound_wp {call : Call} (hb : b.maxCylinders = maxCylinders)
    (hs : Between maxCylinders s) :
    (order checks maxCylinders).right.wpc (callRound checks call)
      (order checks maxCylinders).rightAt b s := by
  refine wpc_bind.mpr (call_wp rfl between_stable hs (fun s h => ?_) ?_)
  · exact ⟨⟨[], Nat.zero_le 1, h.pending⟩, trivial⟩
  intro i r s₁ s₂ hbooks h₁ hfits hact
  refine ⟨books_of_caller rfl rfl (by simp) hact hbooks, ?_⟩
  have h₂ : Between maxCylinders s₂ :=
    ⟨pending_kept rfl rfl hact h₁.pending, not_closing_kept (by simp) hact h₁.opened⟩
  refine wpc_seq (perform_wp hb hfits h₂) fun answer b s₃ h₃ => ?_
  refine wpc_bind.mpr (call_wp rfl returning_stable h₃ (fun s h => ?_) ?_)
  · refine ⟨⟨_, put_length call answer, h.pending⟩, ?_⟩
    cases call with
    | drop => exact h.dead rfl
    | _ => trivial
  intro i r s₄ s₅ hbooks h₄ _ hact
  refine ⟨books_of_caller rfl rfl (fun _ hop => ?_) hact hbooks, h₄.cylinders, ?_, ?_⟩
  · cases hop
    exact h₄.dead rfl
  · unfold Pending
    rw [gather_kept hact rfl, gather_of_act (submits maxCylinders) hact, h₄.pending,
      List.append_nil]
    rfl
  · by_cases hdrop : call = .drop
    · rw [if_pos hdrop]
      trivial
    · rw [if_neg hdrop]
      exact not_closing_kept (by simp) hact (h₄.opened hdrop)

end Caller

theorem valid : (order checks maxCylinders).Valid where
  leftStable := leftAt_stable
  rightStable loc b := by
    refine stable_const.and (pending_stable.and ?_)
    cases loc with
    | holds => exact open_stable
    | dropped => exact stable_const
  leftRound _ _ _ _ _ hm _ h := rounds.round hm h
  rightRound := rightRound_of_call fun _ _ _ _ ⟨hcylinders, hpending, hopen⟩ =>
    callRound_wp hcylinders ⟨hpending, hopen⟩

/-- An opened bridge: nothing has been accepted yet. -/
theorem holds_fromDevice (checks : Bool) (config : BridgeConfig) (status : DriveStatus)
    (head : TrackAddress) (now : Nat) :
    (order checks status.maxCylinders).Holds (fromDevice checks config status head now) := by
  refine ⟨⟨rfl, ?_, ?_, ?_, trivial, ?_, ?_⟩, ⟨rfl, [], rfl, rfl, List.Sublist.refl _⟩, rfl, rfl,
    ?_⟩
  · exact fun _ h => absurd h List.not_mem_nil
  · exact fun h => absurd h List.not_mem_nil
  · intro front rest h
    exact absurd h.symm (List.append_ne_nil_of_right_ne_nil front (List.cons_ne_nil _ _))
  · exact fun h => by cases h
  · rintro ⟨_, h, -⟩
    cases h
  · rintro ⟨_, h, -⟩
    cases h

end WriteOrder

/-! ## The order of a run -/

section Runs

variable {checks : Bool} {config : BridgeConfig} {status : DriveStatus} {head : TrackAddress}
  {now : Nat} {m : Moment checks}

/--
**Write order.** In a run in which the drive is not declared lost and no start position overflows,
the accepted writes are performed once each, in the order in which they were accepted, each of them
with its own data on its own track; and when `drop` returns none is left and the motor is off.
-/
theorem inOrder_of_orderly
    (h : Reach (orderly checks) (fromDevice checks config status head now) m) :
    InOrder status.maxCylinders m := by
  have hholds :=
    WriteOrder.valid.holds h (WriteOrder.holds_fromDevice checks config status head now)
  have hbooks : Books checks m.snap := hholds.inv
  have hhands : ∃ hand tried, hand.length ≤ 1 ∧ tried.Sublist hand ∧ InHands hand tried m.snap := by
    refine hholds.leftView (J := fun _ s => ∃ hand tried, hand.length ≤ 1 ∧ tried.Sublist hand ∧
      InHands hand tried s) (fun loc l s hat => ?_) fun l o s hready => hready.1
    have hnone : InHands [] [] s := by
      cases loc with
      | top hot => exact hat.hands
      | drain => exact hat.hands
      | stopping => exact hat.1.hands
      | unwinding => exact hat.elim
      | ended => exact hat
    exact ⟨[], [], Nat.zero_le 1, List.Sublist.refl _, hnone⟩
  obtain ⟨hand, tried, hone, htried, done, htaken, hfinished, hwritten⟩ := hhands
  refine ⟨hbooks.fifo, ?_, ⟨hand.map Prod.fst, ?_, ?_⟩, ?_, ?_, ?_⟩
  · refine hholds.rightView (J := fun _ s => ∃ pending, pending.length ≤ 1 ∧
      Pending status.maxCylinders pending s) (fun loc b s hat => ?_) fun b o s hready => hready.1
    exact ⟨[], Nat.zero_le 1, hat.2.1⟩
  · rwa [List.length_map]
  · rw [htaken, hfinished, List.map_append]
  · rw [htaken]
    exact hwritten.trans (((List.Sublist.refl done).append htried).map _)
  · intro request bits fromIndex density hnext
    obtain ⟨-, ⟨id, mine, htaken, -, -⟩, hbits, hthere⟩ := (hholds.leftReady hnext).2
    exact ⟨⟨id, by rw [htaken, List.getLast?_concat]⟩, hbits, hthere⟩
  · intro hreturned
    have hfinal : Finished m.snap := hbooks.finished (hbooks.dropped hreturned)
    refine ⟨?_, hfinal⟩
    rw [hbooks.fifo, hfinal.queued, List.append_nil]

/-- Submit a write and drop the bridge, which waits for the worker. -/
def writeThenDrop : Schedule true :=
  calling (.submitWrite oneWord) 5 {} ++ calling .drop 2 {} ++ working (.replicate 8 {})
    ++ working [{}] ++ working (.replicate 3 {}) ++ .replicate 2 (.right {})

theorem inOrder_of_writeThenDrop : ∃ m : Moment true, m.right.result? = some .dropped ∧
    gather accepts m.snap.trace = [(⟨1⟩, oneWord)] ∧ InOrder 80 m := by
  have hplay : ((play (orderly true) (opened true .normal ⟨5, .upper⟩) writeThenDrop).any
      fun m => m.right.result? = some .dropped ∧
        gather accepts m.snap.trace = [(⟨1⟩, oneWord)]) = true := by
    decide +kernel
  obtain ⟨m, hrun, htest⟩ := exists_reach_of_play hplay
  obtain ⟨hdropped, haccepted⟩ : m.right.result? = some .dropped ∧
      gather accepts m.snap.trace = [(⟨1⟩, oneWord)] := by simpa using htest
  exact ⟨m, hdropped, haccepted, inOrder_of_orderly hrun⟩

end Runs

end FluxBridge
