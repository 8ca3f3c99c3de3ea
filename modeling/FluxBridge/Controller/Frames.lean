import FluxBridge.Controller.Actions

/-!
# What a step leaves alone

One lemma per component of `World`: the steps that do not concern it do not change it.
`Op.moves`, `Op.caches` and the like name the steps that do.
-/

namespace FluxBridge

open Atomic

namespace Op

/-- The steps that may move the head or switch the side. -/
def moves : Op → Bool
  | .deviceSeek _ | .deviceSide _ | .deviceNoClick => true
  | _ => false

/-- The step that reads a track from the device. -/
def reads : Op → Bool
  | .deviceRead _ _ _ => true
  | _ => false

/-- The steps on the command channel. -/
def commands : Op → Bool
  | .selectCommand | .tryRecvCommand | .trySendCommand _ | .sendShutdown => true
  | _ => false

/-- The steps on the event channel. -/
def events : Op → Bool
  | .trySendEvent _ | .tryRecvEvent => true
  | _ => false

/-- The steps that change the cache. -/
def caches : Op → Bool
  | .retireFront _ | .invalidate _ | .clearCaptures | .storeCapture _ _ => true
  | _ => false

/-- The step that adds to the cache. -/
def stores : Op → Bool
  | .storeCapture _ _ => true
  | _ => false

/-- The steps that change the wishes. -/
def wishes : Op → Bool
  | .wishMotor _ _ | .wishTarget _ | .wishTrack _ | .takeDesired => true
  | _ => false

/-- The steps that call the device. -/
def calls : Op → Bool
  | .deviceSeek _ | .deviceSide _ | .deviceMotor _ _ | .deviceNoClick | .deviceStatus
  | .deviceRead _ _ _ | .deviceWrite _ _ _ _ => true
  | _ => false

/-- The steps that change the shared status. -/
def statuses : Op → Bool
  | .confirmPosition _ _ | .confirmMotor _ | .replaceStatus _ | .markStopped => true
  | _ => false

/-- The steps that change the partial capture. -/
def partials : Op → Bool
  | .publish _ | .withdraw => true
  | _ => false

end Op

/-- A step of the machine is a step of `exec`, apart from the trace. -/
theorem exec_of_act {o : Op} {i : Outside} {r : o.Ret} {s s' : Snap controller}
    (h : controller.act o i s = some (r, s')) : exec o i s.world = some (r, s'.world) :=
  (Machine.act_eq_some.mp h).1

section Frames

variable {o : Op} {i : Outside} {w w' : World} {r : o.Ret}

/-- The head moves only by calls of the device that move it. -/
theorem exec_head (h : exec o i w = some (r, w')) (ho : o.moves = false) : w'.head = w.head := by
  cases o <;> simp only [Op.moves, reduceCtorEq] at ho <;>
    simp only [exec, World.select, World.trySend, World.sendEvent, World.call, World.store,
      World.retire] at h <;>
    grind

/-- Which read was the last one changes only by a read. -/
theorem exec_read (h : exec o i w = some (r, w')) (ho : o.reads = false) :
    w'.lastRead = w.lastRead ∧ w'.readFrom = w.readFrom := by
  cases o <;> simp only [Op.reads, reduceCtorEq] at ho <;>
    simp only [exec, World.select, World.trySend, World.sendEvent, World.call, World.store,
      World.retire] at h <;>
    grind

theorem exec_commands (h : exec o i w = some (r, w')) (ho : o.commands = false) :
    w'.commands = w.commands := by
  cases o <;> simp only [Op.commands, reduceCtorEq] at ho <;>
    simp only [exec, World.sendEvent, World.call, World.store, World.retire] at h <;>
    grind

theorem exec_events (h : exec o i w = some (r, w')) (ho : o.events = false) :
    w'.events = w.events := by
  cases o <;> simp only [Op.events, reduceCtorEq] at ho <;>
    simp only [exec, World.select, World.trySend, World.call, World.store, World.retire] at h <;>
    grind

/-- The cache changes only by the steps under its lock that change it. -/
theorem exec_captures (h : exec o i w = some (r, w')) (ho : o.caches = false) :
    w'.captures = w.captures := by
  cases o <;> simp only [Op.caches, reduceCtorEq] at ho <;>
    simp only [exec, World.select, World.trySend, World.sendEvent, World.call] at h <;>
    grind

/-- Captures are counted where they are stored. -/
theorem exec_taken (h : exec o i w = some (r, w')) (ho : o.stores = false) :
    w'.taken = w.taken := by
  cases o <;> simp only [Op.stores, reduceCtorEq] at ho <;>
    simp only [exec, World.select, World.trySend, World.sendEvent, World.call, World.retire]
      at h <;>
    grind

theorem exec_desired (h : exec o i w = some (r, w')) (ho : o.wishes = false) :
    w'.desired = w.desired := by
  cases o <;> simp only [Op.wishes, reduceCtorEq] at ho <;>
    simp only [exec, World.select, World.trySend, World.sendEvent, World.call, World.store,
      World.retire] at h <;>
    grind

/-- The shared status changes only by the worker's four writes to it. -/
theorem exec_status (h : exec o i w = some (r, w')) (ho : o.statuses = false) :
    w'.status = w.status := by
  cases o <;> simp only [Op.statuses, reduceCtorEq] at ho <;>
    simp only [exec, World.select, World.trySend, World.sendEvent, World.call, World.store,
      World.retire] at h <;>
    grind

theorem exec_inFlight (h : exec o i w = some (r, w')) (ho : o.partials = false) :
    w'.inFlight = w.inFlight := by
  cases o <;> simp only [Op.partials, reduceCtorEq] at ho <;>
    simp only [exec, World.select, World.trySend, World.sendEvent, World.call, World.store,
      World.retire] at h <;>
    grind

/-- Every call of the device is counted, and nothing else. -/
theorem exec_deviceCalls (h : exec o i w = some (r, w')) :
    w'.deviceCalls = w.deviceCalls + if o.calls then 1 else 0 := by
  cases o <;>
    simp only [exec, World.select, World.trySend, World.sendEvent, World.call, World.store,
      World.retire] at h <;>
    grind [Op.calls]

/-- The worker is alive until it exits. -/
theorem exec_workerAlive (h : exec o i w = some (r, w')) (ho : o ≠ .exit) :
    w'.workerAlive = w.workerAlive := by
  cases o <;> simp only [ne_eq, not_true_eq_false, reduceCtorEq] at ho <;>
    simp only [exec, World.select, World.trySend, World.sendEvent, World.call, World.store,
      World.retire] at h <;>
    grind

end Frames

/-! ## The moves -/

section Moves

variable {i : Outside} {w w' : World} {r : Except Error Unit}

/-- A seek that succeeds ends on its cylinder; one that fails may end anywhere. -/
theorem exec_deviceSeek {c : Nat} (h : exec (.deviceSeek c) i w = some (r, w')) :
    r = i.result ∧ (r = .ok () → w'.head = ⟨c, w.head.side⟩) ∧
      ∀ e, r = .error e → w'.head = ⟨i.lands.cylinder, w.head.side⟩ := by
  simp only [exec, World.call] at h
  cases hres : i.result with
  | error e => grind
  | ok _ => grind

/-- The same for the side. -/
theorem exec_deviceSide {side : Side} (h : exec (.deviceSide side) i w = some (r, w')) :
    r = i.result ∧ (r = .ok () → w'.head = ⟨w.head.cylinder, side⟩) ∧
      ∀ e, r = .error e → w'.head = ⟨w.head.cylinder, i.lands.side⟩ := by
  simp only [exec, World.call] at h
  cases hres : i.result with
  | error e => grind
  | ok _ => grind

/-- The no-click step leaves the side alone, and on cylinder 0 the cylinder too. -/
theorem exec_deviceNoClick (h : exec .deviceNoClick i w = some (r, w')) :
    w'.head.side = w.head.side ∧
      (w.head.cylinder = 0 ∨ i.lands.cylinder = w.head.cylinder → w'.head = w.head) := by
  simp only [exec, World.call, Option.some.injEq, Prod.mk.injEq] at h
  obtain ⟨-, rfl⟩ := h
  refine ⟨rfl, fun hc => ?_⟩
  rcases hc with hc | hc
  · simp only [hc, if_true]
    rw [← hc]
  · simp only [hc]
    split
    · next h0 => rw [← h0]
    · rfl

/-- A read is of the track the head is on, and is the last one. -/
theorem exec_deviceRead {track : TrackAddress} {mode : ReadMode} {density : DensityMode}
    {reports : Nat} (h : exec (.deviceRead track mode density) i w = some (reports, w')) :
    w'.readFrom = w.head ∧ w'.lastRead = w.deviceCalls + 1 ∧
      w'.deviceCalls = w.deviceCalls + 1 := by
  simp only [exec, World.call, Option.some.injEq, Prod.mk.injEq] at h
  obtain ⟨-, rfl⟩ := h
  exact ⟨rfl, rfl, rfl⟩

end Moves

/-! ## Taking a command -/

section Commands

variable {i : Outside} {w w' : World}

/-- A command that `select!` hands over was the first in its queue. -/
theorem exec_selectCommand {c : Command}
    (h : exec .selectCommand i w = some (.command c, w')) :
    w.taken? .selectCommand i = some c ∧ w.commands = c :: w'.commands := by
  simp only [exec, Option.some.injEq] at h
  refine ⟨by simp only [World.taken?, h], ?_⟩
  unfold World.select at h
  grind

/-- A command that `try_recv` hands over was the first in its queue. -/
theorem exec_tryRecvCommand {c : Command}
    (h : exec .tryRecvCommand i w = some (some c, w')) :
    w.taken? .tryRecvCommand i = some c ∧ w.commands = c :: w'.commands := by
  simp only [exec] at h
  unfold World.taken?
  grind

theorem exec_selectCommand_other {r : Selected} (h : exec .selectCommand i w = some (r, w'))
    (hr : ∀ c, r ≠ .command c) : w'.commands = w.commands := by
  simp only [exec, Option.some.injEq] at h
  unfold World.select at h
  grind

theorem exec_tryRecvCommand_none (h : exec .tryRecvCommand i w = some (none, w')) :
    w' = w ∧ w.commands = [] := by
  simp only [exec] at h
  grind

/-- A command goes to the end of the queue, or nothing happens. -/
theorem exec_trySendCommand {c : Command} {r : Except Error Unit}
    (h : exec (.trySendCommand c) i w = some (r, w')) :
    (r = .ok () ∧ w.workerAlive = true ∧ w'.commands = w.commands ++ [c]) ∨
      (r ≠ .ok () ∧ w' = w) := by
  simp only [exec, World.trySend] at h
  grind

/-- Shutdown goes to the end of the queue, unless nobody receives any more. -/
theorem exec_sendShutdown {r : Unit} (h : exec .sendShutdown i w = some (r, w')) :
    (w.workerAlive = true ∧ w'.commands = w.commands ++ [.shutdown]) ∨ w' = w := by
  simp only [exec] at h
  grind

end Commands

/-! ## The event channel -/

section Events

variable {o : Op} {i : Outside} {w w' : World} {r : o.Ret}

/-- An event in the channel was there before, or the step has sent it. -/
theorem event_of_exec (h : exec o i w = some (r, w')) {sent : Sent} (hsent : sent ∈ w'.events) :
    sent ∈ w.events ∨
      ∃ event, o = .trySendEvent event ∧ sent = ⟨event, w.deviceCalls, w.taken⟩ := by
  by_cases ho : o.events = true
  · cases o <;> simp only [Op.events, Bool.false_eq_true] at ho
    · simp only [exec, World.sendEvent] at h
      grind
    · simp only [exec] at h
      grind
  · rw [exec_events h (by simpa using ho)] at hsent
    exact Or.inl hsent

/-- An event goes to the end of the channel, or, when it is full, is lost. -/
theorem exec_trySendEvent {event : BridgeEvent} {r : Bool}
    (h : exec (.trySendEvent event) i w = some (r, w')) :
    w'.events = w.events ∨ w'.events = w.events ++ [⟨event, w.deviceCalls, w.taken⟩] := by
  simp only [exec, World.sendEvent] at h
  grind

/-- With room in the channel no event is lost. -/
theorem exec_trySendEvent_of_room {event : BridgeEvent} {r : Bool}
    (h : exec (.trySendEvent event) i w = some (r, w')) (hroom : w.events.length < EVENT_CAPACITY) :
    w'.events = w.events ++ [⟨event, w.deviceCalls, w.taken⟩] := by
  simp only [exec, World.sendEvent] at h
  grind

/-- An event that `try_recv` hands over was the first in the channel. -/
theorem exec_tryRecvEvent {sent : Sent} (h : exec .tryRecvEvent i w = some (some sent, w')) :
    w.events = sent :: w'.events := by
  simp only [exec] at h
  grind

theorem exec_tryRecvEvent_none (h : exec .tryRecvEvent i w = some (none, w')) :
    w'.events = w.events := by
  simp only [exec] at h
  grind

end Events

end FluxBridge
