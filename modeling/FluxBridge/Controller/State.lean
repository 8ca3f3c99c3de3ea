import Mathlib.Data.List.AList
import FluxBridge.Atomic.System
import FluxBridge.Types

/-!
# What the worker and the bridge share

`src/controller.rs` has two threads: the worker, which owns the device, and the caller, who holds
the `Bridge`. They share four mutexes (`status`, `captures`, `desired`, `partial`) and three
bounded channels (commands, events, nudge).

An `Op` is one atomic step of either thread: one section under one lock, one operation on one
channel, or one call of the `Device` trait. `exec` says what it does. Everything the program does
not decide is in `Outside`: what the device answers and where it leaves the head, the time, the
choice of `select!`, and which key the iteration over a `HashMap` meets first.

The worker's own fields (`Worker`) and the bridge's own fields (`Bridge`) are private states of
the two threads, see `Controller/Worker.lean` and `Controller/Bridge.lean`.
-/

namespace FluxBridge

open Atomic

def COMMAND_CAPACITY : Nat := 64
def EVENT_CAPACITY : Nat := 64
/-- Hard ceiling on readings kept per track. -/
def CAPTURES_PER_TRACK : Nat := 2
def MAX_CACHED_TRACKS : Nat := 8
def INDEX_WRITE_SLACK_BITS : Nat := 30

inductive Command where
  | noClick (side : Side)
  | write (id : WriteId) (request : WriteRequest)
  | shutdown
  deriving DecidableEq, Repr

/-- The caller's latest wish for the mechanism, overwritten rather than queued. -/
structure Desired where
  motor : Option (Side × Bool)
  target : Option TrackAddress
  wanted : Option TrackAddress
  deriving DecidableEq, Repr

/-- `Desired::default`. -/
def Desired.none : Desired := { motor := .none, target := .none, wanted := .none }

/-- A capture still on its way in. -/
structure PartialCapture where
  track : TrackAddress
  words : List (BitVec 16)
  bitLen : Nat
  deriving DecidableEq, Repr

/--
A capture in the cache. `readAt` is not in the source: it numbers the device call that read the
capture, so that statements can say when it was taken.
-/
structure Cached where
  capture : TrackCapture
  readAt : Nat
  deriving DecidableEq, Repr

/--
An event in its channel. `sentAt` and `taken` are not in the source: the number of device calls
made, and of captures cached, when the event was sent.
-/
structure Sent where
  event : BridgeEvent
  sentAt : Nat
  taken : Nat
  deriving DecidableEq, Repr

/-- Keyed by track, the readings of each from oldest to newest. -/
abbrev CaptureCache : Type := AList fun _ : TrackAddress => List Cached

/-- How many readings of a track are worth holding, given the newest one. -/
def wantedDepth (newest : Option TrackCapture) : Nat :=
  match newest with
  | some capture => if !capture.quality.reusable then CAPTURES_PER_TRACK else 1
  | none => 1

/-- The shared state. -/
structure World where
  status : DriveStatus
  captures : CaptureCache
  desired : Desired
  inFlight : Option PartialCapture
  commands : List Command
  events : List Sent
  nudged : Bool
  /-- the worker still holds its ends of the channels -/
  workerAlive : Bool
  /-- where the mechanism really is -/
  head : TrackAddress
  /-- history: the device calls made, which of them was the last read and where the head was
  then, and the captures cached -/
  deviceCalls : Nat
  lastRead : Nat
  readFrom : TrackAddress
  taken : Nat

/-- What the outside decides at one step. -/
structure Outside where
  result : Except Error Unit := .ok ()
  /-- where the head is after a move that failed -/
  lands : TrackAddress := ⟨0, .lower⟩
  status : Except Error DriveStatus := .error .disconnected
  /-- how often a read reports progress, and what it reports -/
  reports : Nat := 0
  words : List (BitVec 16) := []
  bitLen : Nat := 0
  capture : Except Error RawCapture := .error .disconnected
  now : Nat := 0
  /-- how often a stalling read finds its deadline not yet passed -/
  polls : Nat := 0
  preferNudge : Bool := false
  /-- which of the tracks that may be evicted the iteration meets first -/
  victim : Nat := 0

inductive Selected where
  | command (c : Command)
  | nudge
  | timeout
  deriving DecidableEq, Repr

/-- A call of the public API. -/
inductive Call where
  | setMotor (side : Side) (enabled : Bool)
  | seek (track : TrackAddress)
  | noClickStep (side : Side)
  | readTrack (track : TrackAddress)
  | partialTrack (track : TrackAddress)
  | advanceRevolution (track : TrackAddress)
  | submitWrite (request : WriteRequest)
  | pollEvent
  | drop
  deriving DecidableEq, Repr

/-- What a call of the public API returned. -/
inductive Answer where
  | done (result : Except Error Unit)
  | capture (result : Except Error (Option Cached))
  | inFlight (result : Option (List (BitVec 16) × Nat))
  | accepted (result : Except Error WriteId)
  | event (event : Option Sent)
  | panicked
  deriving DecidableEq, Repr

/-- The atomic steps. -/
inductive Op where
  -- the command channel
  | selectCommand
  | tryRecvCommand
  | trySendCommand (command : Command)
  | sendShutdown
  -- the nudge channel
  | nudge
  -- the event channel
  | trySendEvent (event : BridgeEvent)
  | tryRecvEvent
  -- under the lock of `desired`
  | wishMotor (side : Side) (enabled : Bool)
  | wishTarget (track : TrackAddress)
  | wishTrack (track : TrackAddress)
  | takeDesired
  -- under the lock of `status`
  | readStatus
  | confirmPosition (cylinder : Nat) (side : Side)
  | confirmMotor (enabled : Bool)
  | replaceStatus (status : DriveStatus)
  | markStopped
  -- under the lock of `captures`
  | frontCapture (track : TrackAddress)
  | retireFront (track : TrackAddress)
  | revolutionBits (request : WriteRequest)
  | targetFull (track : TrackAddress)
  | invalidate (track : TrackAddress)
  | clearCaptures
  | storeCapture (track : TrackAddress) (capture : TrackCapture)
  -- under the lock of `partial`
  | publish (track : TrackAddress)
  | withdraw
  | readInFlight (track : TrackAddress)
  -- calls of the `Device` trait
  | deviceSeek (cylinder : Nat)
  | deviceSide (side : Side)
  | deviceMotor (enabled quick : Bool)
  | deviceNoClick
  | deviceStatus
  | deviceRead (track : TrackAddress) (mode : ReadMode) (density : DensityMode)
  | deviceReadResult
  | deviceWrite (request : WriteRequest) (bits : Nat) (fromIndex : Bool) (density : DensityMode)
  -- the clock
  | now
  | stallPolls (timeout : Nat)
  -- the ends of the threads, and the calls of the API
  | exit
  | join
  | called (call : Call)
  | returned (call : Call) (answer : Answer)

/-- What each step returns. -/
@[reducible] def Op.Ret : Op → Type
  | .selectCommand => Selected
  | .tryRecvCommand => Option Command
  | .trySendCommand _ => Except Error Unit
  | .trySendEvent _ => Bool
  | .tryRecvEvent => Option Sent
  | .takeDesired => Desired
  | .readStatus => DriveStatus
  | .frontCapture _ | .retireFront _ => Option Cached
  | .revolutionBits _ => Nat
  | .targetFull _ => Bool
  | .readInFlight _ => Option (List (BitVec 16) × Nat)
  | .deviceSeek _ | .deviceSide _ | .deviceMotor _ _ | .deviceNoClick => Except Error Unit
  | .deviceStatus => Except Error DriveStatus
  | .deviceRead _ _ _ => Nat
  | .deviceReadResult => Except Error RawCapture
  | .deviceWrite _ _ _ _ => Except Error Unit
  | .now | .stallPolls _ => Nat
  -- the track that was evicted for the capture; the source does not look at it
  | .storeCapture _ _ => Option TrackAddress
  | .sendShutdown | .nudge | .wishMotor _ _ | .wishTarget _ | .wishTrack _ | .confirmPosition _ _
  | .confirmMotor _ | .replaceStatus _ | .markStopped | .invalidate _
  | .clearCaptures | .publish _ | .withdraw | .exit | .join | .called _ | .returned _ _ => Unit

/-- The steps as a signature of programs. -/
@[reducible] def controllerSig : Sig where
  Op := Op
  Ret := Op.Ret

namespace World

/-- The readings of a track, oldest first. -/
def queue (w : World) (track : TrackAddress) : List Cached :=
  (w.captures.lookup track).getD []

/-- `lock(&captures).get(&track).and_then(VecDeque::front)`. -/
def front (w : World) (track : TrackAddress) : Option Cached := (w.queue track).head?

/-- One more call of the device. -/
def call (w : World) : World := { w with deviceCalls := w.deviceCalls + 1 }

/-- A command into the bounded channel. -/
def trySend (w : World) (command : Command) : Except Error Unit × World :=
  if !w.workerAlive then (.error .workerStopped, w)
  else if w.commands.length < COMMAND_CAPACITY then
    (.ok (), { w with commands := w.commands ++ [command] })
  else (.error (.invalidConfig "bridge command queue is full"), w)

/-- An event into the bounded channel. -/
def sendEvent (w : World) (event : BridgeEvent) : Bool × World :=
  if w.events.length < EVENT_CAPACITY then
    (true, { w with events := w.events ++ [⟨event, w.deviceCalls, w.taken⟩] })
  else (false, w)

/-- `crossbeam_channel::select!` over the two channels, or its `default`. -/
def select (w : World) (preferNudge : Bool) : Selected × World :=
  match w.commands with
  | [] => if w.nudged then (.nudge, { w with nudged := false }) else (.timeout, w)
  | c :: rest =>
    if w.nudged && preferNudge then (.nudge, { w with nudged := false })
    else (.command c, { w with commands := rest })

/-- The first command in the queue, if it is the one the worker takes with this step. -/
def taken? (w : World) (o : Op) (i : Outside) : Option Command :=
  match o with
  | .selectCommand =>
    match (w.select i.preferNudge).1 with
    | .command c => some c
    | .nudge | .timeout => none
  | .tryRecvCommand => w.commands.head?
  | _ => none

/-- The depth check of `capture_if_needed`. -/
def full (w : World) (track : TrackAddress) : Bool :=
  let captures := w.captures.lookup track
  let depth := wantedDepth ((captures.bind List.getLast?).map Cached.capture)
  match captures with
  | some captures => depth ≤ captures.length
  | none => false

/-- The track that makes room for one that is not cached yet. -/
def evicted (captures : CaptureCache) (track : TrackAddress) (victim : Nat) :
    Option TrackAddress :=
  if MAX_CACHED_TRACKS ≤ captures.keys.length ∧ track ∉ captures then
    let others := captures.keys.filter fun key => key ≠ track
    others[victim % others.length]?
  else none

/-- Makes room for a track that is not cached yet, by dropping one of the others. -/
def evict (captures : CaptureCache) (track : TrackAddress) (victim : Nat) : CaptureCache :=
  match evicted captures track victim with
  | some key => captures.erase key
  | none => captures

/-- The end of `capture_if_needed`: evict, make the queue, push. -/
def store (w : World) (track : TrackAddress) (capture : TrackCapture) (victim : Nat) : World :=
  let cache := evict w.captures track victim
  let captures := (cache.lookup track).getD []
  let captures := if CAPTURES_PER_TRACK ≤ captures.length then captures.tail else captures
  { w with
    captures := cache.insert track (captures ++ [⟨capture, w.lastRead⟩])
    taken := w.taken + 1 }

/-- `advance_revolution`: pops the front of a track's queue, if the track has one. -/
def retire (w : World) (track : TrackAddress) : World :=
  match w.captures.lookup track with
  | some captures => { w with captures := w.captures.insert track captures.tail }
  | none => w

end World

open World in
/-- What each step does; `none` when it is blocked. -/
def exec : (o : Op) → Outside → World → Option (o.Ret × World)
  | .selectCommand, i, w => some (w.select i.preferNudge)
  | .tryRecvCommand, _, w =>
    match w.commands with
    | [] => some (none, w)
    | c :: rest => some (some c, { w with commands := rest })
  | .trySendCommand command, _, w => some (w.trySend command)
  | .sendShutdown, _, w =>
    -- a blocking send: it waits for room, unless nobody receives any more
    if !w.workerAlive then some ((), w)
    else if w.commands.length < COMMAND_CAPACITY then
      some ((), { w with commands := w.commands ++ [.shutdown] })
    else none
  | .nudge, _, w => some ((), { w with nudged := true })
  | .trySendEvent event, _, w => some (w.sendEvent event)
  | .tryRecvEvent, _, w =>
    match w.events with
    | [] => some (none, w)
    | e :: rest => some (some e, { w with events := rest })
  | .wishMotor side enabled, _, w =>
    some ((), { w with desired := { w.desired with motor := some (side, enabled) } })
  | .wishTarget track, _, w =>
    some ((), { w with desired := { w.desired with target := some track } })
  | .wishTrack track, _, w =>
    some ((), { w with desired := { w.desired with target := some track, wanted := some track } })
  | .takeDesired, _, w => some (w.desired, { w with desired := Desired.none })
  | .readStatus, _, w => some (w.status, w)
  | .confirmPosition cylinder side, _, w =>
    some ((), { w with status := { w.status with cylinder := cylinder, side := side } })
  | .confirmMotor enabled, _, w =>
    some ((), { w with status := { w.status with motorRunning := enabled } })
  | .replaceStatus status, _, w => some ((), { w with status := status })
  | .markStopped, _, w => some ((), { w with status := { w.status with working := false } })
  | .frontCapture track, _, w => some (w.front track, w)
  | .retireFront track, _, w => some (w.front track, w.retire track)
  | .revolutionBits request, _, w =>
    some (((w.front request.track).map fun c => c.capture.bitLen).getD request.bitLen, w)
  | .targetFull track, _, w => some (w.full track, w)
  | .invalidate track, _, w => some ((), { w with captures := w.captures.erase track })
  | .clearCaptures, _, w => some ((), { w with captures := ∅ })
  | .storeCapture track capture, i, w =>
    some (evicted w.captures track i.victim, w.store track capture i.victim)
  | .publish track, i, w => some ((), { w with inFlight := some ⟨track, i.words, i.bitLen⟩ })
  | .withdraw, _, w => some ((), { w with inFlight := none })
  | .readInFlight track, _, w =>
    some ((w.inFlight.filter fun p => p.track = track ∧ 0 < p.bitLen).map
      fun p => (p.words, p.bitLen), w)
  | .deviceSeek cylinder, i, w =>
    match i.result with
    | .ok () => some (.ok (), { w.call with head := { w.head with cylinder := cylinder } })
    | .error e =>
      some (.error e, { w.call with head := { w.head with cylinder := i.lands.cylinder } })
  | .deviceSide side, i, w =>
    match i.result with
    | .ok () => some (.ok (), { w.call with head := { w.head with side := side } })
    | .error e => some (.error e, { w.call with head := { w.head with side := i.lands.side } })
  | .deviceMotor _ _, i, w => some (i.result, w.call)
  | .deviceNoClick, i, w =>
    -- away from cylinder 0 the step may do anything to the cylinder
    let cylinder := if w.head.cylinder = 0 then 0 else i.lands.cylinder
    some (i.result, { w.call with head := { w.head with cylinder := cylinder } })
  | .deviceStatus, i, w => some (i.status, w.call)
  | .deviceRead _ _ _, i, w =>
    some (i.reports, { w.call with lastRead := w.deviceCalls + 1, readFrom := w.head })
  | .deviceReadResult, i, w => some (i.capture, w)
  | .deviceWrite _ _ _ _, i, w => some (i.result, w.call)
  | .now, i, w => some (i.now, w)
  | .stallPolls _, i, w => some (i.polls, w)
  | .exit, _, w => some ((), { w with workerAlive := false })
  | .join, _, w => if w.workerAlive then none else some ((), w)
  | .called _, _, w => some ((), w)
  | .returned _ _, _, w => some ((), w)

/-- Performs one step, in either thread. -/
abbrev step {L : Type} (o : Op) : Code controllerSig L o.Ret := perform (S := controllerSig) o

/-- The shared state and its steps. -/
@[reducible] def controller : Machine controllerSig where
  World := World
  Input := Outside
  exec := exec

end FluxBridge
