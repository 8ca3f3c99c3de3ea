import FluxBridge.Controller.State
import FluxBridge.Flux.Scan

/-!
# The worker

`Worker` of `src/controller.rs`, method by method. The fields of the struct that no other thread
sees are the private state; `self.x = ...` is an `update`, everything shared is an `Op`.

`run` is a loop whose `select!`, drain and pass are rounds of a thread: `Loc` names the places
between them.

Overflow: `start_bit + 30` may exceed `usize`. With overflow checks the worker panics there,
without them the sum wraps. `checks` says which of the two builds is meant.
-/

namespace FluxBridge

open Atomic

/-- Consecutive device errors after which the drive is declared lost. -/
def MAX_CONSECUTIVE_ERRORS : Nat := 20

/-- Nanoseconds, the unit of the clock. -/
def NANOS_PER_MILLI : Nat := 1000000

structure Worker where
  config : BridgeConfig
  target : TrackAddress
  /-- The last track a consumer actually asked to read. -/
  wanted : Option TrackAddress
  physical : TrackAddress
  positioned : Bool
  failed : Bool
  consecutiveErrors : Nat
  motorStoppedAt : Option Nat
  generation : Nat
  nextStatus : Nat
  deriving DecidableEq, Repr

/-- `Worker::new`, at time `now`. -/
def Worker.new (config : BridgeConfig) (now : Nat) : Worker where
  config := config
  target := ⟨0, .lower⟩
  wanted := none
  physical := ⟨0, .lower⟩
  positioned := false
  failed := false
  consecutiveErrors := 0
  motorStoppedAt := none
  generation := 0
  nextStatus := now

abbrev WorkerM : Type → Type := Code controllerSig Worker

/-- How a step of the worker ended. -/
inductive Flow where
  | go
  | stop
  /-- the thread panicked -/
  | unwound
  deriving DecidableEq, Repr

/-- `a + b` on `usize`: `none` is a panic. -/
def addUsize (checks : Bool) (a b : Nat) : Option Nat :=
  if a + b < USIZE_RANGE then some (a + b)
  -- a debug build panics, a release build wraps
  else if checks then none
  else some (a + b - USIZE_RANGE)

/-- `start_bit <= 30 || start_bit + 30 >= track_bits`. -/
def fromIndex (checks : Bool) (startBit trackBits : Nat) : Option Bool :=
  if startBit ≤ INDEX_WRITE_SLACK_BITS then some true
  else (addUsize checks startBit INDEX_WRITE_SLACK_BITS).map fun sum => decide (trackBits ≤ sum)

/-! ## Errors -/

def disconnect (error : Error) : WorkerM Unit := do
  update fun w => { w with failed := true }
  step .markStopped
  let _ ← step (.trySendEvent (.disconnected error))

/-- The errors that declare the drive lost at once. -/
def Error.fatal : Error → Bool
  | .disconnected | .workerStopped => true
  | _ => false

def noteError (error : Error) : WorkerM Unit := do
  update fun w => { w with consecutiveErrors := w.consecutiveErrors + 1 }
  let w ← own
  if error.fatal || MAX_CONSECUTIVE_ERRORS ≤ w.consecutiveErrors then
    disconnect error
  else pure ()

def clearErrors : WorkerM Unit := update fun w => { w with consecutiveErrors := 0 }

/-! ## Position -/

def positionCylinder (track : TrackAddress) : WorkerM (Except Error Unit) := do
  let w ← own
  if !w.positioned || w.physical.cylinder != track.cylinder then
    match ← step (.deviceSeek track.cylinder) with
    | .error e => pure (.error e)
    | .ok () => do
      update fun w => { w with physical := { w.physical with cylinder := track.cylinder } }
      pure (.ok ())
  else pure (.ok ())

def positionSide (track : TrackAddress) : WorkerM (Except Error Unit) := do
  let w ← own
  if !w.positioned || w.physical.side != track.side then
    match ← step (.deviceSide track.side) with
    | .error e => pure (.error e)
    | .ok () => do
      update fun w => { w with physical := { w.physical with side := track.side } }
      pure (.ok ())
  else pure (.ok ())

def position (track : TrackAddress) : WorkerM (Except Error Unit) := do
  match ← positionCylinder track with
  | .error e => pure (.error e)
  | .ok () =>
    match ← positionSide track with
    | .error e => pure (.error e)
    | .ok () => do
      update fun w => { w with positioned := true }
      let w ← own
      step (.confirmPosition w.physical.cylinder w.physical.side)
      pure (.ok ())

/-! ## Writes -/

/-- The device part of `perform_write`; `none` is a panic. -/
def attemptWrite (checks : Bool) (request : WriteRequest) :
    WorkerM (Option (Except Error Unit)) := do
  match ← position request.track with
  | .error e => pure (some (.error e))
  | .ok () => do
    let trackBits ← step (.revolutionBits request)
    match fromIndex checks request.startBit trackBits with
    | none => pure none
    | some fromIndex => do
      let wholeRevolution := decide (trackBits ≤ request.bitLen + 16)
      if !fromIndex && !wholeRevolution then
        pure (some (.error (.unplaceablePartialWrite request.startBit trackBits)))
      else do
        let w ← own
        let result ← step (.deviceWrite request request.bitLen fromIndex w.config.density)
        pure (some result)

def writeEvent (id : WriteId) (request : WriteRequest) : Except Error Unit → BridgeEvent
  | .ok () => .writeCompleted id request.track request.bitLen
  | .error e => .writeFailed id request.track e

def performWrite (checks : Bool) (id : WriteId) (request : WriteRequest) : WorkerM Flow := do
  match ← attemptWrite checks request with
  | none => pure .unwound
  | some result => do
    -- the captures of the track go before the caller can hear of the write
    step (.invalidate request.track)
    let _ ← step (.trySendEvent (writeEvent id request result))
    pure .go

/-! ## Commands -/

def noClick (side : Side) : WorkerM (Except Error Unit) := do
  match ← step (.deviceSide side) with
  | .error e => pure (.error e)
  | .ok () => step .deviceNoClick

/-- The end of `process`: whether the worker has failed meanwhile. -/
def failedFlow : WorkerM Flow := do
  let w ← own
  pure (if w.failed then .stop else .go)

def process (checks : Bool) (command : Command) : WorkerM Flow := do
  match command with
  | .noClick side =>
    match ← noClick side with
    | .error e => do
      noteError e
      failedFlow
    | .ok () => failedFlow
  | .write id request =>
    match ← performWrite checks id request with
    | .go => failedFlow
    | flow => pure flow
  | .shutdown => pure .stop

/-! ## Wishes -/

/-- The motor part of `apply_desired`: position on the wished side, switch, and say so. -/
def applyMotor (side : Side) (enabled quick : Bool) : WorkerM (Except Error Unit) := do
  let w ← own
  match ← position { cylinder := w.target.cylinder, side := side } with
  | .error e => pure (.error e)
  | .ok () =>
    match ← step (.deviceMotor enabled quick) with
    | .error e => pure (.error e)
    | .ok () => do
      step (.confirmMotor enabled)
      pure (.ok ())

/-- Whether the motor may start without a fresh spin-up wait. -/
def quickStart (enabled : Bool) : WorkerM Bool := do
  if !enabled then pure true
  else do
    let w ← own
    match w.motorStoppedAt with
    | none => pure false
    | some stopped => do
      let now ← step .now
      pure (decide (now - stopped < 2000 * NANOS_PER_MILLI))

def applyMotorWish (side : Side) (enabled : Bool) : WorkerM Unit := do
  let quick ← quickStart enabled
  match ← applyMotor side enabled quick with
  | .error e => noteError e
  | .ok () => do
    clearErrors
    if !enabled then do
      let now ← step .now
      update fun w => { w with motorStoppedAt := some now }
    else pure ()

/-- The read wish. -/
def recordWanted : Option TrackAddress → WorkerM Unit
  | some track => update fun w => { w with wanted := some track }
  | none => pure ()

/-- The head wish; `false` ends `apply_desired` early. -/
def applyTarget : Option TrackAddress → WorkerM Bool
  | none => pure true
  | some track => do
    update fun w => { w with target := track }
    match ← position track with
    | .error e => do
      noteError e
      pure false
    | .ok () => do
      clearErrors
      pure true

def applyDesired : WorkerM Unit := do
  let wish ← step .takeDesired
  recordWanted wish.wanted
  let positioned ← applyTarget wish.target
  if positioned then
    match wish.motor with
    | none => pure ()
    | some (side, enabled) => applyMotorWish side enabled
  else pure ()

/-! ## Status -/

/-- Drops every capture and says so when the disk was changed. -/
def reportDisk (changed present : Bool) : WorkerM Unit :=
  if changed then do
    step .clearCaptures
    let _ ← step (.trySendEvent (.diskChanged present))
  else pure ()

/-- The reading of the status, when it is due. -/
def refreshStatus : WorkerM Unit := do
  let now ← step .now
  update fun w => { w with nextStatus := now + 250 * NANOS_PER_MILLI }
  let old ← step .readStatus
  match ← step .deviceStatus with
  | .error e => noteError e
  | .ok new => do
    let w ← own
    let new := { new with cylinder := w.physical.cylinder, side := w.physical.side }
    reportDisk (old.diskPresent != new.diskPresent) new.diskPresent
    step (.replaceStatus new)
    clearErrors

def refreshStatusIfDue : WorkerM Unit := do
  let w ← own
  let now ← step .now
  if now < w.nextStatus then pure ()
  else refreshStatus

/-! ## Captures -/

def captureQuality (capture : RawCapture) : CaptureQuality :=
  if capture.indexAligned then .indexAligned
  else
    match scanRevolution capture.words capture.bitLen with
    | .cleanAmigaDos sectors => .verifiedAmigaDos sectors
    | .damagedAmigaDos _ _ | .unrecognised => .unverified

/-- The track worth a capture, when there is one. -/
def captureTarget : WorkerM (Option TrackAddress) := do
  let status ← step .readStatus
  if !status.working || !status.motorRunning || !status.diskPresent then pure none
  else do
    let w ← own
    match w.wanted with
    | none => pure none
    | some demanded =>
      if demanded != w.target then pure none
      else do
        let full ← step (.targetFull demanded)
        pure (if full then none else some demanded)

/-- What a read reports on the way, and what it comes to. -/
def awaitCapture (wanted : TrackAddress) (reports : Nat) : WorkerM (Except Error RawCapture) := do
  times reports (step (.publish wanted))
  step .deviceReadResult

/-- `Device::read_track`, with the partial captures it reports on the way. -/
def readTrack (wanted : TrackAddress) : WorkerM (Except Error RawCapture) := do
  let w ← own
  let reports ← step (.deviceRead wanted w.config.mode w.config.density)
  awaitCapture wanted reports

/-- From a validated capture to its place in the cache. -/
def keepCapture (wanted : TrackAddress) (capture : RawCapture) : WorkerM Unit := do
  step .withdraw
  clearErrors
  update fun w => { w with generation := (w.generation + 1) % USIZE_RANGE }
  let w ← own
  let _ ← step (.storeCapture wanted
    { words := capture.words, bitLen := capture.bitLen, quality := captureQuality capture,
      generation := w.generation })
  pure ()

def captureIfNeeded : WorkerM Bool := do
  match ← captureTarget with
  | none => pure false
  | some wanted =>
    match ← position wanted with
    | .error e => do
      noteError e
      pure false
    | .ok () =>
      match ← readTrack wanted with
      | .error (.timeout _) => pure false
      | .error e => do
        noteError e
        pure false
      | .ok capture =>
        match validateCapture capture with
        | .error e => do
          noteError e
          pure false
        | .ok () => do
          keepCapture wanted capture
          pure true

/-! ## The loop -/

/-- Where the worker is between two rounds of `run`. -/
inductive Loc where
  /-- before `select!`, or, when `hot`, going straight round -/
  | top (hot : Bool)
  /-- before the next `try_recv` of the drain -/
  | drain
  /-- behind the loop -/
  | stopping
  /-- unwinding after a panic -/
  | unwinding
  /-- the thread has ended -/
  | ended
  deriving DecidableEq, Repr

/-- What follows a processed command. -/
def Flow.next : Flow → Loc
  | .go => .drain
  | .stop => .stopping
  | .unwound => .unwinding

def selectRound (checks : Bool) : WorkerM Loc := do
  match ← step .selectCommand with
  | .command c => do
    let flow ← process checks c
    pure flow.next
  | .nudge | .timeout => pure .drain

/-- Wishes, status, capture; each may end the loop. -/
def passRound : WorkerM Loc := do
  applyDesired
  let w ← own
  if w.failed then pure .stopping
  else do
    refreshStatusIfDue
    let w ← own
    if w.failed then pure .stopping
    else do
      let hot ← captureIfNeeded
      let w ← own
      pure (if w.failed then .stopping else .top hot)

def drainRound (checks : Bool) : WorkerM Loc := do
  match ← step .tryRecvCommand with
  | some c => do
    let flow ← process checks c
    pure flow.next
  | none => passRound

def stopRound : WorkerM Loc := do
  let _ ← step (.deviceMotor false true)
  step .markStopped
  step .exit
  pure .ended

def unwindRound : WorkerM Loc := do
  step .exit
  pure .ended

/-- `Worker::run`, round by round. -/
def round (checks : Bool) : Loc → Option (WorkerM Loc)
  | .top hot => some (if hot then pure .drain else selectRound checks)
  | .drain => some (drainRound checks)
  | .stopping => some stopRound
  | .unwinding => some unwindRound
  | .ended => none

/-- The worker as a thread. -/
@[reducible] def workerThread (checks : Bool) : Thread controllerSig where
  Own := Worker
  Loc := Loc
  Pick := Unit
  next loc _ := round checks loc

end FluxBridge
