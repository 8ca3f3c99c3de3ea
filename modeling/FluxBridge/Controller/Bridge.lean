import FluxBridge.Atomic.Logic
import FluxBridge.Controller.Worker

/-!
# The bridge

The public methods of `Bridge` in `src/controller.rs`. They take `&mut self`, so one caller makes
one call after the other: a caller is a thread whose rounds are calls, in any order it likes,
until it drops the bridge.

`called` and `returned` mark where a call begins and ends; they change nothing.
-/

namespace FluxBridge

open Atomic

/-- The fields of `Bridge` that are not shared. -/
structure Bridge where
  nextWrite : Nat
  maxCylinders : Nat
  stallTimeout : Option Nat
  deriving DecidableEq, Repr

abbrev BridgeM : Type → Type := Code controllerSig Bridge

namespace Bridge

def clamp (track : TrackAddress) : BridgeM TrackAddress := do
  let b ← own
  pure (clampTrack track b.maxCylinders)

def setMotor (side : Side) (enabled : Bool) : BridgeM Answer := do
  step (.wishMotor side enabled)
  step .nudge
  pure (.done (.ok ()))

def seek (track : TrackAddress) : BridgeM Answer := do
  let track ← clamp track
  step (.wishTarget track)
  step .nudge
  pure (.done (.ok ()))

def noClickStep (side : Side) : BridgeM Answer := do
  let result ← step (.trySendCommand (.noClick side))
  pure (.done result)

/-- The loop of a stalling read, for the number of times it finds its deadline not yet passed. -/
def stall (track : TrackAddress) : Nat → BridgeM (Except Error (Option Cached))
  | 0 => pure (.ok none)
  | polls + 1 => do
    match ← step (.frontCapture track) with
    | some capture => pure (.ok (some capture))
    | none => do
      let status ← step .readStatus
      if !status.working then pure (.error .workerStopped) else stall track polls

def readTrack (track : TrackAddress) : BridgeM Answer := do
  let track ← clamp track
  step (.wishTrack track)
  match ← step (.frontCapture track) with
  | some capture => pure (.capture (.ok (some capture)))
  | none => do
    step .nudge
    let b ← own
    match b.stallTimeout with
    | none => pure (.capture (.ok none))
    | some timeout => do
      let polls ← step (.stallPolls timeout)
      let result ← stall track polls
      pure (.capture result)

def partialTrack (track : TrackAddress) : BridgeM Answer := do
  let track ← clamp track
  let result ← step (.readInFlight track)
  pure (.inFlight result)

def advanceRevolution (track : TrackAddress) : BridgeM Answer := do
  let track ← clamp track
  let _ ← step (.retireFront track)
  step (.wishTrack track)
  step .nudge
  pure (.done (.ok ()))

/-- The checks of `submit_write` on the request alone. -/
def validateRequest (request : WriteRequest) : Except Error Unit :=
  if request.words = [] then .error (.invalidConfig "cannot submit an empty write")
  else if USIZE_RANGE ≤ request.words.length * 16 then
    .error (.invalidConfig "write length overflow")
  else if request.bitLen = 0 ∨ request.words.length * 16 < request.bitLen then
    .error (.invalidConfig ("write bit length " ++ toString request.bitLen ++ " does not fit "
      ++ toString request.words.length ++ " words"))
  else if MAX_TRACK_BITS < request.bitLen then
    .error (.trackTooLarge request.bitLen MAX_TRACK_BITS)
  else .ok ()

/-- The placement check of `submit_write` against a known track length; `none` is a panic. -/
def checkPlacement (checks : Bool) (request : WriteRequest) (knownTrackBits : Nat) :
    Option (Except Error Unit) :=
  if knownTrackBits = 0 then some (.ok ())
  else
    (fromIndex checks request.startBit knownTrackBits).map fun fromIndex =>
      let wholeRevolution := decide (knownTrackBits ≤ request.bitLen + 16)
      if !fromIndex && !wholeRevolution then
        .error (.unplaceablePartialWrite request.startBit knownTrackBits)
      else .ok ()

/-- The end of `submit_write`: number the request and enqueue it. -/
def enqueueWrite (request : WriteRequest) : BridgeM Answer := do
  let b ← own
  let id : WriteId := ⟨b.nextWrite⟩
  -- a number is spent even when the queue has no room for the write
  update fun b => { b with nextWrite := max ((b.nextWrite + 1) % USIZE_RANGE) 1 }
  match ← step (.trySendCommand (.write id request)) with
  | .error e => pure (.accepted (.error e))
  | .ok () => pure (.accepted (.ok id))

def submitWrite (checks : Bool) (request : WriteRequest) : BridgeM Answer := do
  let track ← clamp request.track
  let request := { request with track := track }
  match validateRequest request with
  | .error e => pure (.accepted (.error e))
  | .ok () => do
    let status ← step .readStatus
    if status.writeProtected then pure (.accepted (.error .writeProtected))
    else do
      let front ← step (.frontCapture request.track)
      let knownTrackBits := (front.map fun c => c.capture.bitLen).getD 0
      match checkPlacement checks request knownTrackBits with
      | none => pure .panicked
      | some (.error e) => pure (.accepted (.error e))
      | some (.ok ()) => enqueueWrite request

def pollEvent : BridgeM Answer := do
  let event ← step .tryRecvEvent
  pure (.event event)

def drop : BridgeM Answer := do
  step .sendShutdown
  step .join
  pure (.done (.ok ()))

def perform (checks : Bool) : Call → BridgeM Answer
  | .setMotor side enabled => setMotor side enabled
  | .seek track => seek track
  | .noClickStep side => noClickStep side
  | .readTrack track => readTrack track
  | .partialTrack track => partialTrack track
  | .advanceRevolution track => advanceRevolution track
  | .submitWrite request => submitWrite checks request
  | .pollEvent => pollEvent
  | .drop => drop

end Bridge

/-- Whether the caller still holds the bridge. -/
inductive Holding where
  | holds
  | dropped
  deriving DecidableEq, Repr

/-- One call of the public API, from its beginning to its end. -/
def callRound (checks : Bool) (call : Call) : BridgeM Holding := do
  step (.called call)
  let answer ← Bridge.perform checks call
  step (.returned call answer)
  pure (if call = .drop then .dropped else .holds)

/-- The caller as a thread. -/
@[reducible] def callerThread (checks : Bool) : Thread controllerSig where
  Own := Bridge
  Loc := Holding
  Pick := Call
  next
    | .holds, call => some (callRound checks call)
    | .dropped, _ => none

/-! ## The running bridge -/

/-- A moment of a run. -/
abbrev Moment (checks : Bool) : Type :=
  Cfg controller (workerThread checks) (callerThread checks)

/-- The shared state right after `Bridge::from_device`. -/
def World.opened (status : DriveStatus) (head : TrackAddress) : World where
  status := status
  captures := ∅
  desired := Desired.none
  inFlight := none
  commands := []
  events := []
  nudged := false
  workerAlive := true
  head := head
  deviceCalls := 0
  lastRead := 0
  readFrom := head
  taken := 0

/-- `Bridge::from_device`: the worker is about to start and the caller holds the bridge. -/
def fromDevice (checks : Bool) (config : BridgeConfig) (status : DriveStatus)
    (head : TrackAddress) (now : Nat) : Moment checks where
  snap := ⟨World.opened status head, []⟩
  left := .ret (Worker.new config now) (.top false)
  right := .ret
    { nextWrite := 1, maxCylinders := status.maxCylinders,
      stallTimeout := if config.mode = .stalling then some config.stallTimeout else none }
    .holds

/-- What a run may meet, see `Atomic.Assume`. -/
abbrev Conditions (checks : Bool) : Type :=
  Assume controller (workerThread checks) (callerThread checks)

/-- Conditions that can be tested step by step. -/
@[reducible] def Conditions.of {checks : Bool}
    (left : Worker → Op → Outside → Snap controller → Bool)
    (right : Bridge → Op → Outside → Snap controller → Bool) : Conditions checks where
  left l o i s := left l o i s = true
  right b o i s := right b o i s = true

/-- The moments of all runs of an opened bridge that meet only what `asm` allows. -/
inductive Reachable {checks : Bool} (asm : Conditions checks) : Moment checks → Prop
  | intro {config : BridgeConfig} {status : DriveStatus} {head : TrackAddress} {now : Nat}
      {m : Moment checks} (run : Reach asm (fromDevice checks config status head now) m) :
      Reachable asm m

/-- A valid outline that every opened bridge meets is met at every reachable moment. -/
theorem Reachable.holds {checks : Bool} {asm : Conditions checks} {O : Outline asm}
    {m : Moment checks} (h : Reachable asm m) (hO : O.Valid)
    (hstart : ∀ config status head now, O.Holds (fromDevice checks config status head now)) :
    O.Holds m := by
  obtain ⟨run⟩ := h
  exact hO.holds run (hstart _ _ _ _)

/-- The runs without any restriction. -/
abbrev anyRun (checks : Bool) : Conditions checks :=
  .of (fun _ _ _ _ => true) fun _ _ _ _ => true

/-! ## Schedules -/

/-- The turns of a run, see `Atomic.play`. -/
abbrev Schedule (checks : Bool) : Type :=
  List (Turn controller (workerThread checks) (callerThread checks))

/-- A call that takes `steps` steps, all of which meet `i`. -/
def calling {checks : Bool} (call : Call) (steps : Nat) (i : Outside) : Schedule checks :=
  .rightNext call :: List.replicate steps (.right i)

/-- A round of the worker, step by step. -/
def working {checks : Bool} (inputs : List Outside) : Schedule checks :=
  .leftNext () :: inputs.map .left

/-- A drive that has just been opened. -/
def DriveStatus.idle : DriveStatus where
  working := true
  ready := true
  diskPresent := true
  writeProtected := false
  motorRunning := false
  cylinder := 0
  side := .lower
  driveType := .dd35
  maxCylinders := 80

/-- A bridge on an idle drive whose head is somewhere, with the first status reading due at 1. -/
def opened (checks : Bool) (mode : ReadMode) (head : TrackAddress) : Moment checks :=
  fromDevice checks { mode := mode, density := .auto, stallTimeout := 0 } .idle head 1

end FluxBridge
