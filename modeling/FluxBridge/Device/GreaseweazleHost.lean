import FluxBridge.Transport.Wire
import FluxBridge.Device.Session
import FluxBridge.Device.Greaseweazle

/-!
# The Greaseweazle protocol

`src/device/greaseweazle.rs`: the commands, and the device on top of them. `GreaseweazleHost` has
the fields of the source without the transport and the port. What an interface acknowledges with OK
is marked in the history, behind the last byte that was read of its reply.
-/

namespace FluxBridge

open Atomic

/-- Physical drive-select line. -/
inductive DriveSelect where
  | pcA
  | pcB
  | shugart0
  | shugart1
  | shugart2
  | shugart3
  deriving DecidableEq, Repr

/-- `device::drive_selection`: the bus and the drive. -/
def driveSelection : DriveSelect → Byte × Byte
  | .pcA => (1, 0)
  | .pcB => (1, 1)
  | .shugart0 => (2, 0)
  | .shugart1 => (2, 1)
  | .shugart2 => (2, 2)
  | .shugart3 => (2, 3)

/-- Open Greaseweazle device. -/
structure GreaseweazleHost extends Greaseweazle where
  status : DriveStatus
  delays : Vector (BitVec 16) 5
  bus : Byte
  drive : Byte
  selected : Bool
  deriving DecidableEq

namespace GreaseweazleHost

inductive Command where
  | getInfo
  | seek
  | head
  | setParams
  | getParams
  | motor
  | readFlux
  | writeFlux
  | getFluxStatus
  | select
  | deselect
  | setBusType
  | reset
  | getPin
  | noClickStep
  deriving DecidableEq, Repr

/-- The byte of a command. -/
def Command.code : Command → Byte
  | .getInfo => 0
  | .seek => 2
  | .head => 3
  | .setParams => 4
  | .getParams => 5
  | .motor => 6
  | .readFlux => 7
  | .writeFlux => 8
  | .getFluxStatus => 9
  | .select => 12
  | .deselect => 13
  | .setBusType => 14
  | .reset => 16
  | .getPin => 20
  | .noClickStep => 22

def Command.name : Command → String
  | .getInfo => "GetInfo"
  | .seek => "Seek"
  | .head => "Head"
  | .setParams => "SetParams"
  | .getParams => "GetParams"
  | .motor => "Motor"
  | .readFlux => "ReadFlux"
  | .writeFlux => "WriteFlux"
  | .getFluxStatus => "GetFluxStatus"
  | .select => "Select"
  | .deselect => "Deselect"
  | .setBusType => "SetBusType"
  | .reset => "Reset"
  | .getPin => "GetPin"
  | .noClickStep => "NoClickStep"

def Command.acknowledgementOperation (command : Command) : String :=
  "Greaseweazle " ++ command.name ++ " acknowledgement"

def ACK_OK : Byte := 0
def ACK_BAD_COMMAND : Byte := 1
def ACK_NO_INDEX : Byte := 2
def ACK_FLUX_OVERFLOW : Byte := 4
def ACK_FLUX_UNDERFLOW : Byte := 5
def ACK_WRITE_PROTECTED : Byte := 6

/-- Where the step interval and the motor delay stand within the delay block. -/
def DELAY_STEP : Fin 5 := 1
def DELAY_MOTOR : Fin 5 := 3

/-- Interval between head steps to ask the interface for, in microseconds. -/
def STEP_INTERVAL_US : BitVec 16 := 3000

/-! ## Commands -/

def commandPacket (command : Command) (parameters : List Byte) : Except Error (List Byte) :=
  if parameters.length + 2 < 256 then
    .ok (command.code :: BitVec.ofNat 8 (parameters.length + 2) :: parameters)
  else .error (.invalidConfig "Greaseweazle command too long")

def mapAck (command : Command) (ack : Byte) : Except Error Unit :=
  if ack = ACK_OK then .ok ()
  else if ack = ACK_BAD_COMMAND then
    .error (.protocol ("Greaseweazle rejected unsupported or malformed " ++ command.name
      ++ " command"))
  else if ack = ACK_NO_INDEX then .error (.timeout "Greaseweazle index pulse")
  else if ack = ACK_WRITE_PROTECTED then .error .writeProtected
  else if ack = ACK_FLUX_OVERFLOW then .error (.protocol "Greaseweazle flux overflow")
  else if ack = ACK_FLUX_UNDERFLOW then .error (.protocol "Greaseweazle flux underflow")
  else .error (.protocol ("Greaseweazle returned acknowledgement " ++ toString ack.toNat))

/-- What `command` and `raw_command_ack` begin with: a packet, and the two bytes that answer it. -/
def exchange (command : Command) (parameters : List Byte) :
    Host GreaseweazleHost (List Byte × Nat) := do
  let packet ← Fallible.ofExcept (commandPacket command parameters)
  let deadline ← deadlineFromNow
  let deadline ← writeAllUntil "Greaseweazle command" packet deadline
  readExactUntil command.acknowledgementOperation 2 deadline

/-- The rest of `command`, behind the two bytes. -/
def acceptReply (command : Command) (extra : Nat) (response : List Byte) (deadline : Nat) :
    Host GreaseweazleHost (List Byte) :=
  -- nothing is drained here: the payload of the other reply stays in the pipe
  if response.getD 0 0 ≠ command.code then
    Fallible.fail (.protocol ("Greaseweazle replied to command " ++ hexByte (response.getD 0 0)
      ++ " while " ++ hexByte command.code ++ " was pending"))
  else do
    Fallible.ofExcept (mapAck command (response.getD 1 0))
    let (output, _) ← readExactUntil "Greaseweazle command payload" extra deadline
    wire (.accepted command.code)
    pure output

def command (command : Command) (parameters : List Byte) (extra : Nat) :
    Host GreaseweazleHost (List Byte) := do
  let (response, deadline) ← exchange command parameters
  acceptReply command extra response deadline

/-- The rest of `raw_command_ack`. -/
def acceptAck (command : Command) (response : List Byte) : Host GreaseweazleHost Byte :=
  if response.getD 0 0 ≠ command.code then
    Fallible.fail (.protocol "Greaseweazle command acknowledgement was out of sequence")
  else if response.getD 1 0 = ACK_OK then do
    wire (.accepted command.code)
    pure (response.getD 1 0)
  else pure (response.getD 1 0)

def rawCommandAck (command : Command) (parameters : List Byte) : Host GreaseweazleHost Byte := do
  let (response, _) ← exchange command parameters
  acceptAck command response

def expectOk (code : Command) (parameters : List Byte) : Host GreaseweazleHost Unit := do
  let _ ← command code parameters 0
  pure ()

def setStatus (f : DriveStatus → DriveStatus) : Host GreaseweazleHost Unit :=
  Fallible.modify fun self => { self with status := f self.status }

def select (selected : Bool) : Host GreaseweazleHost Unit := do
  let self ← Fallible.self
  if selected = self.selected then pure ()
  else
    if selected then expectOk .select [self.drive] else expectOk .deselect []
    Fallible.modify fun self => { self with selected := selected }

/-- `if !self.status.motor_running { self.select(false)?; }` -/
def deselectIdle : Host GreaseweazleHost Unit := do
  let self ← Fallible.self
  if !self.status.motorRunning then select false else pure ()

/-- Pin 28, which says whether the disk is write protected. -/
def checkWriteProtect : Host GreaseweazleHost Unit := do
  let writeProtect ← command .getPin [28] 1
  setStatus fun status => { status with writeProtected := writeProtect.getD 0 0 == 0 }

/-- Pin 34, which says whether a disk is present; Shugart pin 2 cannot be sampled. -/
def checkDiskChange : Host GreaseweazleHost Unit := do
  let self ← Fallible.self
  if self.bus = 1 then
    let diskChange ← command .getPin [34] 1
    setStatus fun status => { status with diskPresent := diskChange.getD 0 0 == 1 }
  else setStatus fun status => { status with diskPresent := true }

def checkPins : Host GreaseweazleHost Unit := do
  let self ← Fallible.self
  select true
  checkWriteProtect
  checkDiskChange
  if !self.status.motorRunning then select false else pure ()

/-- `u16::to_le_bytes` and `u32::to_le_bytes`. -/
def le16 (value : BitVec 16) : List Byte := [value.extractLsb' 0 8, value.extractLsb' 8 8]
def le32 (value : Nat) : List Byte :=
  [BitVec.ofNat 8 value, BitVec.ofNat 8 (value / 2 ^ 8), BitVec.ofNat 8 (value / 2 ^ 16),
    BitVec.ofNat 8 (value / 2 ^ 24)]

def updateDelays : Host GreaseweazleHost Unit := do
  let self ← Fallible.self
  expectOk .setParams (0 :: self.delays.toList.flatMap le16)

/-- A delay that is not the desired one is told to the interface. -/
def setDelay (index : Fin 5) (delay : BitVec 16) : Host GreaseweazleHost Unit := do
  let self ← Fallible.self
  if self.delays.get index ≠ delay then
    Fallible.modify fun self => { self with delays := self.delays.set index delay }
    updateDelays
  else pure ()

/-! ## Reading -/

/-- `decode_at_density`, which changes the density where it succeeds. -/
def decodeAtDensity (raw : List Byte) (density : DensityMode) :
    Host GreaseweazleHost (List FluxEvent) := do
  let self ← Fallible.self
  let (flux, events) ← Fallible.ofExcept (self.toGreaseweazle.decodeAtDensity raw density)
  Fallible.modify fun self => { self with toGreaseweazle := flux }
  pure events

/-- The bit cells of a stream so far, handed to `progress`. -/
def publish (events : List FluxEvent) : Host GreaseweazleHost (List Bool) := do
  let bits := (PllDecoder.new.run events).2
  wire (.progress (packBits bits) bits.length)
  pure bits

/-- How much a stream has to grow between two publishes. -/
def PUBLISH_BYTES : Nat := 4 * 1024

/-- A publish of a stream that goes on: one that fails to decode is not an error. Returns how much
of the stream is published. -/
def publishPartial (density : DensityMode) (raw : List Byte) (published : Nat) :
    Host GreaseweazleHost Nat :=
  if published + PUBLISH_BYTES ≤ raw.length then do
    let decoded ← Fallible.attempt (decodeAtDensity raw density)
    match decoded with
    | .ok events => do
      let _ ← publish events
      pure raw.length
    | .error _ => pure published
  else pure published

/-- The publish of a whole stream. -/
def publishWhole (density : DensityMode) (raw : List Byte) : Host GreaseweazleHost (List Bool) := do
  let events ← decodeAtDensity raw density
  publish events

/-- `drain_fast_stream`, with what was read already and how much of it is published. -/
def drainFastStream (density : DensityMode) :
    Nat → List Byte → Nat → Host GreaseweazleHost (List Bool)
  | 0, raw, _ =>
    if MAX_STREAM_BYTES ≤ raw.length then
      Fallible.fail (.trackTooLarge (raw.length * 8) (MAX_STREAM_BYTES * 8))
    else Fallible.fail (.timeout "Greaseweazle flux stream")
  | deadline + 1, raw, published =>
    if MAX_STREAM_BYTES ≤ raw.length then
      Fallible.fail (.trackTooLarge (raw.length * 8) (MAX_STREAM_BYTES * 8))
    else do
      setTimeout
      let answer ← wire (.read CHUNK_BYTES)
      match answer with
      -- a read of nothing is the end of the port
      | .ok ⟨[], _⟩ => Fallible.fail .disconnected
      | .ok ⟨bytes, _⟩ =>
        if 0 ∈ bytes then publishWhole density (raw ++ bytes.takeWhile fun byte => byte ≠ 0)
        else do
          let published ← publishPartial density (raw ++ bytes) published
          drainFastStream density deadline (raw ++ bytes) published
      | .error kind =>
        if kind.isTimeout then drainFastStream density deadline raw published
        else Fallible.fail (.io kind)
termination_by structural deadline => deadline

/-- The parameters of a `ReadFlux`: ticks, index pulses, and the ticks behind the last one. -/
def fluxHeader (ticks maxIndex linger : Nat) : List Byte :=
  le32 ticks ++ le16 (BitVec.ofNat 16 maxIndex) ++ le32 linger

/-- `u32::try_from(..).expect(..)` -/
def expectU32 (value : Nat) : Host GreaseweazleHost Nat :=
  orPanic (if value < U32_RANGE then some value else none)

/-- What the flux status says of an attempt; `none` is another one, on a purged pipe. What `map_ack`
makes of the other statuses is an error. -/
def settleAttempt {α : Type} (result : α) (stale : Host GreaseweazleHost Unit) (last : Bool)
    (status : Byte) : Host GreaseweazleHost (Option α) :=
  if status = ACK_OK then do
    setStatus fun status => { status with diskPresent := true, ready := true }
    pure (some result)
  else if status = ACK_NO_INDEX then do
    setStatus fun status => { status with diskPresent := false }
    Fallible.fail (.timeout "Greaseweazle index pulse")
  else if status = ACK_FLUX_OVERFLOW then
    if last then Fallible.fail (.protocol "Greaseweazle flux receive buffer overflowed")
    else do
      purge
      stale
      pure none
  else Fallible.ofExcept ((mapAck .getFluxStatus status).map fun _ => none)

/-- The body of the loop over the attempts. -/
def attemptRead {α : Type} (header : List Byte) (drain : Host GreaseweazleHost α)
    (stale : Host GreaseweazleHost Unit) (last : Bool) : Host GreaseweazleHost (Option α) := do
  expectOk .readFlux header
  let result ← drain
  let status ← rawCommandAck .getFluxStatus []
  settleAttempt result stale last status

/-- The loop over the attempts, of which `again` more may follow the first. -/
def attempts {α : Type} (header : List Byte) (drain : Host GreaseweazleHost α)
    (stale : Host GreaseweazleHost Unit) : Nat → Host GreaseweazleHost α
  | 0 => do
    let outcome ← attemptRead header drain stale true
    orPanic outcome
  | again + 1 => do
    let outcome ← attemptRead header drain stale false
    match outcome with
    | some result => pure result
    | none => attempts header drain stale again

/-- `drain_fast_stream` with a deadline of its own. -/
def drainFast (density : DensityMode) : Host GreaseweazleHost (List Bool) := do
  let deadline ← deadlineFromNow
  drainFastStream density deadline [] 0

/-- The end of `read_stream_fast`: one revolution of the cells. -/
def joinRevolution (bits : List Bool) : Host GreaseweazleHost RawCapture := do
  let self ← Fallible.self
  let joined ← orPanic (bitsToUnalignedRevolution bits self.highDensity)
  let joined ← Fallible.ofExcept joined
  let capture : RawCapture :=
    { words := packBits joined, bitLen := joined.length, indexAligned := false }
  Fallible.ofExcept (validateCapture capture)
  pure capture

def readStreamFast (density : DensityMode) : Host GreaseweazleHost RawCapture := do
  select true
  let self ← Fallible.self
  let ticks ← expectU32 (self.sampleFrequency * 232 / 1000)
  let bits ← attempts (fluxHeader ticks 0 0) (drainFast density) (wire (.progress [] 0)) 2
  deselectIdle
  joinRevolution bits

/-- `read_terminated_until` with a deadline of its own, and its ceiling. -/
def drainWhole : Host GreaseweazleHost (List Byte) := do
  let deadline ← deadlineFromNow
  let stream ← readTerminatedUntil "Greaseweazle flux stream" MAX_STREAM_BYTES deadline []
  if MAX_STREAM_BYTES ≤ stream.length then
    Fallible.fail (.trackTooLarge (stream.length * 8) (MAX_STREAM_BYTES * 8))
  else pure stream

/-- The cells between two index pulses, or of one revolution without them. -/
def cutRevolution (events : List FluxEvent) (mode : ReadMode) :
    Host GreaseweazleHost (List (BitVec 16) × Nat × Bool) :=
  if mode ≠ .normal then Fallible.ofExcept (fluxToRevolution events)
  else do
    let self ← Fallible.self
    let result ← orPanic (fluxToUnalignedRevolution events self.highDensity)
    Fallible.ofExcept (result.map fun (words, bits) => (words, bits, false))

/-- The end of `read_stream`: one revolution of the stream. -/
def extractRevolution (stream : List Byte) (mode : ReadMode) (density : DensityMode) :
    Host GreaseweazleHost RawCapture := do
  let events ← decodeAtDensity stream density
  let (words, bitLen, extractedIndex) ← cutRevolution events mode
  let capture : RawCapture :=
    { words := words, bitLen := bitLen, indexAligned := mode ≠ .normal && extractedIndex }
  Fallible.ofExcept (validateCapture capture)
  pure capture

/-- The window of a read: its ticks, the index pulses, and the ticks behind the last one. -/
def readWindow (mode : ReadMode) : Host GreaseweazleHost (Nat × Nat × Nat) := do
  let self ← Fallible.self
  if mode = .normal then
    let ticks ← expectU32 (self.sampleFrequency * 232 / 1000)
    pure (ticks, 0, 0)
  else
    let ticks ← expectU32 (self.sampleFrequency * 2)
    let linger ← expectU32 (self.sampleFrequency * 20 / 1000)
    pure (ticks, 2, linger)

def readStream (mode : ReadMode) (density : DensityMode) : Host GreaseweazleHost RawCapture := do
  select true
  let (ticks, maxIndex, linger) ← readWindow mode
  let stream ← attempts (fluxHeader ticks maxIndex linger) drainWhole (pure ()) 2
  deselectIdle
  extractRevolution stream mode density

/-! ## Writing -/

/-- What the acknowledgement of a `WriteFlux` says. -/
def writeAccepted (ack : Byte) : Except Error Unit :=
  if ack = ACK_OK then .ok ()
  else if ack = ACK_WRITE_PROTECTED then .error .writeProtected
  else mapAck .writeFlux ack

/-- What the flux status behind a write says. -/
def writeOutcome (status : Byte) : Except Error Unit :=
  if status = ACK_OK then .ok ()
  else if status = ACK_WRITE_PROTECTED then .error .writeProtected
  else if status = ACK_FLUX_UNDERFLOW then
    .error (.protocol "Greaseweazle flux transmit buffer underflowed")
  else mapAck .getFluxStatus status

/-- The stream of a write that was accepted, and the byte that says that it has ended. -/
def sendStream (stream : List Byte) : Host GreaseweazleHost Unit := do
  let deadline ← deadlineFromNow
  let deadline ← writeAllUntil "Greaseweazle flux write" stream deadline
  let _ ← readExactUntil "Greaseweazle write completion" 1 deadline
  pure ()

def writeStream (words : List (BitVec 16)) (bitLen : Nat) (fromIndex : Bool) :
    Host GreaseweazleHost Unit := do
  let self ← Fallible.self
  let stream ← Fallible.ofExcept (self.toGreaseweazle.fluxStream words bitLen)
  select true
  let ack ← rawCommandAck .writeFlux [if fromIndex then 1 else 0, 0]
  Fallible.ofExcept (writeAccepted ack)
  sendStream (stream ++ [0])
  let status ← rawCommandAck .getFluxStatus []
  Fallible.ofExcept (writeOutcome status)

/-! ## The device -/

def setMotor (enabled quick : Bool) : Host GreaseweazleHost Unit := do
  setDelay DELAY_MOTOR (if quick then 10 else 750)
  let self ← Fallible.self
  expectOk .motor [self.drive, if enabled then 1 else 0]
  -- the motor is said to run before the drive is known to be selected
  setStatus fun status => { status with motorRunning := enabled }
  select enabled

def seek (cylinder : Nat) : Host GreaseweazleHost Unit := do
  let self ← Fallible.self
  if self.status.maxCylinders ≤ cylinder then
    Fallible.fail (.invalidConfig ("Greaseweazle cylinder " ++ toString cylinder
      ++ " is out of range"))
  else
    select true
    expectOk .seek [BitVec.ofNat 8 cylinder]
    setStatus fun status => { status with cylinder := cylinder }
    deselectIdle

def selectSide (side : Side) : Host GreaseweazleHost Unit := do
  expectOk .head [if side = .lower then 0 else 1]
  setStatus fun status => { status with side := side }

def noClickStep : Host GreaseweazleHost Unit := do
  select true
  expectOk .noClickStep []
  checkPins

def readStatus : Host GreaseweazleHost DriveStatus := do
  checkPins
  setStatus fun status =>
    { status with working := true, ready := status.motorRunning && status.diskPresent }
  let self ← Fallible.self
  pure self.status

def readTrack (mode : ReadMode) (density : DensityMode) : Host GreaseweazleHost RawCapture :=
  if mode = .normal then readStreamFast density else readStream mode density

def writeTrack (words : List (BitVec 16)) (bitLen : Nat) (fromIndex : Bool)
    (density : DensityMode) : Host GreaseweazleHost Unit := do
  Fallible.modify fun self =>
    { self with highDensity := density = .high || (density = .auto && self.highDensity) }
  writeStream words bitLen fromIndex

/-- The device a write is encoded by: its density is the one the call asks for. -/
def atDensity (self : GreaseweazleHost) (density : DensityMode) : GreaseweazleHost :=
  { self with highDensity := density = .high || (density = .auto && self.highDensity) }

/-- A call of the `Device` trait. -/
def serve : DeviceCall → Host GreaseweazleHost Unit
  | .status => do let _ ← readStatus; pure ()
  | .setMotor enabled quick => setMotor enabled quick
  | .seek cylinder => seek cylinder
  | .selectSide side => selectSide side
  | .noClickStep => noClickStep
  | .readTrack mode density => do let _ ← readTrack mode density; pure ()
  | .writeTrack words bitLen fromIndex density => writeTrack words bitLen fromIndex density

/-! ## Opening -/

def prepareTransport : Host GreaseweazleHost Unit := do
  let result ← wire (.setDtr true)
  Fallible.ofExcept result
  let result ← wire (.setRts true)
  Fallible.ofExcept result
  purge

def getFirmware : Host GreaseweazleHost (List Byte) := command .getInfo [0] 32

/-- The firmware record, which is asked for a second time on a purged pipe. -/
def firmwareOrPurge : Host GreaseweazleHost (List Byte) := do
  let first ← Fallible.attempt getFirmware
  match first with
  | .ok version => pure version
  | .error _ => do
    purge
    getFirmware

/-- `u32::from_le_bytes(version[4..8])` -/
def reportedFrequency (version : List Byte) : Nat :=
  (version.getD 4 0).toNat + 2 ^ 8 * (version.getD 5 0).toNat
    + 2 ^ 16 * (version.getD 6 0).toNat + 2 ^ 24 * (version.getD 7 0).toNat

theorem reportedFrequency_lt (version : List Byte) : reportedFrequency version < U32_RANGE := by
  have h₄ := (version.getD 4 0).isLt
  have h₅ := (version.getD 5 0).isLt
  have h₆ := (version.getD 6 0).isLt
  have h₇ := (version.getD 7 0).isLt
  unfold reportedFrequency U32_RANGE
  omega

/-- The delay block, as the interface has it. -/
def reportedDelays (bytes : List Byte) : Vector (BitVec 16) 5 :=
  Vector.ofFn fun index => (bytes.getD (2 * index + 1) 0) ++ (bytes.getD (2 * index) 0)

/-- The rest of `open`, once the sample frequency is known. -/
def initialise : Host GreaseweazleHost Unit := do
  let _ ← command .reset [] 0
  let delayBytes ← command .getParams [0, 10] 10
  Fallible.modify fun self => { self with delays := reportedDelays delayBytes }
  setDelay DELAY_STEP STEP_INTERVAL_US
  let self ← Fallible.self
  expectOk .setBusType [self.bus]
  checkPins
  setStatus fun status => { status with working := true, driveType := .hd35 }

/-- `open`, on a port that is open. The sample frequency the thread begins with is not looked at
before the interface has reported its own. -/
def openDevice (config : BridgeConfig) (drive : DriveSelect) : Host GreaseweazleHost Unit := do
  Fallible.modify fun self =>
    { self with
      status := { DriveStatus.initial with maxCylinders := 82 }
      delays := Vector.replicate 5 0
      bus := (driveSelection drive).1
      drive := (driveSelection drive).2
      selected := false
      highDensity := config.density = .high }
  prepareTransport
  let version ← firmwareOrPurge
  let major := (version.getD 0 0).toNat
  let minor := (version.getD 1 0).toNat
  if major = 0 ∧ minor < 27 then
    Fallible.fail (.unsupportedFirmware ("Greaseweazle " ++ toString major ++ "." ++ toString minor
      ++ "; version 0.27 or later is required"))
  else if version.getD 2 0 = 0 then
    Fallible.fail (.unsupportedFirmware "Greaseweazle is running update firmware")
  else if hfrequency : 0 < reportedFrequency version then do
    Fallible.modify fun self =>
      { self with
        sampleFrequency := reportedFrequency version
        frequency_pos := hfrequency
        frequency_lt := reportedFrequency_lt version }
    initialise
  else Fallible.fail (.protocol "Greaseweazle reported a zero sample frequency")

/-- A device that is still to be opened. -/
def unopened : GreaseweazleHost where
  sampleFrequency := 1
  highDensity := false
  frequency_pos := Nat.one_pos
  frequency_lt := by decide
  status := DriveStatus.initial
  delays := Vector.replicate 5 0
  bus := 0
  drive := 0
  selected := false

/-- A device from `open` to `drop`: the worker calls it as it likes, whatever the calls return. -/
def lifetime (config : BridgeConfig) (drive : DriveSelect) (calls : List DeviceCall) :
    Host GreaseweazleHost Unit := do
  let opened ← Fallible.attempt (openDevice config drive)
  match opened with
  | .ok () => session serve calls
  | .error _ => pure ()
  -- `drop` stops the motor whether or not the device was opened to the end
  let _ ← Fallible.attempt (setMotor false true)
  pure ()

end GreaseweazleHost

end FluxBridge
