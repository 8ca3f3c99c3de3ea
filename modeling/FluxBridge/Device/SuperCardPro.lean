import FluxBridge.Transport.Wire
import FluxBridge.Device.Session
import FluxBridge.Flux.Rotation

/-!
# SuperCard Pro

`src/device/supercard_pro.rs`: the serial protocol. `SuperCardPro` has the fields of the source
without the transport and the port.
-/

namespace FluxBridge

open Atomic

/-- Open SuperCard Pro device. -/
structure SuperCardPro where
  status : DriveStatus
  driveA : Bool
  selected : Bool
  highDensity : Bool
  deriving DecidableEq

namespace SuperCardPro

def RESPONSE_OK : Byte := 0x4f
def RESPONSE_WRITE_PROTECTED : Byte := 0x0f
def RESPONSE_NO_DISK : Byte := 0x11
def RESPONSE_NOT_READY : Byte := 0x08
def RESPONSE_OVERRUN : Byte := 0x15

inductive Command where
  | selectA
  | selectB
  | deselectA
  | deselectB
  | motorAOn
  | motorBOn
  | motorAOff
  | motorBOff
  | seekZero
  | stepTo
  | stepOut
  | side
  | status
  | setParams
  | writeFlux
  | loadRamUsb
  | startStream
  | stopStream
  | info
  deriving DecidableEq, Repr

/-- The byte of a command. -/
def Command.code : Command → Byte
  | .selectA => 0x80
  | .selectB => 0x81
  | .deselectA => 0x82
  | .deselectB => 0x83
  | .motorAOn => 0x84
  | .motorBOn => 0x85
  | .motorAOff => 0x86
  | .motorBOff => 0x87
  | .seekZero => 0x88
  | .stepTo => 0x89
  | .stepOut => 0x8b
  | .side => 0x8d
  | .status => 0x8e
  | .setParams => 0x91
  | .writeFlux => 0xa2
  | .loadRamUsb => 0xaa
  | .startStream => 0xae
  | .stopStream => 0xaf
  | .info => 0xd0

/-! ## Packets -/

def packet (command : Command) (payload : List Byte) : Except Error (List Byte) :=
  if payload.length < 256 then
    let bytes := command.code :: BitVec.ofNat 8 payload.length :: payload
    .ok (bytes ++ [bytes.foldl (fun sum value => sum + value) 0x4a])
  else .error (.invalidConfig "SuperCard Pro command payload too long")

def mapResponse (response : Byte) : Except Error Unit :=
  if response = RESPONSE_OK then .ok ()
  else if response = RESPONSE_WRITE_PROTECTED then .error .writeProtected
  else if response = RESPONSE_NO_DISK ∨ response = RESPONSE_NOT_READY then
    .error (.timeout "SuperCard Pro disk ready")
  else if response = RESPONSE_OVERRUN then .error (.protocol "SuperCard Pro buffer overrun")
  else .error (.protocol ("SuperCard Pro returned response " ++ hexByte response))

def rawCommand (command : Command) (payload : List Byte) : Host SuperCardPro Byte := do
  let bytes ← Fallible.ofExcept (packet command payload)
  let deadline ← deadlineFromNow
  let deadline ← writeAllUntil "SuperCard Pro command" bytes deadline
  let (response, _) ← readExactUntil "SuperCard Pro acknowledgement" 2 deadline
  if response.getD 0 0 ≠ command.code then
    Fallible.fail (.protocol ("SuperCard Pro replied to command " ++ hexByte (response.getD 0 0)
      ++ " while " ++ hexByte command.code ++ " was pending"))
  else pure (response.getD 1 0)

def command (command : Command) (payload : List Byte) (extra : Nat) :
    Host SuperCardPro (List Byte) := do
  let response ← rawCommand command payload
  Fallible.ofExcept (mapResponse response)
  if extra ≠ 0 then
    let deadline ← deadlineFromNow
    let (output, _) ← readExactUntil "SuperCard Pro command payload" extra deadline
    pure output
  else pure []

def expectOk (code : Command) (payload : List Byte) : Host SuperCardPro Unit := do
  let _ ← command code payload 0
  pure ()

def setStatus (f : DriveStatus → DriveStatus) : Host SuperCardPro Unit :=
  Fallible.modify fun self => { self with status := f self.status }

def select (selected : Bool) : Host SuperCardPro Unit := do
  let self ← Fallible.self
  if selected = self.selected then pure ()
  else
    expectOk
      (if selected then (if self.driveA then .selectA else .selectB)
        else (if self.driveA then .deselectA else .deselectB)) []
    Fallible.modify fun self => { self with selected := selected }

/-- `if !self.status.motor_running { self.select(false)?; }` -/
def deselectIdle : Host SuperCardPro Unit := do
  let self ← Fallible.self
  if !self.status.motorRunning then select false else pure ()

def checkPins : Host SuperCardPro Unit := do
  let self ← Fallible.self
  select true
  let bytes ← command .status [] 2
  let status := (bytes.getD 0 0).toNat * 256 + (bytes.getD 1 0).toNat
  setStatus fun drive =>
    { drive with writeProtected := !status.testBit 7, diskPresent := status.testBit 6 }
  if !self.status.motorRunning then select false else pure ()

/-! ## The read stream -/

/-- The variables of the loop of `read_stream`. -/
structure Stream where
  events : List FluxEvent
  pendingTicks : Nat
  pendingIndex : Bool
  sawFf : Bool
  indices : Nat
  bytesSeen : Nat
  duration : Nat
  deriving DecidableEq

/-- `u64::MAX` -/
def U64_MAX : Nat := 2 ^ 64 - 1

/-- `u32::saturating_add`, `u32::saturating_mul` and `u64::saturating_add` of a result. -/
def saturateU32 (value : Nat) : Nat := min value (U32_RANGE - 1)
def saturateU64 (value : Nat) : Nat := min value U64_MAX

/-- What one tick of the stream is taken for, in nanoseconds. -/
def readResolution (highDensity : Bool) : Nat := if highDensity then 100 else 50

/-- The duration after which an immediate read ends. -/
def targetDuration (mode : ReadMode) : Nat := if mode = .normal then 260000000 else U64_MAX

namespace Stream

def start : Stream := ⟨[], 0, false, false, 0, 0, 0⟩

/-- A transition after the pending ticks. -/
def emit (highDensity : Bool) (state : Stream) : Stream :=
  let nanoseconds := saturateU32 (state.pendingTicks * readResolution highDensity)
  { state with
    duration := saturateU64 (state.duration + nanoseconds)
    events := state.events ++ [⟨nanoseconds, state.pendingIndex⟩]
    pendingIndex := false
    pendingTicks := 0 }

/-- The body of the loop for one byte; the flag says that the loop breaks. -/
def feed (mode : ReadMode) (highDensity : Bool) (state : Stream) (byte : Byte) : Stream × Bool :=
  let state : Stream := { state with bytesSeen := state.bytesSeen + 1 }
  let counted : Stream :=
    { state with sawFf := false, pendingTicks := saturateU32 (state.pendingTicks + byte.toNat) }
  let ended := counted.emit highDensity
  if state.sawFf then
    if byte = 0 then
      let marked : Stream := { state with sawFf := false, indices := min (state.indices + 1) 255 }
      if 2 ≤ marked.indices ∧ mode ≠ .normal then (marked, true)
      else ({ marked with pendingIndex := true }, false)
    else (ended, decide (targetDuration mode ≤ ended.duration))
  else if byte = 0xff then ({ state with sawFf := true }, false)
  else if byte = 0 then
    ({ state with pendingTicks := saturateU32 (state.pendingTicks + 256) }, false)
  else (ended, decide (targetDuration mode ≤ ended.duration))

/-- Where the loop goes after a byte: to its end, to the ceiling, or on. -/
def next (mode : ReadMode) (highDensity : Bool) (state : Stream) (byte : Byte) :
    Except Error (Stream ⊕ Stream) :=
  let (state, ends) := state.feed mode highDensity byte
  if ends then .ok (.inr state)
  else if MAX_STREAM_BYTES ≤ state.bytesSeen then
    .error (.trackTooLarge (state.bytesSeen * 8) (MAX_STREAM_BYTES * 8))
  else .ok (.inl state)

end Stream

/-- The bytes of the stop acknowledgement, four at a time. -/
def stopWindow (window : List Byte) (byte : Byte) : Except Error (List Byte ⊕ Unit) :=
  let window := window.tail ++ [byte]
  if window.take 3 = [0xde, 0xad, Command.stopStream.code] then
    if byte = RESPONSE_OK then .ok (.inr ())
    else if byte = RESPONSE_OVERRUN then .error (.protocol "SuperCard Pro stream buffer overrun")
    else (mapResponse byte).map fun _ => .inl window
  else .ok (.inl window)

/-- What `read_stream` makes of the events, once the stream has stopped. -/
def extractCapture (mode : ReadMode) (events : List FluxEvent) : Host SuperCardPro RawCapture := do
  let self ← Fallible.self
  let (words, bitLen, indexAligned) ←
    if mode = .normal then do
      let result ← orPanic (fluxToUnalignedRevolution events self.highDensity)
      Fallible.ofExcept (result.map fun (words, bitLen) => (words, bitLen, false))
    else Fallible.ofExcept (fluxToRevolution events)
  let capture : RawCapture :=
    { words := words, bitLen := bitLen, indexAligned := mode ≠ .normal && indexAligned }
  Fallible.ofExcept (validateCapture capture)
  pure capture

/-- The stop command, on what is left of the deadline, its acknowledgement, and what was
captured. -/
def stopStream (mode : ReadMode) (state : Stream) (deadline : Nat) :
    Host SuperCardPro RawCapture := do
  let stop ← Fallible.ofExcept (packet .stopStream [])
  let deadline ← writeAllUntil "SuperCard Pro stop stream" stop deadline
  let _ ← eachByte "SuperCard Pro stop acknowledgement" stopWindow deadline
    (List.replicate 4 0) deadline
  purge
  setStatus fun status => { status with diskPresent := true, ready := true }
  deselectIdle
  extractCapture mode state.events

/-- `read_stream` behind its start command. -/
def captureStream (mode : ReadMode) : Host SuperCardPro RawCapture := do
  let deadline ← deadlineFromNow
  let self ← Fallible.self
  let (state, deadline) ← eachByte "SuperCard Pro flux stream"
    (Stream.next mode self.highDensity) deadline Stream.start deadline
  stopStream mode state deadline

def readStream (mode : ReadMode) : Host SuperCardPro RawCapture := do
  select true
  let flags : Byte := 0x04 ||| 0x02 ||| (if mode ≠ .normal then 1 else 0)
  let response ← rawCommand .startStream [flags]
  if response = RESPONSE_OK then captureStream mode
  else if response = RESPONSE_NO_DISK ∨ response = RESPONSE_NOT_READY then
    setStatus fun status => { status with diskPresent := false }
    Fallible.fail (.timeout "SuperCard Pro disk ready")
  else
    Fallible.ofExcept (mapResponse response)
    captureStream mode

/-! ## The write stream -/

/-- `u16::to_be_bytes` and `u32::to_be_bytes`. -/
def be16 (value : Nat) : List Byte := [BitVec.ofNat 8 (value / 256), BitVec.ofNat 8 value]
def be32 (value : Nat) : List Byte :=
  [BitVec.ofNat 8 (value / 2 ^ 24), BitVec.ofNat 8 (value / 2 ^ 16), BitVec.ofNat 8 (value / 2 ^ 8),
    BitVec.ofNat 8 value]

/-- The cell of the track, and the tick of the counters, in nanoseconds. -/
def cellNanoseconds (highDensity : Bool) : Nat := if highDensity then 1000 else 2000
def writeResolution (highDensity : Bool) : Nat := if highDensity then 50 else 25

/-- The ticks of an interval, rounded. -/
def writeTicks (highDensity : Bool) (nanoseconds : Nat) : Nat :=
  (nanoseconds + writeResolution highDensity / 2) / writeResolution highDensity

def U16_MAX : Nat := 2 ^ 16 - 1

/-- The 16-bit counters of one interval: a zero for every 65536 ticks, and the rest. -/
def counters (ticks : Nat) : List Nat :=
  if U16_MAX < ticks then 0 :: counters (ticks - (U16_MAX + 1)) else [ticks]
termination_by ticks
decreasing_by omega

/-- The counters `write_stream` builds. -/
def fluxCounters (highDensity : Bool) (words : List (BitVec 16)) (bitLen : Nat) :
    Except Error (List Nat) := do
  let timings ← mfmToFlux words bitLen (cellNanoseconds highDensity)
  pure (timings.flatMap fun nanoseconds => counters (writeTicks highDensity nanoseconds))

/-- The length of the data in the header of a RAM load. -/
def ramLength (length bitLen : Nat) : Except Error (List Byte) :=
  if length < U32_RANGE then .ok (be32 length)
  else .error (.trackTooLarge bitLen MAX_TRACK_BITS)

def writeStream (words : List (BitVec 16)) (bitLen : Nat) (fromIndex : Bool) :
    Host SuperCardPro Unit := do
  let self ← Fallible.self
  let counts ← Fallible.ofExcept (fluxCounters self.highDensity words bitLen)
  let encoded := counts.flatMap be16
  let entries := saturateU32 counts.length
  let length ← Fallible.ofExcept (ramLength encoded.length bitLen)
  let load ← Fallible.ofExcept (packet .loadRamUsb (be32 0 ++ length))
  let deadline ← deadlineFromNow
  let deadline ← writeAllUntil "SuperCard Pro RAM load command" load deadline
  let deadline ← writeAllUntil "SuperCard Pro RAM load" encoded deadline
  let (response, _) ← readExactUntil "SuperCard Pro RAM load acknowledgement" 2 deadline
  if response ≠ [Command.loadRamUsb.code, RESPONSE_OK] then
    Fallible.fail (.protocol "SuperCard Pro rejected the flux RAM load")
  else
    select true
    let response ← rawCommand .writeFlux (be32 entries ++ [if fromIndex then 1 else 0])
    if response = RESPONSE_OK then pure ()
    else if response = RESPONSE_WRITE_PROTECTED then
      setStatus fun status => { status with writeProtected := true }
      Fallible.fail .writeProtected
    else Fallible.ofExcept (mapResponse response)

/-! ## The device -/

/-- The density a call works at: that of the mode, or the last one. -/
def chooseDensity (density : DensityMode) : Host SuperCardPro Unit :=
  Fallible.modify fun self =>
    { self with highDensity := density = .high || (density = .auto && self.highDensity) }

def setMotor (enabled quick : Bool) : Host SuperCardPro Unit := do
  let self ← Fallible.self
  if enabled then
    expectOk .setParams
      ((if quick then [1000, 5000, 150, 5, 10000] else [1000, 5000, 750, 15, 20000]).flatMap be16)
    expectOk (if self.driveA then .motorAOn else .motorBOn) []
    setStatus fun status => { status with motorRunning := true }
    select true
  else
    expectOk (if self.driveA then .motorAOff else .motorBOff) []
    setStatus fun status => { status with motorRunning := false }
    select false

def seek (cylinder : Nat) : Host SuperCardPro Unit := do
  let self ← Fallible.self
  if self.status.maxCylinders ≤ cylinder then
    Fallible.fail (.invalidConfig ("SuperCard Pro cylinder " ++ toString cylinder
      ++ " is out of range"))
  else
    select true
    expectOk .stepTo [BitVec.ofNat 8 cylinder]
    setStatus fun status => { status with cylinder := cylinder }
    deselectIdle

def selectSide (side : Side) : Host SuperCardPro Unit := do
  select true
  expectOk .side [if side = .lower then 0 else 1]
  setStatus fun status => { status with side := side }
  deselectIdle

def noClickStep : Host SuperCardPro Unit := do
  let self ← Fallible.self
  if self.status.cylinder ≠ 0 then
    Fallible.fail (.invalidConfig "no-click step is only valid at cylinder zero")
  else
    select true
    expectOk .stepOut []
    checkPins

def readStatus : Host SuperCardPro DriveStatus := do
  checkPins
  setStatus fun status =>
    { status with working := true, ready := status.motorRunning && status.diskPresent }
  let self ← Fallible.self
  pure self.status

def readTrack (mode : ReadMode) (density : DensityMode) : Host SuperCardPro RawCapture := do
  chooseDensity density
  readStream mode

def writeTrack (words : List (BitVec 16)) (bitLen : Nat) (fromIndex : Bool)
    (density : DensityMode) : Host SuperCardPro Unit := do
  chooseDensity density
  writeStream words bitLen fromIndex

/-- A call of the `Device` trait. -/
def serve : DeviceCall → Host SuperCardPro Unit
  | .status => do let _ ← readStatus; pure ()
  | .setMotor enabled quick => setMotor enabled quick
  | .seek cylinder => seek cylinder
  | .selectSide side => selectSide side
  | .noClickStep => noClickStep
  | .readTrack mode density => do let _ ← readTrack mode density; pure ()
  | .writeTrack words bitLen fromIndex density => writeTrack words bitLen fromIndex density

end SuperCardPro

end FluxBridge
