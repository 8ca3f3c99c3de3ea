import FluxBridge.Transport.Wire
import FluxBridge.Device.Session
import FluxBridge.Flux.Rotation

/-!
# DrawBridge

`src/device/drawbridge.rs`: the protocol of the Arduino Reader Writer. `DrawBridge` has the fields
of the source without the transport and the port.
-/

namespace FluxBridge

open Atomic

def FLAG_DENSITY_DETECT : Byte := 1#8 <<< 3

/-- Open DrawBridge device. -/
structure DrawBridge where
  status : DriveStatus
  firmware : Nat × Nat × Nat
  flags : Byte
  fullControl : Bool
  highDensity : Bool
  deriving DecidableEq

namespace DrawBridge

/-- The commands that begin a read stream and a track write. -/
def READ_STREAM : Byte := 0x7b
def WRITE_DD : Byte := 0x7d
def WRITE_HD : Byte := ascii '>'

/-! ## Bit cells -/

/-- `append_sequence`: what a code adds. -/
def sequence (code : Nat) : List Bool :=
  if code = 0 then [false, false, false]
  else if code = 1 then [false, true]
  else if code = 2 then [false, false, true]
  else [false, false, false, true]

/-- `bit_at`, with the alternating run-out behind the track. -/
def bitAt (words : List (BitVec 16)) (bitLen position : Nat) : Bool :=
  if bitLen ≤ position then (position - bitLen) % 2 == 0 else wordBit words position

/-- The body of the loop of `transition_counts`: the cells since the last transition. -/
def countStep (words : List (BitVec 16)) (bitLen limit : Nat) (acc : Nat × List Nat)
    (position : Nat) : Nat × List Nat :=
  let count := min (acc.1 + 1) 255
  if bitAt words bitLen position then (0, acc.2 ++ [max 2 (min count limit)]) else (count, acc.2)

def transitionCounts (words : List (BitVec 16)) (bitLen limit : Nat) : Except Error (List Nat) :=
  if bitLen = 0 ∨ words.length * 16 < bitLen then
    .error (.invalidConfig "DrawBridge write bit length does not fit its words")
  else .ok ((List.range (bitLen + 8)).foldl (countStep words bitLen limit) (0, [])).2

/-- The bits a write adds to the code of the previous count to shift a transition. -/
def adjustment (precomp : Bool) (previous count : Nat) : Nat :=
  if precomp then
    if previous = 2 ∧ 4 ≤ count then 4 else if 4 ≤ previous ∧ count = 2 then 8 else 0
  else 0

/-- The nibbles of `encode_dd`: the code of each count is sent with the next one. -/
def ddNibbles (precomp : Bool) : Nat → List Nat → List Nat
  | _, [] => []
  | previous, count :: counts =>
    ((previous - 2) ||| adjustment precomp previous count) :: ddNibbles precomp count counts

/-- Two nibbles a byte, the low one first. -/
def packNibbles : List Nat → List Byte
  | [] => []
  | [low] => [BitVec.ofNat 8 low]
  | low :: high :: rest => BitVec.ofNat 8 (low ||| (high <<< 4)) :: packNibbles rest

def encodeDd (words : List (BitVec 16)) (bitLen : Nat) (precomp : Bool) :
    Except Error (List Byte) := do
  let counts ← transitionCounts words bitLen 5
  pure (packNibbles (ddNibbles precomp 2 counts))

/-- Four counts a byte, at the shifts 4, 2, 0 and 6. -/
def packCounts : List Nat → List Byte
  | [] => []
  | [a] => [BitVec.ofNat 8 ((a - 1) <<< 4)]
  | [a, b] => [BitVec.ofNat 8 (((a - 1) <<< 4) ||| ((b - 1) <<< 2))]
  | [a, b, c] => [BitVec.ofNat 8 (((a - 1) <<< 4) ||| ((b - 1) <<< 2) ||| (c - 1))]
  | a :: b :: c :: d :: rest =>
    BitVec.ofNat 8 (((a - 1) <<< 4) ||| ((b - 1) <<< 2) ||| (c - 1) ||| ((d - 1) <<< 6)) ::
      packCounts rest

def encodeHd (words : List (BitVec 16)) (bitLen : Nat) : Except Error (List Byte) := do
  let counts ← transitionCounts words bitLen 4
  pure (packCounts counts ++ [0])

/-! ## The read stream -/

/-- The variables of the loop of `read_stream`. -/
structure Stream where
  bits : List Bool
  firstIndex : Bool
  complete : Bool
  bytesSeen : Nat
  deriving DecidableEq

namespace Stream

def start : Stream := ⟨[], false, false, 0⟩

/-- An index mark: the revolution begins, or it is complete. -/
def mark (state : Stream) : Stream :=
  if state.firstIndex then { state with complete := true }
  else { state with firstIndex := true, bits := [] }

/-- One code of a high density byte; what follows the second mark is not looked at. -/
def feedCode (mode : ReadMode) (state : Stream) (code : Nat) : Stream :=
  if state.complete then state
  else
    let state := if code = 3 ∧ mode ≠ .normal then state.mark else state
    if state.complete then state
    else { state with bits := state.bits ++ sequence (if code = 3 then 1 else code + 1) }

/-- A byte at double density: an index flag and two codes. -/
def feedDouble (mode : ReadMode) (state : Stream) (byte : Byte) : Stream :=
  let state := if byte &&& 0x80 ≠ 0 ∧ mode ≠ .normal then state.mark else state
  if state.complete then state
  else
    { state with
      bits := state.bits ++ sequence ((byte.toNat >>> 5) &&& 3) ++
        sequence ((byte.toNat >>> 3) &&& 3) }

/-- The body of the loop for one byte. -/
def feed (mode : ReadMode) (highDensity : Bool) (state : Stream) (byte : Byte) : Stream :=
  let targetBits := if highDensity then 240000 else 120000
  let state : Stream := { state with bytesSeen := state.bytesSeen + 1 }
  let state : Stream :=
    if highDensity then
      [6, 4, 2, 0].foldl
        (fun state shift => state.feedCode mode ((byte.toNat >>> shift) &&& 3)) state
    else state.feedDouble mode byte
  if mode = .normal ∧ targetBits ≤ state.bits.length then
    { state with bits := state.bits.take targetBits, complete := true }
  else state

/-- Where the loop goes after a byte: to its end, to the ceiling, or on. -/
def next (mode : ReadMode) (highDensity : Bool) (state : Stream) (byte : Byte) :
    Except Error (Stream ⊕ Stream) :=
  let state := state.feed mode highDensity byte
  if state.complete then .ok (.inr state)
  else if MAX_STREAM_BYTES ≤ state.bytesSeen then
    .error (.trackTooLarge (state.bytesSeen * 8) (MAX_STREAM_BYTES * 8))
  else .ok (.inl state)

end Stream

/-! ## Commands -/

def send (bytes : List Byte) (operation : String) : Host DrawBridge Unit := do
  let deadline ← deadlineFromNow
  let _ ← writeAllUntil operation bytes deadline
  pure ()

def readByteUntil (deadline : Nat) (operation : String) : Host DrawBridge (Byte × Nat) := do
  let (bytes, deadline) ← readExactUntil operation 1 deadline
  pure (bytes.headD 0, deadline)

def readByte (operation : String) : Host DrawBridge Byte := do
  let deadline ← deadlineFromNow
  let (byte, _) ← readByteUntil deadline operation
  pure byte

def expectCommand (command : Byte) : Host DrawBridge Unit := do
  send [command] "DrawBridge command"
  let response ← readByte "DrawBridge command response"
  if response = ascii '1' then wire (.accepted command)
  else if response = ascii '0' then
    Fallible.fail (.protocol ("DrawBridge rejected command "
      ++ Char.quote (Char.ofNat command.toNat)))
  else
    Fallible.fail (.protocol ("DrawBridge returned unexpected response " ++ hexByte response))

def setStatus (f : DriveStatus → DriveStatus) : Host DrawBridge Unit :=
  Fallible.modify fun self => { self with status := f self.status }

/-- The first byte of the reply to a disk check. -/
def diskByte (disk : Byte) : Host DrawBridge Unit :=
  if disk = ascii '1' then setStatus fun status => { status with diskPresent := true }
  else if disk = ascii '#' then setStatus fun status => { status with diskPresent := false }
  else Fallible.fail (.protocol ("DrawBridge returned invalid disk status " ++ hexByte disk))

/-- The second byte of the reply to a disk check. -/
def writeProtectByte (writeProtect : Byte) : Host DrawBridge Unit :=
  if writeProtect = ascii '1' then setStatus fun status => { status with writeProtected := true }
  else if writeProtect = ascii '#' ∨ writeProtect = ascii '0' then
    setStatus fun status => { status with writeProtected := false }
  else pure ()

def checkDisk : Host DrawBridge Unit := do
  let self ← Fallible.self
  if self.firmware.1 < 1 ∨ (self.firmware.1 = 1 ∧ self.firmware.2.1 < 8) then pure ()
  else
    send [ascii '^'] "DrawBridge disk status"
    let disk ← readByte "DrawBridge disk status"
    let writeProtect ← readByte "DrawBridge write-protect status"
    diskByte disk
    writeProtectByte writeProtect

/-- The density a mode asks for; in `Auto` the interface is asked, where it can tell. -/
def resolveDensity (density : DensityMode) : Host DrawBridge Bool := do
  let self ← Fallible.self
  match density with
  | .double => pure false
  | .high => pure true
  | .auto =>
    if self.flags &&& FLAG_DENSITY_DETECT ≠ 0 then
      expectCommand (ascii 'T')
      let response ← readByte "DrawBridge density response"
      if response = ascii 'H' then pure true
      else if response = ascii 'D' then pure false
      else if response = ascii 'x' then
        setStatus fun status => { status with diskPresent := false }
        pure false
      else
        Fallible.fail (.protocol ("DrawBridge returned invalid density " ++ hexByte response))
    else pure false

/-- The end of `choose_density`: a change is told to the interface. -/
def changeDensity (high : Bool) : Host DrawBridge Unit := do
  let self ← Fallible.self
  if high ≠ self.highDensity then
    expectCommand (if high then ascii 'H' else ascii 'D')
    Fallible.modify fun self =>
      { self with
        highDensity := high
        status := { self.status with driveType := if high then .hd35 else .dd35 } }
  else pure ()

def chooseDensity (density : DensityMode) : Host DrawBridge Unit := do
  let high ← resolveDensity density
  changeDensity high

/-! ## Tracks -/

/-- The bytes of the stop acknowledgement, five at a time. -/
def stopWindow (window : List Byte) (byte : Byte) : Except Error (List Byte ⊕ Unit) :=
  let window := window.tail ++ [byte]
  if window = [ascii 'X', ascii 'Y', ascii 'Z', ascii 'x', ascii '1'] then .ok (.inr ())
  else .ok (.inl window)

/-- The bits of one revolution: without an index its end has to be found. -/
def revolution (mode : ReadMode) (bits : List Bool) : Host DrawBridge (List Bool) :=
  if mode = .normal then do
    let self ← Fallible.self
    let result ← orPanic (bitsToUnalignedRevolution bits self.highDensity)
    Fallible.ofExcept result
  else pure bits

/-- What `read_stream` makes of the bits, once the stream has stopped. -/
def extractCapture (mode : ReadMode) (state : Stream) : Host DrawBridge RawCapture := do
  if state.bits.length < 64 then
    Fallible.fail (.protocol "DrawBridge stream did not contain a complete revolution")
  else
    let bits ← revolution mode state.bits
    let capture : RawCapture :=
      { words := packBits bits, bitLen := bits.length,
        indexAligned := mode ≠ .normal && state.firstIndex }
    Fallible.ofExcept (validateCapture capture)
    setStatus fun status => { status with diskPresent := true, ready := true }
    pure capture

/-- The stop command, its acknowledgement, and what was captured. -/
def stopStream (mode : ReadMode) (state : Stream) (deadline : Nat) :
    Host DrawBridge RawCapture := do
  send [ascii 'x'] "DrawBridge stop stream"
  let _ ← eachByte "DrawBridge stop acknowledgement" stopWindow deadline
    (List.replicate 5 0) deadline
  purge
  extractCapture mode state

/-- `read_stream` behind its start command. -/
def captureStream (mode : ReadMode) : Host DrawBridge RawCapture := do
  let deadline ← deadlineFromNow
  let self ← Fallible.self
  let (state, deadline) ← eachByte "DrawBridge track stream"
    (Stream.next mode self.highDensity) deadline Stream.start deadline
  stopStream mode state deadline

def readStream (mode : ReadMode) : Host DrawBridge RawCapture := do
  expectCommand READ_STREAM
  captureStream mode

/-- The result byte of a track write. -/
def writeResult (response : Byte) : Except Error Unit :=
  if response = ascii '1' then .ok ()
  else if response = ascii 'X' then .error (.timeout "DrawBridge track write")
  else if response = ascii 'Y' then .error (.protocol "DrawBridge write framing error")
  else if response = ascii 'Z' then .error (.protocol "DrawBridge serial write overrun")
  else .error (.protocol ("DrawBridge returned invalid write result " ++ hexByte response))

/-- `u16::to_be_bytes` of a length that fits. -/
def lengthBytes (length bitLen : Nat) : Except Error (List Byte) :=
  if length < 2 ^ 16 then .ok [BitVec.ofNat 8 (length / 256), BitVec.ofNat 8 (length % 256)]
  else .error (.trackTooLarge bitLen MAX_TRACK_BITS)

/-- The length of the data, which only a double density write announces. -/
def sendLength (length bitLen : Nat) : Host DrawBridge Unit := do
  let self ← Fallible.self
  if self.highDensity then pure ()
  else
    let bytes ← Fallible.ofExcept (lengthBytes length bitLen)
    send bytes "DrawBridge write length"

/-- The rest of `write_stream`, once the interface permits it. -/
def sendTrack (encoded : List Byte) (bitLen : Nat) (fromIndex : Bool) :
    Host DrawBridge Unit := do
  sendLength encoded.length bitLen
  send [if fromIndex then 1 else 0] "DrawBridge write alignment"
  let ready ← readByte "DrawBridge write ready"
  if ready ≠ ascii '!' then
    Fallible.fail (.protocol "DrawBridge did not become ready for write data")
  else
    let deadline ← deadlineFromNow
    let _ ← writeAllUntil "DrawBridge track write" encoded deadline
    let deadline ← deadlineFromNow
    let (response, _) ← readByteUntil deadline "DrawBridge write completion"
    Fallible.ofExcept (writeResult response)

def writeStream (words : List (BitVec 16)) (bitLen : Nat) (fromIndex : Bool) :
    Host DrawBridge Unit := do
  let self ← Fallible.self
  let encoded ← Fallible.ofExcept
    (if self.highDensity then encodeHd words bitLen
      else encodeDd words bitLen (40 ≤ self.status.cylinder))
  expectCommand (if self.highDensity then WRITE_HD else WRITE_DD)
  let permission ← readByte "DrawBridge write permission"
  if permission = ascii 'N' then
    setStatus fun status => { status with writeProtected := true }
    Fallible.fail .writeProtected
  else if permission ≠ ascii 'Y' then
    Fallible.fail (.protocol ("DrawBridge returned invalid write permission "
      ++ hexByte permission))
  else sendTrack encoded bitLen fromIndex

/-! ## The device -/

def setMotor (enabled quick : Bool) : Host DrawBridge Unit := do
  expectCommand (if enabled then (if quick then ascii '*' else ascii '+') else ascii '-')
  setStatus fun status =>
    { status with motorRunning := enabled, ready := enabled && status.diskPresent }

/-- What a command that looks at the disk replies: present, or no change, and protected. -/
def diskReply (disk isProtected : Byte) : Host DrawBridge Unit :=
  setStatus fun status =>
    { status with
      diskPresent := if disk ≠ ascii 'x' then disk == ascii '1' else status.diskPresent
      writeProtected := isProtected == ascii '1' }

/-- The reply to a seek, with the state of the disk where that was looked at. -/
def seekReply (response : Byte) : Host DrawBridge Unit :=
  if response = ascii '2' then pure ()
  else if response = ascii '1' then do
    let disk ← readByte "DrawBridge seek disk status"
    let isProtected ← readByte "DrawBridge seek write-protect status"
    diskReply disk isProtected
  else if response = ascii '0' then Fallible.fail (.protocol "DrawBridge seek failed")
  else Fallible.fail (.protocol ("DrawBridge returned invalid seek status " ++ hexByte response))

def seek (cylinder : Nat) : Host DrawBridge Unit := do
  let self ← Fallible.self
  if self.status.maxCylinders ≤ cylinder then
    Fallible.fail (.invalidConfig ("DrawBridge cylinder " ++ toString cylinder
      ++ " is out of range"))
  else
    send [ascii '=', BitVec.ofNat 8 (48 + cylinder / 10), BitVec.ofNat 8 (48 + cylinder % 10), 7]
      "DrawBridge seek"
    let response ← readByte "DrawBridge seek response"
    seekReply response
    setStatus fun status => { status with cylinder := cylinder }

def selectSide (side : Side) : Host DrawBridge Unit := do
  expectCommand (if side = .lower then ascii '[' else ascii ']')
  setStatus fun status => { status with side := side }

def noClickStep : Host DrawBridge Unit := do
  let self ← Fallible.self
  if !self.fullControl then pure ()
  else
    expectCommand (ascii 'O')
    let disk ← readByte "DrawBridge no-click disk status"
    let isProtected ← readByte "DrawBridge no-click write-protect status"
    diskReply disk isProtected

def readStatus : Host DrawBridge DriveStatus := do
  checkDisk
  setStatus fun status =>
    { status with working := true, ready := status.motorRunning && status.diskPresent }
  let self ← Fallible.self
  pure self.status

def readTrack (mode : ReadMode) (density : DensityMode) : Host DrawBridge RawCapture := do
  chooseDensity density
  readStream mode

def writeTrack (words : List (BitVec 16)) (bitLen : Nat) (fromIndex : Bool)
    (density : DensityMode) : Host DrawBridge Unit := do
  chooseDensity density
  writeStream words bitLen fromIndex

/-- A call of the `Device` trait. -/
def serve : DeviceCall → Host DrawBridge Unit
  | .status => do let _ ← readStatus; pure ()
  | .setMotor enabled quick => setMotor enabled quick
  | .seek cylinder => seek cylinder
  | .selectSide side => selectSide side
  | .noClickStep => noClickStep
  | .readTrack mode density => do let _ ← readTrack mode density; pure ()
  | .writeTrack words bitLen fromIndex density => writeTrack words bitLen fromIndex density

/-! ## Opening -/

/-- The last five bytes, until they are a version. -/
def versionWindow (window : List Byte) (byte : Byte) :
    Except Error (List Byte ⊕ ((Nat × Nat × Nat) × Bool)) :=
  let window := window.tail ++ [byte]
  let isDigit (b : Byte) : Bool := 48 ≤ b.toNat && b.toNat ≤ 57
  match window with
  | [one, v, major, point, minor] =>
    if one = ascii '1' ∧ v = ascii 'V' ∧ isDigit major ∧ (point = ascii '.' ∨ point = ascii ',') ∧
        isDigit minor then
      .ok (.inr ((major.toNat - 48, minor.toNat - 48, 0), point == ascii ','))
    else .ok (.inl window)
  | _ => .ok (.inl window)

def syncVersion : Host DrawBridge ((Nat × Nat × Nat) × Bool) := do
  let deadline ← deadlineFromNow
  let _ ← writeAllUntil "DrawBridge version request" [ascii 'x', ascii 'R', ascii '?'] deadline
  let deadline ← deadlineFromNow
  let (version, _) ← eachByte "DrawBridge version response" versionWindow deadline
    (List.replicate 5 0) deadline
  purge
  pure version

/-- `set_dtr(..)?` and `set_rts(..)?` -/
def setLines (asserted : Bool) : Host DrawBridge Unit := do
  let result ← wire (.setDtr asserted)
  Fallible.ofExcept result
  let result ← wire (.setRts asserted)
  Fallible.ofExcept result

/-- The version, after a reset of the interface where it does not answer at once. -/
def syncOrReset : Host DrawBridge ((Nat × Nat × Nat) × Bool) := do
  let first ← Fallible.attempt syncVersion
  match first with
  | .ok version => pure version
  | .error _ => do
    setLines false
    setLines true
    purge
    syncVersion

/-- The feature flags, which the firmware has from version 1.9 on. -/
def readFeatures : Host DrawBridge Unit := do
  let self ← Fallible.self
  if 1 < self.firmware.1 ∨ (self.firmware.1 = 1 ∧ 9 ≤ self.firmware.2.1) then
    expectCommand (ascii '@')
    let deadline ← deadlineFromNow
    let (features, _) ← readExactUntil "DrawBridge feature flags" 3 deadline
    Fallible.modify fun self =>
      { self with
        flags := features.getD 0 0
        firmware := (self.firmware.1, self.firmware.2.1, (features.getD 2 0).toNat) }
  else pure ()

/-- The rest of `open`, once the device is constructed. -/
def initialise : Host DrawBridge Unit := do
  setTimeout
  purge
  readFeatures
  expectCommand (ascii '.')
  setStatus fun status => { status with cylinder := 0, working := true }
  let self ← Fallible.self
  setStatus fun status => { status with driveType := if self.highDensity then .hd35 else .dd35 }
  let _ ← Fallible.attempt checkDisk
  pure ()

/-- `open`, on a port that is open; the fields the thread begins with are not looked at. -/
def openDevice (config : BridgeConfig) : Host DrawBridge Unit := do
  let result ← wire (.setCtsFlowControl true)
  Fallible.ofExcept result
  purge
  let (firmware, fullControl) ← syncOrReset
  if firmware.1 < 1 ∨ (firmware.1 = 1 ∧ firmware.2.1 < 8) then
    Fallible.fail (.unsupportedFirmware ("DrawBridge firmware " ++ toString firmware.1 ++ "."
      ++ toString firmware.2.1 ++ "; version 1.8 or later is required"))
  else
    Fallible.modify fun _ =>
      { status := DriveStatus.initial, firmware := firmware, flags := 0, fullControl := fullControl,
        highDensity := config.density = .high }
    initialise

end DrawBridge

end FluxBridge
