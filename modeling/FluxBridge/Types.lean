import Mathlib.Algebra.Order.Ring.Nat
import Mathlib.Data.List.Basic

/-!
# Errors and public value types

`src/error.rs` and `src/types.rs`, as far as the modelled code uses them. Numbers of the source
are `Nat` with their bounds stated where they matter; packed MFM words are `BitVec 16`.
-/

namespace FluxBridge

abbrev Byte : Type := BitVec 8

instance : LawfulBEq Byte := instLawfulBEq

/-- The range of `usize` and `u64`. -/
def USIZE_RANGE : Nat := 2 ^ 64

/-! ## Errors -/

/-- The kinds of `std::io::Error` that `Error::kind` tells apart. -/
inductive IoErrorKind where
  | permissionDenied
  | notFound
  | timedOut
  | wouldBlock
  | brokenPipe
  | connectionReset
  | unexpectedEof
  | other
  deriving DecidableEq, Repr

/-- Stable categories suitable for status displays and events. -/
inductive ErrorKind where
  | invalidConfig
  | portNotFound
  | portInUse
  | permissionDenied
  | unsupportedFirmware
  | protocol
  | timeout
  | disconnected
  | writeProtected
  | unplaceablePartialWrite
  | trackTooLarge
  | workerStopped
  deriving DecidableEq, Repr

/-- An error returned by the library. -/
inductive Error where
  | invalidConfig (message : String)
  | portNotFound (message : String)
  | portInUse (message : String)
  | permissionDenied (message : String)
  | unsupportedFirmware (message : String)
  | protocol (message : String)
  | timeout (operation : String)
  | disconnected
  | writeProtected
  | unplaceablePartialWrite (startBit trackBits : Nat)
  | trackTooLarge (bits limit : Nat)
  | workerStopped
  | io (kind : IoErrorKind)
  deriving DecidableEq, Repr

/-- The stable category for an error. -/
def Error.kind : Error → ErrorKind
  | .invalidConfig _ => .invalidConfig
  | .portNotFound _ => .portNotFound
  | .portInUse _ => .portInUse
  | .permissionDenied _ => .permissionDenied
  | .unsupportedFirmware _ => .unsupportedFirmware
  | .protocol _ => .protocol
  | .timeout _ => .timeout
  | .disconnected => .disconnected
  | .writeProtected => .writeProtected
  | .unplaceablePartialWrite _ _ => .unplaceablePartialWrite
  | .trackTooLarge _ _ => .trackTooLarge
  | .workerStopped => .workerStopped
  | .io kind =>
    match kind with
    | .permissionDenied => .permissionDenied
    | .notFound => .portNotFound
    | .timedOut | .wouldBlock => .timeout
    | .brokenPipe | .connectionReset | .unexpectedEof => .disconnected
    | .other => .protocol

/-! ## Value types -/

/-- How a track is captured. -/
inductive ReadMode where
  | normal
  | compatible
  | stalling
  deriving DecidableEq, Repr

/-- Media density selection. -/
inductive DensityMode where
  | auto
  | double
  | high
  deriving DecidableEq, Repr

/-- A disk surface. -/
inductive Side where
  | lower
  | upper
  deriving DecidableEq, Repr

/-- A physical cylinder and side. -/
structure TrackAddress where
  cylinder : Nat
  side : Side
  deriving DecidableEq, Repr

/-- Physical drive mechanism reported by the interface. -/
inductive DriveType where
  | dd35
  | hd35
  | sd525
  deriving DecidableEq, Repr

/-- The part of the configuration the controller reads. -/
structure BridgeConfig where
  mode : ReadMode
  density : DensityMode
  stallTimeout : Nat
  deriving DecidableEq, Repr

/-- Whether a capture can safely be replayed as a ring. -/
inductive CaptureQuality where
  | indexAligned
  | verifiedAmigaDos (sectors : Nat)
  | unverified
  deriving DecidableEq, Repr

/-- Whether the capture can be retained and replayed. -/
def CaptureQuality.reusable : CaptureQuality → Bool
  | .unverified => false
  | _ => true

/-- One complete captured revolution. -/
structure TrackCapture where
  words : List (BitVec 16)
  bitLen : Nat
  quality : CaptureQuality
  generation : Nat
  deriving DecidableEq, Repr

/-- Snapshot of the most recently observed drive state. -/
structure DriveStatus where
  working : Bool
  ready : Bool
  diskPresent : Bool
  writeProtected : Bool
  motorRunning : Bool
  cylinder : Nat
  side : Side
  driveType : DriveType
  maxCylinders : Nat
  deriving DecidableEq, Repr

/-- `DriveStatus::default`. -/
def DriveStatus.initial : DriveStatus :=
  { working := true, ready := false, diskPresent := false, writeProtected := true,
    motorRunning := false, cylinder := 0, side := .lower, driveType := .dd35, maxCylinders := 84 }

/-- Identifier assigned to an asynchronous write. -/
structure WriteId where
  get : Nat
  deriving DecidableEq, Repr

/-- An asynchronous write request. -/
structure WriteRequest where
  track : TrackAddress
  words : List (BitVec 16)
  bitLen : Nat
  startBit : Nat
  deriving DecidableEq, Repr

/-- An event produced by the worker. -/
inductive BridgeEvent where
  | diskChanged (present : Bool)
  | writeCompleted (id : WriteId) (track : TrackAddress) (bitLen : Nat)
  | writeFailed (id : WriteId) (track : TrackAddress) (error : Error)
  | disconnected (error : Error)
  deriving DecidableEq, Repr

/-! ## Device results -/

/-- What a backend hands over after reading a track. -/
structure RawCapture where
  words : List (BitVec 16)
  bitLen : Nat
  indexAligned : Bool
  deriving DecidableEq, Repr

/-- Maximum bounded MFM track length. -/
def MAX_TRACK_BITS : Nat := 0x3a00 * 2 * 8

/-- `device::validate_capture`. -/
def validateCapture (capture : RawCapture) : Except Error Unit :=
  if capture.bitLen < 64 || capture.words.length * 16 < capture.bitLen then
    .error (.protocol ("backend returned invalid " ++ toString capture.bitLen
      ++ "-bit capture in " ++ toString capture.words.length ++ " words"))
  else if MAX_TRACK_BITS < capture.bitLen then
    .error (.trackTooLarge capture.bitLen MAX_TRACK_BITS)
  else .ok ()

/-- `device::clamp_track`. -/
def clampTrack (track : TrackAddress) (maxCylinders : Nat) : TrackAddress :=
  { cylinder := min track.cylinder (maxCylinders - 1), side := track.side }

end FluxBridge
