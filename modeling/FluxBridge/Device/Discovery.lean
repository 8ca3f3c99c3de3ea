import FluxBridge.Atomic.History
import FluxBridge.Transport.DirectFtdi
import FluxBridge.Transport.StableSort
import FluxBridge.Device.GreaseweazleHost
import Mathlib.Data.Char
import Mathlib.Data.List.Lex

/-!
# Finding an interface

`ports` of `src/transport/mod.rs` and `open` of `src/device/mod.rs`: what the system enumerates is
sorted and rid of repetitions, the ports that suit the driver are tried from the best one on, and
the first one that responds is opened.

* `listPorts_spec`, `candidates_spec` — the ports, and those that are tried
* `open_best` — which port is opened, which were tried before it, and when none is
-/

namespace FluxBridge

open Atomic

/-! ## Drivers -/

/-- A supported hardware protocol. -/
inductive DriverKind where
  | drawBridge
  | greaseweazle
  | superCardPro
  deriving DecidableEq, Repr

/-- The stable configuration token. -/
def DriverKind.asStr : DriverKind → String
  | .drawBridge => "drawbridge"
  | .greaseweazle => "greaseweazle"
  | .superCardPro => "supercardpro"

namespace Capabilities

def AUTO_DETECT_PORT : Nat := 1 <<< 1
def PC_DRIVE_SELECT : Nat := 1 <<< 2
def SHUGART_DRIVE_SELECT : Nat := 1 <<< 3
def HIGH_DENSITY : Nat := 1 <<< 4
def DIRECT_FTDI : Nat := 1 <<< 5

end Capabilities

/-- Optional facilities implemented by a driver. -/
structure DriverInfo where
  kind : DriverKind
  capabilities : Nat
  deriving DecidableEq, Repr

def DriverInfo.contains (driver : DriverInfo) (needed : Nat) : Bool :=
  driver.capabilities &&& needed = needed

/-- The features a build was compiled with. -/
structure Build where
  compiled : DriverKind → Bool
  directFtdi : Bool

open Capabilities in
/-- Drivers compiled into a build, most mature first. -/
def DRIVERS (build : Build) : List DriverInfo :=
  [⟨.greaseweazle, AUTO_DETECT_PORT ||| PC_DRIVE_SELECT ||| SHUGART_DRIVE_SELECT ||| HIGH_DENSITY⟩,
    ⟨.drawBridge, AUTO_DETECT_PORT ||| HIGH_DENSITY ||| DIRECT_FTDI⟩,
    ⟨.superCardPro, AUTO_DETECT_PORT ||| PC_DRIVE_SELECT ||| HIGH_DENSITY⟩].filter
      fun driver => build.compiled driver.kind

/-! ## Configuration -/

/-- How a bridge port is selected. -/
inductive PortSelection where
  | auto
  | exact (id : PortId)
  deriving DecidableEq

/-- Configuration used to open one bridge. -/
structure OpenConfig extends BridgeConfig where
  driver : DriverKind
  drive : DriveSelect
  port : PortSelection

/-- `{:?}` -/
def DriveSelect.debug : DriveSelect → String
  | .pcA => "PcA"
  | .pcB => "PcB"
  | .shugart0 => "Shugart0"
  | .shugart1 => "Shugart1"
  | .shugart2 => "Shugart2"
  | .shugart3 => "Shugart3"

/-- The facility a drive-select line needs. -/
def DriveSelect.needed : DriveSelect → Option Nat
  | .pcA => none
  | .pcB => some Capabilities.PC_DRIVE_SELECT
  | .shugart0 | .shugart1 | .shugart2 | .shugart3 => some Capabilities.SHUGART_DRIVE_SELECT

/-- Validates a configuration against the selected compiled driver. -/
def OpenConfig.validate (build : Build) (config : OpenConfig) : Except Error Unit :=
  match (DRIVERS build).find? fun driver => driver.kind = config.driver with
  | none => .error (.invalidConfig (config.driver.asStr ++ " support is not compiled in"))
  | some driver =>
    if config.drive.needed.any fun needed => !driver.contains needed then
      .error (.invalidConfig (config.driver.asStr ++ " does not support " ++ config.drive.debug))
    else if config.density = .high && !driver.contains Capabilities.HIGH_DENSITY then
      .error (.invalidConfig (config.driver.asStr ++ " does not support high-density media"))
    else if config.stallTimeout = 0 then
      .error (.invalidConfig "stall timeout must be greater than zero")
    else .ok ()

/-! ## Enumeration -/

abbrev PortInfo : Type := Ftdi.PortInfo

/-- `serialport::ErrorKind` -/
inductive SerialErrorKind where
  | noDevice
  | invalidInput
  | unknown
  | io (kind : IoErrorKind)

/-- `map_error` of the `serial` module. -/
def mapError (error : SerialErrorKind × String) : Error :=
  match error.1 with
  | .noDevice => .portNotFound error.2
  | .io .permissionDenied => .permissionDenied error.2
  | .io .wouldBlock => .portInUse error.2
  | .io kind => .io kind
  | .invalidInput | .unknown => .protocol error.2

/-- What `serialport` says of a USB port. -/
structure UsbPort where
  vid : Nat
  pid : Nat
  serialNumber : Option (List Char)
  product : Option (List Char)

/-- What `serialport` enumerates. -/
structure SerialPort where
  portName : List Char
  usb : Option UsbPort

/-- What a system answers when its ports are enumerated. -/
structure System where
  macos : Bool
  availablePorts : Except (SerialErrorKind × String) (List SerialPort)
  findDevices : Nat → Nat → Except String (List Ftdi.DeviceInfo)

namespace Serial

/-- Whether a device node is one that can actually be opened: macOS has a call-in node for each
device, which blocks. -/
def isOpenable (macos : Bool) (portName : List Char) : Bool :=
  !(macos && "/dev/tty.".toList.isPrefixOf portName)

/-- The entry of one port. -/
def portInfo (port : SerialPort) : Except Error PortInfo := do
  let id ← PortId.new port.portName
  let product := port.usb.bind UsbPort.product
  pure
    { id := id
      displayName := match product with
        | none => port.portName
        | some name => name ++ " (".toList ++ port.portName ++ ")".toList
      vid := port.usb.map UsbPort.vid
      pid := port.usb.map UsbPort.pid
      serialNumber := port.usb.bind UsbPort.serialNumber
      product := product }

def list (system : System) : Except Error (List PortInfo) := do
  let ports ← system.availablePorts.mapError mapError
  (ports.filter fun port => isOpenable system.macos port.portName).mapM portInfo

end Serial

/-- The order of the identifiers. -/
def idLe (left right : PortInfo) : Prop := left.id.text ≤ right.id.text

instance : DecidableRel idLe := fun left _ => inferInstanceAs (Decidable (left.id.text ≤ _))

/-- `sort_by` and `dedup_by`: by the identifiers, each once. -/
def inOrder (ports : List PortInfo) : List PortInfo :=
  (ports.insertionSort idLe).destutter fun kept port => port.id.text ≠ kept.id.text

/-- The direct ports, where they are compiled in. -/
def directPorts (build : Build) (system : System) : Except Error (List PortInfo) :=
  if build.directFtdi then Ftdi.list system.findDevices else .ok []

/-- The ports that are visible. -/
def listPorts (build : Build) (system : System) : Except Error (List PortInfo) := do
  let serial ← Serial.list system
  let direct ← directPorts build system
  pure (inOrder (serial ++ direct))

/-! ## Candidates -/

/-- `to_ascii_lowercase` -/
def lowercase (text : List Char) : List Char := text.map Char.toLower

/-- `str::contains` -/
def containsText (text part : List Char) : Bool := text.tails.any fun rest => part.isPrefixOf rest

/-- How well a port suits a driver; one that does not has no points. -/
def portScore (driver : DriverKind) (port : PortInfo) : Nat :=
  let product := lowercase (port.product.getD port.displayName)
  match driver with
  | .greaseweazle =>
    if (port.vid = some 0x1209 ∧ port.pid = some 0x4d69) ∨
      containsText product "greaseweazle".toList then 100 else 0
  | .superCardPro =>
    if containsText product "supercard".toList ∨ containsText product "scp-jim".toList then 100
    else 0
  | .drawBridge =>
    if port.id.isDirectFtdi then 90
    else if containsText product "greaseweazle".toList ∨ containsText product "supercard".toList ∨
      (port.vid = some 0x1a86 ∧ port.pid = some 0x7523) then 0
    else if port.vid.isSome then 20
    else 5

/-- The order of the scores, the best one first. -/
def scoreGe (driver : DriverKind) (left right : PortInfo) : Prop :=
  portScore driver right ≤ portScore driver left

instance (driver : DriverKind) : DecidableRel (scoreGe driver) :=
  fun _ _ => inferInstanceAs (Decidable (_ ≤ _))

/-- The ports that are tried, in their order. -/
def candidates (build : Build) (system : System) (config : OpenConfig) :
    Except Error (List PortInfo) :=
  match config.port with
  | .exact id =>
    .ok [{ id := id, displayName := id.text, vid := none, pid := none, serialNumber := none,
           product := none }]
  | .auto => do
    let ports ← listPorts build system
    pure ((ports.insertionSort (scoreGe config.driver)).filter fun port =>
      decide (0 < portScore config.driver port))

/-! ## Opening -/

/-- The one thing that reaches an interface: a driver opens it and talks to it. -/
inductive OpenOp where
  | openDriver (driver : DriverKind) (id : PortId)

@[reducible] def openSig : Sig where
  Op := OpenOp
  Ret := fun _ => Except Error Unit

/-- What is opened is named by its port. -/
abbrev Opening : Type := Fallible openSig Unit Error PortId

/-- The loop over the candidates, and the last error. -/
def tryPorts (config : OpenConfig) (exact : Bool) : List PortInfo → Option Error → Opening
  | [], last => Fallible.fail
      (last.getD (.portNotFound ("no " ++ config.driver.asStr ++ " interface responded")))
  | port :: ports, _ => do
    let opened ← Fallible.perform (S := openSig) (.openDriver config.driver port.id)
    match opened with
    | .ok () => pure port.id
    | .error e => if exact then Fallible.fail e else tryPorts config exact ports (some e)

/-- `device::open` -/
def openPort (build : Build) (system : System) (config : OpenConfig) : Opening := do
  Fallible.ofExcept (config.validate build)
  let ports ← Fallible.ofExcept (candidates build system config)
  if ports.isEmpty then
    Fallible.fail (.portNotFound ("no candidate ports are visible for " ++ config.driver.asStr))
  else tryPorts config (match config.port with | .exact _ => true | .auto => false) ports none

/-! ## The order of the candidates -/

section Candidates

variable {build : Build} {system : System} {config : OpenConfig} {driver : DriverKind}
  {ports tried : List PortInfo} {port other : PortInfo}

instance : Std.Total idLe := ⟨fun left right => le_total left.id.text right.id.text⟩

instance : IsTrans PortInfo idLe := ⟨fun _ _ _ => le_trans⟩

instance : Std.Total (scoreGe driver) :=
  ⟨fun left right => le_total (portScore driver right) (portScore driver left)⟩

instance : IsTrans PortInfo (scoreGe driver) := ⟨fun _ _ _ hleft hright => le_trans hright hleft⟩

/-- Nothing is invented, and of the ports with one identifier there is one left. -/
theorem mem_inOrder (found : List PortInfo) :
    (∀ port ∈ inOrder found, port ∈ found) ∧
      ∀ port ∈ found, ∃ kept ∈ inOrder found, kept.id.text = port.id.text := by
  have hperm := List.perm_insertionSort idLe found
  exact ⟨fun port hport => hperm.subset ((List.destutter_sublist _ _).subset hport),
    fun port hport => StableSort.exists_key_destutter (hperm.symm.subset hport)⟩

/-- The ports are in the order of their identifiers, no two have the same, and they are what the
two enumerations found. -/
theorem listPorts_spec (h : listPorts build system = .ok ports) :
    (ports.Pairwise fun left right => left.id.text < right.id.text) ∧
      ∃ serial direct, Serial.list system = .ok serial ∧ directPorts build system = .ok direct ∧
        (∀ port ∈ ports, port ∈ serial ++ direct) ∧
        ∀ port ∈ serial ++ direct, ∃ kept ∈ ports, kept.id.text = port.id.text := by
  unfold listPorts at h
  cases hserial : Serial.list system with
  | error e =>
    rw [hserial] at h
    cases h
  | ok serial =>
    rw [hserial] at h
    cases hdirect : directPorts build system with
    | error e =>
      rw [hdirect] at h
      cases h
    | ok direct =>
      rw [hdirect] at h
      cases h
      exact ⟨StableSort.pairwise_destutter (List.pairwise_insertionSort idLe _),
        serial, direct, rfl, rfl, mem_inOrder _⟩

/-- The better candidate: it has more points, or as many and comes first. -/
def Better (driver : DriverKind) (left right : PortInfo) : Prop :=
  portScore driver right < portScore driver left ∨
    portScore driver right = portScore driver left ∧ left.id.text < right.id.text

/-- The candidates are the ports that suit the driver, the better one always first. -/
theorem candidates_spec (hauto : config.port = .auto) (h : listPorts build system = .ok ports) :
    ∃ tried, candidates build system config = .ok tried ∧ tried.Pairwise (Better config.driver) ∧
      ∀ port, port ∈ tried ↔ port ∈ ports ∧ 0 < portScore config.driver port := by
  have hsorted := (listPorts_spec h).1
  have hnodup : ports.Nodup :=
    hsorted.imp fun hlt heq => absurd hlt (by rw [heq]; exact lt_irrefl _)
  refine ⟨(ports.insertionSort (scoreGe config.driver)).filter fun port =>
    decide (0 < portScore config.driver port), ?_, ?_, ?_⟩
  · unfold candidates
    rw [hauto, h]
    rfl
  · refine ((StableSort.pairwise_of_tie hsorted hnodup).filter _).imp ?_
    rintro left right ⟨hge, htie⟩
    rcases Nat.lt_or_eq_of_le hge with hlt | heq
    · exact .inl hlt
    · exact .inr ⟨heq, htie heq.symm.le⟩
  · intro port
    rw [List.mem_filter, List.mem_insertionSort, decide_eq_true_eq]

end Candidates

/-! ## What is opened -/

/-- An interface that was tried, and what came of it. -/
structure Attempt where
  driver : DriverKind
  id : PortId
  answer : Except Error Unit

namespace Discovery

/-- The interfaces that were tried, oldest first. -/
def attempts : History openSig → List Attempt
  | [] => []
  | ⟨.openDriver driver id, answer⟩ :: h => attempts h ++ [⟨driver, id, answer⟩]

/-- The attempts that failed. -/
def refused (driver : DriverKind) (failed : List (PortInfo × Error)) : List Attempt :=
  failed.map fun port => ⟨driver, port.1.id, .error port.2⟩

/-- How the ports were tried. -/
inductive Tries (driver : DriverKind) (last : Error) :
    List PortInfo → List Attempt → Except Error PortId → Prop
  /-- The first one that does not fail is opened, and those behind it are not tried. -/
  | opened (failed : List (PortInfo × Error)) (port : PortInfo) (rest : List PortInfo) :
    Tries driver last (failed.map Prod.fst ++ port :: rest)
      (refused driver failed ++ [⟨driver, port.id, .ok ()⟩]) (.ok port.id)
  /-- All of them fail, and the last one says why. -/
  | exhausted (failed : List (PortInfo × Error)) :
    Tries driver last (failed.map Prod.fst) (refused driver failed)
      (.error ((failed.getLast?.map Prod.snd).getD last))

section Tries

variable {build : Build} {system : System} {config : OpenConfig} {driver : DriverKind}
  {ports : List PortInfo} {new : List Attempt} {result : Except Error PortId}

/-- Another one that fails in front. -/
theorem Tries.cons {port : PortInfo} {e last : Error} (h : Tries driver e ports new result) :
    Tries driver last (port :: ports) (⟨driver, port.id, .error e⟩ :: new) result := by
  cases h with
  | opened failed best rest => exact .opened ((port, e) :: failed) best rest
  | exhausted failed =>
    have hlast : (failed.getLast?.map Prod.snd).getD e =
        ((((port, e) :: failed).getLast?).map Prod.snd).getD last := by
      rw [List.getLast?_cons]
      cases failed.getLast? <;> rfl
    rw [hlast]
    exact .exhausted ((port, e) :: failed)

/-- The loop over the candidates. -/
theorem wlp_tryPorts (last : Option Error) (h : History openSig) :
    (tryPorts config false ports last).wlp (.any openSig) (fun _ _ _ => True)
      (fun result _ h' => ∃ new, attempts h' = attempts h ++ new ∧
        Tries config.driver
          (last.getD (.portNotFound ("no " ++ config.driver.asStr ++ " interface responded")))
          ports new result) () h := by
  induction ports generalizing last h with
  | nil => exact ⟨[], (List.append_nil _).symm, .exhausted []⟩
  | cons port ports ih =>
    refine ⟨trivial, fun answer _ => ?_⟩
    cases answer with
    | ok => exact ⟨_, rfl, .opened [] port ports⟩
    | error e =>
      refine Fallible.wlp_mono (ih (some e) _) fun result _ h' hresult => ?_
      obtain ⟨new, hnew, htries⟩ := hresult
      exact ⟨⟨config.driver, port.id, .error e⟩ :: new,
        by rw [hnew, attempts, List.append_assoc]; rfl, htries.cons⟩

/-- Whatever suits the driver better than what is opened was tried and has failed. -/
theorem Tries.best {last : Error} {id : PortId} (hports : ports.Pairwise (Better driver))
    (h : Tries driver last ports new (.ok id)) :
    ∃ port ∈ ports, port.id = id ∧ ∀ other ∈ ports, other = port ∨ Better driver port other ∨
      ∃ e, ⟨driver, other.id, .error e⟩ ∈ new := by
  cases h with
  | opened failed port rest =>
    have hrest := (List.pairwise_cons.mp (List.pairwise_append.mp hports).2.1).1
    refine ⟨port, by simp, rfl, fun other hother => ?_⟩
    rcases List.mem_append.mp hother with hfailed | hother
    · obtain ⟨attempt, hattempt, rfl⟩ := List.mem_map.mp hfailed
      have hrefused := List.mem_map_of_mem (f := fun port : PortInfo × Error =>
        (⟨driver, port.1.id, .error port.2⟩ : Attempt)) hattempt
      exact .inr (.inr ⟨attempt.2, List.mem_append_left _ hrefused⟩)
    · rcases List.mem_cons.mp hother with rfl | hother
      · exact .inl rfl
      · exact .inr (.inl (hrest other hother))

/-- What is said where there was nothing to try matters there only. -/
theorem Tries.congr {last last' : Error} (hports : ports ≠ [])
    (h : Tries driver last ports new result) : Tries driver last' ports new result := by
  cases h with
  | opened failed port rest => exact .opened failed port rest
  | exhausted failed =>
    have hlast : (failed.getLast?.map Prod.snd).getD last =
        (failed.getLast?.map Prod.snd).getD last' := by
      cases hfailed : failed.getLast? with
      | none => exact absurd (by rw [List.getLast?_eq_none_iff.mp hfailed]; rfl) hports
      | some port => rfl
    rw [hlast]
    exact .exhausted failed

end Tries

/-- What `open` does, by what it was asked for. -/
inductive Opens (build : Build) (system : System) (config : OpenConfig) :
    List Attempt → Except Error PortId → Prop
  /-- Nothing is touched under a configuration that is not valid. -/
  | invalid {e : Error} (refuses : config.validate build = .error e) :
    Opens build system config [] (.error e)
  /-- One exact port is the only one that is tried, visible or not. -/
  | exact {id : PortId} (answer : Except Error Unit) (valid : config.validate build = .ok ())
    (asked : config.port = .exact id) :
    Opens build system config [⟨config.driver, id, answer⟩] (answer.map fun _ => id)
  /-- Nothing is touched where the ports cannot be enumerated. -/
  | unlisted {e : Error} (valid : config.validate build = .ok ()) (asked : config.port = .auto)
    (fails : listPorts build system = .error e) : Opens build system config [] (.error e)
  /-- The ports that suit the driver are tried from the best one on. -/
  | auto {ports tried : List PortInfo} {new : List Attempt} {result : Except Error PortId}
    (valid : config.validate build = .ok ()) (asked : config.port = .auto)
    (listed : listPorts build system = .ok ports)
    (suited : ∀ port, port ∈ tried ↔ port ∈ ports ∧ 0 < portScore config.driver port)
    (ordered : tried.Pairwise (Better config.driver))
    (tries : Tries config.driver
      (.portNotFound ("no candidate ports are visible for " ++ config.driver.asStr)) tried new
      result) : Opens build system config new result

section Opens

variable {build : Build} {system : System} {config : OpenConfig}

theorem wlp_openPort_exact {id : PortId} (hvalid : config.validate build = .ok ())
    (hexact : config.port = .exact id) :
    (openPort build system config).wlp (.any openSig) (fun _ _ _ => True)
      (fun result _ h' => Opens build system config (attempts h') result) () [] := by
  unfold openPort candidates
  rw [hvalid, hexact]
  refine ⟨trivial, fun answer _ => ?_⟩
  cases answer with
  | ok => exact .exact (.ok ()) hvalid hexact
  | error e => exact .exact (.error e) hvalid hexact

theorem wlp_openPort_auto (hvalid : config.validate build = .ok ())
    (hauto : config.port = .auto) :
    (openPort build system config).wlp (.any openSig) (fun _ _ _ => True)
      (fun result _ h' => Opens build system config (attempts h') result) () [] := by
  unfold openPort
  cases hports : listPorts build system with
  | error e =>
    have hcandidates : candidates build system config = .error e := by
      unfold candidates
      rw [hauto, hports]
      rfl
    rw [hvalid, hcandidates]
    exact .unlisted hvalid hauto hports
  | ok ports =>
    obtain ⟨tried, hcandidates, hordered, hsuited⟩ := candidates_spec hauto hports
    rw [hvalid, hcandidates, hauto]
    cases tried with
    | nil => exact .auto hvalid hauto hports hsuited hordered (.exhausted [])
    | cons best rest =>
      refine Fallible.wlp_mono (wlp_tryPorts none []) fun result _ h' hresult => ?_
      obtain ⟨new, hnew, htries⟩ := hresult
      rw [hnew]
      exact .auto hvalid hauto hports hsuited hordered (htries.congr (List.cons_ne_nil _ _))

end Opens

end Discovery

/-- **Opening.** Where the choice is left to the library it opens the best one of the interfaces
that respond; nothing is touched that suits the driver less. -/
theorem open_best (build : Build) (system : System) (config : OpenConfig)
    (result : Except Error PortId) (h' : History openSig)
    (hwalk : Walk (.any openSig) (.ret () result) h' (openPort build system config ()) []) :
    Discovery.Opens build system config (Discovery.attempts h') result := by
  cases hvalid : config.validate build with
  | error e =>
    unfold openPort at hwalk
    rw [hvalid] at hwalk
    cases hwalk
    exact .invalid hvalid
  | ok =>
    cases hport : config.port with
    | exact id => exact hwalk.wlp (Discovery.wlp_openPort_exact hvalid hport)
    | auto => exact hwalk.wlp (Discovery.wlp_openPort_auto hvalid hport)

/-- A serial port without a name, one behind a bridge chip, and the same chip seen directly. -/
def threePorts : System where
  macos := false
  availablePorts := .ok [⟨"/dev/ttyS0".toList, none⟩,
    ⟨"/dev/ttyUSB0".toList, some ⟨0x0403, 0x6001, none, none⟩⟩]
  findDevices _ pid := .ok (if pid = 0x6001 then [⟨none, some "FT232R".toList⟩] else [])

def wantsDrawBridge : OpenConfig where
  mode := .compatible
  density := .auto
  stallTimeout := 450
  driver := .drawBridge
  drive := .pcA
  port := .auto

def usbPort : PortId := ⟨"/dev/ttyUSB0".toList, by decide, by decide⟩

/-- The chip is in use, so that the port behind it is the first one that responds. -/
def openedSecond : Prog openSig Unit (Except Error PortId) × History openSig :=
  (openPort ⟨fun _ => true, true⟩ threePorts wantsDrawBridge ()).runWith
    (fun _ o => match o with
      | .openDriver _ id => some (if id.isDirectFtdi then .error (.portInUse "busy") else .ok ()))
    []

theorem open_best_second :
    Discovery.Opens ⟨fun _ => true, true⟩ threePorts wantsDrawBridge
      (Discovery.attempts openedSecond.2) (.ok usbPort) := by
  have hresult : openedSecond.1.result? = some (.ok usbPort) := by decide +kernel
  have hwalk : Walk (.any openSig) openedSecond.1 openedSecond.2
      (openPort ⟨fun _ => true, true⟩ threePorts wantsDrawBridge ()) [] :=
    Prog.walk_runWith (fun _ _ _ _ => trivial) _ _
  rw [Prog.eq_ret hresult] at hwalk
  exact open_best _ _ _ _ _ hwalk

end FluxBridge
