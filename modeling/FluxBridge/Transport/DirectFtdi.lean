import FluxBridge.Types
import FluxBridge.Transport.Numerals

/-!
# Direct FTDI identifiers

The `ftdi` module of `src/transport/mod.rs`. `list` names each device by vendor, product and a
selector, which is its serial number or, where it has none, its place in the enumeration; `open`
takes the name apart. Nothing in a name says which kind of selector it has: whatever parses as a
number is an index.

* `openFilter_identifier` — vendor, product and selector of any name that was built
* `list_openFilter` — the filter is the intended one unless the serial number is a numeral
* `list_openFilter_digits` — a serial number of digits opens whatever has that index
-/

namespace FluxBridge

/-! ## Identifiers -/

/-- `char::is_whitespace`. -/
def isWhitespace (c : Char) : Bool :=
  (9 ≤ c.toNat ∧ c.toNat ≤ 13) ∨ (0x2000 ≤ c.toNat ∧ c.toNat ≤ 0x200a) ∨
    c.toNat ∈ [0x20, 0x85, 0xa0, 0x1680, 0x2028, 0x2029, 0x202f, 0x205f, 0x3000]

/-- A stable serial or direct-FTDI port identifier. -/
structure PortId where
  text : List Char
  named : text.all isWhitespace = false
  no_nul : Char.ofNat 0 ∉ text
  deriving DecidableEq

namespace PortId

def new (value : List Char) : Except Error PortId :=
  if h : value.all isWhitespace = true ∨ Char.ofNat 0 ∈ value then
    .error (.invalidConfig "a port identifier must be non-empty and contain no NUL")
  else
    .ok ⟨value, Bool.eq_false_iff.mpr fun hall => h (Or.inl hall), fun hnul => h (Or.inr hnul)⟩

/-- Whether this selects a direct FTDI interface. -/
def isDirectFtdi (id : PortId) : Bool := "ftdi:".toList.isPrefixOf id.text

theorem text_of_new {value : List Char} {id : PortId} (h : new value = .ok id) :
    id.text = value := by
  unfold new at h
  split at h
  · cases h
  · cases h
    rfl

end PortId

namespace Ftdi

/-! ## Enumeration -/

def FTDI_VID : Nat := 0x0403
def FTDI_PIDS : List Nat := [0x6001, 0x6010, 0x6011, 0x6014]

/-- What is read of a device that was found. -/
structure DeviceInfo where
  serialNumber : Option (List Char)
  productString : Option (List Char)

/-- Information about an enumerated port. -/
structure PortInfo where
  id : PortId
  displayName : List Char
  vid : Option Nat
  pid : Option Nat
  serialNumber : Option (List Char)
  product : Option (List Char)

/-- `index.to_string()`. -/
def indexText (index : Nat) : List Char := Nat.toDigits 10 index

def selectorOf (index : Nat) (device : DeviceInfo) : List Char :=
  device.serialNumber.getD (indexText index)

/-- The text of the identifier of a device. -/
def identifier (pid index : Nat) (device : DeviceInfo) : List Char :=
  "ftdi".toList ++ ':' :: (hex4 FTDI_VID ++ ':' :: (hex4 pid ++ ':' :: selectorOf index device))

def displayName (pid index : Nat) (device : DeviceInfo) : List Char :=
  match device.productString, device.serialNumber with
  | some product, some serial => product ++ " (".toList ++ serial ++ ", direct USB)".toList
  | some product, none => product ++ " (direct USB #".toList ++ indexText index ++ ")".toList
  | none, _ =>
    "FTDI ".toList ++ hex4 pid ++ " (direct USB #".toList ++ indexText index ++ ")".toList

/-- The entry of one device. -/
def portInfo (pid : Nat) (found : DeviceInfo × Nat) : Except Error PortInfo := do
  let (device, index) := found
  let id ← PortId.new (identifier pid index device)
  pure
    { id := id, displayName := displayName pid index device, vid := some FTDI_VID, pid := some pid,
      serialNumber := device.serialNumber, product := device.productString }

/-- The devices of one product. -/
def listPid (findDevices : Nat → Nat → Except String (List DeviceInfo)) (pid : Nat) :
    Except Error (List PortInfo) := do
  let devices ← (findDevices FTDI_VID pid).mapError Error.protocol
  devices.zipIdx.mapM (portInfo pid)

/-- `ftdi::list`; `findDevices` is the enumeration of `ftdi_nusb`. -/
def list (findDevices : Nat → Nat → Except String (List DeviceInfo)) :
    Except Error (List PortInfo) := do
  let output ← FTDI_PIDS.mapM (listPid findDevices)
  pure output.flatten

/-! ## Opening -/

/-- `DeviceFilter` of `ftdi_nusb`: what a device is selected by. -/
structure DeviceFilter where
  vid : Nat
  pid : Nat
  index : Option Nat := none
  serial : Option (List Char) := none
  deriving DecidableEq, Repr

/-- The filter that `ftdi::open` looks for a device with. -/
def openFilter (id : PortId) : Except Error DeviceFilter :=
  let fields := splitn 4 ':' id.text
  let vid := fields[1]?.bind (fromStrRadix 16 (2 ^ 16))
  let pid := fields[2]?.bind (fromStrRadix 16 (2 ^ 16))
  match decide (fields[0]? = some "ftdi".toList), vid, pid, fields[3]? with
  | true, some vid, some pid, some selector =>
    .ok (match fromStrRadix 10 USIZE_RANGE selector with
      | some index => { vid := vid, pid := pid, index := some index }
      | none => { vid := vid, pid := pid, serial := some selector })
  | _, _, _, _ =>
    .error (.invalidConfig ("malformed direct FTDI port identifier " ++ String.ofList id.text))

/-- The filter that a device was listed for. -/
def intended (pid index : Nat) (device : DeviceInfo) : DeviceFilter :=
  match device.serialNumber with
  | some serial => { vid := FTDI_VID, pid := pid, serial := some serial }
  | none => { vid := FTDI_VID, pid := pid, index := some index }

/-! ## The round trip -/

section Identifier

variable {pid index : Nat} {device : DeviceInfo}

theorem splitn_identifier (hpid : pid < 2 ^ 16) :
    splitn 4 ':' (identifier pid index device) =
      ["ftdi".toList, hex4 FTDI_VID, hex4 pid, selectorOf index device] := by
  unfold identifier
  rw [splitn_append (by decide), splitn_append (by decide), splitn_append (colon_not_mem_hex4 hpid)]
  rfl

/-- **Parsing.** Vendor and product are read back, and only the selector decides what it is. -/
theorem openFilter_identifier (hpid : pid < 2 ^ 16) {id : PortId}
    (h : PortId.new (identifier pid index device) = .ok id) :
    openFilter id = .ok (match fromStrRadix 10 USIZE_RANGE (selectorOf index device) with
      | some index => { vid := FTDI_VID, pid := pid, index := some index }
      | none => { vid := FTDI_VID, pid := pid, serial := some (selectorOf index device) }) := by
  have hvid : fromStrRadix 16 (2 ^ 16) (hex4 FTDI_VID) = some FTDI_VID :=
    fromStrRadix_hex4 (by decide)
  unfold openFilter
  rw [PortId.text_of_new h, splitn_identifier hpid]
  simp only [List.getElem?_cons_zero, List.getElem?_cons_succ, Option.bind_some, hvid,
    fromStrRadix_hex4 hpid, decide_true]

/-- The filter is the intended one unless the serial number is a numeral. -/
theorem openFilter_eq_intended_iff (hpid : pid < 2 ^ 16) (hindex : index < USIZE_RANGE)
    {id : PortId} (h : PortId.new (identifier pid index device) = .ok id) :
    openFilter id = .ok (intended pid index device) ↔
      ∀ serial, device.serialNumber = some serial →
        ¬ ∃ value, Decimal serial value ∧ value < USIZE_RANGE := by
  rw [openFilter_identifier hpid h]
  unfold intended selectorOf
  cases hserial : device.serialNumber with
  | none =>
    rw [Option.getD_none, indexText, fromStrRadix_toDigits hindex]
    simp
  | some serial =>
    rw [Option.getD_some]
    simp only [Option.some.injEq, forall_eq']
    cases hparse : fromStrRadix 10 USIZE_RANGE serial with
    | some value =>
      have hnumeral := (fromStrRadix_ten (by decide) serial value).mp hparse
      constructor
      · intro heq
        cases heq
      · intro hnone
        exact absurd ⟨value, hnumeral⟩ hnone
    | none =>
      refine ⟨fun _ => ?_, fun _ => rfl⟩
      rintro ⟨value, hnumeral⟩
      have hsome := (fromStrRadix_ten (by decide) serial value).mpr hnumeral
      rw [hparse] at hsome
      cases hsome

/-- What was built is passed on to the direct interface. -/
theorem isDirectFtdi_identifier {id : PortId}
    (h : PortId.new (identifier pid index device) = .ok id) : id.isDirectFtdi = true := by
  unfold PortId.isDirectFtdi
  rw [PortId.text_of_new h, List.isPrefixOf_iff_prefix]
  exact ⟨_, List.append_assoc ['f', 't', 'd', 'i'] [':'] _⟩

end Identifier

/-! ## The whole list -/

theorem mem_mapM {α β : Type} {f : α → Except Error β} {inputs : List α} {outputs : List β}
    (h : inputs.mapM f = .ok outputs) {input : α} (hinput : input ∈ inputs) :
    ∃ output ∈ outputs, f input = .ok output := by
  induction inputs generalizing outputs with
  | nil => cases hinput
  | cons first inputs ih =>
    rw [List.mapM_cons] at h
    cases hfirst : f first with
    | error e =>
      rw [hfirst] at h
      cases h
    | ok output =>
      cases hrest : inputs.mapM f with
      | error e =>
        rw [hfirst, hrest] at h
        cases h
      | ok rest =>
        rw [hfirst, hrest] at h
        cases h
        rcases List.mem_cons.mp hinput with rfl | hmem
        · exact ⟨output, List.mem_cons_self, hfirst⟩
        · obtain ⟨later, hlater, heq⟩ := ih hrest hmem
          exact ⟨later, List.mem_cons_of_mem _ hlater, heq⟩

/-- Each device that was found has its entry. -/
theorem exists_port {findDevices : Nat → Nat → Except String (List DeviceInfo)}
    {ports : List PortInfo} (h : list findDevices = .ok ports) {pid : Nat} (hpid : pid ∈ FTDI_PIDS)
    {devices : List DeviceInfo} (hfind : findDevices FTDI_VID pid = .ok devices) {index : Nat}
    {device : DeviceInfo} (hget : devices[index]? = some device) :
    ∃ port ∈ ports, portInfo pid (device, index) = .ok port := by
  unfold list at h
  cases houtput : FTDI_PIDS.mapM (listPid findDevices) with
  | error e =>
    rw [houtput] at h
    cases h
  | ok output =>
    rw [houtput] at h
    cases h
    obtain ⟨infos, hinfos, hlist⟩ := mem_mapM houtput hpid
    unfold listPid at hlist
    rw [hfind] at hlist
    have hfound : (device, index) ∈ devices.zipIdx :=
      List.mk_mem_zipIdx_iff_getElem?.mpr hget
    obtain ⟨port, hport, heq⟩ := mem_mapM hlist hfound
    exact ⟨port, List.mem_flatten.mpr ⟨infos, hinfos, hport⟩, heq⟩

theorem new_of_portInfo {pid index : Nat} {device : DeviceInfo} {port : PortInfo}
    (h : portInfo pid (device, index) = .ok port) :
    PortId.new (identifier pid index device) = .ok port.id := by
  unfold portInfo at h
  dsimp only at h
  cases hid : PortId.new (identifier pid index device) with
  | error e =>
    rw [hid] at h
    cases h
  | ok id =>
    rw [hid] at h
    cases h
    rfl

/--
**Identifiers.** The identifier that is listed for a device selects the direct interface and opens
it with the same vendor and product, by its serial number when it has one and by its index when it
has none, just where its serial number is no numeral: not decimal digits, with or without a plus
sign in front, of a value that an index can have.
-/
theorem list_openFilter {findDevices : Nat → Nat → Except String (List DeviceInfo)}
    {ports : List PortInfo} (h : list findDevices = .ok ports) {pid : Nat} (hpid : pid ∈ FTDI_PIDS)
    {devices : List DeviceInfo} (hfind : findDevices FTDI_VID pid = .ok devices) {index : Nat}
    {device : DeviceInfo} (hget : devices[index]? = some device) (hindex : index < USIZE_RANGE) :
    ∃ port ∈ ports, portInfo pid (device, index) = .ok port ∧ port.id.isDirectFtdi = true ∧
      (openFilter port.id = .ok (intended pid index device) ↔
        ∀ serial, device.serialNumber = some serial →
          ¬ ∃ value, Decimal serial value ∧ value < USIZE_RANGE) := by
  obtain ⟨port, hport, hinfo⟩ := exists_port h hpid hfind hget
  have hnew := new_of_portInfo hinfo
  have hrange : pid < 2 ^ 16 := by
    have hall : ∀ pid ∈ FTDI_PIDS, pid < 2 ^ 16 := by decide
    exact hall pid hpid
  exact ⟨port, hport, hinfo, isDirectFtdi_identifier hnew,
    openFilter_eq_intended_iff hrange hindex hnew⟩

/-- One device of the first product. -/
def oneFound (device : DeviceInfo) (_vid pid : Nat) : Except String (List DeviceInfo) :=
  .ok (if pid = 0x6001 then [device] else [])

theorem list_openFilter_serial :
    ∃ ports, list (oneFound ⟨some ['A', ':', '7'], none⟩) = .ok ports ∧
      ∃ port ∈ ports, portInfo 0x6001 (⟨some ['A', ':', '7'], none⟩, 0) = .ok port ∧
        port.id.isDirectFtdi = true ∧
        (openFilter port.id = .ok (intended 0x6001 0 ⟨some ['A', ':', '7'], none⟩) ↔
          ∀ serial, some ['A', ':', '7'] = some serial →
            ¬ ∃ value, Decimal serial value ∧ value < USIZE_RANGE) :=
  ⟨_, rfl, @list_openFilter (oneFound ⟨some ['A', ':', '7'], none⟩) _ rfl 0x6001 (by decide)
    [⟨some ['A', ':', '7'], none⟩] rfl 0 _ rfl (by decide)⟩

/-- A serial number of digits is taken for an index. -/
theorem list_openFilter_digits :
    ∃ port, list (oneFound ⟨some ['1', '2', '3'], none⟩) = .ok [port] ∧
      port.serialNumber = some ['1', '2', '3'] ∧
      openFilter port.id = .ok { vid := FTDI_VID, pid := 0x6001, index := some 123 } ∧
      openFilter port.id ≠ .ok (intended 0x6001 0 ⟨some ['1', '2', '3'], none⟩) :=
  ⟨_, rfl, rfl, by decide +kernel, by decide +kernel⟩

end Ftdi

end FluxBridge
