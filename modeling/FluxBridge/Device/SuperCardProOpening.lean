import FluxBridge.Device.GreaseweazleHost
import FluxBridge.Device.WriteTranscripts

/-!
# Opening a SuperCard Pro

`open` of `src/device/supercard_pro.rs`. The pins are looked at last, and the device counts as open
whether that succeeds or not.

* `openDevice_prepared` — what was said, and which state the device is left in
-/

namespace FluxBridge

open Atomic

namespace SuperCardPro

/-- Whether Drive A is meant; the other lines are not there. -/
def driveLine : DriveSelect → Except Error Bool
  | .pcA => .ok true
  | .pcB => .ok false
  | .shugart0 | .shugart1 | .shugart2 | .shugart3 =>
    .error (.invalidConfig "SuperCard Pro supports only PC Drive A or Drive B")

/-- A version, two numbers in one byte. -/
def nibbles (byte : Byte) : Nat × Nat := (byte.toNat / 16, byte.toNat % 16)

/-- `firmware < (1, 3)` -/
def TooOld (firmware : Nat × Nat) : Prop :=
  firmware.1 < 1 ∨ (firmware.1 = 1 ∧ firmware.2 < 3)

instance (firmware : Nat × Nat) : Decidable (TooOld firmware) :=
  inferInstanceAs (Decidable (_ ∨ _))

/-- The device as it is constructed. -/
def constructed (config : BridgeConfig) (driveA : Bool) : SuperCardPro where
  status := { DriveStatus.initial with maxCylinders := 84, driveType := .hd35 }
  driveA := driveA
  selected := false
  highDensity := config.density = .high

def checkFirmware : Host SuperCardPro Unit := do
  let info ← command .info [] 2
  let hardware := nibbles (info.getD 0 0)
  let firmware := nibbles (info.getD 1 0)
  if TooOld firmware then
    Fallible.fail (.unsupportedFirmware ("SuperCard Pro firmware " ++ toString firmware.1 ++ "."
      ++ toString firmware.2 ++ " on hardware " ++ toString hardware.1 ++ "."
      ++ toString hardware.2 ++ "; firmware 1.3 or later is required"))
  else pure ()

/-- Everything up to the pins. -/
def prepare (config : BridgeConfig) (drive : DriveSelect) : Host SuperCardPro Unit := do
  let driveA ← Fallible.ofExcept (driveLine drive)
  Fallible.modify fun _ => constructed config driveA
  purge
  checkFirmware
  expectOk .motorAOff []
  expectOk .motorBOff []
  expectOk .deselectA []
  expectOk .deselectB []
  expectOk .seekZero []
  setStatus fun status => { status with working := true, cylinder := 0 }

/-- `open`, on a port that is open; the fields the thread begins with are not looked at. -/
def openDevice (config : BridgeConfig) (drive : DriveSelect) : Host SuperCardPro Unit := do
  prepare config drive
  let _ ← Fallible.attempt checkPins
  pure ()

variable {self start : SuperCardPro}

/-! ## The conversation -/

/-- What was said up to the pins, the last passage first. -/
def openPassages (info : List Byte) : List Passage :=
  [Command.seekZero, .deselectB, .deselectA, .motorBOff, .motorAOff].map
      (answered · [] RESPONSE_OK) ++
    [⟨[], info⟩, answered .info [] RESPONSE_OK]

/-- The device in front of the pins. -/
def prepared (config : BridgeConfig) (driveA : Bool) : SuperCardPro :=
  { constructed config driveA with
    status := { (constructed config driveA).status with working := true, cylinder := 0 } }

/-- A command with a payload is two passages. -/
theorem adds_payload (code : Command) (payload : List Byte) {extra : Nat} (hextra : extra ≠ 0) :
    Adds (command code payload extra) self fun output next new => next = self ∧
      output.length = extra ∧ new = [⟨[], output⟩, answered code payload RESPONSE_OK] := by
  refine (adds_rawCommand code payload).bind ?_
  rintro response self _ ⟨rfl, rfl⟩
  refine (adds_ofExcept (P := fun _ next new => next = self ∧ new = [] ∧
    response = RESPONSE_OK) fun _ ha => ⟨rfl, rfl, response_of_mapResponse ha⟩).bind ?_
  rintro _ self _ ⟨rfl, rfl, rfl⟩
  rw [if_pos hextra]
  refine adds_deadline fun deadline => Speaks.close ?_
  refine (speaks_readExactUntil fun bytes left hlength => ⟨rfl, hlength, rfl⟩ :
    Speaks _ _ _ fun (read : List Byte × Nat) next passage => next = self ∧
      read.1.length = extra ∧ passage = ⟨[], read.1⟩).bind ?_
  rintro ⟨output, left⟩ self _ ⟨rfl, hlength, rfl⟩
  exact speaks_pure ⟨rfl, hlength, rfl⟩

theorem adds_checkFirmware : Adds checkFirmware self fun _ next new => next = self ∧
    ∃ info, info.length = 2 ∧ ¬ TooOld (nibbles (info.getD 1 0)) ∧
      new = [⟨[], info⟩, answered .info [] RESPONSE_OK] := by
  refine (adds_payload .info [] two_ne_zero).bind ?_
  rintro info self _ ⟨rfl, hlength, rfl⟩
  dsimp only
  split
  · exact adds_fail _
  · next hfirmware => exact adds_pure ⟨rfl, info, hlength, hfirmware, rfl⟩

theorem adds_prepare (config : BridgeConfig) (drive : DriveSelect) :
    Adds (prepare config drive) self fun _ next new => ∃ driveA info,
      driveLine drive = .ok driveA ∧ info.length = 2 ∧ ¬ TooOld (nibbles (info.getD 1 0)) ∧
        next = prepared config driveA ∧ new = openPassages info := by
  refine (adds_ofExcept (P := fun driveA next new => new = [] ∧
    driveLine drive = .ok driveA) fun driveA hdrive => ⟨rfl, hdrive⟩).bind ?_
  rintro driveA _ _ ⟨rfl, hdrive⟩
  refine (adds_modify (P := fun _ next new => next = constructed config driveA ∧ new = [])
    ⟨rfl, rfl⟩).bind ?_
  rintro _ _ _ ⟨rfl, rfl⟩
  refine (adds_purge (P := fun _ next new => next = constructed config driveA ∧ new = [])
    ⟨rfl, rfl⟩).bind ?_
  rintro _ _ _ ⟨rfl, rfl⟩
  refine adds_checkFirmware.bind ?_
  rintro _ _ _ ⟨rfl, info, hlength, hfirmware, rfl⟩
  refine (adds_expectOk .motorAOff []).bind ?_
  rintro _ _ _ ⟨rfl, rfl⟩
  refine (adds_expectOk .motorBOff []).bind ?_
  rintro _ _ _ ⟨rfl, rfl⟩
  refine (adds_expectOk .deselectA []).bind ?_
  rintro _ _ _ ⟨rfl, rfl⟩
  refine (adds_expectOk .deselectB []).bind ?_
  rintro _ _ _ ⟨rfl, rfl⟩
  refine (adds_expectOk .seekZero []).bind ?_
  rintro _ _ _ ⟨rfl, rfl⟩
  exact adds_modify ⟨driveA, info, hdrive, hlength, hfirmware, rfl, rfl⟩

/-! ## The pins -/

/-- The device with what two bytes say of the pins. -/
def pinned (start : SuperCardPro) (pins : List Byte) : SuperCardPro :=
  let status := (pins.getD 0 0).toNat * 256 + (pins.getD 1 0).toNat
  { start with
    status := { start.status with
      writeProtected := !status.testBit 7
      diskPresent := status.testBit 6 } }

/-- A successful look at the pins of a drive that does not run, the last passage first. -/
def pinsPassages (driveA : Bool) (pins : List Byte) : List Passage :=
  [answered (if driveA then .deselectA else .deselectB) [] RESPONSE_OK, ⟨[], pins⟩,
    answered .status [] RESPONSE_OK,
    answered (if driveA then .selectA else .selectB) [] RESPONSE_OK]

theorem adds_deselect (hselected : self.selected = true) : Adds (select false) self
    fun _ next new => next = { self with selected := false } ∧
      new = [answered (if self.driveA then .deselectA else .deselectB) [] RESPONSE_OK] := by
  refine (adds_self (P := fun host next new => host = self ∧ next = self ∧ new = [])
    ⟨rfl, rfl, rfl⟩).bind ?_
  rintro _ self _ ⟨rfl, rfl, rfl⟩
  rw [if_neg fun hsame : false = self.selected => Bool.false_ne_true (hsame.trans hselected)]
  refine Adds.bind (adds_expectOk (if self.driveA then .deselectA else .deselectB) []) ?_
  rintro _ self _ ⟨rfl, rfl⟩
  exact adds_modify ⟨rfl, rfl⟩

theorem adds_checkPins (hselected : self.selected = false)
    (hidle : self.status.motorRunning = false) : Adds checkPins self fun _ next new =>
      ∃ pins, pins.length = 2 ∧ next = pinned self pins ∧ new = pinsPassages self.driveA pins := by
  refine (adds_self (P := fun host next new => host = self ∧ next = self ∧ new = [])
    ⟨rfl, rfl, rfl⟩).bind ?_
  rintro _ self _ ⟨rfl, rfl, rfl⟩
  refine adds_selectTrue.bind ?_
  rintro _ _ _ ⟨rfl, rfl⟩
  refine (adds_payload .status [] two_ne_zero).bind ?_
  rintro pins _ _ ⟨rfl, hlength, rfl⟩
  refine (adds_modify (P := fun _ next new =>
    next = { pinned self pins with selected := true } ∧ new = []) ⟨rfl, rfl⟩).bind ?_
  rintro _ _ _ ⟨rfl, rfl⟩
  rw [hidle]
  refine Adds.mono (adds_deselect rfl) ?_
  rintro _ _ _ ⟨rfl, rfl⟩
  refine ⟨pins, hlength, ?_, ?_⟩
  · unfold pinned
    rw [← hselected]
  · unfold selecting
    rw [hselected]
    rfl

/-- What looking at the pins may change, however it ends. -/
def PinsRead (start next : SuperCardPro) : Prop :=
  ∃ selected isProtected present, next = { start with
    selected := selected
    status := { start.status with writeProtected := isProtected, diskPresent := present } }

/-- Code that changes nothing else. -/
abbrev KeepsPins {α : Type} (start : SuperCardPro) (m : Host SuperCardPro α) : Prop :=
  m.Keeps (.any wireSig) (fun _ _ _ => True) fun next _ => PinsRead start next

theorem frame_pinsRead : Fallible.Frame (.any wireSig) (fun _ _ _ => True)
    (fun next _ => PinsRead start next) fun _ => True where
  ready _ _ _ _ _ := trivial
  keeps _ _ _ _ _ hread _ := hread

theorem keeps_command (code : Command) (payload : List Byte) (extra : Nat) :
    KeepsPins start (command code payload extra) := by
  have hread : ∀ operation count deadline,
      KeepsPins start (readExactUntil operation count deadline) := fun operation count deadline =>
    keeps_readExactUntil frame_pinsRead trivial (fun _ => trivial) operation count deadline
  have hdeadline : KeepsPins start deadlineFromNow :=
    frame_pinsRead.perform (o := .deadline) trivial
  have hraw : KeepsPins start (rawCommand code payload) := by
    refine (Fallible.keeps_ofExcept _).bind fun bytes => hdeadline.bind fun deadline =>
      (keeps_writeAllUntil frame_pinsRead trivial (fun _ => trivial) trivial _ _ _).bind
        fun left => (hread _ _ _).bind fun response => ?_
    dsimp only
    split
    · exact Fallible.keeps_fail _
    · exact Fallible.keeps_pure _
  refine hraw.bind fun response => (Fallible.keeps_ofExcept _).bind fun _ => ?_
  split
  · exact hdeadline.bind fun deadline => (hread _ _ _).bind fun output => Fallible.keeps_pure _
  · exact Fallible.keeps_pure _

theorem keeps_select (selected : Bool) : KeepsPins start (select selected) := by
  refine Fallible.keeps_self.bind fun self => ?_
  split
  · exact Fallible.keeps_pure _
  · refine ((keeps_command _ [] 0).bind fun _ => Fallible.keeps_pure _).bind fun _ =>
      Fallible.keeps_modify ?_
    rintro _ _ ⟨_, isProtected, present, rfl⟩
    exact ⟨selected, isProtected, present, rfl⟩

theorem keeps_checkPins : KeepsPins start checkPins := by
  refine Fallible.keeps_self.bind fun self => (keeps_select true).bind fun _ =>
    (keeps_command .status [] 2).bind fun pins => (Fallible.keeps_modify ?_).bind fun _ => ?_
  · rintro _ _ ⟨selected, _, _, rfl⟩
    exact ⟨selected, _, _, rfl⟩
  · split
    · exact keeps_select false
    · exact Fallible.keeps_pure _

/-! ## Opening -/

/--
**Opening a SuperCard Pro.** When `open` succeeds the line is one of the two drives, the firmware is
recent enough, and both drives were stopped and deselected before the head was sent home. The pins
were then looked at and the drive deselected again, or that failed on the way: nothing but the pins
and the select line of the drive is then in doubt.
-/
theorem openDevice_prepared (self next : SuperCardPro) (config : BridgeConfig)
    (drive : DriveSelect) (h h' : History wireSig)
    (hwalk : Walk (.any wireSig) (.ret next (.ok ())) h' (openDevice config drive self) h) :
    ∃ driveA info h₁, driveLine drive = .ok driveA ∧ info.length = 2 ∧
      ¬ TooOld (nibbles (info.getD 1 0)) ∧ passages h₁ = openPassages info ++ passages h ∧
      ((∃ pins, pins.length = 2 ∧ next = pinned (prepared config driveA) pins ∧
          passages h' = pinsPassages driveA pins ++ passages h₁) ∨
        ∃ e, Walk (.any wireSig) (.ret next (.error e)) h' (checkPins (prepared config driveA)) h₁ ∧
          PinsRead (prepared config driveA) next) := by
  obtain ⟨_, _, h₁, hprepare, hrest⟩ := Fallible.walk_split hwalk
  obtain ⟨_, hpassages, driveA, info, hdrive, hlength, hfirmware, rfl, rfl⟩ :=
    (adds_prepare config drive).of_walk hprepare
  refine ⟨driveA, info, h₁, hdrive, hlength, hfirmware, hpassages, ?_⟩
  obtain ⟨_, looked, _, hattempt, hdone⟩ := Fallible.walk_split hrest
  have hpins := Fallible.walk_attempt hattempt
  cases hdone
  cases looked with
  | ok =>
    obtain ⟨_, hsaid, pins, hpinsLength, rfl, rfl⟩ := (adds_checkPins rfl rfl).of_walk hpins
    exact .inl ⟨pins, hpinsLength, rfl, hsaid⟩
  | error e =>
    exact .inr ⟨e, hpins, hpins.wlp (keeps_checkPins _ _ ⟨false, _, _, rfl⟩)⟩

/-- The interface has no disk to look at, and the drive stays selected. -/
def refusedPins : Prog wireSig SuperCardPro (Except Error Unit) × History wireSig :=
  (openDevice ⟨.compatible, .auto, 450⟩ .pcA idleDrive).runWith
    (answering [0xd0, 0x4f, 0x11, 0x13, 0x86, 0x4f, 0x87, 0x4f, 0x82, 0x4f, 0x83, 0x4f, 0x88, 0x4f,
      0x80, 0x4f, 0x8e, 0x11] []) []

theorem openDevice_prepared_refused : ∃ driveA info h₁, driveLine .pcA = .ok driveA ∧
    passages h₁ = openPassages info ++ [] ∧ refusedPins.1.priv.selected = true := by
  have hresult : refusedPins.1.result? = some (.ok ()) := by decide +kernel
  have hselected : refusedPins.1.priv.selected = true := by decide +kernel
  have hwalk : Walk (.any wireSig) refusedPins.1 refusedPins.2
      (openDevice ⟨.compatible, .auto, 450⟩ .pcA idleDrive) [] :=
    Prog.walk_runWith (fun _ _ _ _ => trivial) _ _
  rw [Prog.eq_ret hresult] at hwalk
  obtain ⟨driveA, info, h₁, hdrive, -, -, hpassages, -⟩ := openDevice_prepared _ _ _ _ _ _ hwalk
  exact ⟨driveA, info, h₁, hdrive, hpassages, hselected⟩

end SuperCardPro

end FluxBridge
