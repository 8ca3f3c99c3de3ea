import FluxBridge.Device.WriteTranscripts

/-!
# Opening a DrawBridge

`open` of `src/device/drawbridge.rs`. The version is looked for in whatever arrives, and asked for a
second time behind a reset of the interface. The disk is looked at last, and the device counts as
open whether that succeeds or not.

* `adds_syncVersion` — the version is spelled by the last five bytes that were read
* `openDevice_ready` — what was said, and which state the device is left in
-/

namespace FluxBridge

open Atomic

namespace DrawBridge

variable {self start : DrawBridge}

/-! ## The version -/

/-- A digit. -/
def digit (value : Nat) : Byte := BitVec.ofNat 8 (48 + value)

/-- How a version is spelled; the comma says that the extended commands are there. -/
def spelled (major minor : Nat) (fullControl : Bool) : List Byte :=
  [ascii '1', ascii 'V', digit major, if fullControl then ascii ',' else ascii '.', digit minor]

theorem spelled_head (major minor : Nat) (fullControl : Bool) :
    (spelled major minor fullControl).head? ≠ some 0 :=
  fun hzero => absurd (Option.some.inj hzero) (by decide : ascii '1' ≠ 0)

theorem digit_of_byte {byte : Byte}
    (h : (decide (48 ≤ byte.toNat) && decide (byte.toNat ≤ 57)) = true) :
    byte = digit (byte.toNat - 48) ∧ byte.toNat - 48 ≤ 9 := by
  obtain ⟨hlow, hhigh⟩ := Bool.and_eq_true_iff.mp h
  have hlow := of_decide_eq_true hlow
  have hhigh := of_decide_eq_true hhigh
  refine ⟨BitVec.eq_of_toNat_eq ?_, by omega⟩
  unfold digit
  rw [BitVec.toNat_ofNat]
  omega

/-- The loop ends with a version that is spelled at the end of what it was fed. -/
theorem spelled_of_fed {window bytes : List Byte} {read : (Nat × Nat × Nat) × Bool}
    (h : Fed versionWindow window bytes read) :
    ∃ major minor, major ≤ 9 ∧ minor ≤ 9 ∧ read.1 = (major, minor, 0) ∧
      spelled major minor read.2 <:+ window ++ bytes := by
  induction h with
  | @last window byte read ends =>
    unfold versionWindow at ends
    dsimp only at ends
    split at ends
    · next one v major point minor hwindow =>
      split at ends
      · next hspelled =>
        obtain ⟨rfl, rfl, hmajor, hpoint, hminor⟩ := hspelled
        cases ends
        obtain ⟨hmajorDigit, hmajorBound⟩ := digit_of_byte hmajor
        obtain ⟨hminorDigit, hminorBound⟩ := digit_of_byte hminor
        refine ⟨_, _, hmajorBound, hminorBound, rfl, ?_⟩
        have hsuffix := shift_suffix window [] byte
        rw [List.append_nil, hwindow] at hsuffix
        unfold spelled
        rw [← hmajorDigit, ← hminorDigit]
        rcases hpoint with rfl | rfl
        · exact hsuffix
        · exact hsuffix
      · cases ends
    · cases ends
  | @more window _ byte bytes _ goes rest ih =>
    obtain ⟨major, minor, hmajor, hminor, hversion, hsuffix⟩ := ih
    refine ⟨major, minor, hmajor, hminor, hversion, hsuffix.trans ?_⟩
    unfold versionWindow at goes
    dsimp only at goes
    split at goes
    · split at goes
      · cases goes
      · cases goes
        exact shift_suffix window bytes byte
    · cases goes
      exact shift_suffix window bytes byte

/-- What asking for the version takes, the last passage first. -/
def versionPassages (major minor : Nat) (fullControl : Bool) (garbage : List Byte) :
    List Passage :=
  [⟨[], garbage ++ spelled major minor fullControl⟩, ⟨[ascii 'x', ascii 'R', ascii '?'], []⟩]

/-- Whatever else arrives, the version is what is spelled at the end. -/
theorem adds_syncVersion : Adds syncVersion self fun read next new => next = self ∧
    ∃ major minor garbage, major ≤ 9 ∧ minor ≤ 9 ∧ read.1 = (major, minor, 0) ∧
      new = versionPassages major minor read.2 garbage := by
  refine adds_deadline fun deadline => ?_
  refine (speaks_writeAllUntil fun left => ⟨rfl, rfl⟩ : Speaks _ _ _ fun _ next passage =>
    next = self ∧ passage = Passage.empty.send [ascii 'x', ascii 'R', ascii '?']).ends ?_
  rintro left self _ ⟨rfl, rfl⟩
  refine Adds.ends (adds_deadline fun deadline => Speaks.close ?_)
  refine (speaks_eachByte deadline (List.replicate 5 0) deadline _).bind ?_
  rintro ⟨read, left⟩ self _ ⟨rfl, bytes, hfed, rfl⟩
  obtain ⟨major, minor, hmajor, hminor, hversion, hsuffix⟩ := spelled_of_fed hfed
  obtain ⟨garbage, rfl⟩ :=
    suffix_of_zeros (spelled_head _ _ _) (List.cons_ne_nil _ _) 5 hsuffix
  refine (adds_purge (P := fun _ next new => new = [] ∧ next = self) ⟨rfl, rfl⟩).speaks.bind ?_
  rintro _ self _ ⟨rfl, rfl⟩
  exact speaks_pure ⟨rfl, major, minor, garbage, hmajor, hminor, hversion, rfl⟩

theorem adds_setLines (asserted : Bool) :
    Adds (setLines asserted) self fun _ next new => next = self ∧ new = [] := by
  refine (adds_wire (P := fun _ next new => next = self ∧ new = []) (fun _ _ => rfl)
    fun _ => ⟨rfl, rfl⟩).bind ?_
  rintro _ self _ ⟨rfl, rfl⟩
  refine (adds_ofExcept (P := fun _ next new => next = self ∧ new = []) fun _ _ =>
    ⟨rfl, rfl⟩).bind ?_
  rintro _ self _ ⟨rfl, rfl⟩
  refine (adds_wire (P := fun _ next new => next = self ∧ new = []) (fun _ _ => rfl)
    fun _ => ⟨rfl, rfl⟩).bind ?_
  rintro _ self _ ⟨rfl, rfl⟩
  exact adds_ofExcept fun _ _ => ⟨rfl, rfl⟩

/-! ## The device -/

/-- Which firmware reports its features. -/
def HasFeatures (major minor : Nat) : Prop := 1 < major ∨ (major = 1 ∧ 9 ≤ minor)

instance (major minor : Nat) : Decidable (HasFeatures major minor) :=
  inferInstanceAs (Decidable (_ ∨ _))

/-- The device as it is constructed. -/
def constructed (config : BridgeConfig) (major minor : Nat) (fullControl : Bool) : DrawBridge where
  status := DriveStatus.initial
  firmware := (major, minor, 0)
  flags := 0
  fullControl := fullControl
  highDensity := config.density = .high

/-- The device in front of the look at the disk; firmware without features reports none. -/
def readied (config : BridgeConfig) (major minor : Nat) (fullControl : Bool)
    (features : List Byte) : DrawBridge :=
  let self := constructed config major minor fullControl
  { self with
    status := { self.status with
      cylinder := 0
      working := true
      driveType := if self.highDensity then .hd35 else .dd35 }
    firmware := (major, minor, (features.getD 2 0).toNat)
    flags := features.getD 0 0 }

/-- What asking for the features takes. -/
def featurePassages (major minor : Nat) (features : List Byte) : List Passage :=
  if HasFeatures major minor then ⟨[], features⟩ :: accepting (ascii '@') else []

theorem adds_readFeatures {major minor : Nat} (hfirmware : self.firmware = (major, minor, 0))
    (hflags : self.flags = 0) : Adds readFeatures self fun _ next new => ∃ features,
      features.length = (if HasFeatures major minor then 3 else 0) ∧
        next = { self with
          flags := features.getD 0 0
          firmware := (major, minor, (features.getD 2 0).toNat) } ∧
        new = featurePassages major minor features := by
  refine (adds_self (P := fun host next new => host = self ∧ next = self ∧ new = [])
    ⟨rfl, rfl, rfl⟩).bind ?_
  rintro _ self _ ⟨rfl, rfl, rfl⟩
  unfold featurePassages
  by_cases hfeatures : HasFeatures major minor
  · have hnine : 1 < self.firmware.1 ∨ (self.firmware.1 = 1 ∧ 9 ≤ self.firmware.2.1) := by
      rw [hfirmware]
      exact hfeatures
    simp only [if_pos hfeatures]
    rw [if_pos hnine]
    refine (adds_expectCommand (ascii '@')).bind ?_
    rintro _ self _ ⟨rfl, rfl⟩
    refine Adds.bind (P := fun (read : List Byte × Nat) next new => next = self ∧
      read.1.length = 3 ∧ new = [⟨[], read.1⟩]) (adds_deadline fun deadline => Speaks.close ?_) ?_
    · exact speaks_readExactUntil fun bytes left hlength => ⟨rfl, hlength, rfl⟩
    · rintro ⟨features, left⟩ self _ ⟨rfl, hlength, rfl⟩
      exact adds_modify ⟨features, hlength, by rw [hfirmware], rfl⟩
  · have hnine : ¬ (1 < self.firmware.1 ∨ (self.firmware.1 = 1 ∧ 9 ≤ self.firmware.2.1)) := by
      rw [hfirmware]
      exact hfeatures
    simp only [if_neg hfeatures]
    rw [if_neg hnine]
    refine adds_pure ⟨[], rfl, ?_, rfl⟩
    show self = { self with flags := 0, firmware := (major, minor, 0) }
    rw [← hfirmware, ← hflags]

/-- The rest of `open` up to the disk, the last passage first. -/
def readyPassages (major minor : Nat) (features : List Byte) : List Passage :=
  accepting (ascii '.') ++ featurePassages major minor features

/-- What looking at the disk may change, however it ends. -/
def DiskChecked (start next : DrawBridge) : Prop :=
  ∃ present isProtected, next = { start with
    status := { start.status with diskPresent := present, writeProtected := isProtected } }

/-- Code that changes nothing else. -/
abbrev KeepsDisk {α : Type} (start : DrawBridge) (m : Host DrawBridge α) : Prop :=
  m.Keeps (.any wireSig) (fun _ _ _ => True) fun next _ => DiskChecked start next

theorem frame_diskChecked : Fallible.Frame (.any wireSig) (fun _ _ _ => True)
    (fun next _ => DiskChecked start next) fun _ => True where
  ready _ _ _ _ _ := trivial
  keeps _ _ _ _ _ hchecked _ := hchecked

theorem keepsDisk_readByte (operation : String) : KeepsDisk start (readByte operation) :=
  (frame_diskChecked.perform (o := .deadline) trivial).bind fun _ =>
    ((keeps_readExactUntil frame_diskChecked trivial (fun _ => trivial) _ _ _).bind fun _ =>
      Fallible.keeps_pure _).bind fun _ => Fallible.keeps_pure _

theorem keepsDisk_diskByte (disk : Byte) : KeepsDisk start (diskByte disk) := by
  unfold diskByte
  split
  · refine Fallible.keeps_modify ?_
    rintro _ _ ⟨_, isProtected, rfl⟩
    exact ⟨true, isProtected, rfl⟩
  · split
    · refine Fallible.keeps_modify ?_
      rintro _ _ ⟨_, isProtected, rfl⟩
      exact ⟨false, isProtected, rfl⟩
    · exact Fallible.keeps_fail _

theorem keepsDisk_writeProtectByte (writeProtect : Byte) :
    KeepsDisk start (writeProtectByte writeProtect) := by
  unfold writeProtectByte
  split
  · refine Fallible.keeps_modify ?_
    rintro _ _ ⟨present, _, rfl⟩
    exact ⟨present, true, rfl⟩
  · split
    · refine Fallible.keeps_modify ?_
      rintro _ _ ⟨present, _, rfl⟩
      exact ⟨present, false, rfl⟩
    · exact Fallible.keeps_pure _

theorem keepsDisk_checkDisk : KeepsDisk start checkDisk := by
  refine Fallible.keeps_self.bind fun self => ?_
  split
  · exact Fallible.keeps_pure _
  · refine ((frame_diskChecked.perform (o := .deadline) trivial).bind fun deadline =>
      (keeps_writeAllUntil frame_diskChecked trivial (fun _ => trivial) trivial _ _ _).bind fun _ =>
        Fallible.keeps_pure _).bind fun _ => ?_
    exact (keepsDisk_readByte _).bind fun disk => (keepsDisk_readByte _).bind fun writeProtect =>
      (keepsDisk_diskByte disk).bind fun _ => keepsDisk_writeProtectByte writeProtect

/-! ## Opening -/

/-- Before the version was read it was asked for in vain, or not at all. -/
def AskedBefore (self : DrawBridge) (h h₀ : History wireSig) : Prop :=
  passages h₀ = passages h ∨ ∃ h₁ refused e h₂, passages h₁ = passages h ∧
    Walk (.any wireSig) (.ret refused (.error e)) h₂ (syncVersion self) h₁ ∧
      passages h₀ = passages h₂

theorem syncOrReset_spelled {next : DrawBridge} {read : (Nat × Nat × Nat) × Bool}
    {h h' : History wireSig}
    (hwalk : Walk (.any wireSig) (.ret next (.ok read)) h' (syncOrReset self) h) :
    ∃ major minor garbage h₀, major ≤ 9 ∧ minor ≤ 9 ∧ read.1 = (major, minor, 0) ∧
      AskedBefore self h h₀ ∧
        passages h' = versionPassages major minor read.2 garbage ++ passages h₀ := by
  obtain ⟨_, first, h₁, hattempt, hwalk⟩ := Fallible.walk_split hwalk
  have hfirst := Fallible.walk_attempt hattempt
  cases first with
  | ok version =>
    cases hwalk
    obtain ⟨_, hsaid, -, major, minor, garbage, hmajor, hminor, hversion, rfl⟩ :=
      adds_syncVersion.of_walk hfirst
    exact ⟨major, minor, garbage, h, hmajor, hminor, hversion, .inl rfl, hsaid⟩
  | error e =>
    obtain ⟨_, _, _, h₂, hsaid₂, ⟨-, rfl⟩, hreset⟩ := (adds_setLines false).walk_bind hwalk
    obtain ⟨_, _, _, h₃, hsaid₃, ⟨-, rfl⟩, hset⟩ := (adds_setLines true).walk_bind hreset
    obtain ⟨_, _, _, h₄, hsaid₄, rfl, hagain⟩ :=
      (adds_purge (P := fun _ _ new => new = []) rfl).walk_bind hset
    obtain ⟨_, hsaid, -, major, minor, garbage, hmajor, hminor, hversion, rfl⟩ :=
      adds_syncVersion.of_walk hagain
    refine ⟨major, minor, garbage, h₄, hmajor, hminor, hversion, .inr ?_, hsaid⟩
    exact ⟨h, _, e, h₁, rfl, hfirst, hsaid₄.trans (hsaid₃.trans hsaid₂)⟩

/-- From the construction of the device to its end. -/
theorem initialise_ready {config : BridgeConfig} {major minor : Nat} {fullControl : Bool}
    {next : DrawBridge} {h h' : History wireSig}
    (hwalk : Walk (.any wireSig) (.ret next (.ok ())) h'
      (initialise (constructed config major minor fullControl)) h) :
    ∃ features h₁ looked, features.length = (if HasFeatures major minor then 3 else 0) ∧
      passages h₁ = readyPassages major minor features ++ passages h ∧
      Walk (.any wireSig) (.ret next looked) h'
        (checkDisk (readied config major minor fullControl features)) h₁ := by
  obtain ⟨_, _, _, h₁, hsaid₁, ⟨rfl, rfl⟩, hwalk⟩ :=
    (adds_setTimeout (P := fun _ next new => next = _ ∧ new = []) ⟨rfl, rfl⟩).walk_bind hwalk
  obtain ⟨_, _, _, h₂, hsaid₂, ⟨rfl, rfl⟩, hwalk⟩ :=
    (adds_purge (P := fun _ next new => next = _ ∧ new = []) ⟨rfl, rfl⟩).walk_bind hwalk
  obtain ⟨_, _, _, h₃, hsaid₃, ⟨features, hlength, rfl, rfl⟩, hwalk⟩ :=
    (adds_readFeatures rfl rfl).walk_bind hwalk
  obtain ⟨_, _, _, h₄, hsaid₄, ⟨rfl, rfl⟩, hwalk⟩ := (adds_expectCommand _).walk_bind hwalk
  obtain ⟨_, _, _, h₅, hsaid₅, ⟨rfl, rfl⟩, hwalk⟩ :=
    (adds_modify (P := fun _ next new => next = _ ∧ new = []) ⟨rfl, rfl⟩).walk_bind hwalk
  obtain ⟨_, _, _, h₆, hsaid₆, ⟨rfl, rfl, rfl⟩, hwalk⟩ :=
    (adds_self (P := fun host next new => host = _ ∧ next = _ ∧ new = [])
      ⟨rfl, rfl, rfl⟩).walk_bind hwalk
  obtain ⟨_, _, _, h₇, hsaid₇, ⟨rfl, rfl⟩, hwalk⟩ :=
    (adds_modify (P := fun _ next new => next = _ ∧ new = []) ⟨rfl, rfl⟩).walk_bind hwalk
  obtain ⟨_, looked, _, hattempt, hdone⟩ := Fallible.walk_split hwalk
  have hchecked := Fallible.walk_attempt hattempt
  cases hdone
  refine ⟨features, h₇, looked, hlength, ?_, ?_⟩
  · rw [hsaid₇, hsaid₆, hsaid₅, hsaid₄, hsaid₃, hsaid₂, hsaid₁]
    rfl
  · exact hchecked

/--
**Opening a DrawBridge.** When `open` succeeds the version was spelled behind whatever else had
arrived, it is recent enough, and the features are those of the firmware that has any. The disk was
looked at last, and nothing but its two flags is in doubt however that ended.
-/
theorem openDevice_ready (self next : DrawBridge) (config : BridgeConfig) (h h' : History wireSig)
    (hwalk : Walk (.any wireSig) (.ret next (.ok ())) h' (openDevice config self) h) :
    ∃ major minor fullControl garbage features h₀ h₁, major ≤ 9 ∧ minor ≤ 9 ∧
      (1 < major ∨ (major = 1 ∧ 8 ≤ minor)) ∧
      features.length = (if HasFeatures major minor then 3 else 0) ∧ AskedBefore self h h₀ ∧
      passages h₁ = readyPassages major minor features ++
        (versionPassages major minor fullControl garbage ++ passages h₀) ∧
      DiskChecked (readied config major minor fullControl features) next ∧
      ∃ looked, Walk (.any wireSig) (.ret next looked) h'
        (checkDisk (readied config major minor fullControl features)) h₁ := by
  obtain ⟨_, _, _, h₁, hsaid₁, ⟨rfl, rfl⟩, hflow⟩ :=
    (adds_wire (P := fun _ next new => self = next ∧ new = []) (fun _ _ => rfl)
      fun _ => ⟨rfl, rfl⟩).walk_bind hwalk
  obtain ⟨_, _, _, h₂, hsaid₂, ⟨rfl, rfl⟩, hpurge⟩ :=
    (adds_ofExcept (P := fun _ next new => self = next ∧ new = []) fun _ _ =>
      ⟨rfl, rfl⟩).walk_bind hflow
  obtain ⟨_, _, _, h₃, hsaid₃, ⟨rfl, rfl⟩, hsync⟩ :=
    (adds_purge (P := fun _ next new => self = next ∧ new = []) ⟨rfl, rfl⟩).walk_bind hpurge
  obtain ⟨synced, ⟨firmware, fullControl⟩, h₄, hversion, hrest⟩ := Fallible.walk_split hsync
  obtain ⟨major, minor, garbage, h₀, hmajor, hminor, rfl, hasked, hsaid⟩ :=
    syncOrReset_spelled hversion
  dsimp only at hrest
  split at hrest
  · cases hrest
  · next hrecent =>
    obtain ⟨features, h₅, looked, hlength, hready, hlooks⟩ := initialise_ready hrest
    refine ⟨major, minor, fullControl, garbage, features, h₀, h₅, hmajor, hminor, by omega, hlength,
      ?_, by rw [hready, hsaid], ?_, looked, hlooks⟩
    · have hquiet : passages h₃ = passages h := hsaid₃.trans (hsaid₂.trans hsaid₁)
      rcases hasked with hasked | ⟨h₆, refused, e, h₇, hsame, hfails, hafter⟩
      · exact .inl (hasked.trans hquiet)
      · exact .inr ⟨h₆, refused, e, h₇, hsame.trans hquiet, hfails, hafter⟩
    · exact hlooks.wlp (keepsDisk_checkDisk _ _ ⟨_, _, rfl⟩)

/-- A version that begins anew within what looks like one, and a disk that is write protected. -/
def openedBehindGarbage : Prog wireSig DrawBridge (Except Error Unit) × History wireSig :=
  (openDevice ⟨.compatible, .auto, 450⟩ unopened).runWith
    (answering ([ascii '1', ascii 'V'] ++ spelled 1 9 true ++
      [ascii '1', 8, 0, 22, ascii '1', ascii '1', ascii '1']) []) []

theorem openDevice_ready_garbage : ∃ major minor fullControl garbage features h₀ h₁,
    AskedBefore unopened [] h₀ ∧ passages h₁ = readyPassages major minor features ++
      (versionPassages major minor fullControl garbage ++ passages h₀) := by
  have hresult : openedBehindGarbage.1.result? = some (.ok ()) := by decide +kernel
  have hwalk : Walk (.any wireSig) openedBehindGarbage.1 openedBehindGarbage.2
      (openDevice ⟨.compatible, .auto, 450⟩ unopened) [] :=
    Prog.walk_runWith (fun _ _ _ _ => trivial) _ _
  rw [Prog.eq_ret hresult] at hwalk
  obtain ⟨major, minor, fullControl, garbage, features, h₀, h₁, -, -, -, -, hasked, hsaid, -⟩ :=
    openDevice_ready _ _ _ _ _ hwalk
  exact ⟨major, minor, fullControl, garbage, features, h₀, h₁, hasked, hsaid⟩

end DrawBridge

end FluxBridge
