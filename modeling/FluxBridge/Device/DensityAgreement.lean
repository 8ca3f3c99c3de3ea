import FluxBridge.Device.DrawBridge

/-!
# The density of a DrawBridge

The interface starts in double density and changes only when it accepts `H` or `D`. The host keeps
the density it believes the interface to be in, so that it need not tell it again.

* `keeps_agreement` — no call of the device breaks the agreement
* `densityAgreement_iff` — whether there is one from the beginning is up to the configuration
-/

namespace FluxBridge.DrawBridge

open Atomic

/-- The density the interface is in: the last one it accepted, double if none. -/
def firmwareDensity : History wireSig → Bool
  | [] => false
  | ⟨.accepted command, _⟩ :: rest =>
    if command = ascii 'H' then true
    else if command = ascii 'D' then false
    else firmwareDensity rest
  | _ :: rest => firmwareDensity rest

/-- The call that begins a read stream or a track write. -/
def Starts (o : WireOp) : Prop :=
  o = .write [READ_STREAM] ∨ o = .write [WRITE_DD] ∨ o = .write [WRITE_HD]

/-- A device that was opened and a moment of the calls it serves. -/
structure Serving (config : BridgeConfig) (p : Prog wireSig DrawBridge (Except Error Unit))
    (h : History wireSig) : Prop where
  run : ∃ before device opened calls,
    Walk (.any wireSig) (.ret device (.ok ())) opened (openDevice config before) [] ∧
      Walk (.any wireSig) p h (session serve calls device) opened

/-- At every moment of every run the host believes what the interface is in. -/
def AlwaysAgrees (config : BridgeConfig) : Prop :=
  ∀ p h, Serving config p h → p.priv.highDensity = firmwareDensity h

/-- Every stream and every write begins in the density the interface is in. -/
def AgreesAtStarts (config : BridgeConfig) : Prop :=
  ∀ p h o, Serving config p h → p.next? = some o → Starts o →
    p.priv.highDensity = firmwareDensity h

/-! ## What keeps the agreement -/

/-- The host believes what the interface is in. -/
def Agrees (self : DrawBridge) (h : History wireSig) : Prop := self.highDensity = firmwareDensity h

/-- Code during which the host agrees with the interface. -/
abbrev KeepsAgreement {α : Type} (m : Host DrawBridge α) : Prop :=
  m.Keeps (.any wireSig) (fun self _ h => Agrees self h) Agrees

/-- The actions that do not change the density of the interface. -/
def Quiet : WireOp → Prop
  | .accepted command => command ≠ ascii 'H' ∧ command ≠ ascii 'D'
  | _ => True

/-- Calls that accept no command leave both densities as they are. -/
theorem quiet_frame : Fallible.Frame (.any wireSig) (fun (self : DrawBridge) _ h => Agrees self h)
    Agrees Quiet where
  ready _ _ _ _ h := h
  keeps self o h r ho hagrees _ := by
    cases o with
    | accepted command =>
      unfold Agrees firmwareDensity
      rw [if_neg ho.1, if_neg ho.2]
      exact hagrees
    | _ => exact hagrees

/-- Bytes alone change nothing: the interface has to accept a command. -/
theorem keeps_send (bytes : List Byte) (operation : String) :
    KeepsAgreement (send bytes operation) :=
  (quiet_frame.perform (o := .deadline) trivial).bind fun _ =>
    (keeps_writeAllUntil quiet_frame trivial (fun _ => trivial) trivial _ _ _).bind fun _ =>
      Fallible.keeps_pure _

/-- Nor does what is read. -/
theorem keeps_readByteUntil (deadline : Nat) (operation : String) :
    KeepsAgreement (readByteUntil deadline operation) :=
  (keeps_readExactUntil quiet_frame trivial (fun _ => trivial) _ _ _).bind fun _ =>
    Fallible.keeps_pure _

theorem keeps_readByte (operation : String) : KeepsAgreement (readByte operation) :=
  (quiet_frame.perform (o := .deadline) trivial).bind fun _ =>
    (keeps_readByteUntil _ _).bind fun _ => Fallible.keeps_pure _

theorem keeps_setStatus (f : DriveStatus → DriveStatus) : KeepsAgreement (setStatus f) :=
  Fallible.keeps_modify fun _ _ hagrees => hagrees

/-- Either branch will do. -/
theorem keeps_ite {α : Type} {p : Prop} [Decidable p] {m m' : Host DrawBridge α}
    (hm : KeepsAgreement m) (hm' : KeepsAgreement m') : KeepsAgreement (if p then m else m') := by
  split
  · exact hm
  · exact hm'

/-- A command that is not about the density. -/
theorem keeps_expectCommand {command : Byte} (h : command ≠ ascii 'H' ∧ command ≠ ascii 'D') :
    KeepsAgreement (expectCommand command) :=
  (keeps_send _ _).bind fun _ => (keeps_readByte _).bind fun _ =>
    keeps_ite (quiet_frame.perform h) (keeps_ite (Fallible.keeps_fail _) (Fallible.keeps_fail _))

theorem keeps_diskByte (disk : Byte) : KeepsAgreement (diskByte disk) :=
  keeps_ite (keeps_setStatus _) (keeps_ite (keeps_setStatus _) (Fallible.keeps_fail _))

theorem keeps_writeProtectByte (writeProtect : Byte) :
    KeepsAgreement (writeProtectByte writeProtect) :=
  keeps_ite (keeps_setStatus _) (keeps_ite (keeps_setStatus _) (Fallible.keeps_pure _))

/-- The look at the disk leaves the density alone. -/
theorem keeps_checkDisk : KeepsAgreement checkDisk :=
  Fallible.keeps_self.bind fun _ => keeps_ite (Fallible.keeps_pure _)
    ((keeps_send _ _).bind fun _ => (keeps_readByte _).bind fun _ =>
      (keeps_readByte _).bind fun _ => (keeps_diskByte _).bind fun _ => keeps_writeProtectByte _)

/-- To find out which density to use changes none. -/
theorem keeps_resolveDensity (density : DensityMode) : KeepsAgreement (resolveDensity density) := by
  refine Fallible.keeps_self.bind fun self => ?_
  cases density with
  | double => exact Fallible.keeps_pure _
  | high => exact Fallible.keeps_pure _
  | auto =>
    refine keeps_ite ?_ (Fallible.keeps_pure _)
    refine (keeps_expectCommand (by decide)).bind fun _ => (keeps_readByte _).bind fun _ => ?_
    refine keeps_ite (Fallible.keeps_pure _) (keeps_ite (Fallible.keeps_pure _) (keeps_ite ?_ ?_))
    · exact (keeps_setStatus _).bind fun _ => Fallible.keeps_pure _
    · exact Fallible.keeps_fail _

/-- The command that asks for a density. -/
def densityCommand (high : Bool) : Byte := if high then ascii 'H' else ascii 'D'

/-- The density command that was accepted last is the density of the firmware. -/
theorem firmwareDensity_accepted (high : Bool) (h : History wireSig) :
    firmwareDensity (⟨.accepted (densityCommand high), ()⟩ :: h) = high := by
  unfold densityCommand firmwareDensity
  cases high with
  | true => rw [if_pos rfl, if_pos rfl]
  | false => rw [if_neg Bool.false_ne_true, if_neg (by decide), if_pos rfl]

/-- Where the command is accepted the interface is in the density it asks for. -/
theorem expectCommand_density (high : Bool) {self : DrawBridge} {h : History wireSig}
    (hagrees : Agrees self h) :
    (expectCommand (densityCommand high)).wlp (.any wireSig) (fun self _ h => Agrees self h)
      (fun result self h => (∃ e, result = .error e ∧ Agrees self h) ∨
        (result = .ok () ∧ firmwareDensity h = high)) self h := by
  refine Fallible.wlp_seq (keeps_send _ _ self h hagrees)
    (fun e self h hagrees => Or.inl ⟨e, rfl, hagrees⟩) fun _ self h hagrees => ?_
  refine Fallible.wlp_seq (keeps_readByte _ self h hagrees)
    (fun e self h hagrees => Or.inl ⟨e, rfl, hagrees⟩) fun response self h hagrees => ?_
  split
  · refine ⟨hagrees, ?_⟩
    intro _ _
    exact Or.inr ⟨rfl, firmwareDensity_accepted high h⟩
  · split
    · exact Or.inl ⟨_, rfl, hagrees⟩
    · exact Or.inl ⟨_, rfl, hagrees⟩

/-- An accepted change is remembered before anything else happens. -/
theorem keeps_changeDensity (high : Bool) : KeepsAgreement (changeDensity high) := by
  refine Fallible.keeps_self.bind fun device => ?_
  split
  · intro self h hagrees
    refine Fallible.wlp_seq (expectCommand_density high hagrees) ?_ ?_
    · rintro e self h (⟨_, -, hagrees⟩ | ⟨himpossible, -⟩)
      · exact hagrees
      · cases himpossible
    · rintro _ self h (⟨_, himpossible, -⟩ | ⟨-, hdensity⟩)
      · cases himpossible
      · exact hdensity.symm
  · exact Fallible.keeps_pure _

/-- The host remembers a density only once the command for it was accepted. -/
theorem keeps_chooseDensity (density : DensityMode) : KeepsAgreement (chooseDensity density) :=
  (keeps_resolveDensity density).bind fun high => keeps_changeDensity high

/-! ## Reading and writing -/

theorem keeps_revolution (mode : ReadMode) (bits : List Bool) :
    KeepsAgreement (revolution mode bits) :=
  keeps_ite (Fallible.keeps_self.bind fun _ => (keeps_orPanic quiet_frame trivial _).bind fun _ =>
    Fallible.keeps_ofExcept _) (Fallible.keeps_pure _)

/-- Making a capture of the stream is the host's own work. -/
theorem keeps_extractCapture (mode : ReadMode) (state : Stream) :
    KeepsAgreement (extractCapture mode state) :=
  keeps_ite (Fallible.keeps_fail _) ((keeps_revolution _ _).bind fun _ =>
    (Fallible.keeps_ofExcept _).bind fun _ => (keeps_setStatus _).bind fun _ =>
      Fallible.keeps_pure _)

/-- The stop byte is no density command. -/
theorem keeps_stopStream (mode : ReadMode) (state : Stream) (deadline : Nat) :
    KeepsAgreement (stopStream mode state deadline) :=
  (keeps_send _ _).bind fun _ =>
    (keeps_eachByte quiet_frame trivial (fun _ => trivial) _ _ _ _ _).bind fun _ =>
      (keeps_purge quiet_frame trivial).bind fun _ => keeps_extractCapture _ _

/-- A read changes no density. -/
theorem keeps_readStream (mode : ReadMode) : KeepsAgreement (readStream mode) :=
  (keeps_expectCommand (by decide)).bind fun _ =>
    (quiet_frame.perform (o := .deadline) trivial).bind fun _ => Fallible.keeps_self.bind fun _ =>
      (keeps_eachByte quiet_frame trivial (fun _ => trivial) _ _ _ _ _).bind fun _ =>
        keeps_stopStream _ _ _

theorem keeps_sendLength (length bitLen : Nat) : KeepsAgreement (sendLength length bitLen) :=
  Fallible.keeps_self.bind fun _ => keeps_ite (Fallible.keeps_pure _)
    ((Fallible.keeps_ofExcept _).bind fun _ => keeps_send _ _)

theorem keeps_sendTrack (encoded : List Byte) (bitLen : Nat) (fromIndex : Bool) :
    KeepsAgreement (sendTrack encoded bitLen fromIndex) :=
  (keeps_sendLength _ _).bind fun _ => (keeps_send _ _).bind fun _ =>
    (keeps_readByte _).bind fun _ => keeps_ite (Fallible.keeps_fail _)
      ((quiet_frame.perform (o := .deadline) trivial).bind fun _ =>
      (keeps_writeAllUntil quiet_frame trivial (fun _ => trivial) trivial _ _ _).bind fun _ =>
        (quiet_frame.perform (o := .deadline) trivial).bind fun _ =>
          (keeps_readByteUntil _ _).bind fun _ => Fallible.keeps_ofExcept _)

/-- Nor does a write, of whichever density. -/
theorem keeps_writeStream (words : List (BitVec 16)) (bitLen : Nat) (fromIndex : Bool) :
    KeepsAgreement (writeStream words bitLen fromIndex) := by
  refine Fallible.keeps_self.bind fun self => (Fallible.keeps_ofExcept _).bind fun encoded =>
    (keeps_expectCommand ?_).bind fun _ => (keeps_readByte _).bind fun permission =>
      keeps_ite ?_ (keeps_ite (Fallible.keeps_fail _) (keeps_sendTrack _ _ _))
  · cases self.highDensity <;> decide
  · exact (keeps_setStatus _).bind fun _ => Fallible.keeps_fail _

theorem keeps_seekReply (response : Byte) : KeepsAgreement (seekReply response) :=
  keeps_ite (Fallible.keeps_pure _) (keeps_ite
    ((keeps_readByte _).bind fun _ => (keeps_readByte _).bind fun _ => keeps_setStatus _)
    (keeps_ite (Fallible.keeps_fail _) (Fallible.keeps_fail _)))

/-- **Agreement.** No call of the device breaks it. -/
theorem keeps_agreement (call : DeviceCall) : KeepsAgreement (serve call) := by
  cases call with
  | status =>
    exact (keeps_checkDisk.bind fun _ => (keeps_setStatus _).bind fun _ =>
      Fallible.keeps_self.bind fun _ => Fallible.keeps_pure _).bind fun _ => Fallible.keeps_pure _
  | setMotor enabled quick =>
    refine (keeps_expectCommand ?_).bind fun _ => keeps_setStatus _
    cases enabled <;> cases quick <;> decide
  | seek cylinder =>
    exact Fallible.keeps_self.bind fun _ => keeps_ite (Fallible.keeps_fail _)
      ((keeps_send _ _).bind fun _ => (keeps_readByte _).bind fun _ =>
        (keeps_seekReply _).bind fun _ => keeps_setStatus _)
  | selectSide side =>
    refine (keeps_expectCommand ?_).bind fun _ => keeps_setStatus _
    cases side <;> decide
  | noClickStep =>
    exact Fallible.keeps_self.bind fun _ => keeps_ite (Fallible.keeps_pure _)
      ((keeps_expectCommand (by decide)).bind fun _ => (keeps_readByte _).bind fun _ =>
        (keeps_readByte _).bind fun _ => keeps_setStatus _)
  | readTrack mode density =>
    exact ((keeps_chooseDensity _).bind fun _ => keeps_readStream _).bind fun _ =>
      Fallible.keeps_pure _
  | writeTrack words bitLen fromIndex density =>
    exact (keeps_chooseDensity _).bind fun _ => keeps_writeStream _ _ _

/-! ## From the beginning -/

/-- While the interface is looked for there is no device yet, and the density stays double. -/
def StillDouble (_ : DrawBridge) (h : History wireSig) : Prop := firmwareDensity h = false

/-- Until a command is accepted the firmware is at double density. -/
theorem double_frame : Fallible.Frame (.any wireSig) (fun _ _ _ => True) StillDouble Quiet where
  ready _ _ _ _ _ := trivial
  keeps self o h r ho hdouble _ := by
    cases o with
    | accepted command =>
      unfold StillDouble firmwareDensity
      rw [if_neg ho.1, if_neg ho.2]
      exact hdouble
    | _ => exact hdouble

abbrev KeepsDouble {α : Type} (m : Host DrawBridge α) : Prop :=
  m.Keeps (.any wireSig) (fun _ _ _ => True) StillDouble

/-- While the version is asked for the interface stays at double density. -/
theorem syncVersion_double : KeepsDouble syncVersion :=
  (double_frame.perform (o := .deadline) trivial).bind fun _ =>
    (keeps_writeAllUntil double_frame trivial (fun _ => trivial) trivial _ _ _).bind fun _ =>
      (double_frame.perform (o := .deadline) trivial).bind fun _ =>
        (keeps_eachByte double_frame trivial (fun _ => trivial) _ _ _ _ _).bind fun _ =>
          (keeps_purge double_frame trivial).bind fun _ => Fallible.keeps_pure _

theorem setLines_double (asserted : Bool) : KeepsDouble (setLines asserted) :=
  (double_frame.perform (o := .setDtr asserted) trivial).bind fun _ =>
    (Fallible.keeps_ofExcept _).bind fun _ =>
      (double_frame.perform (o := .setRts asserted) trivial).bind fun _ => Fallible.keeps_ofExcept _

/-- So it does when the lines are reset meanwhile. -/
theorem syncOrReset_double : KeepsDouble syncOrReset := by
  refine syncVersion_double.attempt.bind fun first => ?_
  cases first with
  | ok version => exact Fallible.keeps_pure _
  | error e =>
    exact (setLines_double _).bind fun _ => (setLines_double _).bind fun _ =>
      (keeps_purge double_frame trivial).bind fun _ => syncVersion_double

theorem keeps_readFeatures : KeepsAgreement readFeatures :=
  Fallible.keeps_self.bind fun _ => keeps_ite
    ((keeps_expectCommand (by decide)).bind fun _ =>
      (quiet_frame.perform (o := .deadline) trivial).bind fun _ =>
        (keeps_readExactUntil quiet_frame trivial (fun _ => trivial) _ _ _).bind fun _ =>
          Fallible.keeps_modify fun _ _ hagrees => hagrees)
    (Fallible.keeps_pure _)

/-- From the agreement at the start on, opening keeps it. -/
theorem keeps_initialise : KeepsAgreement initialise :=
  (keeps_setTimeout quiet_frame trivial).bind fun _ =>
    (keeps_purge quiet_frame trivial).bind fun _ => keeps_readFeatures.bind fun _ =>
      (keeps_expectCommand (by decide)).bind fun _ => (keeps_setStatus _).bind fun _ =>
        Fallible.keeps_self.bind fun _ => (keeps_setStatus _).bind fun _ =>
          keeps_checkDisk.attempt.bind fun _ => Fallible.keeps_pure _

/-- A device that was not configured for high density agrees once it is open. -/
theorem openDevice_agrees {config : BridgeConfig} (hdensity : config.density ≠ .high)
    (before : DrawBridge) :
    (openDevice config before).wlp (.any wireSig) (fun _ _ _ => True)
      (fun result self h => result = .ok () → Agrees self h) [] := by
  have hstart : StillDouble before [] := rfl
  -- until the density is set an error ends the opening, and nothing is asked of it
  have hseq : ∀ {α : Type} {m : Host DrawBridge α} {f : α → Host DrawBridge Unit} {self h},
      KeepsDouble m → StillDouble self h →
      (∀ a self h, StillDouble self h → (f a).wlp (.any wireSig) (fun _ _ _ => True)
        (fun result self h => result = .ok () → Agrees self h) self h) →
      (m >>= f).wlp (.any wireSig) (fun _ _ _ => True)
        (fun result self h => result = .ok () → Agrees self h) self h := by
    intro α m f self h hm hdouble hf
    exact Fallible.wlp_seq (hm self h hdouble) (fun _ _ _ _ himpossible => by cases himpossible) hf
  refine hseq (double_frame.perform (o := .setCtsFlowControl true) trivial) hstart ?_
  intro result self h hdouble
  refine hseq (Fallible.keeps_ofExcept _) hdouble fun _ self h hdouble => ?_
  refine hseq (keeps_purge double_frame trivial) hdouble fun _ self h hdouble => ?_
  refine hseq syncOrReset_double hdouble fun version self h hdouble => ?_
  obtain ⟨firmware, fullControl⟩ := version
  dsimp only
  split
  · intro himpossible
    cases himpossible
  · refine Fallible.wlp_seq (R := fun _ self h => Agrees self h) ?_ ?_ ?_
    · show decide (config.density = .high) = firmwareDensity h
      rw [decide_eq_false hdensity]
      exact hdouble.symm
    · intro _ _ _ _ himpossible
      cases himpossible
    · intro _ self h hagrees
      exact Fallible.wlp_anywhere (Fallible.wlp_mono (keeps_initialise self h hagrees)
        fun _ _ _ hagrees _ => hagrees)

/-- Without a high density configuration the two agree from the start, and so always. -/
theorem alwaysAgrees {config : BridgeConfig} (hdensity : config.density ≠ .high) :
    AlwaysAgrees config := by
  rintro p h ⟨before, device, opened, calls, hopen, hserve⟩
  have hagrees : Agrees device opened := hopen.wlp (openDevice_agrees hdensity before) rfl
  exact Prog.wlp_view (hserve.wlp (keeps_session keeps_agreement calls device opened hagrees))

/-! ## A device configured for high density -/

/-- The replies of firmware 1.8 while it is opened, with a disk in the drive. -/
def version18 : List Byte :=
  [ascii '1', ascii 'V', ascii '1', ascii '.', ascii '8', ascii '1', ascii '1', ascii '1']

/-- A device that is not open yet. -/
def unopened : DrawBridge := ⟨DriveStatus.initial, (0, 0, 0), 0, false, false⟩

/-- Configured for high density, a device begins its first high density stream without having told
the interface. -/
theorem highDensity_unannounced {config : BridgeConfig} (hdensity : config.density = .high) :
    ∃ p h, Serving config p h ∧ p.next? = some (.write [READ_STREAM]) ∧
      p.priv.highDensity = true ∧ firmwareDensity h = false := by
  let opening := (openDevice ⟨.compatible, .high, 5⟩ unopened).runWith (answering version18 []) []
  let calls := [DeviceCall.readTrack .compatible .high]
  let reading := (session serve calls opening.1.priv).runWith (answering version18 [READ_STREAM])
    opening.2
  have hopen : opening.1.result? = some (.ok ()) := by decide +kernel
  have hread : reading.1.next? = some (.write [READ_STREAM]) ∧
    reading.1.priv.highDensity = true ∧ firmwareDensity reading.2 = false := by decide +kernel
  obtain ⟨mode, density, stallTimeout⟩ := config
  obtain rfl : density = .high := hdensity
  refine ⟨reading.1, reading.2, ⟨unopened, opening.1.priv, opening.2, calls, ?_, ?_⟩, hread⟩
  · rw [← Prog.eq_ret hopen]
    exact Prog.walk_runWith (fun _ _ _ _ => trivial) _ _
  · exact Prog.walk_runWith (fun _ _ _ _ => trivial) _ _

/-- With one they differ already where the drive was opened. -/
theorem not_agreesAtStarts {config : BridgeConfig} (hdensity : config.density = .high) :
    ¬ AgreesAtStarts config := by
  intro hstarts
  obtain ⟨p, h, hserving, hnext, hhost, hfirmware⟩ := highDensity_unannounced hdensity
  have hequal := hstarts p h _ hserving hnext (Or.inl rfl)
  rw [hhost, hfirmware] at hequal
  cases hequal

/-- **Density.** Streams and writes begin in the density of the interface, and the host knows it at
every moment, for exactly the devices that are not configured for high density. -/
theorem densityAgreement_iff (config : BridgeConfig) :
    (AgreesAtStarts config ↔ config.density ≠ .high) ∧
      (AlwaysAgrees config ↔ config.density ≠ .high) := by
  have hstarts : AlwaysAgrees config → AgreesAtStarts config :=
    fun halways p h _ hserving _ _ => halways p h hserving
  constructor
  · exact ⟨fun h hdensity => not_agreesAtStarts hdensity h, fun h => hstarts (alwaysAgrees h)⟩
  · exact ⟨fun h hdensity => not_agreesAtStarts hdensity (hstarts h), alwaysAgrees⟩

/-- A bridge that is to use high density reads its first track in the wrong one. -/
theorem highDensity_disagrees : ¬ AgreesAtStarts ⟨.compatible, .high, 5⟩ := not_agreesAtStarts rfl

end FluxBridge.DrawBridge
