import FluxBridge.Device.MotorDelay

/-!
# The select line

A Greaseweazle drives one line that selects the drive. The host remembers how it has left it, so
that a command that needs the drive selects it only once, and lets go of it when the motor does not
run.

* `line`, `motorSpins` — the line and the motor, as the acknowledgements in a history tell them
* `selectLine_of_lifetime` — from `open` to `drop`, whatever the interface replies: the host knows
  both, and sends no command that needs the drive while it is not selected
* `settled_of_calls` — a call that succeeds leaves the drive selected exactly while the motor runs;
  only a write leaves it selected in any case, and the choice of a side as it was
-/

namespace FluxBridge

open Atomic

namespace GreaseweazleHost

/-- What accepting a command does to the line. -/
def lineAfter (code : Byte) (line : Bool) : Bool :=
  if code = Command.select.code then true
  else if code = Command.deselect.code then false
  else line

/-- The select line: as the interface has acknowledged it last. -/
def line : History wireSig → Bool
  | [] => false
  | ⟨.accepted code, _⟩ :: h => lineAfter code (line h)
  | _ :: h => line h

/-- The commands that move the head, or read or write at it, or look at pins of the drive. -/
def driven : List Byte :=
  [Command.seek.code, Command.readFlux.code, Command.writeFlux.code, Command.getPin.code,
    Command.noClickStep.code]

/-- Whether the motor runs: as the interface has acknowledged it last. -/
def motorSpins : History wireSig → Bool
  | [] => false
  | ⟨.accepted code, _⟩ :: h =>
    if code = Command.motor.code then (written h).getD 3 0 ≠ 0 else motorSpins h
  | _ :: h => motorSpins h

/-- The host knows the line and the motor. -/
structure LineTold (host : GreaseweazleHost) (h : History wireSig) : Prop where
  known : host.selected = line h
  spins : host.status.motorRunning = motorSpins h

/-- What holds wherever the host stands before a call of the port. -/
structure LineKnown (host : GreaseweazleHost) (o : WireOp) (h : History wireSig) : Prop extends
    LineTold host h where
  /-- the bytes do not complete the packet of a command that needs the drive, or it is selected -/
  sends : ∀ bytes, o = .write bytes → ∀ code parameters, Command.code code ∈ driven →
    commandPacket code parameters = .ok (written h ++ bytes) → line h = true

namespace Line

/-- The line as the host knows it, and the motor. -/
structure Held (selected running : Bool) (host : GreaseweazleHost) (h : History wireSig) :
    Prop where
  cached : host.selected = selected
  line : line h = selected
  motor : host.status.motorRunning = running
  spins : motorSpins h = running

/-- The host knows the line, whatever it is. -/
structure Known (running : Bool) (host : GreaseweazleHost) (h : History wireSig) : Prop where
  line : host.selected = GreaseweazleHost.line h
  motor : host.status.motorRunning = running
  spins : motorSpins h = running

/-- Code that leaves the line and the motor as they are. -/
abbrev Keeps (selected running : Bool) {α : Type} (m : Host GreaseweazleHost α) : Prop :=
  Fallible.Keeps (.any wireSig) LineKnown (Held selected running) m

/-- What code comes to that lets go of a drive whose motor does not run. -/
def Settled {α : Type} (running : Bool) (result : Except Error α) (self : GreaseweazleHost)
    (h : History wireSig) : Prop :=
  Known running self h ∧ ∀ a, result = .ok a → self.selected = running

variable {selected running : Bool} {self : GreaseweazleHost} {h : History wireSig}

theorem Held.known (hheld : Held selected running self h) : Known running self h :=
  ⟨hheld.cached.trans hheld.line.symm, hheld.motor, hheld.spins⟩

theorem Known.told (hknown : Known running self h) : LineTold self h :=
  ⟨hknown.line, hknown.motor.trans hknown.spins.symm⟩

theorem known_of_told (htold : LineTold self h) : Known self.status.motorRunning self h :=
  ⟨htold.known, rfl, htold.spins.symm⟩

theorem Known.held (hknown : Known running self h) : Held self.selected running self h :=
  ⟨rfl, hknown.line.symm, hknown.motor, hknown.spins⟩

/-! ## Calls of the port -/

/-- The calls of the port that send nothing. -/
def Silent : WireOp → Prop
  | .write _ | .accepted _ => False
  | _ => True

theorem line_cons {o : WireOp} (ho : ∀ code, o ≠ .accepted code) (r : o.Ret)
    (h : History wireSig) : line (⟨o, r⟩ :: h) = line h := by
  cases o with
  | accepted code => exact absurd rfl (ho code)
  | _ => rfl

theorem motorSpins_cons {o : WireOp} (ho : ∀ code, o ≠ .accepted code) (r : o.Ret)
    (h : History wireSig) : motorSpins (⟨o, r⟩ :: h) = motorSpins h := by
  cases o with
  | accepted code => exact absurd rfl (ho code)
  | _ => rfl

/-- Calls of the port leave the line and the motor alone. -/
theorem Held.cons {o : WireOp} (hheld : Held selected running self h)
    (ho : ∀ code, o ≠ .accepted code) (r : o.Ret) :
    Held selected running self (⟨o, r⟩ :: h) where
  cached := hheld.cached
  line := (line_cons ho r h).trans hheld.line
  motor := hheld.motor
  spins := (motorSpins_cons ho r h).trans hheld.spins

theorem not_accepted_of_silent {o : WireOp} (ho : Silent o) : ∀ code, o ≠ .accepted code := by
  rintro code rfl
  exact ho

theorem lineKnown_of_held {o : WireOp} (hheld : Held selected running self h)
    (ho : ∀ bytes, o ≠ .write bytes) : LineKnown self o h :=
  ⟨hheld.known.told, fun bytes heq => absurd heq (ho bytes)⟩

theorem frame_silent : Fallible.Frame (.any wireSig) LineKnown (Held selected running) Silent where
  ready l o h ho hheld := by
    refine lineKnown_of_held hheld ?_
    rintro bytes rfl
    exact ho
  keeps _ _ _ r ho hheld _ := hheld.cons (not_accepted_of_silent ho) r

/-- The packet of a command begins with its code. -/
theorem code_of_packet {code : Command} {parameters packet : List Byte}
    (h : commandPacket code parameters = .ok packet) : packet.head? = some code.code := by
  unfold commandPacket at h
  split at h
  · cases h
    rfl
  · cases h

/-- The bytes sent since the last deadline are a front of `packet`: it is sent only while selected,
where it is that of a command that needs the drive. -/
theorem writeAllUntil_held {packet : List Byte} (hneeds : ∀ code parameters,
    Command.code code ∈ driven → commandPacket code parameters = .ok packet → selected = true)
    (operation : String) (deadline : Nat) (input : List Byte)
    (hheld : Held selected running self h) (hsent : written h ++ input = packet) :
    (writeAllUntil operation input deadline).wlp (.any wireSig) LineKnown
      (fun _ next h' => Held selected running next h') self h := by
  have hempty : ∀ deadline h, Held selected running self h →
      (writeAllUntil operation [] deadline).wlp (.any wireSig) LineKnown
        (fun _ next h' => Held selected running next h') self h := by
    intro deadline h hheld
    unfold writeAllUntil
    refine ((frame_silent.perform (o := .flush) trivial).bind fun answer => ?_) self h hheld
    split
    · exact Fallible.keeps_pure _
    · exact Fallible.keeps_fail _
  -- on the polls that are left: what one call takes is no longer to be sent
  induction deadline generalizing input h with
  | zero =>
    cases input with
    | nil => exact hempty 0 h hheld
    | cons byte input => exact hheld
  | succ deadline ih =>
    cases input with
    | nil => exact hempty _ h hheld
    | cons byte input =>
      refine Fallible.wlp_seq (R := fun _ next h' => next = self ∧ written h' = written h ∧
        Held selected running next h') ⟨lineKnown_of_held hheld nofun, fun r _ => ?_⟩
        (fun e _ _ hR => hR.2.2) ?_
      · exact ⟨rfl, rfl, hheld.cons (o := .setTimeout) nofun r⟩
      rintro _ next h₁ ⟨rfl, hsame, hheld₁⟩
      rw [← hsame] at hsent
      refine ⟨⟨hheld₁.known.told, fun bytes heq code parameters hcode hpacket => ?_⟩,
        fun answer _ => ?_⟩
      · cases heq
        rw [hsent] at hpacket
        exact hheld₁.line.trans (hneeds code parameters hcode hpacket)
      have hafter : Held selected running next (⟨.write (byte :: input), answer⟩ :: h₁) :=
        hheld₁.cons (o := .write _) nofun answer
      cases answer with
      | ok count =>
        show Fallible.wlp _ _ _ (if count.val = 0 then _ else _) _ _
        split
        · exact hafter
        · refine ih _ hafter ?_
          show (written h₁ ++ (byte :: input).take count) ++ (byte :: input).drop count = packet
          rw [List.append_assoc, List.take_append_drop, hsent]
      | error kind =>
        show Fallible.wlp _ _ _ (if kind.isTimeout then _ else _) _ _
        split
        · exact ih _ hafter hsent
        · exact hafter

/-! ## Commands -/

/-- The other commands go out whatever the line is. -/
theorem undriven {code : Command} {p : Prop} (hcode : decide (code.code ∈ driven) = false)
    (hdriven : code.code ∈ driven) : p :=
  absurd hdriven (of_decide_eq_false hcode)

theorem keeps_exchange (code : Command) (parameters : List Byte)
    (hneeds : code.code ∈ driven → selected = true) :
    Keeps selected running (exchange code parameters) := by
  intro self h hheld
  unfold exchange
  cases hpacket : commandPacket code parameters with
  | error e => exact hheld
  | ok packet =>
    refine ⟨lineKnown_of_held hheld nofun, fun deadline _ => ?_⟩
    have hbegun : Held selected running self (⟨.deadline, deadline⟩ :: h) :=
      hheld.cons (o := .deadline) nofun deadline
    have hpackets : ∀ code' parameters', Command.code code' ∈ driven →
        commandPacket code' parameters' = .ok packet → selected = true := by
      intro code' parameters' hcode' hpacket'
      have hsame : some code'.code = some code.code :=
        (code_of_packet hpacket').symm.trans (code_of_packet hpacket)
      exact hneeds (Option.some.inj hsame ▸ hcode')
    refine Fallible.wlp_seq (writeAllUntil_held hpackets "Greaseweazle command" deadline packet
      hbegun rfl) (fun _ _ _ hheld => hheld) fun left next h₁ hheld₁ => ?_
    exact keeps_readExactUntil frame_silent trivial (fun _ => trivial)
      code.acknowledgementOperation 2 left next h₁ hheld₁

/-- What a command comes to: where it is accepted, that is marked behind its packet. -/
def Commanded (code : Command) (Packet : List Byte → Prop) (selected running : Bool) {α : Type}
    (result : Except Error α) (host : GreaseweazleHost) (h : History wireSig) : Prop :=
  match result with
  | .error _ => Held selected running host h
  | .ok _ => ∃ old, h = ⟨.accepted code.code, ()⟩ :: old ∧ Held selected running host old ∧
    Packet (written old)

theorem command_wlp (code : Command) (parameters : List Byte) (extra : Nat)
    (hneeds : code.code ∈ driven → selected = true) (hheld : Held selected running self h) :
    (command code parameters extra).wlp (.any wireSig) LineKnown
      (Commanded code (fun packet => commandPacket code parameters = .ok packet) selected running)
      self h := by
  have hmarked : (command code parameters extra).wlp (.any wireSig) LineKnown
      (Commanded code (fun _ => True) selected running) self h := by
    refine Fallible.wlp_seq (keeps_exchange code parameters hneeds self h hheld)
      (fun _ _ _ hheld => hheld) ?_
    rintro ⟨response, deadline⟩ next h₁ hheld₁
    show Fallible.wlp _ _ _ (acceptReply code extra response deadline) _ _
    unfold acceptReply
    split
    · exact hheld₁
    · cases mapAck code (response.getD 1 0) with
      | error e => exact hheld₁
      | ok _ =>
        show Fallible.wlp _ _ _ (readExactUntil "Greaseweazle command payload" extra deadline >>=
          fun read => wire (.accepted code.code) >>= fun _ => pure read.1) _ _
        refine Fallible.wlp_seq (keeps_readExactUntil frame_silent trivial (fun _ => trivial)
          "Greaseweazle command payload" extra deadline next h₁ hheld₁)
          (fun _ _ _ hheld => hheld) fun read next' h₂ hheld₂ => ?_
        exact ⟨lineKnown_of_held hheld₂ nofun, fun _ _ => ⟨h₂, rfl, hheld₂, trivial⟩⟩
  refine Fallible.wlp_mono (Fallible.wlp_and hmarked
    (GreaseweazleHost.command_wlp code parameters extra (fun _ _ _ _ => trivial)
      fun _ _ => trivial)) ?_
  rintro (e | output) next h' ⟨hmarked, -, hsent⟩
  · exact hmarked
  · obtain ⟨old, rfl, hheld, -⟩ := hmarked
    obtain ⟨old', heq, -, hpacket, -⟩ := hsent
    cases heq
    exact ⟨old, rfl, hheld, hpacket⟩

theorem expectOk_wlp (code : Command) (parameters : List Byte)
    (hneeds : code.code ∈ driven → selected = true) (hheld : Held selected running self h) :
    (expectOk code parameters).wlp (.any wireSig) LineKnown
      (Commanded code (fun packet => commandPacket code parameters = .ok packet) selected running)
      self h :=
  Fallible.wlp_seq (command_wlp code parameters 0 hneeds hheld) (fun _ _ _ hheld => hheld)
    fun _ _ _ hafter => hafter

/-- The commands that leave the line and the motor alone. -/
abbrev Plain (code : Command) : Prop := code ≠ .select ∧ code ≠ .deselect ∧ code ≠ .motor

/-- A command that leaves them alone is accepted. -/
theorem Held.accepted {code : Command} (hcode : Plain code) (hheld : Held selected running self h) :
    Held selected running self (⟨.accepted code.code, ()⟩ :: h) := by
  obtain ⟨hselect, hdeselect, hmotor⟩ := hcode
  refine ⟨hheld.cached, ?_, hheld.motor, ?_⟩
  · refine Eq.trans ?_ hheld.line
    cases code with
    | select => exact absurd rfl hselect
    | deselect => exact absurd rfl hdeselect
    | _ => rfl
  · refine Eq.trans ?_ hheld.spins
    cases code with
    | motor => exact absurd rfl hmotor
    | _ => rfl

theorem keeps_command (code : Command) (parameters : List Byte) (extra : Nat) (hcode : Plain code)
    (hneeds : code.code ∈ driven → selected = true) :
    Keeps selected running (command code parameters extra) := by
  intro self h hheld
  refine Fallible.wlp_mono (command_wlp code parameters extra hneeds hheld) ?_
  rintro (e | output) next h' hafter
  · exact hafter
  · obtain ⟨old, rfl, hheld, -⟩ := hafter
    exact hheld.accepted hcode

theorem keeps_expectOk (code : Command) (parameters : List Byte) (hcode : Plain code)
    (hneeds : code.code ∈ driven → selected = true) :
    Keeps selected running (expectOk code parameters) :=
  (keeps_command code parameters 0 hcode hneeds).bind fun _ => Fallible.keeps_pure ()

theorem keeps_rawCommandAck (code : Command) (parameters : List Byte) (hcode : Plain code)
    (hneeds : code.code ∈ driven → selected = true) :
    Keeps selected running (rawCommandAck code parameters) := by
  refine (keeps_exchange code parameters hneeds).bind fun exchanged => ?_
  show Keeps selected running (acceptAck code exchanged.1)
  unfold acceptAck
  split
  · exact Fallible.keeps_fail _
  · split
    · intro self h hheld
      exact ⟨lineKnown_of_held hheld nofun, fun _ _ => hheld.accepted hcode⟩
    · exact Fallible.keeps_pure _

theorem keeps_modify {f : GreaseweazleHost → GreaseweazleHost}
    (hf : ∀ l, (f l).selected = l.selected ∧ (f l).status.motorRunning = l.status.motorRunning) :
    Keeps selected running (Fallible.modify f) :=
  Fallible.keeps_modify fun l _ hheld =>
    ⟨(hf l).1.trans hheld.cached, hheld.line, (hf l).2.trans hheld.motor, hheld.spins⟩

theorem keeps_setStatus {f : DriveStatus → DriveStatus}
    (hf : ∀ status, (f status).motorRunning = status.motorRunning) :
    Keeps selected running (setStatus f) :=
  keeps_modify fun _ => ⟨rfl, hf _⟩

/-! ## Selecting -/

/-- Where the drive is to be selected or let go of, that succeeds, or the line stays. -/
theorem select_wlp (wanted : Bool) (hknown : Known running self h) :
    (select wanted).wlp (.any wireSig) LineKnown
      (fun result next h' => Known running next h' ∧ ∀ a, result = .ok a →
        Held wanted running next h') self h := by
  have hheld := hknown.held
  show Fallible.wlp _ _ _ (if wanted = self.selected then _ else _) _ _
  split
  · next hsame =>
    refine ⟨hknown, fun _ _ => ?_⟩
    rw [hsame]
    exact hheld
  · have hcommand : ∀ code parameters, (code.code ∈ driven → self.selected = true) →
        lineAfter (Command.code code) self.selected = wanted →
        (∀ old, motorSpins (⟨.accepted (Command.code code), ()⟩ :: old) = motorSpins old) →
        (expectOk code parameters >>= fun _ =>
          Fallible.modify fun self => { self with selected := wanted }).wlp (.any wireSig)
          LineKnown (fun result next h' => Known running next h' ∧ ∀ a, result = .ok a →
            Held wanted running next h') self h := by
      intro code parameters hneeds hline hspins
      refine Fallible.wlp_seq (expectOk_wlp code parameters hneeds hheld)
        (fun e next h' hafter => ⟨Held.known hafter, nofun⟩) ?_
      rintro _ next h' ⟨old, rfl, hheld, -⟩
      have hnow : Held wanted running { next with selected := wanted }
          (⟨.accepted code.code, ()⟩ :: old) := by
        refine ⟨rfl, ?_, hheld.motor, hspins old |>.trans hheld.spins⟩
        show lineAfter code.code (line old) = wanted
        rw [hheld.line, hline]
      exact ⟨hnow.known, fun _ _ => hnow⟩
    cases wanted with
    | true => exact hcommand .select [self.drive] (undriven rfl) rfl fun _ => rfl
    | false => exact hcommand .deselect [] (undriven rfl) rfl fun _ => rfl

/-- Code that needs the drive, behind its selection. -/
theorem selected_wlp {α : Type} {m : Host GreaseweazleHost α}
    {R : Except Error α → GreaseweazleHost → History wireSig → Prop}
    (hknown : Known running self h)
    (hfailed : ∀ e next h', Known running next h' → R (.error e) next h')
    (hm : ∀ next h', Held true running next h' → m.wlp (.any wireSig) LineKnown R next h') :
    (select true >>= fun _ => m).wlp (.any wireSig) LineKnown R self h :=
  Fallible.wlp_seq (select_wlp true hknown) (fun e next h' hR => hfailed e next h' hR.1)
    fun _ next h' hR => hm next h' (hR.2 _ rfl)

/-- The drive is let go of, unless its motor runs. -/
theorem release_wlp (hknown : Known running self h) (hheld : running = true →
    self.selected = true) :
    (if !running then select false else pure () : Host GreaseweazleHost Unit).wlp (.any wireSig)
      LineKnown (fun result next h' => Settled running result next h') self h := by
  cases running with
  | true => exact ⟨hknown, fun _ _ => hheld rfl⟩
  | false =>
    refine Fallible.wlp_mono (select_wlp false hknown) fun result next h' hR => ?_
    exact ⟨hR.1, fun a ha => (hR.2 a ha).cached⟩

theorem deselectIdle_wlp (hheld : Held true running self h) :
    deselectIdle.wlp (.any wireSig) LineKnown
      (fun result next h' => Settled running result next h') self h := by
  have hrelease := release_wlp hheld.known fun _ => hheld.cached
  rw [← hheld.motor] at hrelease ⊢
  exact hrelease

/-- What follows the release leaves the line and the motor alone. -/
theorem settled_seq {α β : Type} {m : Host GreaseweazleHost α} {f : α → Host GreaseweazleHost β}
    (hm : m.wlp (.any wireSig) LineKnown
      (fun result next h' => Settled running result next h') self h)
    (hf : ∀ a selected, Keeps selected running (f a)) :
    (m >>= f).wlp (.any wireSig) LineKnown
      (fun result next h' => Settled running result next h') self h := by
  refine Fallible.wlp_seq hm (fun _ _ _ hR => ⟨hR.1, nofun⟩) fun a next h₁ hR => ?_
  have hheld : Held running running next h₁ := by
    have hsettled := hR.2 a rfl
    exact ⟨hsettled, hR.1.line.symm.trans hsettled, hR.1.motor, hR.1.spins⟩
  refine Fallible.wlp_mono (hf a running next h₁ hheld) fun result next' h' hheld' => ?_
  exact ⟨hheld'.known, fun _ _ => hheld'.cached⟩

/-- What precedes the release needs the drive, and leaves the line and the motor alone. -/
theorem settled_after {α β : Type} {m : Host GreaseweazleHost α} {f : α → Host GreaseweazleHost β}
    (hheld : Held true running self h) (hm : Keeps true running m)
    (hf : ∀ a next h', Held true running next h' → (f a).wlp (.any wireSig) LineKnown
      (fun result next h' => Settled running result next h') next h') :
    (m >>= f).wlp (.any wireSig) LineKnown
      (fun result next h' => Settled running result next h') self h :=
  Fallible.wlp_seq (hm self h hheld) (fun _ _ _ hheld => ⟨hheld.known, nofun⟩) hf

/-- A selection that fails leaves things as they were. -/
theorem settled_of_known {α : Type} {e : Error} (hknown : Known running self h) :
    Settled running (.error e : Except Error α) self h := ⟨hknown, nofun⟩

/-! ## The pins -/

theorem keeps_pin (number : Byte) {f : Byte → DriveStatus → DriveStatus}
    (hf : ∀ level status, (f level status).motorRunning = status.motorRunning) :
    Keeps true running (do
      let level ← command .getPin [number] 1
      setStatus (f (level.getD 0 0))) :=
  (keeps_command .getPin [number] 1 (by decide) fun _ => rfl).bind fun _ =>
    keeps_setStatus (hf _)

theorem keeps_checkWriteProtect : Keeps true running checkWriteProtect :=
  @keeps_pin running 28 (fun level status => { status with writeProtected := level == 0 })
    fun _ _ => rfl

theorem keeps_checkDiskChange : Keeps true running checkDiskChange := by
  refine Fallible.keeps_self.bind fun self => ?_
  split
  · exact @keeps_pin running 34 (fun level status => { status with diskPresent := level == 1 })
      fun _ _ => rfl
  · exact keeps_setStatus fun _ => rfl

theorem checkPins_wlp (hknown : Known running self h) :
    checkPins.wlp (.any wireSig) LineKnown
      (fun result next h' => Settled running result next h') self h := by
  show Fallible.wlp _ _ _ (select true >>= fun _ => checkWriteProtect >>= fun _ =>
    checkDiskChange >>= fun _ =>
      if !self.status.motorRunning then select false else pure ()) _ _
  refine selected_wlp hknown (fun _ _ _ => settled_of_known) fun next h₁ hheld => ?_
  refine settled_after hheld keeps_checkWriteProtect fun _ next h₂ hheld => ?_
  refine settled_after hheld keeps_checkDiskChange fun _ next h₃ hheld => ?_
  rw [hknown.motor]
  exact release_wlp hheld.known fun _ => hheld.cached

/-! ## Reading -/

theorem keeps_decodeAtDensity (raw : List Byte) (density : DensityMode) :
    Keeps selected running (decodeAtDensity raw density) :=
  Fallible.keeps_self.bind fun _ => (Fallible.keeps_ofExcept _).bind fun decoded =>
    Fallible.Keeps.bind (keeps_modify fun _ => ⟨rfl, rfl⟩) fun _ => Fallible.keeps_pure decoded.2

theorem keeps_publish (events : List FluxEvent) : Keeps selected running (publish events) :=
  (frame_silent.perform (o := .progress _ _) trivial).bind fun _ => Fallible.keeps_pure _

theorem keeps_publishPartial (density : DensityMode) (raw : List Byte) (published : Nat) :
    Keeps selected running (publishPartial density raw published) := by
  unfold publishPartial
  split
  · refine (keeps_decodeAtDensity raw density).attempt.bind fun decoded => ?_
    cases decoded with
    | ok events => exact (keeps_publish events).bind fun _ => Fallible.keeps_pure _
    | error e => exact Fallible.keeps_pure _
  · exact Fallible.keeps_pure _

theorem keeps_drainFastStream (density : DensityMode) (deadline : Nat) (raw : List Byte)
    (published : Nat) :
    Keeps selected running (drainFastStream density deadline raw published) := by
  induction deadline generalizing raw published with
  | zero =>
    unfold drainFastStream
    split
    · exact Fallible.keeps_fail _
    · exact Fallible.keeps_fail _
  | succ deadline ih =>
    unfold drainFastStream
    split
    · exact Fallible.keeps_fail _
    · refine (keeps_setTimeout frame_silent trivial).bind fun _ =>
        (frame_silent.perform (o := .read CHUNK_BYTES) trivial).bind fun answer => ?_
      split
      · exact Fallible.keeps_fail _
      · split
        · exact (keeps_decodeAtDensity _ density).bind fun events => keeps_publish events
        · exact (keeps_publishPartial density _ published).bind fun published => ih _ published
      · split
        · exact ih raw published
        · exact Fallible.keeps_fail _

theorem keeps_drainFast (density : DensityMode) : Keeps selected running (drainFast density) :=
  (frame_silent.perform (o := .deadline) trivial).bind fun deadline =>
    keeps_drainFastStream density deadline [] 0

theorem keeps_drainWhole : Keeps selected running drainWhole := by
  refine (frame_silent.perform (o := .deadline) trivial).bind fun deadline =>
    (keeps_readTerminatedUntil frame_silent trivial (fun _ => trivial)
      "Greaseweazle flux stream" MAX_STREAM_BYTES deadline []).bind fun stream => ?_
  split
  · exact Fallible.keeps_fail _
  · exact Fallible.keeps_pure _

theorem keeps_settleAttempt {α : Type} (result : α) {stale : Host GreaseweazleHost Unit}
    (hstale : Keeps selected running stale) (last : Bool) (status : Byte) :
    Keeps selected running (settleAttempt result stale last status) := by
  unfold settleAttempt
  split
  · exact Fallible.Keeps.bind (keeps_setStatus fun _ => rfl) fun _ => Fallible.keeps_pure _
  split
  · exact Fallible.Keeps.bind (keeps_setStatus fun _ => rfl) fun _ => Fallible.keeps_fail _
  split
  · split
    · exact Fallible.keeps_fail _
    · exact (keeps_purge frame_silent trivial).bind fun _ =>
        hstale.bind fun _ => Fallible.keeps_pure _
  · exact Fallible.keeps_ofExcept _

/-- The attempts of a read, all of them with the drive selected. -/
theorem keeps_attempts {α : Type} (header : List Byte) {drain : Host GreaseweazleHost α}
    (hdrain : Keeps true running drain) {stale : Host GreaseweazleHost Unit}
    (hstale : Keeps true running stale) (again : Nat) :
    Keeps true running (attempts header drain stale again) := by
  have hattempt : ∀ last, Keeps true running (attemptRead header drain stale last) := fun last =>
    (keeps_expectOk .readFlux header (by decide) fun _ => rfl).bind fun _ =>
      hdrain.bind fun result => (keeps_rawCommandAck .getFluxStatus [] (by decide)
        fun _ => rfl).bind fun status => keeps_settleAttempt result hstale last status
  induction again with
  | zero => exact (hattempt true).bind fun outcome => keeps_orPanic frame_silent trivial outcome
  | succ again ih =>
    refine (hattempt false).bind fun outcome => ?_
    cases outcome with
    | some result => exact Fallible.keeps_pure _
    | none => exact ih

theorem keeps_joinRevolution (bits : List Bool) : Keeps selected running (joinRevolution bits) :=
  Fallible.keeps_self.bind fun _ => (keeps_orPanic frame_silent trivial _).bind fun _ =>
    (Fallible.keeps_ofExcept _).bind fun _ => (Fallible.keeps_ofExcept _).bind fun _ =>
      Fallible.keeps_pure _

theorem keeps_cutRevolution (events : List FluxEvent) (mode : ReadMode) :
    Keeps selected running (cutRevolution events mode) := by
  unfold cutRevolution
  split
  · exact Fallible.keeps_ofExcept _
  · exact Fallible.keeps_self.bind fun _ => (keeps_orPanic frame_silent trivial _).bind fun _ =>
      Fallible.keeps_ofExcept _

theorem keeps_extractRevolution (stream : List Byte) (mode : ReadMode) (density : DensityMode) :
    Keeps selected running (extractRevolution stream mode density) :=
  (keeps_decodeAtDensity stream density).bind fun events =>
    (keeps_cutRevolution events mode).bind fun _ => (Fallible.keeps_ofExcept _).bind fun _ =>
      Fallible.keeps_pure _

theorem keeps_readWindow (mode : ReadMode) : Keeps selected running (readWindow mode) := by
  refine Fallible.keeps_self.bind fun _ => ?_
  split
  · exact (keeps_orPanic frame_silent trivial _).bind fun _ => Fallible.keeps_pure _
  · exact (keeps_orPanic frame_silent trivial _).bind fun _ =>
      (keeps_orPanic frame_silent trivial _).bind fun _ => Fallible.keeps_pure _

theorem readTrack_wlp (mode : ReadMode) (density : DensityMode) (hknown : Known running self h) :
    (readTrack mode density).wlp (.any wireSig) LineKnown
      (fun result next h' => Settled running result next h') self h := by
  unfold readTrack
  split
  · refine selected_wlp hknown (fun _ _ _ => settled_of_known) fun next h₁ hheld => ?_
    refine Fallible.wlp_seq (m := Fallible.self) (R := fun _ => Held true running) hheld
      (fun _ _ _ hheld => settled_of_known hheld.known) fun host next h₁ hheld => ?_
    refine settled_after hheld (keeps_orPanic frame_silent trivial _) fun ticks next h₂ hheld => ?_
    refine settled_after hheld (keeps_attempts _ (keeps_drainFast density)
      (frame_silent.perform (o := .progress _ _) trivial) 2) fun bits next h₃ hheld => ?_
    exact settled_seq (deselectIdle_wlp hheld) fun _ _ => keeps_joinRevolution bits
  · refine selected_wlp hknown (fun _ _ _ => settled_of_known) fun next h₁ hheld => ?_
    refine settled_after hheld (keeps_readWindow mode) fun window next h₂ hheld => ?_
    refine settled_after hheld (keeps_attempts _ keeps_drainWhole (Fallible.keeps_pure ()) 2)
      fun stream next h₃ hheld => ?_
    exact settled_seq (deselectIdle_wlp hheld) fun _ _ =>
      keeps_extractRevolution stream mode density

/-! ## Writing -/

theorem keeps_sendStream (stream : List Byte) : Keeps true running (sendStream stream) := by
  intro self h hheld
  refine ⟨lineKnown_of_held hheld nofun, fun deadline _ => ?_⟩
  refine Fallible.wlp_seq (writeAllUntil_held (fun _ _ _ _ => rfl)
    "Greaseweazle flux write" deadline stream (hheld.cons (o := .deadline) nofun deadline) rfl)
    (fun _ _ _ hheld => hheld) fun left next h₁ hheld₁ => ?_
  exact ((keeps_readExactUntil frame_silent trivial (fun _ => trivial)
    "Greaseweazle write completion" 1 left).bind fun _ => Fallible.keeps_pure ()) next h₁ hheld₁

/-- A write leaves the drive selected. -/
theorem writeStream_wlp (words : List (BitVec 16)) (bitLen : Nat) (fromIndex : Bool)
    (hknown : Known running self h) :
    (writeStream words bitLen fromIndex).wlp (.any wireSig) LineKnown
      (fun result next h' => Known running next h' ∧ ∀ a, result = .ok a → line h' = true)
      self h := by
  refine Fallible.wlp_seq (m := Fallible.self) (R := fun _ => Known running) hknown
    (fun _ _ _ hknown => ⟨hknown, nofun⟩) fun host next h hknown => ?_
  refine Fallible.wlp_seq (Fallible.keeps_ofExcept _ next h hknown)
    (fun _ _ _ hknown => ⟨hknown, nofun⟩) fun stream next h hknown => ?_
  refine selected_wlp hknown (fun _ _ _ hknown => ⟨hknown, nofun⟩) fun next h₁ hheld => ?_
  have hkeeps : Keeps true running (do
      let ack ← rawCommandAck .writeFlux [if fromIndex then 1 else 0, 0]
      Fallible.ofExcept (writeAccepted ack)
      sendStream (stream ++ [0])
      let status ← rawCommandAck .getFluxStatus []
      Fallible.ofExcept (writeOutcome status)) :=
    (keeps_rawCommandAck .writeFlux _ (by decide) fun _ => rfl).bind fun _ =>
      (Fallible.keeps_ofExcept _).bind fun _ => (keeps_sendStream _).bind fun _ =>
        (keeps_rawCommandAck .getFluxStatus [] (by decide) fun _ => rfl).bind fun _ =>
          Fallible.keeps_ofExcept _
  exact Fallible.wlp_mono (hkeeps next h₁ hheld) fun _ _ _ hheld =>
    ⟨hheld.known, fun _ _ => hheld.line⟩

/-! ## The calls -/

theorem keeps_setDelay (index : Fin 5) (delay : BitVec 16) :
    Keeps selected running (setDelay index delay) := by
  refine Fallible.keeps_self.bind fun self => ?_
  split
  · refine Fallible.Keeps.bind (keeps_modify fun _ => ⟨rfl, rfl⟩) fun _ => ?_
    exact Fallible.keeps_self.bind fun self =>
      keeps_expectOk .setParams _ (by decide) (undriven rfl)
  · exact Fallible.keeps_pure ()

/-- The motor, and the line with it. -/
theorem setMotor_wlp (enabled quick : Bool) (hknown : Known running self h) :
    (setMotor enabled quick).wlp (.any wireSig) LineKnown
      (fun result next h' => ∃ running', Settled running' result next h' ∧
        ∀ a, result = .ok a → running' = enabled) self h := by
  have hfailed : ∀ (e : Error) next h', Held self.selected running next h' →
      ∃ running', Settled running' (.error e : Except Error Unit) next h' ∧
        ∀ a : Unit, (.error e : Except Error Unit) = .ok a → running' = enabled :=
    fun e next h' hheld => ⟨running, settled_of_known hheld.known, nofun⟩
  refine Fallible.wlp_seq (keeps_setDelay DELAY_MOTOR _ self h hknown.held) hfailed
    fun _ next h₁ hheld₁ => ?_
  refine Fallible.wlp_seq (m := Fallible.self) (R := fun _ => Held self.selected running) hheld₁
    hfailed fun host next h₁ hheld₁ => ?_
  refine Fallible.wlp_seq (expectOk_wlp .motor [host.drive, if enabled then 1 else 0]
    (undriven rfl) hheld₁) hfailed ?_
  rintro _ next _ ⟨old, rfl, hheld₂, hpacket⟩
  have hspins : motorSpins (⟨.accepted Command.motor.code, ()⟩ :: old) = enabled := by
    rw [motorSpins, if_pos rfl, ← Except.ok.inj hpacket]
    cases enabled <;> rfl
  have hrunning : Known enabled
      { next with status := { next.status with motorRunning := enabled } }
      (⟨.accepted Command.motor.code, ()⟩ :: old) :=
    ⟨hheld₂.known.line, rfl, hspins⟩
  refine Fallible.wlp_mono (select_wlp enabled hrunning) fun result next' h' hR => ?_
  exact ⟨enabled, ⟨hR.1, fun a ha => (hR.2 a ha).cached⟩, fun _ _ => rfl⟩

theorem seek_wlp (cylinder : Nat) (hknown : Known running self h) :
    (seek cylinder).wlp (.any wireSig) LineKnown
      (fun result next h' => Settled running result next h') self h := by
  show Fallible.wlp _ _ _ (if self.status.maxCylinders ≤ cylinder then _ else _) _ _
  split
  · exact settled_of_known hknown
  · refine selected_wlp hknown (fun _ _ _ => settled_of_known) fun next h₁ hheld => ?_
    refine settled_after hheld (keeps_expectOk .seek _ (by decide) fun _ => rfl)
      fun _ next h₂ hheld => ?_
    refine settled_after hheld (keeps_setStatus fun _ => rfl) fun _ next h₃ hheld => ?_
    exact deselectIdle_wlp hheld

theorem keeps_selectSide (side : Side) : Keeps selected running (selectSide side) :=
  (keeps_expectOk .head _ (by decide) (undriven rfl)).bind fun _ => keeps_setStatus fun _ => rfl

theorem noClickStep_wlp (hknown : Known running self h) :
    noClickStep.wlp (.any wireSig) LineKnown
      (fun result next h' => Settled running result next h') self h := by
  refine selected_wlp hknown (fun _ _ _ => settled_of_known) fun next h₁ hheld => ?_
  exact settled_after hheld (keeps_expectOk .noClickStep [] (by decide) fun _ => rfl)
    fun _ next h₂ hheld => checkPins_wlp hheld.known

theorem readStatus_wlp (hknown : Known running self h) :
    readStatus.wlp (.any wireSig) LineKnown
      (fun result next h' => Settled running result next h') self h :=
  settled_seq (checkPins_wlp hknown) fun _ _ =>
    Fallible.Keeps.bind (keeps_setStatus fun _ => rfl) fun _ => Fallible.keeps_self.bind fun _ =>
      Fallible.keeps_pure _

/-- The line behind a call that succeeds. -/
def lineBehind (call : DeviceCall) (before motorSpins : Bool) : Bool :=
  match call with
  | .selectSide _ => before
  | .writeTrack _ _ _ _ => true
  | _ => motorSpins

/-- The motor behind a call that succeeds. -/
def spinBehind (call : DeviceCall) (before : Bool) : Bool :=
  match call with
  | .setMotor enabled _ => enabled
  | _ => before

/-- What a call comes to. -/
def Called (call : DeviceCall) (before running : Bool) (result : Except Error Unit)
    (host : GreaseweazleHost) (h : History wireSig) : Prop :=
  ∃ running', Known running' host h ∧ ∀ a, result = .ok a →
    running' = spinBehind call running ∧ line h = lineBehind call before running'

theorem called_of_settled {call : DeviceCall} {before : Bool} {m : Host GreaseweazleHost Unit}
    (hspin : spinBehind call running = running) (hline : lineBehind call before running = running)
    (hm : m.wlp (.any wireSig) LineKnown
      (fun result next h' => Settled running result next h') self h) :
    m.wlp (.any wireSig) LineKnown (Called call before running) self h := by
  refine Fallible.wlp_mono hm fun result next h' hR => ⟨running, hR.1, fun a ha => ?_⟩
  refine ⟨hspin.symm, ?_⟩
  rw [hline, ← hR.1.line]
  exact hR.2 a ha

theorem serve_wlp (call : DeviceCall) (hknown : Known running self h) :
    (serve call).wlp (.any wireSig) LineKnown (Called call (line h) running) self h := by
  cases call with
  | status =>
    have hstatus := settled_seq (readStatus_wlp hknown) fun _ _ => Fallible.keeps_pure ()
    exact called_of_settled rfl rfl hstatus
  | setMotor enabled quick =>
    refine Fallible.wlp_mono (setMotor_wlp enabled quick hknown) ?_
    rintro result next h' ⟨running', hsettled, hrunning⟩
    refine ⟨running', hsettled.1, fun a ha => ⟨hrunning a ha, ?_⟩⟩
    exact hsettled.1.line.symm.trans (hsettled.2 a ha)
  | seek cylinder =>
    have hseek := seek_wlp cylinder hknown
    exact called_of_settled rfl rfl hseek
  | selectSide side =>
    refine Fallible.wlp_mono (keeps_selectSide side self h hknown.held) fun _ _ _ hheld => ?_
    exact ⟨running, hheld.known, fun _ _ => ⟨rfl, hheld.line.trans hknown.line⟩⟩
  | noClickStep =>
    have hstep := noClickStep_wlp hknown
    exact called_of_settled rfl rfl hstep
  | readTrack mode density =>
    have hread := settled_seq (readTrack_wlp mode density hknown)
      fun _ _ => Fallible.keeps_pure ()
    exact called_of_settled rfl rfl hread
  | writeTrack words bitLen fromIndex density =>
    have hchosen : Known running { self with
        highDensity := density = .high || (density = .auto && self.highDensity) } h :=
      ⟨hknown.line, hknown.motor, hknown.spins⟩
    refine Fallible.wlp_mono (writeStream_wlp words bitLen fromIndex hchosen) ?_
    exact fun _ _ _ hR => ⟨running, hR.1, fun a ha => ⟨rfl, hR.2 a ha⟩⟩

theorem keeps_serve (call : DeviceCall) :
    (serve call).Keeps (.any wireSig) LineKnown LineTold := by
  intro self h htold
  refine Fallible.wlp_mono (serve_wlp call (known_of_told htold)) ?_
  rintro result next h' ⟨_, hknown, -⟩
  exact hknown.told

/-! ## From the beginning -/

theorem keeps_prepareTransport : Keeps selected running prepareTransport :=
  (frame_silent.perform (o := .setDtr true) trivial).bind fun _ =>
    (Fallible.keeps_ofExcept _).bind fun _ =>
      (frame_silent.perform (o := .setRts true) trivial).bind fun _ =>
        (Fallible.keeps_ofExcept _).bind fun _ => keeps_purge frame_silent trivial

theorem keeps_firmwareOrPurge : Keeps selected running firmwareOrPurge := by
  have hfirmware : Keeps selected running getFirmware :=
    keeps_command .getInfo [0] 32 (by decide) (undriven rfl)
  refine hfirmware.attempt.bind fun first => ?_
  cases first with
  | ok version => exact Fallible.keeps_pure _
  | error e => exact (keeps_purge frame_silent trivial).bind fun _ => hfirmware

theorem initialise_wlp (hheld : Held false false self h) :
    initialise.wlp (.any wireSig) LineKnown (fun _ next h' => LineTold next h') self h := by
  have htold : ∀ e next h', Held false false next h' →
      (fun (_ : Except Error Unit) next h' => LineTold next h') (.error e) next h' :=
    fun _ _ _ hheld => hheld.known.told
  refine Fallible.wlp_seq (keeps_command .reset [] 0 (by decide) (undriven rfl) self h hheld)
    htold fun _ next h hheld => ?_
  refine Fallible.wlp_seq (keeps_command .getParams [0, 10] 10 (by decide) (undriven rfl) next h
    hheld) htold fun reported next h hheld => ?_
  refine Fallible.wlp_seq (m := Fallible.modify _) (R := fun _ => Held false false)
    ⟨hheld.cached, hheld.line, hheld.motor, hheld.spins⟩ htold fun _ next h hheld => ?_
  refine Fallible.wlp_seq (keeps_setDelay DELAY_STEP STEP_INTERVAL_US next h hheld)
    htold fun _ next h hheld => ?_
  refine Fallible.wlp_seq (m := Fallible.self) (R := fun _ => Held false false) hheld
    htold fun host next h hheld => ?_
  refine Fallible.wlp_seq (keeps_expectOk .setBusType [host.bus] (by decide) (undriven rfl) next h
    hheld) htold fun _ next h hheld => ?_
  refine Fallible.wlp_seq (checkPins_wlp hheld.known) (fun _ _ _ hR => hR.1.told)
    fun _ next h hR => ?_
  exact ⟨hR.1.line, hR.1.motor.trans hR.1.spins.symm⟩

theorem openDevice_wlp (config : BridgeConfig) (drive : DriveSelect) (start : GreaseweazleHost) :
    (openDevice config drive).wlp (.any wireSig) LineKnown (fun _ next h' => LineTold next h')
      start [] := by
  have htold : ∀ e next h', Held false false next h' →
      (fun (_ : Except Error Unit) next h' => LineTold next h') (.error e) next h' :=
    fun _ _ _ hheld => hheld.known.told
  refine Fallible.wlp_seq (m := Fallible.modify _) (R := fun _ => Held false false)
    ⟨rfl, rfl, rfl, rfl⟩ htold fun _ next h hheld => ?_
  refine Fallible.wlp_seq (keeps_prepareTransport next h hheld) htold fun _ next h hheld => ?_
  refine Fallible.wlp_seq (keeps_firmwareOrPurge next h hheld) htold fun version next h hheld => ?_
  dsimp only
  split
  · exact hheld.known.told
  split
  · exact hheld.known.told
  split
  · exact Fallible.wlp_seq (m := Fallible.modify _) (R := fun _ => Held false false)
      ⟨hheld.cached, hheld.line, hheld.motor, hheld.spins⟩ htold
      fun _ next h hheld => initialise_wlp hheld
  · exact hheld.known.told

theorem lifetime_wlp (config : BridgeConfig) (drive : DriveSelect) (calls : List DeviceCall)
    (start : GreaseweazleHost) :
    (lifetime config drive calls).wlp (.any wireSig) LineKnown (fun _ next h' => LineTold next h')
      start [] := by
  have hdrop : (do let _ ← Fallible.attempt (setMotor false true); pure () :
      Host GreaseweazleHost Unit).Keeps (.any wireSig) LineKnown LineTold :=
    (keeps_serve (.setMotor false true)).attempt.bind fun _ => Fallible.keeps_pure ()
  refine Fallible.wlp_seq (R := fun _ => LineTold)
    (Fallible.wlp_attempt (openDevice_wlp config drive start)) (fun _ _ _ htold => htold)
    fun opened next h htold => ?_
  cases opened with
  | ok _ => exact (keeps_session keeps_serve calls).bind (fun _ => hdrop) next h htold
  | error e => exact (Fallible.keeps_pure ()).bind (fun _ => hdrop) next h htold

end Line

open Line (lineBehind spinBehind)

/--
**The select line.** From `open` to `drop`, whatever the calls are and the interface replies, the
host knows at every call of the port how the line and the motor were left, and hands the port the
last byte of a command that needs the drive only while the drive is selected.
-/
theorem selectLine_of_lifetime (config : BridgeConfig) (drive : DriveSelect)
    (calls : List DeviceCall) (start : GreaseweazleHost)
    (p : Prog wireSig GreaseweazleHost (Except Error Unit)) (h : History wireSig)
    (hwalk : Walk (.any wireSig) p h (lifetime config drive calls start) []) :
    (p.priv.selected = line h ∧ p.priv.status.motorRunning = motorSpins h) ∧
      ∀ bytes code parameters, p.next? = some (.write bytes) → Command.code code ∈ driven →
        commandPacket code parameters = .ok (written h ++ bytes) → line h = true := by
  have hlifetime := Line.lifetime_wlp config drive calls start
  constructor
  · have hleft := hwalk.wlp hlifetime
    have htold : LineTold p.priv h := by
      cases p with
      | ret l a => exact hleft
      | act l o k => exact hleft.1.toLineTold
    exact ⟨htold.known, htold.spins⟩
  · intro bytes code parameters hnext hcode hpacket
    exact (hwalk.ready hlifetime hnext).sends bytes rfl code parameters hcode hpacket

/-- A drive that is opened and told to seek, as far as the command. -/
def seekingDrive : Prog wireSig GreaseweazleHost (Except Error Unit) × History wireSig :=
  (lifetime ⟨.normal, .auto, 0⟩ .pcA [.seek 40] unopened).runWith
    (answering (openingReplies ++ [12, 0]) [2, 3, 40]) []

theorem selectLine_of_lifetime_seek : line seekingDrive.2 = true :=
  (selectLine_of_lifetime ⟨.normal, .auto, 0⟩ .pcA [.seek 40] unopened seekingDrive.1
    seekingDrive.2 (Prog.walk_runWith (fun _ _ _ _ => trivial) _ _)).2 [2, 3, 40] .seek [40]
    (by decide +kernel) (by decide) (by decide +kernel)

/--
**Letting go.** A call of an opened device that succeeds leaves the drive selected exactly while the
motor runs, whatever the calls before it came to; a write leaves it selected in any case, and the
choice of a side as it was. Only `set_motor` changes the motor.
-/
theorem settled_of_calls (config : BridgeConfig) (drive : DriveSelect) (calls : List DeviceCall)
    (call : DeviceCall) (start opened self self' : GreaseweazleHost) (h₀ h h' : History wireSig)
    (hopen : Walk (.any wireSig) (.ret opened (.ok ())) h₀ (openDevice config drive start) [])
    (hbefore : Walk (.any wireSig) (.ret self (.ok ())) h (session serve calls opened) h₀)
    (hcall : Walk (.any wireSig) (.ret self' (.ok ())) h' (serve call self) h) :
    line h' = lineBehind call (line h) (motorSpins h') ∧
      motorSpins h' = spinBehind call (motorSpins h) := by
  have hopened : LineTold opened h₀ := hopen.wlp (Line.openDevice_wlp config drive start)
  have htold : LineTold self h :=
    hbefore.wlp (keeps_session Line.keeps_serve calls opened h₀ hopened)
  obtain ⟨running, hknown, hsettled⟩ := hcall.wlp (Line.serve_wlp call (Line.known_of_told htold))
  obtain ⟨hspin, hline⟩ := hsettled () rfl
  rw [hknown.spins]
  exact ⟨hline, htold.spins ▸ hspin⟩

/-- A drive that was opened and has sought. -/
def soughtDrive : Prog wireSig GreaseweazleHost (Except Error Unit) × History wireSig :=
  (serve (.seek 40) openedDrive.1.priv).runWith
    (answering (openingReplies ++ [12, 0, 2, 0, 13, 0]) []) openedDrive.2

theorem settled_of_calls_seek :
    line soughtDrive.2 = lineBehind (.seek 40) (line openedDrive.2) (motorSpins soughtDrive.2) ∧
      motorSpins soughtDrive.2 = spinBehind (.seek 40) (motorSpins openedDrive.2) := by
  have hopened : openedDrive.1.result? = some (.ok ()) := by decide +kernel
  have hsought : soughtDrive.1.result? = some (.ok ()) := by decide +kernel
  have hopen : Walk (.any wireSig) openedDrive.1 openedDrive.2
      (openDevice ⟨.normal, .auto, 0⟩ .pcA unopened) [] :=
    Prog.walk_runWith (fun _ _ _ _ => trivial) _ _
  have hcall : Walk (.any wireSig) soughtDrive.1 soughtDrive.2
      (serve (.seek 40) openedDrive.1.priv) openedDrive.2 :=
    Prog.walk_runWith (fun _ _ _ _ => trivial) _ _
  rw [Prog.eq_ret hopened] at hopen
  rw [Prog.eq_ret hsought] at hcall
  exact settled_of_calls _ _ [] _ _ _ _ _ _ _ _ hopen .here hcall

end GreaseweazleHost

end FluxBridge
