import FluxBridge.Device.GreaseweazleHost

/-!
# The motor delay

`set_motor` writes the desired delay into the cached block before it tells the interface, and leaves
it there when the interface does not take it. The next call that asks for the same delay finds it
cached and tells the interface nothing.

* `delayBlock` — the delay block of the interface, as a history tells it
* `MotorRun` — the runs of `set_motor` calls from an opened device, with what they have asked for
  and what the interface was told
* `MotorRun.told` — the cached block, and that of the interface, over every such run
* `motorDelay_iff` — the calls whose motor starts with the delay it was to have
-/

namespace FluxBridge

open Atomic

namespace GreaseweazleHost

/-! ## The interface -/

/-- What was written since a deadline was set. -/
def written : History wireSig → List Byte
  | [] | ⟨.deadline, _⟩ :: _ => []
  | ⟨.write bytes, .ok count⟩ :: h => written h ++ bytes.take count
  | _ :: h => written h

/-- What was read since a deadline was set. -/
def heard : History wireSig → List Byte
  | [] | ⟨.deadline, _⟩ :: _ => []
  | ⟨.read _, .ok chunk⟩ :: h => heard h ++ chunk.1
  | _ :: h => heard h

/--
The delay block of the interface: the one it was last told and accepted, or the one it reported,
unless it was reset since. A command that is not accepted has no effect.
-/
def delayBlock : History wireSig → Option (Vector (BitVec 16) 5)
  | [] => none
  | ⟨.accepted code, _⟩ :: h =>
    if code = Command.setParams.code then some (reportedDelays ((written h).drop 3))
    else if code = Command.getParams.code then some (reportedDelays ((heard h).drop 2))
    else if code = Command.reset.code then none
    else delayBlock h
  | _ :: h => delayBlock h

/-- Everything but accepting a command that concerns the delay block. -/
def LeavesBlock : WireOp → Prop
  | .accepted code => code ≠ Command.setParams.code ∧ code ≠ Command.getParams.code ∧
      code ≠ Command.reset.code
  | _ => True

theorem delayBlock_cons {o : WireOp} (ho : LeavesBlock o) (r : o.Ret) (h : History wireSig) :
    delayBlock (⟨o, r⟩ :: h) = delayBlock h := by
  cases o with
  | accepted code =>
    obtain ⟨hset, hget, hreset⟩ := ho
    rw [delayBlock, if_neg hset, if_neg hget, if_neg hreset]
  | _ => rfl

theorem getElem?_flatMap_le16 (values : List (BitVec 16)) (index : Nat) :
    (values.flatMap le16)[2 * index]? = values[index]?.map (fun value => value.extractLsb' 0 8) ∧
    (values.flatMap le16)[2 * index + 1]? =
      values[index]?.map (fun value => value.extractLsb' 8 8) := by
  induction values generalizing index with
  | nil => exact ⟨rfl, rfl⟩
  | cons value values ih =>
    cases index with
    | zero => exact ⟨rfl, rfl⟩
    | succ index => exact ih index

/-- The bytes of a delay block are read back as the block. -/
theorem reportedDelays_le16 (delays : Vector (BitVec 16) 5) :
    reportedDelays (delays.toList.flatMap le16) = delays := by
  ext1 index hindex
  unfold reportedDelays
  rw [Vector.getElem_ofFn]
  obtain ⟨hlow, hhigh⟩ := getElem?_flatMap_le16 delays.toList index
  have hvalue : delays.toList[index]? = some delays[index] := by simp [hindex]
  rw [List.getD_eq_getElem?_getD, List.getD_eq_getElem?_getD, hlow, hhigh, hvalue]
  exact @BitVec.extractLsb'_append_extractLsb' 8 8 delays[index]

theorem length_flatMap_le16 (values : List (BitVec 16)) :
    (values.flatMap le16).length = 2 * values.length := by
  induction values with
  | nil => rfl
  | cons value values ih =>
    rw [List.flatMap_cons, List.length_append, ih, List.length_cons]
    show 2 + _ = _
    omega

/-- The packet that tells the delay block. -/
theorem commandPacket_setParams (delays : Vector (BitVec 16) 5) :
    commandPacket .setParams (0 :: delays.toList.flatMap le16) =
      .ok (Command.setParams.code :: 13 :: 0 :: delays.toList.flatMap le16) := by
  have hlength : (delays.toList.flatMap le16).length = 10 := by
    rw [length_flatMap_le16, Vector.length_toList]
  unfold commandPacket
  rw [if_pos (by rw [List.length_cons, hlength]; decide), List.length_cons, hlength]
  rfl

/-! ## One command -/

/-- Calls of the port. -/
def OnWire : WireOp → Prop
  | .accepted _ => False
  | _ => True

theorem OnWire.leavesBlock {o : WireOp} (ho : OnWire o) : LeavesBlock o := by
  cases o with
  | accepted code => exact ho.elim
  | _ => trivial

variable {N : GreaseweazleHost → WireOp → History wireSig → Prop} {self : GreaseweazleHost}
  {h : History wireSig}

/-- Calls of the port change neither the device nor the delay block. -/
theorem frame_onWire {block : Option (Vector (BitVec 16) 5)}
    (hN : ∀ l o h, OnWire o → N l o h) :
    Fallible.Frame (.any wireSig) N (fun l h => l = self ∧ delayBlock h = block) OnWire where
  ready l o h ho _ := hN l o h ho
  keeps _ _ h r ho hkept _ := ⟨hkept.1, (delayBlock_cons ho.leavesBlock r h).trans hkept.2⟩

/-- What was written, as a view. -/
def writing : Sending (List Byte) where
  view := written
  send := List.append
  send_nil := List.append_nil
  send_append s left right := (List.append_assoc s left right).symm
  view_write _ _ _ := rfl
  view_failed _ _ _ := rfl
  view_timeout _ _ := rfl
  view_flush _ _ := rfl

/-- What was read, as a view: anything can come. -/
def hearing : Taking (List Byte) where
  view := heard
  take := List.append
  Comes _ _ := True
  take_nil := List.append_nil
  take_append s left right := (List.append_assoc s left right).symm
  comes_nil _ := trivial
  comes_append _ _ _ _ _ := trivial
  view_read _ _ _ := rfl
  view_failed _ _ _ := rfl
  view_timeout _ _ := rfl

theorem frame_written {bytes : List Byte} :
    Fallible.Frame (.any wireSig) (fun (_ : GreaseweazleHost) _ _ => True)
      (fun _ h => written h = bytes) (fun o => o = .setTimeout ∨ ∃ room, o = .read room) where
  ready _ _ _ _ _ := trivial
  keeps _ _ _ _ ho hkept _ := by
    rcases ho with rfl | ⟨room, rfl⟩ <;> exact hkept

theorem frame_heard {bytes : List Byte} :
    Fallible.Frame (.any wireSig) (fun (_ : GreaseweazleHost) _ _ => True)
      (fun _ h => heard h = bytes)
      (fun o => o = .setTimeout ∨ o = .flush ∨ ∃ bytes, o = .write bytes) where
  ready _ _ _ _ _ := trivial
  keeps _ _ _ r ho hkept _ := by
    rcases ho with rfl | rfl | ⟨bytes, rfl⟩ <;> exact hkept

/-- Behind the two bytes that answer a packet. -/
theorem exchange_wlp (command : Command) (parameters : List Byte)
    (hN : ∀ l o h, OnWire o → N l o h) :
    (exchange command parameters).wlp (.any wireSig) N
      (fun result next h' => (next = self ∧ delayBlock h' = delayBlock h) ∧
        ∀ response left, result = .ok (response, left) → response.length = 2 ∧
          commandPacket command parameters = .ok (written h') ∧ heard h' = response) self h := by
  unfold exchange
  cases hpacket : commandPacket command parameters with
  | error e => exact ⟨⟨rfl, rfl⟩, nofun⟩
  | ok packet =>
    have hframe := @frame_onWire N self (delayBlock h) hN
    refine ⟨hN _ _ _ trivial, fun deadline _ => ?_⟩
    refine Fallible.wlp_seq (Fallible.wlp_and (Fallible.wlp_and
      (keeps_writeAllUntil hframe trivial (fun _ => trivial) trivial
        "Greaseweazle command" packet deadline self _ ⟨rfl, rfl⟩)
      (writing.writeAllUntil_wlp "Greaseweazle command" packet deadline self _))
      (keeps_writeAllUntil frame_heard (.inl rfl) (fun bytes => .inr (.inr ⟨bytes, rfl⟩))
        (.inr (.inl rfl)) "Greaseweazle command" packet deadline self _ rfl)) ?_ ?_
    · rintro e next h₁ ⟨⟨hkept, -⟩, -⟩
      exact ⟨hkept, nofun⟩
    · rintro left next h₁ ⟨⟨⟨rfl, hblock⟩, hwritten⟩, hheard⟩
      refine Fallible.wlp_mono (Fallible.wlp_and (Fallible.wlp_and
        (keeps_readExactUntil hframe trivial (fun _ => trivial)
          command.acknowledgementOperation 2 left next h₁ ⟨rfl, hblock⟩)
        (hearing.readExactUntil_wlp (fun _ _ _ _ => trivial)
          command.acknowledgementOperation 2 left next h₁))
        (keeps_readExactUntil frame_written (.inl rfl) (fun room => .inr ⟨room, rfl⟩)
          command.acknowledgementOperation 2 left next h₁ rfl)) ?_
      rintro result next' h₂ ⟨⟨hkept, hread⟩, hsame⟩
      refine ⟨hkept, fun response left' heq => ?_⟩
      obtain ⟨hlength, -, hresponse⟩ := hread response left' heq
      refine ⟨hlength, ?_, ?_⟩
      · rw [hsame]
        exact congrArg Except.ok (hwritten left rfl).symm
      · rw [show heard h₂ = heard h₁ ++ response from hresponse, hheard]
        rfl

/-- What `command` leaves behind: its packet, and what was read behind the two bytes. -/
theorem command_wlp (code : Command) (parameters : List Byte) (extra : Nat)
    (hN : ∀ l o h, OnWire o → N l o h)
    (haccept : ∀ old, delayBlock old = delayBlock h → N self (.accepted code.code) old) :
    (command code parameters extra).wlp (.any wireSig) N
      (fun result next h' => next = self ∧
        match result with
        | .error _ => delayBlock h' = delayBlock h
        | .ok output => ∃ old, h' = ⟨.accepted code.code, ()⟩ :: old ∧
          delayBlock old = delayBlock h ∧ commandPacket code parameters = .ok (written old) ∧
          (heard old).drop 2 = output) self h := by
  refine Fallible.wlp_seq (exchange_wlp code parameters hN) (fun e next h' hR => hR.1) ?_
  rintro ⟨response, deadline⟩ next h₁ ⟨⟨rfl, hblock⟩, hexchanged⟩
  obtain ⟨hlength, hpacket, hresponse⟩ := hexchanged response deadline rfl
  show Fallible.wlp _ _ _ (acceptReply code extra response deadline) _ _
  unfold acceptReply
  split
  · exact ⟨rfl, hblock⟩
  · cases mapAck code (response.getD 1 0) with
    | error e => exact ⟨rfl, hblock⟩
    | ok _ =>
      show Fallible.wlp _ _ _ (readExactUntil "Greaseweazle command payload" extra deadline >>=
        fun read => wire (.accepted code.code) >>= fun _ => pure read.1) _ _
      refine Fallible.wlp_seq (Fallible.wlp_and (Fallible.wlp_and
        (keeps_readExactUntil (frame_onWire hN) trivial (fun _ => trivial)
          "Greaseweazle command payload" extra deadline next h₁ ⟨rfl, hblock⟩)
        (hearing.readExactUntil_wlp (fun _ _ _ _ => trivial)
          "Greaseweazle command payload" extra deadline next h₁))
        (keeps_readExactUntil frame_written (.inl rfl) (fun room => .inr ⟨room, rfl⟩)
          "Greaseweazle command payload" extra deadline next h₁ rfl)) ?_ ?_
      · rintro e next' h₂ ⟨⟨hkept, -⟩, -⟩
        exact hkept
      · rintro ⟨output, left⟩ next' h₂ ⟨⟨⟨rfl, hblock₂⟩, hread⟩, hsame⟩
        obtain ⟨-, -, hheard⟩ := hread output left rfl
        refine ⟨haccept h₂ hblock₂, fun _ _ => ⟨rfl, h₂, rfl, hblock₂, ?_, ?_⟩⟩
        · rw [hsame]
          exact hpacket
        · rw [show heard h₂ = heard h₁ ++ output from hheard, hresponse, ← hlength,
            List.drop_left]

/-! ## Commands that leave the delays alone -/

/-- The cached block and that of the interface. -/
def Blocks (cached : Vector (BitVec 16) 5) (block : Option (Vector (BitVec 16) 5))
    (self : GreaseweazleHost) (h : History wireSig) : Prop :=
  self.delays = cached ∧ delayBlock h = block

/-- Where the interface accepts a motor command, its block is as wanted. -/
def AtMotor (Wanted : Option (Vector (BitVec 16) 5) → Prop) (_ : GreaseweazleHost) (o : WireOp)
    (h : History wireSig) : Prop :=
  o = .accepted Command.motor.code → Wanted (delayBlock h)

variable {Wanted : Option (Vector (BitVec 16) 5) → Prop} {cached : Vector (BitVec 16) 5}
  {block : Option (Vector (BitVec 16) 5)}

theorem atMotor_onWire {o : WireOp} (ho : OnWire o) : AtMotor Wanted self o h := by
  rintro rfl
  exact ho.elim

theorem atMotor_accepted {code : Command} (hwanted : code = .motor → Wanted (delayBlock h)) :
    AtMotor Wanted self (.accepted code.code) h := by
  intro heq
  refine hwanted ?_
  cases code <;> first | rfl | cases heq

/-- Code that changes neither block. -/
abbrev KeepsBlocks (Wanted : Option (Vector (BitVec 16) 5) → Prop)
    (cached : Vector (BitVec 16) 5) (block : Option (Vector (BitVec 16) 5)) {α : Type}
    (m : Host GreaseweazleHost α) : Prop :=
  Fallible.Keeps (.any wireSig) (AtMotor Wanted) (Blocks cached block) m

theorem keeps_modify {f : GreaseweazleHost → GreaseweazleHost}
    (hf : ∀ l, (f l).delays = l.delays) :
    KeepsBlocks Wanted cached block (Fallible.modify f) :=
  Fallible.keeps_modify fun l _ hblocks => ⟨(hf l).trans hblocks.1, hblocks.2⟩

/-- Commands that do not concern the delay block. -/
abbrev Plain (code : Command) : Prop := code ≠ .setParams ∧ code ≠ .getParams ∧ code ≠ .reset

theorem leavesBlock_of_plain {code : Command} (hcode : Plain code) :
    LeavesBlock (.accepted code.code) := by
  obtain ⟨hset, hget, hreset⟩ := hcode
  cases code with
  | setParams => exact absurd rfl hset
  | getParams => exact absurd rfl hget
  | reset => exact absurd rfl hreset
  | _ => exact ⟨by decide, by decide, by decide⟩

theorem keeps_command (code : Command) (parameters : List Byte) (extra : Nat)
    (hcode : Plain code) (hwanted : code = .motor → Wanted block) :
    KeepsBlocks Wanted cached block (command code parameters extra) := by
  rintro l h ⟨rfl, rfl⟩
  refine Fallible.wlp_mono (command_wlp code parameters extra (fun _ _ _ => atMotor_onWire) ?_) ?_
  · intro old hold
    exact atMotor_accepted fun heq => hold ▸ hwanted heq
  · rintro (e | output) next h' ⟨rfl, hafter⟩
    · exact ⟨rfl, hafter⟩
    · obtain ⟨old, rfl, hold, -⟩ := hafter
      exact ⟨rfl, (delayBlock_cons (leavesBlock_of_plain hcode) () old).trans hold⟩

theorem keeps_expectOk (code : Command) (parameters : List Byte) (hcode : Plain code)
    (hwanted : code = .motor → Wanted block) :
    KeepsBlocks Wanted cached block (expectOk code parameters) :=
  (keeps_command code parameters 0 hcode hwanted).bind fun _ => Fallible.keeps_pure ()

theorem keeps_select (selected : Bool) : KeepsBlocks Wanted cached block (select selected) := by
  refine Fallible.keeps_self.bind fun self => ?_
  have hmodify : KeepsBlocks Wanted cached block
      (Fallible.modify fun self => { self with selected := selected }) := keeps_modify fun _ => rfl
  split
  · exact Fallible.keeps_pure ()
  · split
    · exact (keeps_expectOk .select _ (by decide) nofun).bind fun _ => hmodify
    · exact (keeps_expectOk .deselect _ (by decide) nofun).bind fun _ => hmodify

theorem keeps_pin (number : Byte) {f : Byte → DriveStatus → DriveStatus} :
    KeepsBlocks Wanted cached block (do
      let level ← command .getPin [number] 1
      setStatus (f (level.getD 0 0))) :=
  (keeps_command .getPin [number] 1 (by decide) nofun).bind fun _ => keeps_modify fun _ => rfl

theorem keeps_checkDiskChange : KeepsBlocks Wanted cached block checkDiskChange := by
  refine Fallible.keeps_self.bind fun self => ?_
  split
  · exact @keeps_pin Wanted cached block 34
      fun level status => { status with diskPresent := level == 1 }
  · exact keeps_modify fun _ => rfl

theorem keeps_checkPins : KeepsBlocks Wanted cached block checkPins := by
  have hprotect : KeepsBlocks Wanted cached block checkWriteProtect :=
    @keeps_pin Wanted cached block 28
      fun level status => { status with writeProtected := level == 0 }
  refine Fallible.keeps_self.bind fun self => (keeps_select true).bind fun _ =>
    hprotect.bind fun _ => keeps_checkDiskChange.bind fun _ => ?_
  split
  · exact keeps_select false
  · exact Fallible.keeps_pure ()

/-! ## Telling the delays -/

/-- A delay that is cached already is not told. -/
theorem setDelay_same {index : Fin 5} {delay : BitVec 16} (hsame : self.delays.get index = delay) :
    setDelay index delay self = .ret self (.ok ()) := by
  show (if self.delays.get index ≠ delay then _ else pure () : Host GreaseweazleHost Unit) self = _
  rw [if_neg (not_not.mpr hsame)]
  rfl

/-- Any other is cached, and told: the interface has it where it accepts. -/
theorem setDelay_wlp {index : Fin 5} {delay : BitVec 16} (hother : self.delays.get index ≠ delay) :
    (setDelay index delay).wlp (.any wireSig) (AtMotor Wanted)
      (fun result next h' => next = { self with delays := self.delays.set index delay index.isLt } ∧
        delayBlock h' = match result with
          | .error _ => delayBlock h
          | .ok _ => some next.delays) self h := by
  show Fallible.wlp _ _ _ (if self.delays.get index ≠ delay then _ else _) _ _
  rw [if_pos hother]
  let told : GreaseweazleHost :=
    { self with delays := self.delays.set index delay index.isLt }
  refine Fallible.wlp_seq (m := command .setParams (0 :: told.delays.toList.flatMap le16) 0)
    (command_wlp .setParams _ 0 (fun _ _ _ => atMotor_onWire) fun _ _ => atMotor_accepted nofun)
    (fun e next h' hafter => hafter) ?_
  rintro output next h' ⟨rfl, old, rfl, -, hpacket, -⟩
  refine ⟨rfl, ?_⟩
  rw [commandPacket_setParams] at hpacket
  show (if Command.setParams.code = Command.setParams.code then _ else _) = _
  rw [if_pos rfl, ← Except.ok.inj hpacket]
  exact congrArg some (reportedDelays_le16 told.delays)

/-! ## Opening -/

/-- The cached block is that of the interface. -/
def Coherent (self : GreaseweazleHost) (h : History wireSig) : Prop :=
  delayBlock h = some self.delays

/-- Code that leaves both blocks alone keeps them the same. -/
theorem coherent_of_keeps {α : Type} {m : Host GreaseweazleHost α}
    (hm : ∀ cached, KeepsBlocks (fun _ => True) cached (some cached) m) :
    Fallible.Keeps (.any wireSig) (fun _ _ _ => True) Coherent m := by
  intro l h hcoherent
  refine Fallible.wlp_mono (Fallible.wlp_anywhere (hm l.delays l h ⟨rfl, hcoherent⟩)) ?_
  rintro _ next h' ⟨hcached, hblock⟩
  rw [Coherent, hblock, hcached]

/-- What is not looked at, in front of code that is. -/
theorem wlp_after {α β : Type} {m : Host GreaseweazleHost α} {f : α → Host GreaseweazleHost β}
    {E : Except Error β → GreaseweazleHost → History wireSig → Prop}
    (hfailed : ∀ e l h, E (.error e) l h)
    (hrest : ∀ a l h, (f a).wlp (.any wireSig) (fun _ _ _ => True) E l h) :
    (m >>= f).wlp (.any wireSig) (fun _ _ _ => True) E self h :=
  Fallible.wlp_seq (R := fun _ _ _ => True) (Prog.wlp_always _ fun _ _ _ => trivial)
    (fun e l h _ => hfailed e l h) fun a l h _ => hrest a l h

/-- A delay that is told is cached, where it is told. -/
theorem setDelay_coherent (index : Fin 5) (delay : BitVec 16) (hcoherent : Coherent self h) :
    (setDelay index delay).wlp (.any wireSig) (fun _ _ _ => True)
      (fun result next h' => result = .ok () → Coherent next h') self h := by
  by_cases hsame : self.delays.get index = delay
  · show Prog.wlp _ _ _ (setDelay index delay self) h
    rw [setDelay_same hsame]
    exact fun _ => hcoherent
  · refine Fallible.wlp_mono
      (Fallible.wlp_anywhere (@setDelay_wlp self h (fun _ => True) index delay hsame)) ?_
    rintro _ next h' ⟨-, hblock⟩ rfl
    exact hblock

/-- The delays of an interface that was just reset are asked for, and then told. -/
theorem initialise_wlp : initialise.wlp (.any wireSig) (fun _ _ _ => True)
    (fun result next h' => result = .ok () → Coherent next h') self h := by
  refine wlp_after (fun _ _ _ => nofun) fun _ l h => ?_
  refine Fallible.wlp_seq (command_wlp .getParams [0, 10] 10 (fun _ _ _ _ => trivial)
    fun _ _ => trivial) (fun e _ _ _ => nofun) ?_
  rintro output next h' ⟨rfl, old, rfl, -, -, hheard⟩
  have hreported : Coherent { next with delays := reportedDelays output }
      (⟨.accepted Command.getParams.code, ()⟩ :: old) := by
    rw [← hheard]
    rfl
  refine Fallible.wlp_seq (l := { next with delays := reportedDelays output })
    (setDelay_coherent DELAY_STEP STEP_INTERVAL_US hreported) ?_ ?_
  · exact fun e _ _ _ => nofun
  · intro _ l h hcoherent
    refine Fallible.wlp_mono (coherent_of_keeps (fun cached => ?_) l h (hcoherent rfl))
      fun _ _ _ hcoherent _ => hcoherent
    refine Fallible.keeps_self.bind fun self =>
      (keeps_expectOk .setBusType [self.bus] (by decide) nofun).bind fun _ =>
        keeps_checkPins.bind fun _ => keeps_modify fun _ => rfl

/-- Behind `open` the cached block is that of the interface. -/
theorem openDevice_wlp (config : BridgeConfig) (drive : DriveSelect) :
    (openDevice config drive).wlp (.any wireSig) (fun _ _ _ => True)
      (fun result next h' => result = .ok () → Coherent next h') self h := by
  refine wlp_after (fun _ _ _ => nofun) fun _ _ _ => ?_
  refine wlp_after (fun _ _ _ => nofun) fun _ _ _ => ?_
  refine wlp_after (fun _ _ _ => nofun) fun version _ _ => ?_
  dsimp only
  split
  · exact nofun
  · split
    · exact nofun
    · split
      · exact wlp_after (fun _ _ _ => nofun) fun _ _ _ => initialise_wlp
      · exact nofun

/-! ## Runs -/

/-- The delay of a call, in milliseconds. -/
def motorDelay (quick : Bool) : BitVec 16 := if quick then 10 else 750

/-- The rest of `set_motor`, once the interface has the delay. -/
def switchMotor (enabled : Bool) : Host GreaseweazleHost Unit := do
  let self ← Fallible.self
  expectOk .motor [self.drive, if enabled then 1 else 0]
  setStatus fun status => { status with motorRunning := enabled }
  select enabled

theorem setMotor_eq (enabled quick : Bool) : setMotor enabled quick =
    (setDelay DELAY_MOTOR (motorDelay quick) >>= fun _ => switchMotor enabled) := rfl

theorem keeps_switchMotor (hwanted : Wanted block) (enabled : Bool) :
    KeepsBlocks Wanted cached block (switchMotor enabled) := by
  refine Fallible.keeps_self.bind fun self => ?_
  exact (keeps_expectOk .motor _ (by decide) fun _ => hwanted).bind fun _ =>
    Fallible.Keeps.bind (keeps_modify fun _ => rfl) fun _ => keeps_select enabled

/-- The motor delay that was asked for last, and the one that was acknowledged last. -/
structure MotorLog where
  asked : BitVec 16
  told : BitVec 16

/-- A call asks for a delay, and `SetParams` fails. -/
def MotorLog.refused (log : MotorLog) (delay : BitVec 16) : MotorLog := ⟨delay, log.told⟩

/-- A call asks for a delay, and `SetParams` does not fail: it is not sent for the delay that was
asked for last. -/
def MotorLog.taken (log : MotorLog) (delay : BitVec 16) : MotorLog :=
  ⟨delay, if log.asked = delay then log.told else delay⟩

/-- The runs of `set_motor` calls from an opened device. -/
inductive MotorRun (config : BridgeConfig) (drive : DriveSelect) :
    MotorLog → GreaseweazleHost → History wireSig → Prop
  /-- the interface has reported its delays -/
  | opened {start self : GreaseweazleHost} {h : History wireSig}
    (walk : Walk (.any wireSig) (.ret self (.ok ())) h (openDevice config drive start) []) :
    MotorRun config drive ⟨self.delays.get DELAY_MOTOR, self.delays.get DELAY_MOTOR⟩ self h
  /-- a call that ends with a failed `SetParams` -/
  | refused {log : MotorLog} {self self' : GreaseweazleHost} {h h' : History wireSig} {e : Error}
    (run : MotorRun config drive log self h) (quick : Bool)
    (tell : Walk (.any wireSig) (.ret self' (.error e)) h'
      (setDelay DELAY_MOTOR (motorDelay quick) self) h) :
    MotorRun config drive (log.refused (motorDelay quick)) self' h'
  /-- a call that goes on from there, however it ends -/
  | taken {log : MotorLog} {self self₁ self' : GreaseweazleHost} {h h₁ h' : History wireSig}
    {result : Except Error Unit} (run : MotorRun config drive log self h) (enabled quick : Bool)
    (tell : Walk (.any wireSig) (.ret self₁ (.ok ())) h₁
      (setDelay DELAY_MOTOR (motorDelay quick) self) h)
    (switch : Walk (.any wireSig) (.ret self' result) h' (switchMotor enabled self₁) h₁) :
    MotorRun config drive (log.taken (motorDelay quick)) self' h'

variable {config : BridgeConfig} {drive : DriveSelect} {log : MotorLog}

/-- Every call of `set_motor` that returns goes one of the two ways. -/
theorem MotorRun.call {self' : GreaseweazleHost} {h' : History wireSig}
    {result : Except Error Unit} {enabled quick : Bool} (run : MotorRun config drive log self h)
    (walk : Walk (.any wireSig) (.ret self' result) h' (setMotor enabled quick self) h) :
    ∃ log', (log' = log.refused (motorDelay quick) ∨ log' = log.taken (motorDelay quick)) ∧
      MotorRun config drive log' self' h' := by
  rw [setMotor_eq] at walk
  obtain ⟨self₁, outcome, h₁, htell, hswitch⟩ := walk.split
  cases outcome with
  | error e =>
    cases hswitch
    exact ⟨_, Or.inl rfl, .refused run quick htell⟩
  | ok _ => exact ⟨_, Or.inr rfl, .taken run enabled quick htell hswitch⟩

theorem get_set (delays : Vector (BitVec 16) 5) (index : Fin 5) (delay : BitVec 16) :
    (delays.set index delay index.isLt).get index = delay :=
  Vector.getElem_set_self index.isLt

theorem set_get (delays : Vector (BitVec 16) 5) (index : Fin 5) :
    delays.set index (delays.get index) index.isLt = delays :=
  Vector.set_getElem_self index.isLt

/-- What a run keeps: the cached delay is the one asked for last, and apart from it the cached block
is that of the interface, which has the delay acknowledged last. -/
theorem MotorRun.blocks (run : MotorRun config drive log self h) :
    self.delays.get DELAY_MOTOR = log.asked ∧
      delayBlock h = some (self.delays.set DELAY_MOTOR log.told DELAY_MOTOR.isLt) := by
  induction run with
  | opened walk =>
    have hcoherent := walk.wlp (openDevice_wlp config drive) rfl
    exact ⟨rfl, hcoherent.trans (congrArg some (set_get _ _).symm)⟩
  | @refused log self self' h h' e run quick tell ih =>
    obtain ⟨hasked, hblock⟩ := ih
    by_cases hsame : self.delays.get DELAY_MOTOR = motorDelay quick
    · -- a delay that is cached is not told
      rw [setDelay_same hsame] at tell
      cases tell
    · obtain ⟨rfl, hkept⟩ := tell.wlp (@setDelay_wlp self h (fun _ => True) _ _ hsame)
      refine ⟨get_set _ _ _, hkept.trans (hblock.trans (congrArg some ?_))⟩
      exact (Vector.set_set _ _).symm
  | @taken log self self₁ self' h h₁ h' result run enabled quick tell switch ih =>
    obtain ⟨hasked, hblock⟩ := ih
    have htold : self₁.delays.get DELAY_MOTOR = (log.taken (motorDelay quick)).asked ∧
        delayBlock h₁ =
          some (self₁.delays.set DELAY_MOTOR (log.taken (motorDelay quick)).told) := by
      unfold MotorLog.taken
      by_cases hsame : self.delays.get DELAY_MOTOR = motorDelay quick
      · rw [setDelay_same hsame] at tell
        cases tell
        rw [if_pos (hasked.symm.trans hsame)]
        exact ⟨hsame, hblock⟩
      · obtain ⟨rfl, hkept⟩ := tell.wlp (@setDelay_wlp self h (fun _ => True) _ _ hsame)
        rw [if_neg fun heq => hsame (hasked.trans heq)]
        exact ⟨get_set _ _ _, hkept.trans (congrArg some (Vector.set_set _ _).symm)⟩
    have hkept := switch.wlp (@keeps_switchMotor (fun _ => True) self₁.delays _ trivial
      enabled self₁ h₁ ⟨rfl, htold.2⟩)
    rw [hkept.1, hkept.2]
    exact ⟨htold.1, rfl⟩

/-! ## The motor is switched on -/

/-- Every motor-on command the interface accepts from `set_motor(true, quick)` is executed while its
own motor delay is that of the call. -/
def MotorOnTimed (quick : Bool) (self : GreaseweazleHost) (h : History wireSig) : Prop :=
  ∀ p h', Walk (.any wireSig) p h' (setMotor true quick self) h →
    p.next? = some (.accepted Command.motor.code) →
    (delayBlock h').map (fun block => block.get DELAY_MOTOR) = some (motorDelay quick)

/-- Where a call does not update the delays, the cached ones are those of the interface. -/
def SkipCoherent (quick : Bool) (self : GreaseweazleHost) (h : History wireSig) : Prop :=
  self.delays.get DELAY_MOTOR = motorDelay quick → delayBlock h = some self.delays

/-- The call does not ask again for a delay that was asked for last, unless it was acknowledged. -/
def MotorLog.Allows (log : MotorLog) (quick : Bool) : Prop :=
  motorDelay quick = log.asked → log.told = log.asked

theorem skipCoherent_iff (run : MotorRun config drive log self h) (quick : Bool) :
    SkipCoherent quick self h ↔ log.Allows quick := by
  obtain ⟨hasked, hblock⟩ := run.blocks
  unfold SkipCoherent MotorLog.Allows
  rw [hasked, hblock, eq_comm]
  refine imp_congr_right fun _ => ?_
  constructor
  · intro hcoherent
    have hget := congrArg (fun block => block.get DELAY_MOTOR) (Option.some.inj hcoherent)
    rwa [get_set, hasked] at hget
  · intro htold
    rw [htold, ← hasked, set_get]

/-- A port that takes everything, and an interface that accepts the motor command. -/
def accepting : (o : WireOp) → Option o.Ret
  | .deadline => some 2
  | .setTimeout | .flush => some (.ok ())
  | .write bytes => some (.ok (Fin.last bytes.length))
  | .read (room + 2) => some (.ok ⟨[Command.motor.code, ACK_OK], Nat.le_add_left 2 room⟩)
  | _ => none

/-- The motor command can be accepted, with the delays as they were. -/
theorem walk_switchMotor (self : GreaseweazleHost) (h : History wireSig) :
    ∃ p h', Walk (.any wireSig) p h' (switchMotor true self) h ∧
      p.next? = some (.accepted Command.motor.code) ∧ delayBlock h' = delayBlock h :=
  ⟨_, _, @Prog.walk_runWith _ _ _ (.any wireSig) (fun _ => accepting) (fun _ _ _ _ => trivial) _ _,
    rfl, rfl⟩

/-- A call whose delay is cached goes on to the motor command at once. -/
theorem setMotor_same {enabled quick : Bool}
    (hsame : self.delays.get DELAY_MOTOR = motorDelay quick) :
    setMotor enabled quick self = switchMotor enabled self := by
  rw [setMotor_eq]
  show (setDelay DELAY_MOTOR (motorDelay quick) self).bind _ = _
  rw [setDelay_same hsame]
  rfl

/-- Where the motor command is accepted, the interface has the delay of the call: it had it, or it
has acknowledged it. -/
theorem setMotor_wlp {enabled quick : Bool} (run : MotorRun config drive log self h)
    (hallows : log.Allows quick) :
    (setMotor enabled quick).wlp (.any wireSig)
      (AtMotor fun block => block.map (fun block => block.get DELAY_MOTOR) =
        some (motorDelay quick))
      (fun _ _ _ => True) self h := by
  obtain ⟨hasked, hblock⟩ := run.blocks
  by_cases hsame : self.delays.get DELAY_MOTOR = motorDelay quick
  · have htold : log.told = motorDelay quick :=
      (hallows (hsame.symm.trans hasked)).trans (hasked.symm.trans hsame)
    show Prog.wlp _ _ _ (setMotor enabled quick self) h
    rw [setMotor_same hsame]
    refine Prog.wlp_mono (keeps_switchMotor ?_ enabled self h ⟨rfl, hblock⟩) fun _ _ _ _ => trivial
    rw [Option.map_some, get_set, htold]
  · rw [setMotor_eq]
    refine Fallible.wlp_seq (setDelay_wlp hsame) (fun _ _ _ _ => trivial) ?_
    rintro _ next h₁ ⟨rfl, hblock₁⟩
    refine Fallible.wlp_mono (keeps_switchMotor ?_ enabled _ h₁ ⟨rfl, hblock₁⟩)
      fun _ _ _ _ => trivial
    rw [Option.map_some, get_set]

theorem motorOnTimed_iff (run : MotorRun config drive log self h) (quick : Bool) :
    MotorOnTimed quick self h ↔ log.Allows quick := by
  constructor
  · intro htimed hdelay
    obtain ⟨hasked, hblock⟩ := run.blocks
    obtain ⟨p, h', hwalk, hnext, hsame⟩ := walk_switchMotor self h
    rw [← setMotor_same (hasked.trans hdelay.symm)] at hwalk
    have htold := htimed p h' hwalk hnext
    rw [hsame, hblock, Option.map_some, get_set] at htold
    exact (Option.some.inj htold).trans hdelay
  · intro hallows p h' hwalk hnext
    exact hwalk.ready (setMotor_wlp run hallows) hnext rfl

/--
**The motor delay.** At every call of every run the motor starts with the delay of the call, and the
cached block is that of the interface where it is not told, exactly where the call does not ask
again for a delay that `SetParams` has failed to tell.
-/
theorem motorDelay_iff (config : BridgeConfig) (drive : DriveSelect) (log : MotorLog)
    (self : GreaseweazleHost) (h : History wireSig) (run : MotorRun config drive log self h)
    (quick : Bool) :
    (MotorOnTimed quick self h ↔ log.Allows quick) ∧
      (SkipCoherent quick self h ↔ log.Allows quick) :=
  ⟨motorOnTimed_iff run quick, skipCoherent_iff run quick⟩

/-- What an interface with the delays of its firmware answers while a PC drive is opened. -/
def openingReplies : List Byte :=
  [0, 0] ++ [1, 4, 1, 22, 0, 0xa2, 0x4a, 4] ++ List.replicate 24 0
    ++ [16, 0]
    ++ [5, 0] ++ [10, 0, 0x10, 0x27, 15, 0, 0xee, 2, 0x10, 0x27]
    ++ [4, 0] ++ [14, 0] ++ [12, 0] ++ [20, 0, 1] ++ [20, 0, 1] ++ [13, 0]

/-- A PC drive behind `open`. -/
def openedDrive : Prog wireSig GreaseweazleHost (Except Error Unit) × History wireSig :=
  (openDevice ⟨.normal, .auto, 0⟩ .pcA unopened).runWith (answering openingReplies []) []

theorem motorRun_opened : MotorRun ⟨.normal, .auto, 0⟩ .pcA ⟨750, 750⟩ openedDrive.1.priv
    openedDrive.2 := by
  have hresult : openedDrive.1.result? = some (.ok ()) := by decide +kernel
  have hreported : openedDrive.1.priv.delays.get DELAY_MOTOR = 750 := by decide +kernel
  have hwalk : Walk (.any wireSig) openedDrive.1 openedDrive.2
      (openDevice ⟨.normal, .auto, 0⟩ .pcA unopened) [] :=
    Prog.walk_runWith (fun _ _ _ _ => trivial) _ _
  rw [Prog.eq_ret hresult] at hwalk
  rw [← hreported]
  exact .opened hwalk

theorem motorDelay_iff_opened :
    (MotorOnTimed true openedDrive.1.priv openedDrive.2 ↔ MotorLog.Allows ⟨750, 750⟩ true) ∧
      (SkipCoherent true openedDrive.1.priv openedDrive.2 ↔ MotorLog.Allows ⟨750, 750⟩ true) :=
  motorDelay_iff _ _ _ _ _ motorRun_opened true

/-- The same drive behind a quick call, whose deadline passes before `SetParams` is sent. -/
def untoldDrive : Prog wireSig GreaseweazleHost (Except Error Unit) × History wireSig :=
  (setDelay DELAY_MOTOR (motorDelay true) openedDrive.1.priv).runWith
    (fun _ o => match o with
      | .deadline => some 0
      | _ => none) openedDrive.2

theorem motorRun_untold : MotorRun ⟨.normal, .auto, 0⟩ .pcA ⟨10, 750⟩ untoldDrive.1.priv
    untoldDrive.2 := by
  have hresult : untoldDrive.1.result? = some (.error (.timeout "Greaseweazle command")) := by
    decide +kernel
  have hwalk : Walk (.any wireSig) untoldDrive.1 untoldDrive.2
      (setDelay DELAY_MOTOR (motorDelay true) openedDrive.1.priv) openedDrive.2 :=
    Prog.walk_runWith (fun _ _ _ _ => trivial) _ _
  rw [Prog.eq_ret hresult] at hwalk
  exact .refused motorRun_opened true hwalk

/-- After a quick call whose `SetParams` fails, the next quick call starts the motor with the 750 ms
the interface still has. -/
theorem motorDelay_untold :
    ¬ (∀ config drive log self h, MotorRun config drive log self h →
      ∀ quick, MotorOnTimed quick self h) ∧
    ¬ ∀ config drive log self h, MotorRun config drive log self h →
      ∀ quick, SkipCoherent quick self h := by
  have hnot : ¬ MotorLog.Allows ⟨10, 750⟩ true := fun hallows => absurd (hallows rfl) (by decide)
  constructor
  · intro htimed
    exact hnot ((motorOnTimed_iff motorRun_untold true).mp (htimed _ _ _ _ _ motorRun_untold true))
  · intro hcoherent
    exact hnot ((skipCoherent_iff motorRun_untold true).mp
      (hcoherent _ _ _ _ _ motorRun_untold true))

end GreaseweazleHost

end FluxBridge
