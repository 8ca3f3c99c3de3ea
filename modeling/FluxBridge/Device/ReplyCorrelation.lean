import FluxBridge.Device.ReplyPipe

/-!
# Replies and the commands they answer

`command` takes the next bytes of the pipe for the answer to its packet, and looks only at the
command code. A reply that becomes readable after its deadline stays in the pipe, and is taken for
that of the next command with the same code.

* `replies_correlated` — where no command is sent that an earlier reply could answer, whatever is
  accepted is the answer to that very command, and the pins are what the status says of them
* `replies_skewed` — the polls of the pins, behind one that came late
-/

namespace FluxBridge

open Atomic

namespace GreaseweazleHost

/-- What holds at every moment: what was accepted was the answer, and the pins are true. -/
def Sound (I : Interface) (self : GreaseweazleHost) (h : History wireSig) : Prop :=
  I.Correlated h ∧ I.PinsTrue self h

namespace Replies

/-- What holds between two commands. -/
def Between (I : Interface) (self : GreaseweazleHost) (h : History wireSig) : Prop :=
  Sound I self h ∧ streamFollows h = false

/-- What holds where nothing was just accepted that a field or a stream depends on. -/
def Quiet (I : Interface) (h : History wireSig) : Prop :=
  I.Correlated h ∧ (∀ self, I.PinsTrue self h) ∧ streamFollows h = false

theorem Quiet.between {I : Interface} {h : History wireSig} (hquiet : Quiet I h)
    (self : GreaseweazleHost) : Between I self h :=
  ⟨⟨hquiet.1, hquiet.2.1 self⟩, hquiet.2.2⟩

/-- The calls of the port. -/
def PortCall : WireOp → Prop
  | .accepted _ => False
  | _ => True

/-- An OK was read behind a packet: what is left in the pipe is the rest of its reply. -/
def Exchanged (I : Interface) (command : Command) (parameters response : List Byte)
    (link : Link) : Prop :=
  response.getD 0 0 = command.code → response.getD 1 0 = ACK_OK →
    ∃ k packet, commandPacket command parameters = .ok packet ∧ I.ack k = ACK_OK ∧
      link.received = k + 1 ∧ link.last = packet ∧ link.asked = packet ∧
      link.taken = [(k, command.code), (k, ACK_OK)] ∧
      link.pipe = (I.payload k packet ++ I.stream k packet).map (Prod.mk k)

/-- A command was just accepted with the payload that answers it. -/
def Accepted (I : Interface) (command : Command) (parameters output : List Byte)
    (h : History wireSig) : Prop :=
  I.Correlated h ∧ ∃ old k packet, h = ⟨.accepted command.code, ()⟩ :: old ∧
    commandPacket command parameters = .ok packet ∧ (I.link old).received = k + 1 ∧
    (I.link old).asked = packet ∧ output = (List.range (payloadLength packet)).map (I.data k)

variable {I : Interface} {self : GreaseweazleHost} {h : History wireSig}

/-- A call of the port leaves the pins and the streams behind. -/
theorem quiet_call (hcorrelated : I.Correlated h) {o : WireOp} (ho : PortCall o) (r : o.Ret) :
    Quiet I (⟨o, r⟩ :: h) := by
  cases o with
  | accepted code => exact ho.elim
  | _ => exact ⟨hcorrelated, fun _ => trivial, rfl⟩

theorem frame_quiet : Fallible.Frame I.undisturbed (fun l _ h => Sound I l h)
    (fun _ h => Quiet I h) PortCall where
  ready l _ _ _ hquiet := (hquiet.between l).1
  keeps _ _ _ r ho hquiet _ := quiet_call hquiet.1 ho r

theorem frame_quiet_self : Fallible.Frame I.undisturbed (fun l _ h => Sound I l h)
    (fun l h => l = self ∧ Quiet I h) PortCall where
  ready l _ _ _ hquiet := (hquiet.2.between l).1
  keeps _ _ _ r ho hquiet _ := ⟨hquiet.1, quiet_call hquiet.2.1 ho r⟩

theorem frame_between : Fallible.Frame I.undisturbed (fun l _ h => Sound I l h)
    (fun l h => Between I l h) PortCall where
  ready _ _ _ _ hbetween := hbetween.1
  keeps l _ _ r ho hbetween _ := (quiet_call hbetween.1.1 ho r).between l

/-! ## One command -/

/-- The first two bytes behind a packet that was permitted. -/
theorem exchanged {command : Command} {parameters packet response : List Byte} {link : Link}
    (hpacket : commandPacket command parameters = .ok packet) (hasked : link.asked = [])
    (htaken : link.taken = []) (hstreaming : link.streaming = false)
    (hpermits : link.Permits packet) (hlength : response.length = 2)
    (hresponse : response = (link.send I packet).outstanding.take 2) :
    Exchanged I command parameters response ((link.send I packet).take 2) := by
  intro hcode hack
  obtain ⟨hform, hhead⟩ := isPacket_commandPacket hpacket
  rcases hpermits hasked hstreaming with hclean | hstale
  -- nothing was outstanding: the two bytes are the beginning of the answer
  · have hsent := send_packet (I := I) hclean hform
    have hfirst : response = [command.code, I.ack link.received] := by
      rw [hresponse, hsent, Link.outstanding, List.map_map, ← hhead]
      exact congrArg (List.take 2) (List.map_id _)
    have hok : I.ack link.received = ACK_OK := by
      rw [hfirst] at hack
      exact hack
    refine ⟨link.received, packet, hpacket, hok, ?_⟩
    rw [hsent, hasked, Link.take, htaken]
    refine ⟨rfl, rfl, rfl, ?_, rfl⟩
    show [(link.received, packet.headD 0), (link.received, I.ack link.received)] = _
    rw [hhead, hok]
  -- an earlier reply was outstanding that does not begin like an OK, so none was accepted
  · have hboth : response = [packet.headD 0, ACK_OK] := by
      match response, hlength with
      | [first, second], _ =>
        rw [hhead]
        exact congrArg₂ (fun a b => [a, b]) hcode hack
    refine absurd ?_ hstale
    rw [← hboth, hresponse]
    exact List.IsPrefix.take ((send_pipe packet).map _) 2

theorem exchange_wlp (command : Command) (parameters : List Byte) (hbetween : Between I self h) :
    (exchange command parameters).wlp I.undisturbed (fun l _ h => Sound I l h)
      (fun result next h' => next = self ∧
        match result with
        | .error _ => Between I self h'
        | .ok (response, _) =>
          Quiet I h' ∧ Exchanged I command parameters response (I.link h')) self h := by
  unfold exchange
  cases hpacket : commandPacket command parameters with
  | error e => exact ⟨rfl, hbetween⟩
  | ok packet =>
    refine ⟨hbetween.1, fun deadline _ => ?_⟩
    have hquiet : Quiet I (⟨.deadline, deadline⟩ :: h) :=
      quiet_call (o := .deadline) hbetween.1.1 trivial deadline
    have hne : packet ≠ [] := by
      obtain ⟨⟨code, length, parameters, rfl, -⟩, -⟩ := isPacket_commandPacket hpacket
      exact List.cons_ne_nil _ _
    refine Fallible.wlp_seq (Fallible.wlp_and
      (keeps_writeAllUntil frame_quiet_self trivial (fun _ => trivial) trivial
        "Greaseweazle command" packet deadline self _ ⟨rfl, hquiet⟩)
      (writeAllUntil_sends "Greaseweazle command" packet deadline self _)) ?_ ?_
    · rintro e next h₁ ⟨⟨rfl, hquiet⟩, -⟩
      exact ⟨rfl, hquiet.between next⟩
    · rintro left next h₁ ⟨⟨rfl, hquiet⟩, hsends⟩
      obtain ⟨hsent, hpermits⟩ := hsends left rfl
      refine Fallible.wlp_mono (Fallible.wlp_and
        (keeps_readExactUntil frame_quiet_self trivial (fun _ => trivial)
          command.acknowledgementOperation 2 left next h₁ ⟨rfl, hquiet⟩)
        (readExactUntil_takes command.acknowledgementOperation 2 left next h₁)) ?_
      rintro (e | ⟨response, left'⟩) next' h₂ ⟨⟨rfl, hquiet⟩, htakes⟩
      · exact ⟨rfl, hquiet.between next'⟩
      · obtain ⟨hlength, hresponse, hlink⟩ := htakes response left' rfl
        refine ⟨rfl, hquiet, ?_⟩
        rw [hlink, hsent]
        rw [hsent] at hresponse
        exact exchanged hpacket rfl rfl hbetween.2 (hpermits hne) hlength hresponse

theorem mapAck_ok {command : Command} {ack : Byte} (h : mapAck command ack = .ok ()) :
    ack = ACK_OK := by
  unfold mapAck at h
  by_contra hack
  rw [if_neg hack] at h
  repeat' split at h
  all_goals cases h

theorem payload_length {k : Nat} {packet : List Byte} (hack : I.ack k = ACK_OK) :
    (I.payload k packet).length = payloadLength packet := by
  rw [Interface.payload, if_pos hack, List.length_map, List.length_range]

/-- The payload of a reply that was read to its end. -/
theorem accepted_of_exchanged {command : Command} {parameters response output : List Byte}
    {extra : Nat} {h₀ old : History wireSig}
    (hextra : ∀ packet, commandPacket command parameters = .ok packet →
      payloadLength packet = extra)
    (hexchanged : Exchanged I command parameters response (I.link h₀))
    (hcode : response.getD 0 0 = command.code) (hack : response.getD 1 0 = ACK_OK)
    (houtput : output = (I.link h₀).outstanding.take extra)
    (hlink : I.link old = (I.link h₀).take extra) (hcorrelated : I.Correlated old) :
    Accepted I command parameters output (⟨.accepted command.code, ()⟩ :: old) := by
  obtain ⟨k, packet, hpacket, hok, hreceived, hlast, hasked, htaken, hpipe⟩ := hexchanged hcode hack
  obtain ⟨-, hhead⟩ := isPacket_commandPacket hpacket
  have hlength : (I.payload k packet).length = extra :=
    (payload_length hok).trans (hextra packet hpacket)
  -- the payload is next in the pipe, and a stream behind it stays there
  have htake : (I.link h₀).pipe.take extra = (I.payload k packet).map (Prod.mk k) := by
    rw [hpipe, ← List.map_take, ← hlength, List.take_left]
  have hasked' : (I.link old).asked = packet := by
    rw [hlink]
    exact hasked
  have hreceived' : (I.link old).received = k + 1 := by
    rw [hlink]
    exact hreceived
  refine ⟨⟨⟨k, hreceived', ?_, ?_⟩, hcorrelated⟩, old, k, packet, rfl, hpacket, hreceived', hasked',
    ?_⟩
  · rw [hasked', hlink]
    exact hlast
  · rw [hasked', hlink, Link.take, htaken, htake, Interface.answer, hhead, hok]
    rfl
  · rw [houtput, Link.outstanding, ← List.map_take, htake, List.map_map, Interface.payload,
      if_pos hok]
    exact List.map_id _

theorem command_wlp (code : Command) (parameters : List Byte) {extra : Nat}
    (hextra : ∀ packet, commandPacket code parameters = .ok packet → payloadLength packet = extra)
    (hbetween : Between I self h) :
    (command code parameters extra).wlp I.undisturbed (fun l _ h => Sound I l h)
      (fun result next h' => next = self ∧
        match result with
        | .error _ => Between I self h'
        | .ok output => Accepted I code parameters output h') self h := by
  show Fallible.wlp _ _ _ (exchange code parameters >>= fun reply =>
    acceptReply code extra reply.1 reply.2) _ _
  refine Fallible.wlp_seq (exchange_wlp code parameters hbetween) (fun e next h' hR => hR) ?_
  rintro ⟨response, deadline⟩ next h₁ ⟨rfl, hquiet, hexchanged⟩
  unfold acceptReply
  split
  · exact ⟨rfl, hquiet.between next⟩
  · next hcode =>
    rw [not_not] at hcode
    cases hmap : mapAck code (response.getD 1 0) with
    | error e => exact ⟨rfl, hquiet.between next⟩
    | ok _ =>
      show Fallible.wlp _ _ _ (readExactUntil "Greaseweazle command payload" extra deadline >>=
        fun read => wire (.accepted code.code) >>= fun _ => pure read.1) _ _
      refine Fallible.wlp_seq (Fallible.wlp_and
        (keeps_readExactUntil frame_quiet_self trivial (fun _ => trivial)
          "Greaseweazle command payload" extra deadline next h₁ ⟨rfl, hquiet⟩)
        (readExactUntil_takes "Greaseweazle command payload" extra deadline next h₁)) ?_ ?_
      · rintro e next' h₂ ⟨⟨rfl, hquiet⟩, -⟩
        exact ⟨rfl, hquiet.between next'⟩
      · rintro ⟨output, left⟩ next' h₂ ⟨⟨rfl, hquiet⟩, htakes⟩
        obtain ⟨-, houtput, hlink⟩ := htakes output left rfl
        refine ⟨(hquiet.between next').1, fun _ _ => ⟨rfl, ?_⟩⟩
        exact accepted_of_exchanged hextra hexchanged hcode (mapAck_ok hmap) houtput hlink hquiet.1

/-! ## What a command leaves behind -/

/-- Commands that neither a field nor a stream depends on. -/
abbrev Plain (code : Command) : Prop := code ≠ .getPin ∧ code ≠ .readFlux ∧ code ≠ .writeFlux

/-- Only a `GetPin` asks for a pin. -/
theorem Accepted.sound {code : Command} {parameters output : List Byte}
    (haccepted : Accepted I code parameters output h) (hcode : code ≠ .getPin)
    (self : GreaseweazleHost) : Sound I self h := by
  obtain ⟨hcorrelated, old, k, packet, rfl, hpacket, -, hasked, -⟩ := haccepted
  obtain ⟨-, hhead⟩ := isPacket_commandPacket hpacket
  have hpin : ∀ number, (I.link old).asked ≠ Interface.pin number := by
    intro number hequal
    rw [hasked] at hequal
    rw [hequal] at hhead
    cases code with
    | getPin => exact hcode rfl
    | _ => cases hhead
  exact ⟨hcorrelated, fun hequal => absurd hequal (hpin _), fun hequal => absurd hequal (hpin _)⟩

theorem Accepted.quiet {code : Command} {parameters output : List Byte}
    (haccepted : Accepted I code parameters output h) (hcode : Plain code) : Quiet I h := by
  refine ⟨haccepted.1, fun self => (haccepted.sound hcode.1 self).2, ?_⟩
  obtain ⟨-, old, -, -, rfl, -⟩ := haccepted
  cases code with
  | readFlux => exact absurd rfl hcode.2.1
  | writeFlux => exact absurd rfl hcode.2.2
  | _ => rfl

/-- The commands that are answered by an acknowledgement alone. -/
theorem payloadLength_eq {code : Command} {parameters packet : List Byte}
    (hcode : code ≠ .getInfo ∧ code ≠ .getParams ∧ code ≠ .getPin)
    (hpacket : commandPacket code parameters = .ok packet) : payloadLength packet = 0 := by
  obtain ⟨-, hhead⟩ := isPacket_commandPacket hpacket
  rw [payloadLength, hhead]
  cases code with
  | getInfo => exact absurd rfl hcode.1
  | getParams => exact absurd rfl hcode.2.1
  | getPin => exact absurd rfl hcode.2.2
  | _ => rfl

/-- Code that keeps what holds between two commands. -/
abbrev Keeps (I : Interface) {α : Type} (m : Host GreaseweazleHost α) : Prop :=
  Fallible.Keeps I.undisturbed (fun l _ h => Sound I l h) (fun l h => Between I l h) m

/-- Code that only calls the port. -/
abbrev Calls (I : Interface) {α : Type} (m : Host GreaseweazleHost α) : Prop :=
  Fallible.Keeps I.undisturbed (fun l _ h => Sound I l h) (fun _ h => Quiet I h) m

theorem keeps_modify {f : GreaseweazleHost → GreaseweazleHost}
    (hprotected : ∀ l, (f l).status.writeProtected = l.status.writeProtected)
    (hpresent : ∀ l, (f l).status.diskPresent = l.status.diskPresent) :
    Keeps I (Fallible.modify f) := by
  refine Fallible.keeps_modify fun l h hbetween => ⟨⟨hbetween.1.1, ?_⟩, hbetween.2⟩
  have hpins := hbetween.1.2
  match h, hpins with
  | [], _ => trivial
  | ⟨.accepted code, _⟩ :: old, hpins =>
    refine ⟨fun hasked => ?_, fun hasked => ?_⟩
    · rw [hprotected]
      exact hpins.1 hasked
    · rw [hpresent]
      exact hpins.2 hasked
  | ⟨.deadline, _⟩ :: _, _ | ⟨.setTimeout, _⟩ :: _, _ | ⟨.read _, _⟩ :: _, _
  | ⟨.write _, _⟩ :: _, _ | ⟨.flush, _⟩ :: _, _ | ⟨.purge, _⟩ :: _, _
  | ⟨.setCtsFlowControl _, _⟩ :: _, _ | ⟨.setDtr _, _⟩ :: _, _ | ⟨.setRts _, _⟩ :: _, _
  | ⟨.progress _ _, _⟩ :: _, _ | ⟨.panic, _⟩ :: _, _ => trivial

theorem keeps_command (code : Command) (parameters : List Byte) {extra : Nat}
    (hcode : Plain code)
    (hextra : ∀ packet, commandPacket code parameters = .ok packet →
      payloadLength packet = extra) : Keeps I (command code parameters extra) := by
  intro l h hbetween
  refine Fallible.wlp_mono (command_wlp code parameters hextra hbetween) ?_
  rintro (e | output) next h' ⟨rfl, hafter⟩
  · exact hafter
  · exact (hafter.quiet hcode).between next

theorem keeps_expectOk (code : Command) (parameters : List Byte) (hcode : Plain code)
    (hempty : code ≠ .getInfo ∧ code ≠ .getParams ∧ code ≠ .getPin) :
    Keeps I (expectOk code parameters) :=
  (keeps_command code parameters hcode fun _ => payloadLength_eq hempty).bind fun _ =>
    Fallible.keeps_pure ()

theorem keeps_select (selected : Bool) : Keeps I (select selected) := by
  refine Fallible.keeps_self.bind fun self => ?_
  split
  · exact Fallible.keeps_pure ()
  · have hmodify : Keeps I (Fallible.modify fun self => { self with selected := selected }) :=
      keeps_modify (fun _ => rfl) fun _ => rfl
    split
    · exact (keeps_expectOk _ _ (by decide) (by decide)).bind fun _ => hmodify
    · exact (keeps_expectOk _ _ (by decide) (by decide)).bind fun _ => hmodify

theorem keeps_deselectIdle : Keeps I deselectIdle := by
  refine Fallible.keeps_self.bind fun self => ?_
  split
  · exact keeps_select false
  · exact Fallible.keeps_pure ()

/-! ## The pins -/

theorem payloadLength_pin {number : Byte} {packet : List Byte}
    (hpacket : commandPacket .getPin [number] = .ok packet) :
    packet = Interface.pin number ∧ payloadLength packet = 1 := by
  cases hpacket
  exact ⟨rfl, rfl⟩

/-- A pin that was accepted: its byte is what the interface answered to the packet for that pin. -/
theorem Accepted.pin {number : Byte} {output : List Byte}
    (haccepted : Accepted I .getPin [number] output h) :
    ∃ old, h = ⟨.accepted Command.getPin.code, ()⟩ :: old ∧ I.Correlated h ∧
      (I.link old).asked = Interface.pin number ∧
      output.getD 0 0 = I.data ((I.link old).received - 1) 0 := by
  obtain ⟨hcorrelated, old, k, packet, rfl, hpacket, hreceived, hasked, houtput⟩ := haccepted
  obtain ⟨rfl, hlength⟩ := payloadLength_pin hpacket
  refine ⟨old, rfl, hcorrelated, hasked, ?_⟩
  rw [houtput, hlength, hreceived]
  rfl

/-- Behind the poll of pin 28. -/
theorem checkWriteProtect_wlp (hbetween : Between I self h) :
    checkWriteProtect.wlp I.undisturbed (fun l _ h => Sound I l h)
      (fun result next h' => Between I next h' ∧ (result = .ok () →
        ∃ old, h' = ⟨.accepted Command.getPin.code, ()⟩ :: old ∧
          (I.link old).asked = Interface.pin 28)) self h := by
  refine Fallible.wlp_seq (command_wlp .getPin [28] (fun _ hp => (payloadLength_pin hp).2) hbetween)
    ?_ ?_
  · rintro e next h' ⟨rfl, hafter⟩
    exact ⟨hafter, nofun⟩
  · rintro output next h' ⟨rfl, hafter⟩
    obtain ⟨old, rfl, hcorrelated, hasked, hlevel⟩ := hafter.pin
    refine ⟨⟨⟨hcorrelated, fun _ => ?_, fun hother => ?_⟩, rfl⟩, fun _ => ⟨old, rfl, hasked⟩⟩
    · rw [← hlevel]
    · rw [hasked] at hother
      cases hother

/-- The poll of pin 34, or what stands in its place, behind that of pin 28. -/
theorem checkDiskChange_wlp {old : History wireSig}
    (hbetween : Between I self (⟨.accepted Command.getPin.code, ()⟩ :: old))
    (hlast : (I.link old).asked = Interface.pin 28) :
    checkDiskChange.wlp I.undisturbed (fun l _ h => Sound I l h)
      (fun _ next h' => Between I next h') self (⟨.accepted Command.getPin.code, ()⟩ :: old) := by
  show Fallible.wlp _ _ _ (if self.bus = 1 then _ else _) _ _
  split
  · refine Fallible.wlp_seq (command_wlp .getPin [34] (fun _ hp => (payloadLength_pin hp).2)
      hbetween) ?_ ?_
    · rintro e next h' ⟨rfl, hafter⟩
      exact hafter
    · rintro output next h' ⟨rfl, hafter⟩
      obtain ⟨old, rfl, hcorrelated, hasked, hlevel⟩ := hafter.pin
      refine ⟨⟨hcorrelated, fun hother => ?_, fun _ => ?_⟩, rfl⟩
      · rw [hasked] at hother
        cases hother
      · rw [← hlevel]
  -- a Shugart drive polls no pin 34, so pin 28 stays the last one that was asked for
  · refine ⟨⟨hbetween.1.1, hbetween.1.2.1, fun hother => ?_⟩, hbetween.2⟩
    rw [hlast] at hother
    cases hother

theorem keeps_checkPins : Keeps I checkPins := by
  refine Fallible.keeps_self.bind fun self => (keeps_select true).bind fun _ => ?_
  intro l h hbetween
  refine Fallible.wlp_seq (checkWriteProtect_wlp hbetween) (fun _ _ _ hafter => hafter.1) ?_
  rintro _ next h' ⟨hbetween, hpin⟩
  obtain ⟨old, rfl, hlast⟩ := hpin rfl
  refine Fallible.wlp_seq (checkDiskChange_wlp hbetween hlast) (fun _ _ _ hafter => hafter) ?_
  intro _ next h' hbetween
  revert next h'
  split
  · exact keeps_select false
  · exact Fallible.keeps_pure ()

theorem keeps_readStatus : Keeps I readStatus := by
  refine keeps_checkPins.bind fun _ => Fallible.Keeps.bind ?_ fun _ =>
    Fallible.keeps_self.bind fun self => Fallible.keeps_pure self.status
  exact keeps_modify (fun _ => rfl) fun _ => rfl

/-! ## Reading and writing -/

theorem keeps_setDelay (index : Fin 5) (delay : BitVec 16) : Keeps I (setDelay index delay) := by
  refine Fallible.keeps_self.bind fun self => ?_
  split
  · refine Fallible.Keeps.bind ?_ fun _ => Fallible.keeps_self.bind fun self =>
      keeps_expectOk .setParams (0 :: self.delays.toList.flatMap le16) (by decide) (by decide)
    exact keeps_modify (fun _ => rfl) fun _ => rfl
  · exact Fallible.keeps_pure ()

theorem keeps_expectU32 (value : Nat) : Keeps I (expectU32 value) :=
  keeps_orPanic frame_between trivial _

theorem calls_decodeAtDensity (raw : List Byte) (density : DensityMode) :
    Calls I (decodeAtDensity raw density) := by
  refine Fallible.keeps_self.bind fun _ => (Fallible.keeps_ofExcept _).bind fun decoded =>
    Fallible.Keeps.bind ?_ fun _ => Fallible.keeps_pure decoded.2
  exact Fallible.keeps_modify fun _ _ hquiet => hquiet

theorem calls_publish (events : List FluxEvent) : Calls I (publish events) :=
  (frame_quiet.perform (o := .progress _ _) trivial).bind fun _ => Fallible.keeps_pure _

theorem calls_publishPartial (density : DensityMode) (raw : List Byte) (published : Nat) :
    Calls I (publishPartial density raw published) := by
  unfold publishPartial
  split
  · refine (calls_decodeAtDensity raw density).attempt.bind fun decoded => ?_
    cases decoded with
    | ok events => exact (calls_publish events).bind fun _ => Fallible.keeps_pure _
    | error e => exact Fallible.keeps_pure _
  · exact Fallible.keeps_pure _

theorem calls_publishWhole (density : DensityMode) (raw : List Byte) :
    Calls I (publishWhole density raw) :=
  (calls_decodeAtDensity raw density).bind fun events => calls_publish events

theorem calls_drainFastStream (density : DensityMode) (deadline : Nat) (raw : List Byte)
    (published : Nat) : Calls I (drainFastStream density deadline raw published) := by
  induction deadline generalizing raw published with
  | zero =>
    unfold drainFastStream
    split
    · exact Fallible.keeps_fail _
    · exact Fallible.keeps_fail _
  | succ deadline ih =>
    unfold drainFastStream
    split
    · exact Fallible.keeps_fail _
    · refine (keeps_setTimeout frame_quiet trivial).bind fun _ =>
        (frame_quiet.perform (o := .read CHUNK_BYTES) trivial).bind fun answer => ?_
      split
      · exact Fallible.keeps_fail _
      · split
        · exact calls_publishWhole density _
        · exact (calls_publishPartial density _ published).bind fun published => ih _ published
      · split
        · exact ih raw published
        · exact Fallible.keeps_fail _

/-- Code that begins by setting a deadline, and then only calls the port. -/
theorem deadline_wlp {α : Type} {m : Nat → Host GreaseweazleHost α}
    (hm : ∀ deadline, Calls I (m deadline)) (hsound : Sound I self h) :
    (deadlineFromNow >>= m).wlp I.undisturbed (fun l _ h => Sound I l h)
      (fun _ _ h' => Quiet I h') self h :=
  ⟨hsound, fun deadline _ =>
    hm deadline self _ (quiet_call (o := .deadline) hsound.1 trivial deadline)⟩

/-- What is left to do once a `ReadFlux` is accepted. -/
abbrev Drains (I : Interface) {α : Type} (m : Host GreaseweazleHost α) : Prop :=
  ∀ self h, Sound I self h → m.wlp I.undisturbed (fun l _ h => Sound I l h)
    (fun _ _ h' => Quiet I h') self h

theorem drains_drainFast (density : DensityMode) : Drains I (drainFast density) :=
  fun _ _ => deadline_wlp fun deadline => calls_drainFastStream density deadline [] 0

theorem drains_drainWhole : Drains I drainWhole := by
  refine fun _ _ => deadline_wlp fun deadline => ?_
  refine (keeps_readTerminatedUntil frame_quiet trivial (fun _ => trivial)
    "Greaseweazle flux stream" MAX_STREAM_BYTES deadline []).bind fun stream => ?_
  split
  · exact Fallible.keeps_fail _
  · exact Fallible.keeps_pure _

/-- An acknowledgement that is looked at by the caller: only an OK is marked. -/
theorem rawCommandAck_wlp (code : Command) (parameters : List Byte)
    (hcode : code ≠ .getInfo ∧ code ≠ .getParams ∧ code ≠ .getPin) (hbetween : Between I self h) :
    (rawCommandAck code parameters).wlp I.undisturbed (fun l _ h => Sound I l h)
      (fun result next h' => next = self ∧
        match result with
        | .error _ => Between I self h'
        | .ok ack =>
          (ack = ACK_OK → Accepted I code parameters [] h') ∧ (ack ≠ ACK_OK → Quiet I h'))
      self h := by
  refine Fallible.wlp_seq (exchange_wlp code parameters hbetween) (fun e next h' hR => hR) ?_
  rintro ⟨response, deadline⟩ next h₁ ⟨rfl, hquiet, hexchanged⟩
  show Fallible.wlp _ _ _ (acceptAck code response) _ _
  unfold acceptAck
  split
  · exact ⟨rfl, hquiet.between next⟩
  · next hheard =>
    rw [not_not] at hheard
    split
    · next hack =>
      refine ⟨(hquiet.between next).1, fun _ _ => ⟨rfl, fun _ => ?_, fun hne => absurd hack hne⟩⟩
      refine accepted_of_exchanged (fun _ => payloadLength_eq hcode) hexchanged hheard hack rfl ?_
        hquiet.1
      unfold Link.take
      rw [List.take_zero, List.append_nil]
      rfl
    · next hack => exact ⟨rfl, fun hok => absurd hok hack, fun _ => hquiet⟩

/-- A flux status leaves nothing behind that a field or a stream depends on. -/
theorem fluxStatus_wlp (hquiet : Quiet I h) :
    (rawCommandAck .getFluxStatus []).wlp I.undisturbed (fun l _ h => Sound I l h)
      (fun result next h' =>
        match result with
        | .error _ => Between I next h'
        | .ok _ => Quiet I h') self h := by
  refine Fallible.wlp_mono
    (rawCommandAck_wlp .getFluxStatus [] (by decide) (hquiet.between self)) ?_
  rintro (e | ack) next h' ⟨rfl, hafter⟩
  · exact hafter
  · obtain ⟨haccepted, hrefused⟩ := hafter
    by_cases hack : ack = ACK_OK
    · exact (haccepted hack).quiet (by decide)
    · exact hrefused hack

theorem calls_settleAttempt {α : Type} (result : α) {stale : Host GreaseweazleHost Unit}
    (hstale : Calls I stale) (last : Bool) (status : Byte) :
    Calls I (settleAttempt result stale last status) := by
  have hstatus : ∀ f, Calls I (setStatus f) := fun f =>
    Fallible.keeps_modify fun _ _ hquiet => hquiet
  unfold settleAttempt
  split
  · exact (hstatus _).bind fun _ => Fallible.keeps_pure _
  · split
    · exact (hstatus _).bind fun _ => Fallible.keeps_fail _
    · split
      · split
        · exact Fallible.keeps_fail _
        · exact (keeps_purge frame_quiet trivial).bind fun _ =>
            hstale.bind fun _ => Fallible.keeps_pure _
      · exact Fallible.keeps_ofExcept _

/-- Behind the command that starts a stream, which follows where it was accepted. -/
def Started (I : Interface) (result : Except Error Unit) (self : GreaseweazleHost)
    (h : History wireSig) : Prop :=
  match result with
  | .error _ => Between I self h
  | .ok _ => Sound I self h

theorem keeps_attemptRead {α : Type} (header : List Byte) {drain : Host GreaseweazleHost α}
    {stale : Host GreaseweazleHost Unit} (hdrain : Drains I drain) (hstale : Calls I stale)
    (last : Bool) : Keeps I (attemptRead header drain stale last) := by
  intro l h hbetween
  have haccept : (expectOk .readFlux header).wlp I.undisturbed (fun l _ h => Sound I l h)
      (Started I) l h := by
    refine Fallible.wlp_seq (command_wlp .readFlux header
      (fun _ => payloadLength_eq (by decide)) hbetween) ?_ ?_
    · rintro e next h' ⟨rfl, hafter⟩
      exact hafter
    · rintro output next h' ⟨rfl, hafter⟩
      exact hafter.sound (by decide) next
  refine Fallible.wlp_seq haccept (fun e next h' hafter => hafter) ?_
  intro _ next h₁ hsound
  refine Fallible.wlp_seq (hdrain next h₁ hsound) (fun e next h' hquiet => hquiet.between next) ?_
  intro result next h₂ hquiet
  refine Fallible.wlp_seq (fluxStatus_wlp hquiet) (fun e next h' hafter => hafter) ?_
  intro status next h₃ hquiet
  exact Fallible.wlp_mono (calls_settleAttempt result hstale last status next h₃ hquiet)
    fun _ next _ hquiet => hquiet.between next

theorem keeps_attempts {α : Type} (header : List Byte) {drain : Host GreaseweazleHost α}
    {stale : Host GreaseweazleHost Unit} (hdrain : Drains I drain) (hstale : Calls I stale)
    (again : Nat) : Keeps I (attempts header drain stale again) := by
  induction again with
  | zero =>
    exact (keeps_attemptRead header hdrain hstale true).bind fun outcome =>
      keeps_orPanic frame_between trivial outcome
  | succ again ih =>
    refine (keeps_attemptRead header hdrain hstale false).bind fun outcome => ?_
    cases outcome with
    | some result => exact Fallible.keeps_pure result
    | none => exact ih

theorem keeps_readStreamFast (density : DensityMode) : Keeps I (readStreamFast density) := by
  refine (keeps_select true).bind fun _ => Fallible.keeps_self.bind fun self =>
    (keeps_expectU32 _).bind fun ticks => Fallible.Keeps.bind ?_ fun bits =>
    keeps_deselectIdle.bind fun _ => Fallible.keeps_self.bind fun self =>
    (keeps_orPanic frame_between trivial _).bind fun joined =>
    (Fallible.keeps_ofExcept joined).bind fun joined => (Fallible.keeps_ofExcept _).bind fun _ =>
    Fallible.keeps_pure _
  exact keeps_attempts _ (drains_drainFast density)
    (frame_quiet.perform (o := .progress [] 0) trivial) 2

theorem keeps_extractRevolution (stream : List Byte) (mode : ReadMode) (density : DensityMode) :
    Keeps I (extractRevolution stream mode density) := by
  have hdecode : Keeps I (decodeAtDensity stream density) := by
    refine Fallible.keeps_self.bind fun _ => (Fallible.keeps_ofExcept _).bind fun decoded =>
      Fallible.Keeps.bind ?_ fun _ => Fallible.keeps_pure decoded.2
    exact keeps_modify (fun _ => rfl) fun _ => rfl
  have hcut : ∀ events, Keeps I (cutRevolution events mode) := by
    intro events
    unfold cutRevolution
    split
    · exact Fallible.keeps_ofExcept _
    · exact Fallible.keeps_self.bind fun _ => (keeps_orPanic frame_between trivial _).bind fun _ =>
        Fallible.keeps_ofExcept _
  exact hdecode.bind fun events => (hcut events).bind fun extracted =>
    (Fallible.keeps_ofExcept _).bind fun _ => Fallible.keeps_pure _

theorem keeps_readStream (mode : ReadMode) (density : DensityMode) :
    Keeps I (readStream mode density) := by
  have hwindow : Keeps I (readWindow mode) := by
    refine Fallible.keeps_self.bind fun self => ?_
    split
    · exact (keeps_expectU32 _).bind fun _ => Fallible.keeps_pure _
    · exact (keeps_expectU32 _).bind fun _ => (keeps_expectU32 _).bind fun _ =>
        Fallible.keeps_pure _
  exact (keeps_select true).bind fun _ => hwindow.bind fun window =>
    (keeps_attempts _ drains_drainWhole (Fallible.keeps_pure ()) 2).bind fun stream =>
    keeps_deselectIdle.bind fun _ => keeps_extractRevolution stream mode density

/-- The stream of a write, and its flux status. -/
theorem finishWrite_wlp (stream : List Byte) (hsound : Sound I self h) :
    (do
      sendStream stream
      let status ← rawCommandAck .getFluxStatus []
      Fallible.ofExcept (writeOutcome status) : Host GreaseweazleHost Unit).wlp I.undisturbed
      (fun l _ h => Sound I l h) (fun _ next h' => Between I next h') self h := by
  have hsend : (sendStream stream).wlp I.undisturbed (fun l _ h => Sound I l h)
      (fun _ _ h' => Quiet I h') self h :=
    deadline_wlp (fun deadline =>
      (keeps_writeAllUntil frame_quiet trivial (fun _ => trivial) trivial _ _
        _).bind fun deadline =>
      (keeps_readExactUntil frame_quiet trivial (fun _ => trivial) _ 1 deadline).bind
        fun _ => Fallible.keeps_pure ()) hsound
  refine Fallible.wlp_seq hsend (fun e next h' hquiet => hquiet.between next) ?_
  intro _ next h₁ hquiet
  refine Fallible.wlp_seq (fluxStatus_wlp hquiet) (fun e next h' hafter => hafter) ?_
  intro status next h₂ hquiet
  exact hquiet.between next

theorem keeps_writeStream (words : List (BitVec 16)) (bitLen : Nat) (fromIndex : Bool) :
    Keeps I (writeStream words bitLen fromIndex) := by
  refine Fallible.keeps_self.bind fun self => (Fallible.keeps_ofExcept _).bind fun stream =>
    (keeps_select true).bind fun _ => ?_
  intro l h hbetween
  refine Fallible.wlp_seq (rawCommandAck_wlp .writeFlux _ (by decide) hbetween) ?_ ?_
  · rintro e next h' ⟨rfl, hafter⟩
    exact hafter
  · rintro ack next h₁ ⟨rfl, haccepted, hrefused⟩
    -- a stream is sent only where the interface waits for one
    by_cases hack : ack = ACK_OK
    · have hok : writeAccepted ack = .ok () := if_pos hack
      rw [hok]
      exact finishWrite_wlp _ ((haccepted hack).sound (by decide) next)
    · have hquiet := hrefused hack
      cases writeAccepted ack with
      | error e => exact hquiet.between next
      | ok _ => exact finishWrite_wlp _ (hquiet.between next).1

/-! ## The device -/

theorem keeps_setMotor (enabled quick : Bool) : Keeps I (setMotor enabled quick) := by
  refine (keeps_setDelay _ _).bind fun _ => Fallible.keeps_self.bind fun self =>
    (keeps_expectOk .motor _ (by decide) (by decide)).bind fun _ =>
    Fallible.Keeps.bind ?_ fun _ => keeps_select enabled
  exact keeps_modify (fun _ => rfl) fun _ => rfl

theorem keeps_serve (call : DeviceCall) : Keeps I (serve call) := by
  cases call with
  | status => exact keeps_readStatus.bind fun _ => Fallible.keeps_pure ()
  | setMotor enabled quick => exact keeps_setMotor enabled quick
  | seek cylinder =>
    refine Fallible.keeps_self.bind fun self => ?_
    split
    · exact Fallible.keeps_fail _
    · refine (keeps_select true).bind fun _ =>
        (keeps_expectOk .seek _ (by decide) (by decide)).bind fun _ =>
        Fallible.Keeps.bind ?_ fun _ => keeps_deselectIdle
      exact keeps_modify (fun _ => rfl) fun _ => rfl
  | selectSide side =>
    refine (keeps_expectOk .head _ (by decide) (by decide)).bind fun _ => ?_
    exact keeps_modify (fun _ => rfl) fun _ => rfl
  | noClickStep =>
    exact (keeps_select true).bind fun _ =>
      (keeps_expectOk .noClickStep [] (by decide) (by decide)).bind fun _ => keeps_checkPins
  | readTrack mode density =>
    refine Fallible.Keeps.bind ?_ fun _ => Fallible.keeps_pure ()
    unfold readTrack
    split
    · exact keeps_readStreamFast density
    · exact keeps_readStream mode density
  | writeTrack words bitLen fromIndex density =>
    refine Fallible.Keeps.bind ?_ fun _ => keeps_writeStream words bitLen fromIndex
    exact keeps_modify (fun _ => rfl) fun _ => rfl

theorem keeps_prepareTransport : Keeps I prepareTransport :=
  (frame_between.perform (o := .setDtr true) trivial).bind fun _ =>
    (Fallible.keeps_ofExcept _).bind fun _ =>
    (frame_between.perform (o := .setRts true) trivial).bind fun _ =>
    (Fallible.keeps_ofExcept _).bind fun _ => keeps_purge frame_between trivial

theorem keeps_firmwareOrPurge : Keeps I firmwareOrPurge := by
  have hfirmware : Keeps I getFirmware := by
    refine keeps_command .getInfo [0] (by decide) fun packet hpacket => ?_
    cases hpacket
    rfl
  refine hfirmware.attempt.bind fun first => ?_
  cases first with
  | ok version => exact Fallible.keeps_pure version
  | error e => exact (keeps_purge frame_between trivial).bind fun _ => hfirmware

theorem keeps_initialise : Keeps I initialise := by
  have hreset : Keeps I (command .reset [] 0) :=
    keeps_command .reset [] (by decide) fun _ => payloadLength_eq (by decide)
  have hdelays : Keeps I (command .getParams [0, 10] 10) := by
    refine keeps_command .getParams [0, 10] (by decide) fun packet hpacket => ?_
    cases hpacket
    rfl
  refine hreset.bind fun _ => hdelays.bind fun delayBytes => Fallible.Keeps.bind ?_ fun _ =>
    (keeps_setDelay _ _).bind fun _ => Fallible.keeps_self.bind fun self =>
    (keeps_expectOk .setBusType _ (by decide) (by decide)).bind fun _ =>
    keeps_checkPins.bind fun _ => ?_
  · exact keeps_modify (fun _ => rfl) fun _ => rfl
  · exact keeps_modify (fun _ => rfl) fun _ => rfl

/-- `open` begins with an empty history, and with the status it sets itself. -/
theorem openDevice_wlp (config : BridgeConfig) (drive : DriveSelect) (self : GreaseweazleHost) :
    (openDevice config drive).wlp I.undisturbed (fun l _ h => Sound I l h)
      (fun _ next h' => Between I next h') self [] := by
  refine Fallible.wlp_seq (R := fun _ next h' => Between I next h') ⟨⟨trivial, trivial⟩, rfl⟩
    (fun _ _ _ hbetween => hbetween) ?_
  intro _ next h hbetween
  revert next h
  refine keeps_prepareTransport.bind fun _ => keeps_firmwareOrPurge.bind fun version => ?_
  dsimp only
  split
  · exact Fallible.keeps_fail _
  · split
    · exact Fallible.keeps_fail _
    · split
      · refine Fallible.Keeps.bind ?_ fun _ => keeps_initialise
        exact keeps_modify (fun _ => rfl) fun _ => rfl
      · exact Fallible.keeps_fail _

theorem lifetime_wlp (config : BridgeConfig) (drive : DriveSelect) (calls : List DeviceCall)
    (self : GreaseweazleHost) :
    (lifetime config drive calls).wlp I.undisturbed (fun l _ h => Sound I l h)
      (fun _ l h => Sound I l h) self [] := by
  refine Fallible.wlp_seq (R := fun _ next h' => Between I next h')
    (Fallible.wlp_attempt (openDevice_wlp config drive self)) (fun _ _ _ hbetween => hbetween.1) ?_
  intro opened next h hbetween
  have hdrop : Keeps I (do let _ ← Fallible.attempt (setMotor false true); pure ()) :=
    (keeps_setMotor false true).attempt.bind fun _ => Fallible.keeps_pure ()
  refine Fallible.wlp_mono ?_ fun _ _ _ (hbetween : Between I _ _) => hbetween.1
  cases opened with
  | ok _ => exact ((keeps_session keeps_serve calls).bind fun _ => hdrop) next h hbetween
  | error e => exact hdrop next h hbetween

end Replies

/-- **Replies.** Where no command is sent that an earlier reply could answer, at every moment of
every run whatever was accepted is the answer to that very command, and the pins that were just
polled are what the status says. -/
theorem replies_correlated (I : Interface) (config : BridgeConfig) (drive : DriveSelect)
    (calls : List DeviceCall) (self : GreaseweazleHost) {p' : Prog wireSig GreaseweazleHost _}
    {h' : History wireSig}
    (hwalk : Walk I.undisturbed p' h' (lifetime config drive calls self) []) :
    I.Correlated h' ∧ I.PinsTrue p'.priv h' :=
  Prog.wlp_view (J := fun l h => Sound I l h)
    (hwalk.wlp (Replies.lifetime_wlp config drive calls self))

/-! ## A reply that comes late -/

/-- Accepts every command; but for the firmware record, what it has to say of its `k`-th packet is
whether `k` is odd. -/
def parity : Interface where
  ack _ := ACK_OK
  data k i := if k = 0 then [1, 0, 1, 0, 0, 0xa2, 0x4a, 4].getD i 0 else BitVec.ofNat 8 (k % 2)
  flux _ := ⟨[], List.not_mem_nil⟩
  sync _ := 0
  discards _ := 0

/-- How many deadlines were set. -/
def deadlineCount (h : History wireSig) : Nat := h.countP fun event => event.op == .deadline

/-- A port that takes everything that is permitted and brings what is there at once. Only behind the
deadline `late` it brings nothing, and it does not set the one after `last`. -/
def deliver (I : Interface) (permitted : List Byte → Link → Bool) (late last : Nat)
    (h : History wireSig) : (o : WireOp) → Option o.Ret
  | .deadline => if deadlineCount h = last then none else some 3
  | .read room =>
    if deadlineCount h = late then some (.error .timedOut)
    else some (.ok ⟨(I.link h).outstanding.take room, List.length_take_le _ _⟩)
  | .write bytes =>
    if permitted bytes (I.link h) then some (.ok (Fin.last bytes.length)) else none
  | .flush => some (.ok ())
  | .setTimeout | .purge | .setCtsFlowControl _ | .setDtr _ | .setRts _ => some (.ok ())
  | .progress _ _ | .accepted _ => some ()
  | .panic => none

theorem env_deliver {I : Interface} {permitted : List Byte → Link → Bool} {late last : Nat}
    {h : History wireSig} {o : WireOp} {r : o.Ret}
    (hr : deliver I permitted late last h o = some r) : I.env h o r := by
  cases o with
  | read room =>
    rw [deliver] at hr
    split at hr
    · cases hr
      trivial
    · cases hr
      exact List.take_prefix _ _
  | _ => trivial

theorem undisturbed_deliver {I : Interface} {late last : Nat} {h : History wireSig} {o : WireOp}
    {r : o.Ret}
    (hr : deliver I (fun bytes link => decide (link.Permits bytes)) late last h o = some r) :
    I.undisturbed h o r := by
  refine ⟨env_deliver hr, ?_⟩
  cases o with
  | write bytes =>
    rw [deliver] at hr
    split at hr
    · next hpermits => exact of_decide_eq_true hpermits
    · cases hr
  | _ => trivial

/-- Opening a PC drive, and asking twice for its status. -/
def askTwice (permitted : List Byte → Link → Bool) (late last : Nat) :
    Prog wireSig GreaseweazleHost (Except Error Unit) × History wireSig :=
  (lifetime ⟨.compatible, .double, 0⟩ .pcA [.status, .status] unopened).runWith
    (deliver parity permitted late last) []

/-- Where every reply comes in time, both are answered. -/
theorem replies_correlated_intime :
    (askTwice (fun bytes link => decide (link.Permits bytes)) 0 100).1.result? = some (.ok ()) ∧
      parity.Correlated (askTwice (fun bytes link => decide (link.Permits bytes)) 0 100).2 ∧
      parity.PinsTrue (askTwice (fun bytes link => decide (link.Permits bytes)) 0 100).1.priv
        (askTwice (fun bytes link => decide (link.Permits bytes)) 0 100).2 :=
  ⟨by decide +kernel, replies_correlated parity _ _ _ _
    (Prog.walk_runWith (fun _ _ _ => undisturbed_deliver) _ _)⟩

/-- The pin that was accepted last was answered by an earlier reply, and the disk is there although
the interface says of pin 34 that it is not. -/
def skewed (run : Prog wireSig GreaseweazleHost (Except Error Unit) × History wireSig) : Bool :=
  match run.2 with
  | ⟨.accepted _, _⟩ :: h =>
    (parity.link h).taken.any (fun byte => byte.1 + 1 != (parity.link h).received) &&
      (parity.link h).asked == Interface.pin 34 && run.1.priv.status.diskPresent &&
      parity.data ((parity.link h).received - 1) 0 == 0
  | _ => false

theorem not_sound_of_skewed
    {run : Prog wireSig GreaseweazleHost (Except Error Unit) × History wireSig}
    (h : skewed run = true) :
    ¬ parity.Correlated run.2 ∧ ¬ parity.PinsTrue run.1.priv run.2 := by
  obtain ⟨p, history⟩ := run
  unfold skewed at h
  split at h
  · next code ret old heq =>
    obtain rfl : history = ⟨.accepted code, ret⟩ :: old := heq
    simp only [Bool.and_eq_true, beq_iff_eq, List.any_eq_true, bne_iff_ne] at h
    obtain ⟨⟨⟨⟨byte, hbyte, hother⟩, hasked⟩, hpresent⟩, hlevel⟩ := h
    constructor
    · rintro ⟨⟨k, hreceived, -, htaken⟩, -⟩
      rw [htaken] at hbyte
      obtain ⟨_, -, rfl⟩ := List.mem_map.mp hbyte
      exact hother hreceived.symm
    · rintro ⟨-, hdisk⟩
      have hwrong := hdisk hasked
      rw [hlevel, hpresent] at hwrong
      cases hwrong
  · cases h

/-- The reply to the first poll of pin 28 comes behind its deadline. The second poll is answered by
it, and the poll of pin 34 by the reply to that one. -/
theorem replies_skewed :
    (¬ ∀ (I : Interface) (config : BridgeConfig) (drive : DriveSelect) (calls : List DeviceCall)
      (self : GreaseweazleHost) (p' : Prog wireSig GreaseweazleHost (Except Error Unit))
      (h' : History wireSig), Walk I.env p' h' (lifetime config drive calls self) [] →
        I.Correlated h') ∧
    ¬ ∀ (I : Interface) (config : BridgeConfig) (drive : DriveSelect) (calls : List DeviceCall)
      (self : GreaseweazleHost) (p' : Prog wireSig GreaseweazleHost (Except Error Unit))
      (h' : History wireSig), Walk I.env p' h' (lifetime config drive calls self) [] →
        I.PinsTrue p'.priv h' := by
  have hwalk : Walk parity.env (askTwice (fun _ _ => true) 11 13).1
      (askTwice (fun _ _ => true) 11 13).2
      (lifetime ⟨.compatible, .double, 0⟩ .pcA [.status, .status] unopened) [] :=
    Prog.walk_runWith (fun _ _ _ => env_deliver) _ _
  have hskewed : skewed (askTwice (fun _ _ => true) 11 13) = true := by decide +kernel
  generalize askTwice (fun _ _ => true) 11 13 = run at hwalk hskewed
  obtain ⟨hwrong, hfalse⟩ := not_sound_of_skewed hskewed
  constructor
  · intro hcorrelated
    exact hwrong (hcorrelated _ _ _ _ _ _ _ hwalk)
  · intro hpins
    exact hfalse (hpins _ _ _ _ _ _ _ hwalk)

end GreaseweazleHost

end FluxBridge
