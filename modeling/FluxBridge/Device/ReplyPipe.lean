import Mathlib.Data.List.Infix
import FluxBridge.Device.GreaseweazleHost

/-!
# The other end of the wire

An interface that answers every packet once and in order, over a pipe in which a reply may stay
unread for as long as the surroundings like. `Interface.link` follows a history from the side of
the interface: what it has received, and what is on its way to the host, byte by byte with the
number of the packet that is answered. `Interface.env` lets a read bring nothing but what comes
next in the pipe; whether it brings anything at all is not said.

* `send_packet` — an interface between two packets answers the packet it is sent
* `readExactUntil_takes` — what is read is what comes next
-/

namespace FluxBridge

open Atomic

namespace GreaseweazleHost

/-- What an interface answers, by the number of packets and streams it had received before. -/
structure Interface where
  /-- the acknowledgement of a packet -/
  ack : Nat → Byte
  /-- the bytes behind an acknowledgement -/
  data : Nat → Nat → Byte
  /-- the stream behind the acknowledgement of a `ReadFlux` -/
  flux : Nat → { bytes : List Byte // 0 ∉ bytes }
  /-- the byte that says that a written stream has ended -/
  sync : Nat → Byte
  /-- how many of the bytes on their way a purge discards, by the number of purges before it -/
  discards : Nat → Nat

/-- How many bytes follow the acknowledgement of a packet. -/
def payloadLength (packet : List Byte) : Nat :=
  if packet.headD 0 = Command.getInfo.code then 32
  else if packet.headD 0 = Command.getParams.code then (packet.getD 3 0).toNat
  else if packet.headD 0 = Command.getPin.code then 1
  else 0

namespace Interface

variable (I : Interface)

def payload (k : Nat) (packet : List Byte) : List Byte :=
  if I.ack k = ACK_OK then (List.range (payloadLength packet)).map (I.data k) else []

/-- The acknowledgement of a packet and its payload. -/
def answer (k : Nat) (packet : List Byte) : List Byte :=
  packet.headD 0 :: I.ack k :: I.payload k packet

/-- The stream a packet asks for. -/
def stream (k : Nat) (packet : List Byte) : List Byte :=
  if packet.headD 0 = Command.readFlux.code ∧ I.ack k = ACK_OK then (I.flux k).1 ++ [0] else []

/-- Everything a packet is answered with. -/
def reply (k : Nat) (packet : List Byte) : List Byte := I.answer k packet ++ I.stream k packet

end Interface

/-- The two ends of the wire, and what the host did since it last set a deadline. -/
structure Link where
  /-- a packet that has not been received to its end -/
  incoming : List Byte
  /-- the interface waits for the stream of a `WriteFlux` -/
  writing : Bool
  /-- how many packets and streams were received -/
  received : Nat
  /-- the last packet that was received -/
  last : List Byte
  /-- what is on its way, with the number of what it answers -/
  pipe : List (Nat × Byte)
  purges : Nat
  /-- what the host has sent, and what it has read -/
  asked : List Byte
  taken : List (Nat × Byte)
  /-- the deadline is that of a stream, and not of a command -/
  streaming : Bool
  deriving DecidableEq

namespace Link

def start : Link := ⟨[], false, 0, [], [], 0, [], [], false⟩

/-- The second byte of a packet is its length. -/
def complete : List Byte → Bool
  | _ :: length :: rest => decide (length.toNat ≤ rest.length + 2)
  | _ => false

/-- The interface receives a byte. -/
def receive (I : Interface) (link : Link) (byte : Byte) : Link :=
  let packet := link.incoming ++ [byte]
  let link := { link with asked := link.asked ++ [byte] }
  if link.writing then
    if byte = 0 then
      { link with
        writing := false
        received := link.received + 1
        pipe := link.pipe ++ [(link.received, I.sync link.received)] }
    else link
  else if complete packet then
    { link with
      incoming := []
      writing := packet.headD 0 == Command.writeFlux.code && I.ack link.received == ACK_OK
      received := link.received + 1
      last := packet
      pipe := link.pipe ++ (I.reply link.received packet).map (Prod.mk link.received) }
  else { link with incoming := packet }

def send (I : Interface) (link : Link) (bytes : List Byte) : Link := bytes.foldl (receive I) link

/-- The host takes bytes from the pipe. -/
def take (link : Link) (count : Nat) : Link :=
  { link with pipe := link.pipe.drop count, taken := link.taken ++ link.pipe.take count }

def purge (I : Interface) (link : Link) : Link :=
  { link with pipe := link.pipe.drop (I.discards link.purges), purges := link.purges + 1 }

/-- What is on its way, as the host will read it. -/
def outstanding (link : Link) : List Byte := link.pipe.map Prod.snd

/-- The interface is between two packets, and everything it has sent was read. -/
def Clean (link : Link) : Prop := link.pipe = [] ∧ link.incoming = [] ∧ link.writing = false

/-- What the host sent is the packet that was received last, and what it has read is the answer to
that very packet. -/
def Answered (I : Interface) (link : Link) : Prop :=
  ∃ k, link.received = k + 1 ∧ link.last = link.asked ∧
    link.taken = (I.answer k link.asked).map (Prod.mk k)

/--
What is sent first behind a deadline is either part of a stream, or a command for which nothing is
left in the pipe that begins like its own OK.
-/
def Permits (link : Link) (bytes : List Byte) : Prop :=
  link.asked = [] → link.streaming = false →
    link.Clean ∨ ¬ link.outstanding.take 2 <+: [bytes.headD 0, ACK_OK]

instance (link : Link) : Decidable link.Clean := inferInstanceAs (Decidable (_ ∧ _ ∧ _))

instance (link : Link) (bytes : List Byte) : Decidable (link.Permits bytes) :=
  inferInstanceAs (Decidable (_ → _ → _ ∨ ¬ _))

end Link

/-- What was accepted last, with nothing done since, has a stream behind it. -/
def streamFollows : History wireSig → Bool
  | ⟨.accepted code, _⟩ :: _ =>
    code == Command.readFlux.code || code == Command.writeFlux.code
  | _ => false

namespace Interface

variable (I : Interface)

/-- The wire behind a history. -/
def link : History wireSig → Link
  | [] => .start
  | ⟨.deadline, _⟩ :: h =>
    { link h with asked := [], taken := [], streaming := streamFollows h }
  | ⟨.write bytes, .ok written⟩ :: h => (link h).send I (bytes.take written)
  | ⟨.read _, .ok chunk⟩ :: h => (link h).take chunk.1.length
  | ⟨.purge, _⟩ :: h => (link h).purge I
  | _ :: h => link h

/-- A read brings what comes next in the pipe, and may bring nothing in time. -/
def env : Env wireSig := fun h op ret =>
  match op, ret with
  | .read _, .ok chunk => chunk.1 <+: (I.link h).outstanding
  | _, _ => True

/-- No command is sent while the reply to an earlier one could be taken for its own. -/
def undisturbed : Env wireSig := fun h op ret =>
  I.env h op ret ∧
    match op with
    | .write bytes => (I.link h).Permits bytes
    | _ => True

/-- Whatever was accepted is the answer to the very command it was read for. -/
def Correlated : History wireSig → Prop
  | [] => True
  | ⟨.accepted _, _⟩ :: h => (I.link h).Answered I ∧ Correlated h
  | _ :: h => Correlated h

/-- The packet that asks for a pin. -/
def pin (number : Byte) : List Byte := [Command.getPin.code, 3, number]

/-- A pin that was just asked for is what the status says of it. -/
def PinsTrue (self : GreaseweazleHost) : History wireSig → Prop
  | ⟨.accepted _, _⟩ :: h =>
    ((I.link h).asked = pin 28 →
      self.status.writeProtected = (I.data ((I.link h).received - 1) 0 == 0)) ∧
    ((I.link h).asked = pin 34 →
      self.status.diskPresent = (I.data ((I.link h).received - 1) 0 == 1))
  | _ => True

end Interface

/-! ## Sending -/

theorem take_zero {link : Link} : link.take 0 = link := by
  unfold Link.take
  rw [List.take_zero, List.append_nil]
  rfl

theorem take_take (link : Link) (m n : Nat) : (link.take m).take n = link.take (m + n) := by
  unfold Link.take
  rw [List.drop_drop, List.append_assoc, List.take_add]

section Sending

variable {I : Interface} {link : Link}

theorem send_append (left right : List Byte) :
    link.send I (left ++ right) = (link.send I left).send I right :=
  List.foldl_append

theorem send_cons (byte : Byte) (rest : List Byte) :
    link.send I (byte :: rest) = (link.receive I byte).send I rest := rfl

theorem receive_pipe (byte : Byte) : link.pipe <+: (link.receive I byte).pipe := by
  unfold Link.receive
  dsimp only
  split
  · split
    · exact List.prefix_append _ _
    · exact List.prefix_rfl
  · split
    · exact List.prefix_append _ _
    · exact List.prefix_rfl

/-- Nothing that was on its way is lost by sending more. -/
theorem send_pipe (bytes : List Byte) : link.pipe <+: (link.send I bytes).pipe := by
  induction bytes generalizing link with
  | nil => exact List.prefix_rfl
  | cons byte bytes ih => exact (receive_pipe byte).trans ih

/-- A packet, as `command_packet` builds it. -/
def IsPacket (packet : List Byte) : Prop :=
  ∃ code length parameters, packet = code :: length :: parameters ∧
    length.toNat = parameters.length + 2

theorem isPacket_commandPacket {command : Command} {parameters packet : List Byte}
    (h : commandPacket command parameters = .ok packet) :
    IsPacket packet ∧ packet.headD 0 = command.code := by
  unfold commandPacket at h
  split at h
  · next hlength =>
    cases h
    refine ⟨⟨_, _, _, rfl, ?_⟩, rfl⟩
    rw [BitVec.toNat_ofNat]
    exact Nat.mod_eq_of_lt hlength
  · cases h

/-- The front of a packet is not taken for a whole one. -/
theorem not_complete_take {packet : List Byte} (hpacket : IsPacket packet) {n : Nat}
    (hn : n < packet.length) : Link.complete (packet.take n) = false := by
  obtain ⟨code, length, parameters, rfl, hlength⟩ := hpacket
  rcases n with _ | _ | n
  · rfl
  · rfl
  · rw [List.take_succ_cons, List.take_succ_cons, Link.complete, decide_eq_false_iff_not,
      List.length_take]
    simp only [List.length_cons] at hn
    omega

theorem complete_packet {packet : List Byte} (hpacket : IsPacket packet) :
    Link.complete packet = true := by
  obtain ⟨code, length, parameters, rfl, hlength⟩ := hpacket
  rw [Link.complete, decide_eq_true_iff]
  omega

/-- The front of a packet stays with the interface. -/
theorem send_take (hclean : link.Clean) {packet : List Byte} (hpacket : IsPacket packet) {n : Nat}
    (hn : n < packet.length) :
    link.send I (packet.take n) =
      { link with incoming := packet.take n, asked := link.asked ++ packet.take n } := by
  obtain ⟨hpipe, hincoming, hwriting⟩ := hclean
  induction n with
  | zero =>
    rw [List.take_zero, List.append_nil]
    show link = _
    rw [← hincoming]
  | succ n ih =>
    have hlt : n < packet.length := Nat.lt_of_succ_lt hn
    have hnext : packet.take (n + 1) = packet.take n ++ [packet[n]] :=
      (List.take_append_getElem hlt).symm
    have hopen : Link.complete (packet.take n ++ [packet[n]]) = false := by
      rw [← hnext]
      exact not_complete_take hpacket hn
    rw [hnext, send_append, ih hlt, send_cons]
    show Link.receive I _ _ = _
    unfold Link.receive
    dsimp only
    rw [hwriting, hopen, List.append_assoc]
    rfl

/-- An interface between two packets answers the packet it is sent. -/
theorem send_packet (hclean : link.Clean) {packet : List Byte} (hpacket : IsPacket packet) :
    link.send I packet =
      { link with
        incoming := []
        writing := packet.headD 0 == Command.writeFlux.code && I.ack link.received == ACK_OK
        received := link.received + 1
        last := packet
        asked := link.asked ++ packet
        pipe := (I.reply link.received packet).map (Prod.mk link.received) } := by
  obtain ⟨n, hn⟩ : ∃ n, packet.length = n + 1 := by
    obtain ⟨code, length, parameters, rfl, -⟩ := hpacket
    exact ⟨parameters.length + 1, rfl⟩
  have hlt : n < packet.length := by omega
  have hwhole : packet.take n ++ [packet[n]] = packet := by
    rw [List.take_append_getElem hlt, ← hn, List.take_length]
  have hdone : Link.complete (packet.take n ++ [packet[n]]) = true := by
    rw [hwhole]
    exact complete_packet hpacket
  have hfront := send_take (I := I) hclean hpacket hlt
  obtain ⟨hpipe, hincoming, hwriting⟩ := hclean
  calc link.send I packet
      = (link.send I (packet.take n)).send I [packet[n]] := by rw [← send_append, hwhole]
    _ = Link.receive I { link with
          incoming := packet.take n, asked := link.asked ++ packet.take n } packet[n] := by
        rw [hfront]
        rfl
    _ = _ := by
        unfold Link.receive
        dsimp only
        rw [hwriting, hdone, hwhole, hpipe, List.append_assoc, hwhole]
        rfl

end Sending

/-! ## Calls of the port -/

section Calls

variable {D : Type} {I : Interface}

/-- What it says of the interface that `input` was written: it was sent, and was permitted. -/
def Sends (I : Interface) (input : List Byte) (h : History wireSig) (result : Except Error Nat)
    (h' : History wireSig) : Prop :=
  ∀ left, result = .ok left →
    I.link h' = (I.link h).send I input ∧ (input ≠ [] → (I.link h).Permits input)

/-- What it says of the interface that `count` bytes were read: they are the next of the pipe. -/
def Takes (I : Interface) (count : Nat) (h : History wireSig)
    (result : Except Error (List Byte × Nat)) (h' : History wireSig) : Prop :=
  ∀ bytes left, result = .ok (bytes, left) →
    bytes.length = count ∧ bytes = (I.link h).outstanding.take count ∧
      I.link h' = (I.link h).take count

/-- The interface as a view of what was written. -/
def sending (I : Interface) : Sending Link where
  view := I.link
  send := Link.send I
  send_nil _ := rfl
  send_append _ := send_append
  view_write _ _ _ := rfl
  view_failed _ _ _ := rfl
  view_timeout _ _ := rfl
  view_flush _ _ := rfl

/-- The interface as a view of what was read, which comes from the pipe. -/
def taking (I : Interface) : Taking Link where
  view := I.link
  take link bytes := link.take bytes.length
  Comes link bytes := bytes <+: link.outstanding
  take_nil _ := take_zero
  take_append link left right := by rw [take_take, List.length_append]
  comes_nil link := List.nil_prefix
  comes_append link left right := by
    rintro ⟨tail, htail⟩ hright
    have hrest : (link.take left.length).outstanding = tail := by
      rw [Link.outstanding, Link.take, List.map_drop]
      show link.outstanding.drop _ = _
      rw [← htail, List.drop_left]
    rw [hrest] at hright
    rw [← htail]
    exact (List.prefix_append_right_inj left).mpr hright
  view_read _ _ _ := rfl
  view_failed _ _ _ := rfl
  view_timeout _ _ := rfl

/-- The first bytes that are handed to the port were permitted. -/
theorem writeAllUntil_permits (operation : String) (input : List Byte) (deadline : Nat) (self : D)
    (h : History wireSig) :
    (writeAllUntil operation input deadline : Host D Nat).wlp I.undisturbed (fun _ _ _ => True)
      (fun result _ _ => ∀ left, result = .ok left → input ≠ [] → (I.link h).Permits input)
      self h := by
  rcases input with _ | ⟨byte, input⟩
  · exact Prog.wlp_always _ fun _ _ _ _ _ hne => absurd rfl hne
  rcases deadline with _ | deadline
  · exact nofun
  refine Fallible.wlp_seq (R := fun _ next h' => next = self ∧ I.link h' = I.link h)
    ⟨trivial, fun _ _ => ⟨rfl, rfl⟩⟩ (fun e _ _ _ => nofun) ?_
  rintro _ next h₁ ⟨rfl, hsame⟩
  refine ⟨trivial, fun answer henv => ?_⟩
  -- nothing was sent since the deadline was set: the surroundings have checked this very moment
  have hpermits : (I.link h).Permits (byte :: input) := by
    rw [← hsame]
    exact henv.2
  exact Prog.wlp_always _ fun _ _ _ _ _ _ => hpermits

/-- Bytes that were written until the deadline have been sent, and the first were permitted. -/
theorem writeAllUntil_sends (operation : String) (input : List Byte) (deadline : Nat) (self : D)
    (h : History wireSig) :
    (writeAllUntil operation input deadline : Host D Nat).wlp I.undisturbed (fun _ _ _ => True)
      (fun result _ h' => Sends I input h result h') self h :=
  Fallible.wlp_mono (Fallible.wlp_and
    ((sending I).writeAllUntil_wlp operation input deadline self h)
    (writeAllUntil_permits operation input deadline self h))
    fun _ _ _ hsent left hleft => ⟨hsent.1 left hleft, hsent.2 left hleft⟩

/-- Bytes that were read until the deadline are the next ones of the pipe. -/
theorem readExactUntil_takes (operation : String) (count deadline : Nat) (self : D)
    (h : History wireSig) :
    (readExactUntil operation count deadline : Host D _).wlp I.undisturbed (fun _ _ _ => True)
      (fun result _ h' => Takes I count h result h') self h := by
  refine Fallible.wlp_mono ((taking I).readExactUntil_wlp (fun _ _ _ henv => henv.1)
    operation count deadline self h) fun result _ h' hread bytes left heq => ?_
  obtain ⟨hlength, hcomes, hlink⟩ := hread bytes left heq
  rw [← hlength]
  exact ⟨rfl, List.prefix_iff_eq_take.mp hcomes, hlink⟩

end Calls

end GreaseweazleHost

end FluxBridge
