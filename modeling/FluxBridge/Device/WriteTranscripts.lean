import FluxBridge.Transport.Passages
import FluxBridge.Device.Loopback
import FluxBridge.Device.MotorDelay
import FluxBridge.Device.SuperCardPro
import FluxBridge.Device.DensityAgreement
import FluxBridge.Device.WriteEncodings

/-!
# What was sent when a write succeeds

The three backends write a track in different ways. Whatever the interfaces reply, a write that
returns `Ok` has said exactly the following, and was answered so.

* `GreaseweazleHost.writeTrack_transcript` — the commands, and a stream that is decoded to the track
* `SuperCardPro.writeStream_loaded` — the load of the counters, and how many there are
* `DrawBridge.writeStream_coded` — the handshake, and the codes of the track
-/

namespace FluxBridge

open Atomic

/-- Two bytes of which the first is known. -/
theorem eq_pair {response : List Byte} {code : Byte} (hlength : response.length = 2)
    (hcode : response.getD 0 0 = code) : response = [code, response.getD 1 0] := by
  obtain ⟨first, second, rfl⟩ := List.length_eq_two.mp hlength
  cases hcode
  rfl

/-! ## Greaseweazle -/

namespace GreaseweazleHost

/-- The packet of a command. -/
def packetOf (code : Command) (parameters : List Byte) : List Byte :=
  code.code :: BitVec.ofNat 8 (parameters.length + 2) :: parameters

/-- A command that was answered. -/
def answered (code : Command) (parameters : List Byte) (ack : Byte) : Passage :=
  ⟨packetOf code parameters, [code.code, ack]⟩

/-- What selecting the drive takes. -/
def selecting (self : GreaseweazleHost) : List Passage :=
  if self.selected then [] else [answered .select [self.drive] ACK_OK]

variable {self : GreaseweazleHost}

theorem packet_of_ok {code : Command} {parameters packet : List Byte}
    (h : commandPacket code parameters = .ok packet) : packet = packetOf code parameters := by
  unfold commandPacket at h
  split at h
  · cases h
    rfl
  · cases h

theorem ack_of_mapAck {code : Command} {ack : Byte} {a : Unit} (h : mapAck code ack = .ok a) :
    ack = ACK_OK := by
  unfold mapAck at h
  repeat' split at h
  all_goals first | assumption | cases h

theorem adds_exchange (code : Command) (parameters : List Byte) :
    Adds (exchange code parameters) self fun exchanged next new => next = self ∧
      exchanged.1.length = 2 ∧ new = [⟨packetOf code parameters, exchanged.1⟩] := by
  refine (adds_ofExcept (P := fun packet next new => next = self ∧ new = [] ∧
    packet = packetOf code parameters) fun packet hpacket => ⟨rfl, rfl, packet_of_ok hpacket⟩).bind
    ?_
  rintro _ self _ ⟨rfl, rfl, rfl⟩
  refine adds_deadline fun deadline => Speaks.close ?_
  refine (speaks_writeAllUntil fun left => ⟨rfl, rfl⟩ : Speaks _ _ _ fun _ next passage =>
    next = self ∧ passage = Passage.empty.send (packetOf code parameters)).bind ?_
  rintro left self _ ⟨rfl, rfl⟩
  exact speaks_readExactUntil fun bytes left hlength => ⟨rfl, hlength, rfl⟩

theorem adds_command (code : Command) (parameters : List Byte) (extra : Nat) :
    Adds (command code parameters extra) self fun output next new => next = self ∧
      output.length = extra ∧
      new = [⟨packetOf code parameters, code.code :: ACK_OK :: output⟩] := by
  refine (adds_exchange code parameters).speak ?_
  rintro ⟨response, deadline⟩ self _ ⟨rfl, hlength, rfl⟩
  refine ⟨_, rfl, ?_⟩
  show Speaks (acceptReply code extra response deadline) _ _ _
  unfold acceptReply
  split
  · exact speaks_fail _
  · next hcode =>
    have hresponse := eq_pair hlength (not_not.mp hcode)
    refine (speaks_ofExcept (P := fun _ next passage => next = self ∧
      passage = ⟨packetOf code parameters, [code.code, ACK_OK]⟩) fun a ha => ⟨rfl, ?_⟩).bind ?_
    · rw [← ack_of_mapAck ha, ← hresponse]
    rintro _ self _ ⟨rfl, rfl⟩
    refine (speaks_readExactUntil fun bytes left hlength => ⟨rfl, hlength, rfl⟩ :
      Speaks _ _ _ fun (output : List Byte × Nat) next passage => next = self ∧
        output.1.length = extra ∧
        passage = ⟨packetOf code parameters, code.code :: ACK_OK :: output.1⟩).bind ?_
    rintro ⟨output, left⟩ self _ ⟨rfl, houtput, rfl⟩
    refine (speaks_wire (o := .accepted code.code) (P := fun _ next passage => next = self ∧
      passage = ⟨packetOf code parameters, code.code :: ACK_OK :: output⟩) (fun _ _ => rfl)
      fun _ => ⟨rfl, rfl⟩).bind ?_
    rintro _ self _ ⟨rfl, rfl⟩
    exact speaks_pure ⟨rfl, houtput, rfl⟩

theorem adds_expectOk (code : Command) (parameters : List Byte) :
    Adds (expectOk code parameters) self fun _ next new => next = self ∧
      new = [answered code parameters ACK_OK] := by
  refine (adds_command code parameters 0).bind ?_
  rintro output self _ ⟨rfl, houtput, rfl⟩
  obtain rfl := List.length_eq_zero_iff.mp houtput
  exact adds_pure ⟨rfl, rfl⟩

theorem adds_rawCommandAck (code : Command) (parameters : List Byte) :
    Adds (rawCommandAck code parameters) self fun ack next new => next = self ∧
      new = [answered code parameters ack] := by
  refine (adds_exchange code parameters).bind ?_
  rintro ⟨response, deadline⟩ self _ ⟨rfl, hlength, rfl⟩
  show Adds (acceptAck code response) _ _
  unfold acceptAck
  split
  · exact adds_fail _
  · next hcode =>
    have hresponse := eq_pair hlength (not_not.mp hcode)
    have hanswered : (⟨packetOf code parameters, response⟩ : Passage) =
        answered code parameters (response.getD 1 0) :=
      congrArg (Passage.mk _) hresponse
    split
    · refine (adds_wire (o := .accepted code.code) (P := fun _ next new => next = self ∧ new = [])
        (fun _ _ => rfl) fun _ => ⟨rfl, rfl⟩).bind ?_
      rintro _ self _ ⟨rfl, rfl⟩
      exact adds_pure ⟨rfl, congrArg (· :: []) hanswered⟩
    · exact adds_pure ⟨rfl, congrArg (· :: []) hanswered⟩

theorem adds_selectTrue : Adds (select true) self fun _ next new =>
    next = { self with selected := true } ∧ new = selecting self := by
  refine (adds_self (P := fun host next new => host = self ∧ next = self ∧ new = [])
    ⟨rfl, rfl, rfl⟩).bind ?_
  rintro _ self _ ⟨rfl, rfl, rfl⟩
  show Adds (if true = self.selected then _ else _) _ _
  unfold selecting
  by_cases hselected : self.selected = true
  · rw [if_pos hselected, if_pos hselected.symm]
    refine adds_pure ⟨?_, rfl⟩
    rw [← hselected]
  · rw [if_neg hselected, if_neg fun hsame => hselected hsame.symm]
    refine Adds.bind (adds_expectOk .select [self.drive]) ?_
    rintro _ self _ ⟨rfl, rfl⟩
    exact adds_modify ⟨rfl, rfl⟩

theorem adds_sendStream (stream : List Byte) : Adds (sendStream stream) self
    fun _ next new => next = self ∧ ∃ ended, new = [⟨stream, [ended]⟩] := by
  refine adds_deadline fun deadline => Speaks.close ?_
  refine (speaks_writeAllUntil fun left => ⟨rfl, rfl⟩ : Speaks _ _ _ fun _ next passage =>
    next = self ∧ passage = Passage.empty.send stream).bind ?_
  rintro left self _ ⟨rfl, rfl⟩
  refine (speaks_readExactUntil fun bytes left hlength => ⟨rfl, hlength, rfl⟩ :
    Speaks _ _ _ fun (read : List Byte × Nat) next passage => next = self ∧ read.1.length = 1 ∧
      passage = ⟨stream, read.1⟩).bind ?_
  rintro ⟨bytes, left⟩ self _ ⟨rfl, hlength, rfl⟩
  obtain ⟨ended, rfl⟩ := List.length_eq_one_iff.mp hlength
  exact speaks_pure ⟨rfl, ended, rfl⟩

theorem ack_of_writeAccepted {ack : Byte} {a : Unit} (h : writeAccepted ack = .ok a) :
    ack = ACK_OK := by
  unfold writeAccepted at h
  split at h
  · assumption
  · split at h
    · cases h
    · exact ack_of_mapAck h

theorem ack_of_writeOutcome {ack : Byte} {a : Unit} (h : writeOutcome ack = .ok a) :
    ack = ACK_OK := by
  unfold writeOutcome at h
  split at h
  · assumption
  · split at h
    · cases h
    · split at h
      · cases h
      · exact ack_of_mapAck h

/-- A whole write, the last passage first. -/
def writePassages (self : GreaseweazleHost) (stream : List Byte) (ended : Byte)
    (fromIndex : Bool) : List Passage :=
  answered .getFluxStatus [] ACK_OK :: ⟨stream ++ [0], [ended]⟩ ::
    answered .writeFlux [if fromIndex then 1 else 0, 0] ACK_OK :: selecting self

theorem adds_writeStream (words : List (BitVec 16)) (bitLen : Nat) (fromIndex : Bool) :
    Adds (writeStream words bitLen fromIndex) self fun _ _ new => ∃ stream ended,
      self.toGreaseweazle.fluxStream words bitLen = .ok stream ∧
        new = writePassages self stream ended fromIndex := by
  refine (adds_self (P := fun host next new => host = self ∧ next = self ∧ new = [])
    ⟨rfl, rfl, rfl⟩).bind ?_
  rintro _ self _ ⟨rfl, rfl, rfl⟩
  refine (adds_ofExcept (P := fun stream next new => next = self ∧ new = [] ∧
    self.toGreaseweazle.fluxStream words bitLen = .ok stream) fun stream hstream =>
    ⟨rfl, rfl, hstream⟩).bind ?_
  rintro stream self _ ⟨rfl, rfl, hstream⟩
  refine adds_selectTrue.bind ?_
  rintro _ self _ ⟨rfl, rfl⟩
  refine (adds_rawCommandAck .writeFlux _).bind ?_
  rintro ack self _ ⟨rfl, rfl⟩
  refine (adds_ofExcept (P := fun _ next new => next = { self with selected := true } ∧
    new = [] ∧ ack = ACK_OK) fun _ ha => ⟨rfl, rfl, ack_of_writeAccepted ha⟩).bind ?_
  rintro _ self _ ⟨rfl, rfl, rfl⟩
  refine (adds_sendStream (stream ++ [0])).bind ?_
  rintro _ self _ ⟨rfl, ended, rfl⟩
  refine (adds_rawCommandAck .getFluxStatus []).bind ?_
  rintro status self _ ⟨rfl, rfl⟩
  refine adds_ofExcept fun _ ha => ⟨stream, ended, hstream, ?_⟩
  rw [ack_of_writeOutcome ha]
  simp [writePassages]

/-- The loop of `write_stream`, where it goes through. -/
theorem eq_of_pushDelay {flux : Greaseweazle} {timings : List Nat} {stream sent : List Byte}
    (h : timings.foldlM flux.pushDelay stream = .ok sent) :
    sent = stream ++ (timings.map flux.writeTicks).flatMap encodeTicks := by
  induction timings generalizing stream with
  | nil =>
    cases h
    rw [List.map_nil, List.flatMap_nil, List.append_nil]
  | cons nanoseconds timings ih =>
    rw [List.foldlM_cons] at h
    by_cases hfits : flux.writeTicks nanoseconds < U32_RANGE
    · have hpush : flux.pushDelay stream nanoseconds =
          .ok (stream ++ encodeTicks (flux.writeTicks nanoseconds)) := if_pos hfits
      rw [hpush] at h
      rw [ih h, List.map_cons, List.flatMap_cons, List.append_assoc]
    · have hpush : flux.pushDelay stream nanoseconds =
          .error (.protocol "Greaseweazle flux delay overflow") := if_neg hfits
      rw [hpush] at h
      cases h

/-- Nothing in front of its end looks like the end of a stream. -/
theorem zero_not_mem_fluxStream {flux : Greaseweazle} {words : List (BitVec 16)} {bitLen : Nat}
    {stream : List Byte} (h : flux.fluxStream words bitLen = .ok stream) : 0 ∉ stream := by
  unfold Greaseweazle.fluxStream at h
  dsimp only at h
  cases htimings : mfmToFlux words bitLen (if flux.highDensity then 1000 else 2000) with
  | error e =>
    rw [htimings] at h
    cases h
  | ok timings =>
    rw [htimings] at h
    rw [eq_of_pushDelay h, List.nil_append]
    intro hzero
    obtain ⟨ticks, hticks, hmem⟩ := List.mem_flatMap.mp hzero
    obtain ⟨nanoseconds, -, rfl⟩ := List.mem_map.mp hticks
    exact encodeTicks_ne_zero (Nat.le_max_right _ 1) hmem rfl

/-- At the clocks the firmware has, the stream is decoded to the track. -/
theorem decoded_of_fluxStream {flux : Greaseweazle} (hfrequency : 1000000 ∣ flux.sampleFrequency)
    (hlimit : flux.sampleFrequency ≤ 500000000) {words : List (BitVec 16)} {bitLen : Nat}
    {stream : List Byte} (hstream : flux.fluxStream words bitLen = .ok stream) :
    ∃ events, flux.decodeAtDensity stream flux.density = .ok (flux, events) ∧
      (PllDecoder.new.run events).2 = (List.range bitLen).map fun position =>
        wordBit words position || decide (position + 1 = bitLen) := by
  obtain ⟨perMicro, hper⟩ := hfrequency
  rw [Nat.mul_comm] at hper
  -- `mfm_to_flux` has looked at the length
  have hfits : 1 ≤ bitLen ∧ bitLen ≤ words.length * 16 ∧ bitLen ≤ MAX_TRACK_BITS := by
    unfold Greaseweazle.fluxStream mfmToFlux at hstream
    dsimp only at hstream
    split at hstream
    · cases hstream
    · split at hstream
      · cases hstream
      · omega
  obtain ⟨hpos, hwords, hmax⟩ := hfits
  rw [Greaseweazle.fluxStream_eq hper hlimit hpos hwords hmax] at hstream
  obtain rfl := Except.ok.inj hstream
  refine ⟨_, Greaseweazle.decodeAtDensity_fluxStream hper hlimit hmax, ?_⟩
  rw [PllDecoder.run_centred _ (fun _ hd => trackGaps_bounds hmax hd), cellsOf_trackGaps]

/--
**A Greaseweazle write.** When `write_track` succeeds, the interface was told to write, was sent a
stream of flux that the first zero ends, and was asked how that went, and has accepted each; at the
clocks the firmware has, what stands in front of the zero is decoded to the cells of the track, but
for a transition in the last cell.
-/
theorem writeTrack_transcript (self next : GreaseweazleHost) (words : List (BitVec 16))
    (bitLen : Nat) (fromIndex : Bool) (density : DensityMode) (h h' : History wireSig)
    (hwalk : Walk (.any wireSig) (.ret next (.ok ())) h'
      (writeTrack words bitLen fromIndex density self) h) :
    let device := self.atDensity density
    ∃ stream ended, passages h' = writePassages device stream ended fromIndex ++ passages h ∧
      device.toGreaseweazle.fluxStream words bitLen = .ok stream ∧ 0 ∉ stream ∧
      (1000000 ∣ device.sampleFrequency → device.sampleFrequency ≤ 500000000 →
        ∃ events, device.toGreaseweazle.decodeAtDensity stream
            device.toGreaseweazle.density = .ok (device.toGreaseweazle, events) ∧
          (PllDecoder.new.run events).2 = (List.range bitLen).map fun position =>
            wordBit words position || decide (position + 1 = bitLen)) := by
  intro device
  have hwrite : Adds (writeTrack words bitLen fromIndex density) self fun _ _ new =>
      ∃ stream ended, device.toGreaseweazle.fluxStream words bitLen = .ok stream ∧
        new = writePassages device stream ended fromIndex := by
    refine (adds_modify (P := fun _ next new => next = device ∧ new = []) ⟨rfl, rfl⟩).bind ?_
    rintro _ _ _ ⟨rfl, rfl⟩
    refine (adds_writeStream words bitLen fromIndex).mono fun _ _ new hnew => ?_
    rwa [List.append_nil]
  obtain ⟨new, hnew, stream, ended, hstream, rfl⟩ := hwrite.of_walk hwalk
  exact ⟨stream, ended, hnew, hstream, zero_not_mem_fluxStream hstream,
    fun hfrequency hlimit => decoded_of_fluxStream hfrequency hlimit hstream⟩

/-- Four cells, written by a drive that was opened. -/
def writtenDrive : Prog wireSig GreaseweazleHost (Except Error Unit) × History wireSig :=
  (writeTrack [0x9000] 4 false .double openedDrive.1.priv).runWith
    (answering (openingReplies ++ [12, 0, 8, 0, 0, 9, 0]) []) openedDrive.2

theorem writeTrack_transcript_oneWord : ∃ stream ended, passages writtenDrive.2 =
    writePassages (openedDrive.1.priv.atDensity .double) stream ended false ++
      passages openedDrive.2 ∧ 0 ∉ stream := by
  have hresult : writtenDrive.1.result? = some (.ok ()) := by decide +kernel
  have hwalk : Walk (.any wireSig) writtenDrive.1 writtenDrive.2
      (writeTrack [0x9000] 4 false .double openedDrive.1.priv) openedDrive.2 :=
    Prog.walk_runWith (fun _ _ _ _ => trivial) _ _
  rw [Prog.eq_ret hresult] at hwalk
  obtain ⟨stream, ended, hpassages, -, hzero, -⟩ := writeTrack_transcript _ _ _ _ _ _ _ _ hwalk
  exact ⟨stream, ended, hpassages, hzero⟩

end GreaseweazleHost

/-! ## SuperCard Pro -/

namespace SuperCardPro

variable {self : SuperCardPro}

/-- The packet of a command, with its checksum. -/
def packetOf (command : Command) (payload : List Byte) : List Byte :=
  let bytes := command.code :: BitVec.ofNat 8 payload.length :: payload
  bytes ++ [bytes.foldl (fun sum value => sum + value) 0x4a]

/-- A command that was answered. -/
def answered (command : Command) (payload : List Byte) (response : Byte) : Passage :=
  ⟨packetOf command payload, [command.code, response]⟩

/-- What selecting the drive takes. -/
def selecting (self : SuperCardPro) : List Passage :=
  if self.selected then []
  else [answered (if self.driveA then .selectA else .selectB) [] RESPONSE_OK]

theorem packet_of_ok {command : Command} {payload bytes : List Byte}
    (h : packet command payload = .ok bytes) : bytes = packetOf command payload := by
  unfold packet at h
  split at h
  · cases h
    rfl
  · cases h

theorem response_of_mapResponse {response : Byte} {a : Unit} (h : mapResponse response = .ok a) :
    response = RESPONSE_OK := by
  unfold mapResponse at h
  repeat' split at h
  all_goals first | assumption | cases h

theorem adds_rawCommand (command : Command) (payload : List Byte) :
    Adds (rawCommand command payload) self fun response next new => next = self ∧
      new = [answered command payload response] := by
  refine (adds_ofExcept (P := fun bytes next new => next = self ∧ new = [] ∧
    bytes = packetOf command payload) fun bytes hbytes => ⟨rfl, rfl, packet_of_ok hbytes⟩).bind ?_
  rintro _ self _ ⟨rfl, rfl, rfl⟩
  refine adds_deadline fun deadline => Speaks.close ?_
  refine (speaks_writeAllUntil fun left => ⟨rfl, rfl⟩ : Speaks _ _ _ fun _ next passage =>
    next = self ∧ passage = Passage.empty.send (packetOf command payload)).bind ?_
  rintro left self _ ⟨rfl, rfl⟩
  refine (speaks_readExactUntil fun bytes left hlength => ⟨rfl, hlength, rfl⟩ :
    Speaks _ _ _ fun (read : List Byte × Nat) next passage => next = self ∧ read.1.length = 2 ∧
      passage = ⟨packetOf command payload, read.1⟩).bind ?_
  rintro ⟨response, left⟩ self _ ⟨rfl, hlength, rfl⟩
  dsimp only
  split
  · exact speaks_fail _
  · next hcode =>
    refine speaks_pure ⟨rfl, congrArg (· :: []) ?_⟩
    exact congrArg (Passage.mk _) (eq_pair hlength (not_not.mp hcode))

theorem adds_expectOk (code : Command) (payload : List Byte) :
    Adds (expectOk code payload) self fun _ next new => next = self ∧
      new = [answered code payload RESPONSE_OK] := by
  have hcommand : Adds (command code payload 0) self fun _ next new => next = self ∧
      new = [answered code payload RESPONSE_OK] := by
    refine (adds_rawCommand code payload).bind ?_
    rintro response self _ ⟨rfl, rfl⟩
    refine (adds_ofExcept (P := fun _ next new => next = self ∧ new = [] ∧
      response = RESPONSE_OK) fun _ ha => ⟨rfl, rfl, response_of_mapResponse ha⟩).bind ?_
    rintro _ self _ ⟨rfl, rfl, rfl⟩
    exact adds_pure ⟨rfl, rfl⟩
  refine hcommand.bind ?_
  rintro _ self _ ⟨rfl, rfl⟩
  exact adds_pure ⟨rfl, rfl⟩

theorem adds_selectTrue : Adds (select true) self fun _ next new =>
    next = { self with selected := true } ∧ new = selecting self := by
  refine (adds_self (P := fun host next new => host = self ∧ next = self ∧ new = [])
    ⟨rfl, rfl, rfl⟩).bind ?_
  rintro _ self _ ⟨rfl, rfl, rfl⟩
  show Adds (if true = self.selected then _ else _) _ _
  unfold selecting
  by_cases hselected : self.selected = true
  · rw [if_pos hselected, if_pos hselected.symm]
    refine adds_pure ⟨?_, rfl⟩
    rw [← hselected]
  · rw [if_neg hselected, if_neg fun hsame => hselected hsame.symm]
    refine Adds.bind (adds_expectOk (if self.driveA then .selectA else .selectB) []) ?_
    rintro _ self _ ⟨rfl, rfl⟩
    exact adds_modify ⟨rfl, rfl⟩

theorem counters_le (ticks : Nat) : ∀ count ∈ counters ticks, count ≤ U16_MAX := by
  induction ticks using counters.induct with
  | case1 ticks hmore ih =>
    intro count hcount
    rw [counters, if_pos hmore] at hcount
    rcases List.mem_cons.mp hcount with rfl | hmem
    · exact Nat.zero_le _
    · exact ih count hmem
  | case2 ticks hless =>
    intro count hcount
    rw [counters, if_neg hless, List.mem_singleton] at hcount
    omega

/-- No counter is too large for its field. -/
theorem counts_le {highDensity : Bool} {words : List (BitVec 16)} {bitLen : Nat}
    {counts : List Nat} (h : fluxCounters highDensity words bitLen = .ok counts) :
    ∀ count ∈ counts, count ≤ U16_MAX := by
  unfold fluxCounters at h
  cases htimings : mfmToFlux words bitLen (cellNanoseconds highDensity) with
  | error e =>
    rw [htimings] at h
    cases h
  | ok timings =>
    rw [htimings] at h
    cases h
    intro count hcount
    obtain ⟨nanoseconds, -, hmem⟩ := List.mem_flatMap.mp hcount
    exact counters_le _ count hmem

/-- A whole write, the last passage first. -/
def writePassages (self : SuperCardPro) (counts : List Nat) (fromIndex : Bool) : List Passage :=
  answered .writeFlux (be32 counts.length ++ [if fromIndex then 1 else 0]) RESPONSE_OK ::
    (selecting self ++
      [⟨packetOf .loadRamUsb (be32 0 ++ be32 (2 * counts.length)) ++ counts.flatMap be16,
        [Command.loadRamUsb.code, RESPONSE_OK]⟩])

theorem length_flatMap_be16 (counts : List Nat) :
    (counts.flatMap be16).length = 2 * counts.length := by
  induction counts with
  | nil => rfl
  | cons count counts ih =>
    rw [List.flatMap_cons, List.length_append, ih, List.length_cons]
    show 2 + _ = _
    omega

/-- The length of the data fits its field, and so does the number of counters. -/
theorem room_of_ramLength {counts : List Nat} {bitLen : Nat} {length : List Byte}
    (h : ramLength (counts.flatMap be16).length bitLen = .ok length) :
    2 * counts.length < U32_RANGE ∧ length = be32 (2 * counts.length) := by
  unfold ramLength at h
  rw [length_flatMap_be16] at h
  split at h
  · next hroom =>
    cases h
    exact ⟨hroom, rfl⟩
  · cases h

theorem adds_writeStream (words : List (BitVec 16)) (bitLen : Nat) (fromIndex : Bool) :
    Adds (writeStream words bitLen fromIndex) self fun _ _ new => ∃ counts,
      fluxCounters self.highDensity words bitLen = .ok counts ∧ 2 * counts.length < U32_RANGE ∧
        new = writePassages self counts fromIndex := by
  refine (adds_self (P := fun host next new => host = self ∧ next = self ∧ new = [])
    ⟨rfl, rfl, rfl⟩).bind ?_
  rintro _ self _ ⟨rfl, rfl, rfl⟩
  refine (adds_ofExcept (P := fun counts next new => next = self ∧ new = [] ∧
    fluxCounters self.highDensity words bitLen = .ok counts) fun counts hcounts =>
    ⟨rfl, rfl, hcounts⟩).bind ?_
  rintro counts self _ ⟨rfl, rfl, hcounts⟩
  refine (adds_ofExcept (P := fun length next new => next = self ∧ new = [] ∧
    2 * counts.length < U32_RANGE ∧ length = be32 (2 * counts.length)) fun length hlength =>
    ⟨rfl, rfl, room_of_ramLength hlength⟩).bind ?_
  rintro _ self _ ⟨rfl, rfl, hroom, rfl⟩
  refine (adds_ofExcept (P := fun bytes next new => next = self ∧ new = [] ∧
    bytes = packetOf .loadRamUsb (be32 0 ++ be32 (2 * counts.length))) fun bytes hbytes =>
    ⟨rfl, rfl, packet_of_ok hbytes⟩).bind ?_
  rintro _ self _ ⟨rfl, rfl, rfl⟩
  have hentries : saturateU32 counts.length = counts.length := by
    unfold saturateU32
    omega
  rw [hentries]
  refine adds_deadline fun deadline => ?_
  refine (speaks_writeAllUntil fun left => ⟨rfl, rfl⟩ : Speaks _ _ _ fun _ next passage =>
    next = self ∧ passage = Passage.empty.send _).ends ?_
  rintro left self _ ⟨rfl, rfl⟩
  refine (speaks_writeAllUntil fun left => ⟨rfl, rfl⟩ : Speaks _ _ _ fun _ next passage =>
    next = self ∧ passage = Passage.send _ (counts.flatMap be16)).ends ?_
  rintro left self _ ⟨rfl, rfl⟩
  refine (speaks_readExactUntil fun bytes left hlength => ⟨rfl, rfl⟩ :
    Speaks _ _ _ fun (read : List Byte × Nat) next passage => next = self ∧
      passage = Passage.hear _ read.1).ends ?_
  rintro ⟨response, left⟩ self _ ⟨rfl, rfl⟩
  dsimp only
  split
  · exact (adds_fail _).ends
  · next hresponse =>
    obtain rfl := not_not.mp hresponse
    refine Adds.ends (adds_selectTrue.bind ?_)
    rintro _ _ _ ⟨rfl, rfl⟩
    refine (adds_rawCommand .writeFlux _).bind ?_
    rintro response _ _ ⟨rfl, rfl⟩
    refine Adds.mono (P := fun _ _ new => response = RESPONSE_OK ∧ new = []) ?_ ?_
    · split
      · next hok => exact adds_pure ⟨hok, rfl⟩
      · split
        · exact (adds_modify (P := fun _ _ _ => True) trivial).bind fun _ _ _ _ => adds_fail _
        · exact adds_ofExcept fun _ ha => ⟨response_of_mapResponse ha, rfl⟩
    · rintro _ _ _ ⟨rfl, rfl⟩
      refine ⟨counts, hcounts, hroom, ?_⟩
      simp only [List.nil_append, List.append_nil, List.singleton_append]
      rfl

/--
**A SuperCard Pro write.** When `write_stream` succeeds, the interface has taken the counters of the
track into its RAM and has accepted a write of as many; what the load announces is what was sent,
and every counter and both numbers fit their fields.
-/
theorem writeStream_loaded (self next : SuperCardPro) (words : List (BitVec 16))
    (bitLen : Nat) (fromIndex : Bool) (h h' : History wireSig)
    (hwalk : Walk (.any wireSig) (.ret next (.ok ())) h'
      (writeStream words bitLen fromIndex self) h) :
    ∃ counts, passages h' = writePassages self counts fromIndex ++ passages h ∧
      fluxCounters self.highDensity words bitLen = .ok counts ∧ 2 * counts.length < U32_RANGE ∧
        ∀ count ∈ counts, count ≤ U16_MAX := by
  obtain ⟨new, hnew, counts, hcounts, hroom, rfl⟩ :=
    (adds_writeStream words bitLen fromIndex).of_walk hwalk
  exact ⟨counts, hnew, hcounts, hroom, counts_le hcounts⟩

/-- A double density drive that is not selected. -/
def idleDrive : SuperCardPro := ⟨DriveStatus.initial, true, false, false⟩

/-- Four cells, written by it. -/
def writtenDrive : Prog wireSig SuperCardPro (Except Error Unit) × History wireSig :=
  (writeStream [0x9000] 4 false idleDrive).runWith
    (answering [0xaa, 0x4f, 0x80, 0x4f, 0xa2, 0x4f] []) []

theorem writeStream_loaded_oneWord : ∃ counts, passages writtenDrive.2 =
    writePassages idleDrive counts false ++ [] ∧ 2 * counts.length < U32_RANGE := by
  have hresult : writtenDrive.1.result? = some (.ok ()) := by decide +kernel
  have hwalk : Walk (.any wireSig) writtenDrive.1 writtenDrive.2
      (writeStream [0x9000] 4 false idleDrive) [] :=
    Prog.walk_runWith (fun _ _ _ _ => trivial) _ _
  rw [Prog.eq_ret hresult] at hwalk
  obtain ⟨counts, hpassages, -, hroom, -⟩ := writeStream_loaded _ _ _ _ _ _ _ hwalk
  exact ⟨counts, hpassages, hroom⟩

end SuperCardPro

/-! ## DrawBridge -/

namespace DrawBridge

variable {self : DrawBridge}

theorem adds_send (bytes : List Byte) (operation : String) :
    Adds (send bytes operation) self fun _ next new => next = self ∧ new = [⟨bytes, []⟩] := by
  refine adds_deadline fun deadline => Speaks.close ?_
  refine (speaks_writeAllUntil fun left => ⟨rfl, rfl⟩ : Speaks _ _ _ fun _ next passage =>
    next = self ∧ passage = Passage.empty.send bytes).bind ?_
  rintro left self _ ⟨rfl, rfl⟩
  exact speaks_pure ⟨rfl, rfl⟩

theorem speaks_readByteUntil (deadline : Nat) (operation : String) (passage : Passage) :
    Speaks (readByteUntil deadline operation) self passage fun read next passage' =>
      next = self ∧ passage' = passage.hear [read.1] := by
  refine (speaks_readExactUntil fun bytes left hlength => ⟨rfl, hlength, rfl⟩ :
    Speaks _ _ _ fun (read : List Byte × Nat) next passage' => next = self ∧ read.1.length = 1 ∧
      passage' = passage.hear read.1).bind ?_
  rintro ⟨bytes, left⟩ self _ ⟨rfl, hlength, rfl⟩
  obtain ⟨byte, rfl⟩ := List.length_eq_one_iff.mp hlength
  exact speaks_pure ⟨rfl, rfl⟩

theorem adds_readByte (operation : String) :
    Adds (readByte operation) self fun byte next new => next = self ∧ new = [⟨[], [byte]⟩] := by
  refine adds_deadline fun deadline => Speaks.close ?_
  refine (speaks_readByteUntil deadline operation .empty).bind ?_
  rintro ⟨byte, left⟩ self _ ⟨rfl, rfl⟩
  exact speaks_pure ⟨rfl, rfl⟩

/-- What a command that was accepted takes. -/
def accepting (command : Byte) : List Passage := [⟨[], [ascii '1']⟩, ⟨[command], []⟩]

theorem adds_expectCommand (command : Byte) : Adds (expectCommand command) self
    fun _ next new => next = self ∧ new = accepting command := by
  refine (adds_send [command] "DrawBridge command").bind ?_
  rintro _ self _ ⟨rfl, rfl⟩
  refine (adds_readByte "DrawBridge command response").bind ?_
  rintro response self _ ⟨rfl, rfl⟩
  split
  · next haccepted =>
    rw [haccepted]
    exact adds_wire (fun _ _ => rfl) fun _ => ⟨rfl, rfl⟩
  · split
    · exact adds_fail _
    · exact adds_fail _

/-- What announces the length of the data: nothing at high density. -/
def announcing (highDensity : Bool) (length : Nat) : List Passage :=
  if highDensity then []
  else [⟨[BitVec.ofNat 8 (length / 256), BitVec.ofNat 8 (length % 256)], []⟩]

theorem adds_sendLength (length bitLen : Nat) : Adds (sendLength length bitLen) self
    fun _ next new => next = self ∧ new = announcing self.highDensity length ∧
      (self.highDensity = false → length < 2 ^ 16) := by
  refine (adds_self (P := fun host next new => host = self ∧ next = self ∧ new = [])
    ⟨rfl, rfl, rfl⟩).bind ?_
  rintro _ self _ ⟨rfl, rfl, rfl⟩
  unfold announcing
  split
  · next hhigh => exact adds_pure ⟨rfl, rfl, fun hdouble => absurd hhigh (by rw [hdouble]; decide)⟩
  · refine (adds_ofExcept (P := fun bytes next new => next = self ∧ new = [] ∧
      length < 2 ^ 16 ∧ bytes = [BitVec.ofNat 8 (length / 256), BitVec.ofNat 8 (length % 256)])
      fun bytes hbytes => ⟨rfl, rfl, ?_⟩).bind ?_
    · unfold lengthBytes at hbytes
      split at hbytes
      · next hroom =>
        cases hbytes
        exact ⟨hroom, rfl⟩
      · cases hbytes
    rintro _ self _ ⟨rfl, rfl, hroom, rfl⟩
    refine (adds_send _ "DrawBridge write length").mono ?_
    rintro _ self _ ⟨rfl, rfl⟩
    exact ⟨rfl, rfl, fun _ => hroom⟩

theorem response_of_writeResult {response : Byte} {a : Unit} (h : writeResult response = .ok a) :
    response = ascii '1' := by
  unfold writeResult at h
  repeat' split at h
  all_goals first | assumption | cases h

/-- What follows the permission, the last passage first. -/
def trackPassages (highDensity : Bool) (encoded : List Byte) (fromIndex : Bool) : List Passage :=
  [⟨[], [ascii '1']⟩, ⟨encoded, []⟩, ⟨[], [ascii '!']⟩, ⟨[if fromIndex then 1 else 0], []⟩] ++
    announcing highDensity encoded.length

theorem adds_sendTrack (encoded : List Byte) (bitLen : Nat) (fromIndex : Bool) :
    Adds (sendTrack encoded bitLen fromIndex) self fun _ _ new =>
      new = trackPassages self.highDensity encoded fromIndex ∧
        (self.highDensity = false → encoded.length < 2 ^ 16) := by
  refine (adds_sendLength encoded.length bitLen).bind ?_
  rintro _ self _ ⟨rfl, rfl, hroom⟩
  refine (adds_send _ "DrawBridge write alignment").bind ?_
  rintro _ self _ ⟨rfl, rfl⟩
  refine (adds_readByte "DrawBridge write ready").bind ?_
  rintro ready self _ ⟨rfl, rfl⟩
  split
  · exact adds_fail _
  · next hready =>
    obtain rfl := not_not.mp hready
    refine adds_deadline fun deadline => ?_
    refine (speaks_writeAllUntil fun left => ⟨rfl, rfl⟩ : Speaks _ _ _ fun _ next passage =>
      next = self ∧ passage = Passage.empty.send encoded).ends ?_
    rintro left self _ ⟨rfl, rfl⟩
    refine Adds.ends (adds_deadline fun deadline => ?_)
    refine (speaks_readByteUntil deadline "DrawBridge write completion" .empty).ends ?_
    rintro ⟨response, left⟩ self _ ⟨rfl, rfl⟩
    refine Adds.ends (adds_ofExcept fun _ ha => ?_)
    rw [response_of_writeResult ha]
    exact ⟨rfl, hroom⟩

/-- A whole write, the last passage first. -/
def writePassages (self : DrawBridge) (encoded : List Byte) (fromIndex : Bool) : List Passage :=
  trackPassages self.highDensity encoded fromIndex ++ ⟨[], [ascii 'Y']⟩ ::
    accepting (if self.highDensity then WRITE_HD else WRITE_DD)

/-- The codes of the track, at the density of the device. -/
def encode (self : DrawBridge) (words : List (BitVec 16)) (bitLen : Nat) :
    Except Error (List Byte) :=
  if self.highDensity then encodeHd words bitLen
  else encodeDd words bitLen (40 ≤ self.status.cylinder)

theorem adds_writeStream (words : List (BitVec 16)) (bitLen : Nat) (fromIndex : Bool) :
    Adds (writeStream words bitLen fromIndex) self fun _ _ new => ∃ encoded,
      self.encode words bitLen = .ok encoded ∧
        (self.highDensity = false → encoded.length < 2 ^ 16) ∧
        new = writePassages self encoded fromIndex := by
  refine (adds_self (P := fun host next new => host = self ∧ next = self ∧ new = [])
    ⟨rfl, rfl, rfl⟩).bind ?_
  rintro _ self _ ⟨rfl, rfl, rfl⟩
  refine (adds_ofExcept (P := fun encoded next new => next = self ∧ new = [] ∧
    self.encode words bitLen = .ok encoded) fun encoded hencoded =>
    ⟨rfl, rfl, hencoded⟩).bind ?_
  rintro encoded self _ ⟨rfl, rfl, hencoded⟩
  refine (adds_expectCommand _).bind ?_
  rintro _ self _ ⟨rfl, rfl⟩
  refine (adds_readByte "DrawBridge write permission").bind ?_
  rintro permission self _ ⟨rfl, rfl⟩
  split
  · exact (adds_modify (P := fun _ _ _ => True) trivial).bind fun _ _ _ _ => adds_fail _
  · split
    · exact adds_fail _
    · next hpermission =>
      obtain rfl := not_not.mp hpermission
      refine (adds_sendTrack encoded bitLen fromIndex).mono ?_
      rintro _ _ _ ⟨rfl, hroom⟩
      refine ⟨encoded, hencoded, hroom, ?_⟩
      simp only [List.append_nil, List.append_assoc]
      rfl

/-- What is encoded has cells, and words for all of them. -/
theorem fits_of_encode {words : List (BitVec 16)} {bitLen : Nat} {encoded : List Byte}
    (h : self.encode words bitLen = .ok encoded) : 1 ≤ bitLen ∧ bitLen ≤ words.length * 16 := by
  have hcounts : ∀ limit, ¬ (1 ≤ bitLen ∧ bitLen ≤ words.length * 16) →
      ∃ e, transitionCounts words bitLen limit = .error e := by
    intro limit hmisfit
    unfold transitionCounts
    rw [if_pos (by omega)]
    exact ⟨_, rfl⟩
  by_contra hmisfit
  unfold encode encodeHd encodeDd at h
  split at h
  · obtain ⟨e, he⟩ := hcounts 4 hmisfit
    rw [he] at h
    cases h
  · obtain ⟨e, he⟩ := hcounts 5 hmisfit
    rw [he] at h
    cases h

/-- The codes say where the transitions of the track are, where its distances can be coded. -/
def Tells (self : DrawBridge) (words : List (BitVec 16)) (bitLen : Nat) (encoded : List Byte) :
    Prop :=
  if self.highDensity then
    Legal words bitLen 4 → ∃ front zeros, encoded = front ++ [0] ∧ (∀ byte ∈ front, byte ≠ 0) ∧
      hdCodes encoded = (writtenGaps words bitLen 4).map (· - 1) ++ List.replicate zeros 0
  else
    Legal words bitLen 5 →
      ddCodes encoded = (2 :: (writtenGaps words bitLen 5).dropLast).map (· - 2) ++
        (if (writtenGaps words bitLen 5).length % 2 = 1 then [0] else [])

theorem tells_of_encode {words : List (BitVec 16)} {bitLen : Nat} {encoded : List Byte}
    (h : self.encode words bitLen = .ok encoded) : self.Tells words bitLen encoded := by
  obtain ⟨hpos, hfits⟩ := fits_of_encode h
  unfold encode at h
  unfold Tells
  split
  · next hhigh =>
    rw [if_pos hhigh] at h
    intro hlegal
    obtain ⟨front, zeros, hencoded, hnonzero, hcodes⟩ := encodeHd_lossless hpos hfits hlegal
    obtain rfl := Except.ok.inj (hencoded.symm.trans h)
    exact ⟨front, zeros, rfl, hnonzero, hcodes⟩
  · next hdouble =>
    rw [if_neg hdouble] at h
    intro hlegal
    obtain ⟨bytes, hencoded, hcodes⟩ := encodeDd_lossless hpos hfits hlegal _
    obtain rfl := Except.ok.inj (hencoded.symm.trans h)
    exact hcodes

/--
**A DrawBridge write.** When `write_stream` succeeds, the interface has accepted the command for the
density of the device, permitted the write, taken the alignment and at double density the length of
the data, said that it is ready, taken exactly the codes of the track, and said that they are
written. The codes tell the transitions of the track, where its distances can be coded.
-/
theorem writeStream_coded (self next : DrawBridge) (words : List (BitVec 16))
    (bitLen : Nat) (fromIndex : Bool) (h h' : History wireSig)
    (hwalk : Walk (.any wireSig) (.ret next (.ok ())) h'
      (writeStream words bitLen fromIndex self) h) :
    ∃ encoded, passages h' = writePassages self encoded fromIndex ++ passages h ∧
      self.encode words bitLen = .ok encoded ∧ self.Tells words bitLen encoded ∧
      (self.highDensity = false → encoded.length < 2 ^ 16) := by
  obtain ⟨new, hnew, encoded, hencoded, hroom, rfl⟩ :=
    (adds_writeStream words bitLen fromIndex).of_walk hwalk
  exact ⟨encoded, hnew, hencoded, tells_of_encode hencoded, hroom⟩

/-- A double density write of one word. -/
def writtenWord : Prog wireSig DrawBridge (Except Error Unit) × History wireSig :=
  (writeStream [0x4488] 15 true unopened).runWith
    (answering [ascii '1', ascii 'Y', ascii '!', ascii '1'] []) []

theorem writeStream_coded_oneWord : ∃ encoded, passages writtenWord.2 =
    writePassages unopened encoded true ++ [] ∧ unopened.Tells [0x4488] 15 encoded := by
  have hresult : writtenWord.1.result? = some (.ok ()) := by decide +kernel
  have hwalk : Walk (.any wireSig) writtenWord.1 writtenWord.2
      (writeStream [0x4488] 15 true unopened) [] :=
    Prog.walk_runWith (fun _ _ _ _ => trivial) _ _
  rw [Prog.eq_ret hresult] at hwalk
  obtain ⟨encoded, hpassages, -, htells, -⟩ := writeStream_coded _ _ _ _ _ _ _ hwalk
  exact ⟨encoded, hpassages, htells⟩

end DrawBridge

end FluxBridge
