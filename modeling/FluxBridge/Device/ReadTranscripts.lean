import FluxBridge.Device.WriteTranscripts
import FluxBridge.Device.GrowingCapture

/-!
# What was heard when a Greaseweazle is read

A read is attempted up to three times: the interface says behind the stream whether its buffer
overflowed. Whatever it replies, a read that returns `Ok` has heard the attempts one after the other
and nothing else, and its capture is made of the last one alone.

* `readTrack_indexed` — a read from index to index
* `readTrack_immediate` — an immediate read, which publishes what it has while it goes on
* `readTrack_transcript` — what was heard, and what became of it
-/

namespace FluxBridge

open Atomic

namespace GreaseweazleHost

variable {self : GreaseweazleHost}

/-! ## Attempts -/

/-- One attempt, the last passage first: the command, the stream, and the flux status. -/
def attempted (header heard : List Byte) (status : Byte) : List Passage :=
  [answered .getFluxStatus [] status, ⟨[], heard⟩, answered .readFlux header ACK_OK]

/-- The attempts of a read: the ones that overflowed, and then the one that did not. -/
def attemptsOf (header heard : List Byte) (overflowed : List (List Byte)) : List Passage :=
  attempted header heard ACK_OK ++
    overflowed.flatMap fun heard => attempted header heard ACK_FLUX_OVERFLOW

/-- What letting go of an idle drive takes. -/
def releasing (self : GreaseweazleHost) : List Passage :=
  if self.status.motorRunning then [] else [answered .deselect [] ACK_OK]

/-- A property of the device that says nothing of the state of the disk. -/
def Blind (J : GreaseweazleHost → Prop) : Prop :=
  ∀ l status, J l → status.motorRunning = l.status.motorRunning → J { l with status := status }

section Attempts

variable {α : Type} {J : GreaseweazleHost → Prop} {Read : Greaseweazle → α → List Byte → Prop}
  {header : List Byte} {drain : Host GreaseweazleHost α} {stale : Host GreaseweazleHost Unit}

/-- What a drain has to say of the stream it has heard. -/
def Drains (J : GreaseweazleHost → Prop) (Read : Greaseweazle → α → List Byte → Prop)
    (drain : Host GreaseweazleHost α) : Prop :=
  ∀ self, J self → Adds drain self fun result next new => J next ∧
    ∃ heard, new = [⟨[], heard⟩] ∧ Read next.toGreaseweazle result heard

/-- What an outcome says of the status, and of the device. -/
def Outcome (J : GreaseweazleHost → Prop) (self : GreaseweazleHost) (result : α) (status : Byte)
    (outcome : Option α) (next : GreaseweazleHost) : Prop :=
  J next ∧ next.toGreaseweazle = self.toGreaseweazle ∧ match outcome with
    | some result' => result' = result ∧ status = ACK_OK
    | none => status = ACK_FLUX_OVERFLOW

theorem adds_settleAttempt (hblind : Blind J) (hJ : J self) (result : α) {last : Bool}
    {status : Byte} (hstale : ∀ self, Adds stale self fun _ next new => next = self ∧ new = []) :
    Adds (settleAttempt result stale last status) self fun outcome next new =>
      new = [] ∧ Outcome J self result status outcome next := by
  unfold settleAttempt
  split
  · next hok =>
    refine (adds_modify (P := fun _ next new => new = [] ∧ J next ∧
      next.toGreaseweazle = self.toGreaseweazle)
      ⟨rfl, hblind self { self.status with diskPresent := true, ready := true } hJ rfl,
        rfl⟩).bind ?_
    rintro _ next _ ⟨rfl, hnext, hflux⟩
    exact adds_pure ⟨rfl, hnext, hflux, rfl, hok⟩
  split
  · exact (adds_modify (P := fun _ _ _ => True) trivial).bind fun _ _ _ _ => adds_fail _
  split
  · next hoverflow =>
    split
    · exact adds_fail _
    · refine (adds_purge (P := fun _ next new => next = self ∧ new = []) ⟨rfl, rfl⟩).bind ?_
      rintro _ self _ ⟨rfl, rfl⟩
      refine (hstale self).bind ?_
      rintro _ self _ ⟨rfl, rfl⟩
      exact adds_pure ⟨rfl, hJ, rfl, hoverflow⟩
  · next hok _ _ =>
    refine adds_ofExcept fun outcome houtcome => ?_
    cases hack : mapAck .getFluxStatus status with
    | error e =>
      rw [hack] at houtcome
      cases houtcome
    | ok a => exact absurd (ack_of_mapAck hack) hok

/-- What one attempt comes to: a result that the interface has confirmed, or none. -/
def Attempted (Read : Greaseweazle → α → List Byte → Prop) (header heard : List Byte)
    (next : GreaseweazleHost) (new : List Passage) : Option α → Prop
  | some result => new = attempted header heard ACK_OK ∧ Read next.toGreaseweazle result heard
  | none => new = attempted header heard ACK_FLUX_OVERFLOW

theorem adds_attemptRead (hblind : Blind J) (hdrain : Drains J Read drain)
    (hstale : ∀ self, Adds stale self fun _ next new => next = self ∧ new = []) (hJ : J self)
    (last : Bool) : Adds (attemptRead header drain stale last) self fun outcome next new => J next ∧
      ∃ heard, Attempted Read header heard next new outcome := by
  refine (adds_expectOk .readFlux header).bind ?_
  rintro _ self _ ⟨rfl, rfl⟩
  refine (hdrain self hJ).bind ?_
  rintro result self _ ⟨hJ, heard, rfl, hread⟩
  refine (adds_rawCommandAck .getFluxStatus []).bind ?_
  rintro status self _ ⟨rfl, rfl⟩
  refine (adds_settleAttempt hblind hJ result hstale).mono ?_
  rintro outcome next _ ⟨rfl, hnext, hflux, houtcome⟩
  refine ⟨hnext, heard, ?_⟩
  cases outcome with
  | some result' =>
    obtain ⟨rfl, rfl⟩ := houtcome
    exact ⟨rfl, hflux ▸ hread⟩
  | none =>
    rw [show status = ACK_FLUX_OVERFLOW from houtcome]
    rfl

/-- The attempts, of which all but the last one have overflowed. -/
theorem adds_attempts (hblind : Blind J) (hdrain : Drains J Read drain)
    (hstale : ∀ self, Adds stale self fun _ next new => next = self ∧ new = []) (again : Nat)
    (hJ : J self) : Adds (attempts header drain stale again) self fun result next new => J next ∧
      ∃ heard overflowed, overflowed.length ≤ again ∧
        new = attemptsOf header heard overflowed ∧ Read next.toGreaseweazle result heard := by
  have hdone : ∀ {outcome : Option α} {result : α} {next : GreaseweazleHost}
      {new : List Passage} {again : Nat}, outcome = some result → J next →
      (∃ heard, Attempted Read header heard next new outcome) →
      J next ∧ ∃ heard overflowed, overflowed.length ≤ again ∧
        [] ++ new = attemptsOf header heard overflowed ∧ Read next.toGreaseweazle result heard := by
    rintro _ result next new again rfl hnext ⟨heard, rfl, hread⟩
    exact ⟨hnext, heard, [], Nat.zero_le _, (List.append_nil _).symm, hread⟩
  induction again generalizing self with
  | zero =>
    refine (adds_attemptRead hblind hdrain hstale hJ true).bind ?_
    rintro outcome next new ⟨hnext, hattempt⟩
    exact adds_orPanic fun result hresult => hdone hresult hnext hattempt
  | succ again ih =>
    refine (adds_attemptRead hblind hdrain hstale hJ false).bind ?_
    rintro outcome next new ⟨hnext, hattempt⟩
    cases outcome with
    | some result => exact adds_pure (hdone rfl hnext hattempt)
    | none =>
      obtain ⟨lost, rfl⟩ := hattempt
      refine (ih hnext).mono ?_
      rintro result last _ ⟨hlast, heard, overflowed, hcount, rfl, hread⟩
      refine ⟨hlast, heard, overflowed ++ [lost], ?_, ?_, hread⟩
      · rw [List.length_append]
        exact Nat.succ_le_succ hcount
      · unfold attemptsOf
        rw [List.flatMap_append, List.append_assoc, List.flatMap_singleton]

end Attempts

/-! ## From index to index -/

/-- The drive is selected, its motor and its clock are as they were. -/
structure Ready (host next : GreaseweazleHost) : Prop where
  selected : next.selected = true
  motor : next.status.motorRunning = host.status.motorRunning
  clock : next.sampleFrequency = host.sampleFrequency

theorem blind_ready : Blind (Ready self) :=
  fun _ _ hready hmotor => ⟨hready.selected, hmotor.trans hready.motor, hready.clock⟩

theorem ready_selected : Ready self { self with selected := true } := ⟨rfl, rfl, rfl⟩

/-- A stream, as it was heard. -/
def Whole (stream heard : List Byte) : Prop :=
  0 ∉ stream ∧ stream.length < MAX_STREAM_BYTES ∧ ∃ tail, heard = stream ++ 0 :: tail

theorem adds_drainWhole : Adds drainWhole self fun stream next new => next = self ∧
    ∃ heard, new = [⟨[], heard⟩] ∧ Whole stream heard := by
  refine adds_deadline fun deadline => Speaks.close ?_
  refine (speaks_readTerminatedUntil deadline [] .empty).bind ?_
  rintro stream self passage ⟨rfl, rest, tail, rfl, hzero, hend⟩
  split
  · exact speaks_fail _
  · next hroom =>
    have hroom := Nat.not_le.mp hroom
    rcases hend with ⟨hlimit, -⟩ | rfl
    · exact absurd hlimit (Nat.not_le.mpr hroom)
    · exact speaks_pure ⟨rfl, _, rfl, hzero, hroom, tail, rfl⟩

theorem adds_deselectIdle (hselected : self.selected = true) : Adds deselectIdle self
    fun _ next new => next.toGreaseweazle = self.toGreaseweazle ∧ new = releasing self := by
  refine (adds_self (P := fun host next new => host = self ∧ next = self ∧ new = [])
    ⟨rfl, rfl, rfl⟩).bind ?_
  rintro _ self _ ⟨rfl, rfl, rfl⟩
  unfold releasing
  cases hmotor : self.status.motorRunning with
  | true => exact adds_pure ⟨rfl, rfl⟩
  | false =>
    refine (adds_self (P := fun host next new => host = self ∧ next = self ∧ new = [])
      ⟨rfl, rfl, rfl⟩).bind ?_
    rintro _ self _ ⟨rfl, rfl, rfl⟩
    show Adds (if false = self.selected then _ else _) _ _
    rw [hselected, if_neg Bool.false_ne_true]
    refine Adds.bind (adds_expectOk .deselect []) ?_
    rintro _ self _ ⟨rfl, rfl⟩
    exact adds_modify ⟨rfl, rfl⟩

theorem adds_expectU32 (value : Nat) : Adds (expectU32 value) self fun ticks next new =>
    next = self ∧ new = [] ∧ ticks = value := by
  refine adds_orPanic fun ticks hticks => ⟨rfl, rfl, ?_⟩
  split at hticks
  · cases hticks
    rfl
  · cases hticks

/-- The window of a read from index to index. -/
def indexedHeader (self : GreaseweazleHost) : List Byte :=
  fluxHeader (self.sampleFrequency * 2) 2 (self.sampleFrequency * 20 / 1000)

/-- `decode_at_density` is a function of the stream and the device. -/
theorem adds_decodeAtDensity (raw : List Byte) (density : DensityMode) :
    Adds (decodeAtDensity raw density) self fun events next new => new = [] ∧
      next.selected = self.selected ∧ next.status = self.status ∧
        self.toGreaseweazle.decodeAtDensity raw density = .ok (next.toGreaseweazle, events) := by
  refine (adds_self (P := fun host next new => host = self ∧ next = self ∧ new = [])
    ⟨rfl, rfl, rfl⟩).bind ?_
  rintro _ self _ ⟨rfl, rfl, rfl⟩
  refine (adds_ofExcept (P := fun decoded next new => new = [] ∧ next = self ∧
    self.toGreaseweazle.decodeAtDensity raw density = .ok decoded) fun decoded hdecoded =>
    ⟨rfl, rfl, hdecoded⟩).bind ?_
  rintro ⟨flux, events⟩ self _ ⟨rfl, rfl, hdecoded⟩
  refine (adds_modify (P := fun _ next new => new = [] ∧ next.selected = self.selected ∧
    next.status = self.status ∧ next.toGreaseweazle = flux) ⟨rfl, rfl, rfl, rfl⟩).bind ?_
  rintro _ next _ ⟨rfl, hselected, hstatus, rfl⟩
  exact adds_pure ⟨rfl, hselected, hstatus, hdecoded⟩

/-- What `read_stream` makes of a stream it has heard to the end. -/
theorem adds_extractRevolution (stream : List Byte) {mode : ReadMode} (hmode : mode ≠ .normal)
    (density : DensityMode) : Adds (extractRevolution stream mode density) self
      fun capture next new => new = [] ∧ self.toGreaseweazle.extractCapture stream mode density =
        some (.ok (next.toGreaseweazle, capture)) := by
  refine (adds_decodeAtDensity stream density).bind ?_
  rintro events self' _ ⟨rfl, -, -, hdecoded⟩
  refine (show Adds (cutRevolution events mode) self' fun extracted next new => next = self' ∧
    new = [] ∧ fluxToRevolution events = .ok extracted from ?_).bind ?_
  · unfold cutRevolution
    rw [if_pos hmode]
    exact adds_ofExcept fun extracted hextracted => ⟨rfl, rfl, hextracted⟩
  rintro ⟨words, bitLen, extractedIndex⟩ self' _ ⟨rfl, rfl, hextracted⟩
  refine (adds_ofExcept (P := fun _ next new => next = self' ∧ new = [] ∧ validateCapture
    ⟨words, bitLen, mode ≠ .normal && extractedIndex⟩ = .ok ()) fun _ hvalid =>
    ⟨rfl, rfl, hvalid⟩).bind ?_
  rintro _ self' _ ⟨rfl, rfl, hvalid⟩
  refine adds_pure ⟨rfl, ?_⟩
  unfold Greaseweazle.extractCapture
  rw [hdecoded]
  simp only [hmode, ne_eq, not_false_eq_true, decide_true, if_true, Option.map_some, hextracted]
  simp only [hmode, ne_eq, not_false_eq_true, decide_true] at hvalid
  show some (validateCapture _ >>= fun _ => _) = _
  rw [hvalid]
  rfl

theorem adds_readWindow {mode : ReadMode} (hmode : mode ≠ .normal) : Adds (readWindow mode) self
    fun window next new => next = self ∧ new = [] ∧
      fluxHeader window.1 window.2.1 window.2.2 = indexedHeader self := by
  refine (adds_self (P := fun host next new => host = self ∧ next = self ∧ new = [])
    ⟨rfl, rfl, rfl⟩).bind ?_
  rintro _ self _ ⟨rfl, rfl, rfl⟩
  rw [if_neg hmode]
  refine (adds_expectU32 _).bind ?_
  rintro _ self _ ⟨rfl, rfl, rfl⟩
  refine (adds_expectU32 _).bind ?_
  rintro _ self _ ⟨rfl, rfl, rfl⟩
  exact adds_pure ⟨rfl, rfl, rfl⟩

/-- A whole read, the last passage first. -/
def readPassages (self : GreaseweazleHost) (header heard : List Byte)
    (overflowed : List (List Byte)) : List Passage :=
  releasing self ++ (attemptsOf header heard overflowed ++ selecting self)

theorem adds_readStream {mode : ReadMode} (hmode : mode ≠ .normal) (density : DensityMode) :
    Adds (readStream mode density) self fun capture next new => ∃ stream heard overflowed,
      overflowed.length ≤ 2 ∧ new = readPassages self (indexedHeader self) heard overflowed ∧
        Whole stream heard ∧ self.toGreaseweazle.extractCapture stream mode density =
          some (.ok (next.toGreaseweazle, capture)) := by
  let J : GreaseweazleHost → Prop := fun next =>
    Ready self next ∧ next.toGreaseweazle = self.toGreaseweazle
  have hblind : Blind J := fun l status hJ hmotor => ⟨blind_ready l status hJ.1 hmotor, hJ.2⟩
  refine adds_selectTrue.bind ?_
  rintro _ next _ ⟨hnext, rfl⟩
  have hJ : J next := by
    rw [hnext]
    exact ⟨ready_selected, rfl⟩
  have hheader : indexedHeader next = indexedHeader self := by
    rw [hnext]
    rfl
  refine (adds_readWindow hmode).bind ?_
  rintro ⟨ticks, maxIndex, linger⟩ next _ ⟨rfl, rfl, hwindow⟩
  have hdrains : Drains J (fun _ => Whole) drainWhole := by
    refine fun host hhost => adds_drainWhole.mono ?_
    rintro stream next _ ⟨rfl, heard, rfl, hwhole⟩
    exact ⟨hhost, heard, rfl, hwhole⟩
  refine (adds_attempts hblind hdrains (fun _ => adds_pure ⟨rfl, rfl⟩) 2 hJ).bind ?_
  rintro stream next _ ⟨⟨hready, hflux⟩, heard, overflowed, hcount, rfl, hwhole⟩
  refine (adds_deselectIdle hready.selected).bind ?_
  rintro _ last _ ⟨hsame, rfl⟩
  refine (adds_extractRevolution stream hmode density).mono ?_
  rintro capture final _ ⟨rfl, hcapture⟩
  rw [hsame, hflux] at hcapture
  refine ⟨stream, heard, overflowed, hcount, ?_, hwhole, hcapture⟩
  have hreleasing : releasing next = releasing self := by
    unfold releasing
    rw [hready.motor]
  rw [hreleasing, show fluxHeader _ _ _ = _ from hwindow.trans hheader]
  simp only [List.nil_append, List.append_assoc, readPassages]

/-- The capture is what `read_stream` makes of the stream of the last attempt. -/
theorem readTrack_indexed {next : GreaseweazleHost} {mode : ReadMode} (hmode : mode ≠ .normal)
    {density : DensityMode} {capture : RawCapture} {h h' : History wireSig}
    (hwalk : Walk (.any wireSig) (.ret next (.ok capture)) h' (readTrack mode density self) h) :
    ∃ stream heard overflowed, overflowed.length ≤ 2 ∧
      passages h' = readPassages self (indexedHeader self) heard overflowed ++ passages h ∧
      Whole stream heard ∧ self.toGreaseweazle.extractCapture stream mode density =
        some (.ok (next.toGreaseweazle, capture)) := by
  have hread : readTrack mode density = readStream mode density := if_neg hmode
  rw [hread] at hwalk
  obtain ⟨new, hnew, stream, heard, overflowed, hcount, rfl, hwhole, hcapture⟩ :=
    (adds_readStream hmode density).of_walk hwalk
  exact ⟨stream, heard, overflowed, hcount, hnew, hwhole, hcapture⟩

/-! ## Immediate reads -/

/-- The bits of a whole stream, decoded by a device with a given clock. -/
def Bits (clock : Nat) (density : DensityMode) (flux : Greaseweazle) (bits : List Bool)
    (stream : List Byte) : Prop :=
  ∃ before events, Greaseweazle.sampleFrequency before = clock ∧
    before.decodeAtDensity stream density = .ok (flux, events) ∧
      bits = (PllDecoder.new.run events).2

/-- The bits of a stream, as it was heard. -/
def WholeBits (clock : Nat) (density : DensityMode) (flux : Greaseweazle) (bits : List Bool)
    (heard : List Byte) : Prop :=
  ∃ stream tail, heard = stream ++ 0 :: tail ∧ 0 ∉ stream ∧ Bits clock density flux bits stream

theorem clock_of_decodeAtDensity {flux flux' : Greaseweazle} {raw : List Byte}
    {density : DensityMode} {events : List FluxEvent}
    (h : flux.decodeAtDensity raw density = .ok (flux', events)) :
    flux'.sampleFrequency = flux.sampleFrequency := by
  unfold Greaseweazle.decodeAtDensity at h
  cases hdecoded : decodeStream raw flux.sampleFrequency with
  | error e =>
    rw [hdecoded] at h
    cases h
  | ok decoded =>
    rw [hdecoded] at h
    cases h
    rfl

theorem keeps_decodeAtDensity (raw : List Byte) (density : DensityMode) (said : List Passage) :
    (decodeAtDensity raw density).Keeps (.any wireSig) (fun _ _ _ => True)
      fun l h => Ready self l ∧ passages h = said := by
  rintro l h ⟨hready, hsaid⟩
  refine Fallible.wlp_seq (m := Fallible.self) (R := fun result next h' => result = .ok l ∧
    next = l ∧ passages h' = said) ⟨rfl, rfl, hsaid⟩ (fun _ _ _ himpossible => nomatch
      himpossible.1) ?_
  rintro _ next h₁ ⟨⟨⟩, rfl, hsaid⟩
  show Fallible.wlp _ _ _ (Fallible.ofExcept _ >>= _) _ _
  cases hdecoded : next.toGreaseweazle.decodeAtDensity raw density with
  | error e => exact ⟨hready, hsaid⟩
  | ok decoded =>
    exact ⟨⟨hready.selected, hready.motor,
      (clock_of_decodeAtDensity hdecoded).trans hready.clock⟩, hsaid⟩

/-- Publishing says nothing. -/
theorem speaks_publishPartial (density : DensityMode) (raw : List Byte) (published : Nat)
    {host : GreaseweazleHost} (hready : Ready self host) (passage : Passage) :
    Speaks (publishPartial density raw published) host passage
      fun _ next passage' => Ready self next ∧ passage' = passage := by
  refine speaks_of_keeps (fun said => ?_) hready
  unfold publishPartial
  split
  · refine (keeps_decodeAtDensity raw density said).attempt.bind fun decoded => ?_
    cases decoded with
    | ok events =>
      have hprogress : ∀ words bitLen, (wire (.progress words bitLen) :
          Host GreaseweazleHost Unit).Keeps (.any wireSig) (fun _ _ _ => True)
          fun l h => Ready self l ∧ passages h = said :=
        fun _ _ => Fallible.keeps_perform (fun _ _ _ => trivial) fun _ _ _ hkept _ => hkept
      exact ((hprogress _ _).bind fun _ => Fallible.keeps_pure _).bind fun _ =>
        Fallible.keeps_pure _
    | error e => exact Fallible.keeps_pure _
  · exact Fallible.keeps_pure _

theorem adds_publishWhole (density : DensityMode) (raw : List Byte) {host : GreaseweazleHost}
    (hready : Ready self host) : Adds (publishWhole density raw) host fun bits next new =>
      new = [] ∧ Ready self next ∧
        Bits self.sampleFrequency density next.toGreaseweazle bits raw := by
  refine (adds_decodeAtDensity raw density).bind ?_
  rintro events next _ ⟨rfl, hselected, hstatus, hdecoded⟩
  have hnext : Ready self next := by
    refine ⟨hselected.trans hready.selected, ?_, (clock_of_decodeAtDensity hdecoded).trans
      hready.clock⟩
    rw [hstatus]
    exact hready.motor
  refine (adds_wire (P := fun _ self' new => self' = next ∧ new = []) (fun _ _ => rfl)
    fun _ => ⟨rfl, rfl⟩).bind ?_
  rintro _ next _ ⟨rfl, rfl⟩
  exact adds_pure ⟨rfl, hnext, host.toGreaseweazle, events, hready.clock, hdecoded, rfl⟩

/-- However it was published on the way, the bits are those of all that was read up to the zero. -/
theorem speaks_drainFastStream (density : DensityMode) (deadline : Nat) (raw : List Byte)
    (published : Nat) {host : GreaseweazleHost} (hready : Ready self host) (passage : Passage) :
    Speaks (drainFastStream density deadline raw published) host passage
      fun bits next passage' => Ready self next ∧ ∃ rest tail, 0 ∉ rest ∧
        passage' = passage.hear (rest ++ 0 :: tail) ∧
          Bits self.sampleFrequency density next.toGreaseweazle bits (raw ++ rest) := by
  -- on the polls that are left: each brings a part of the stream, its end, or nothing
  induction deadline generalizing raw published host passage with
  | zero =>
    unfold drainFastStream
    split
    · exact speaks_fail _
    · exact speaks_fail _
  | succ deadline ih =>
    unfold drainFastStream
    split
    · exact speaks_fail _
    refine Speaks.after_setTimeout (Speaks.after_read (fun chunk => ?_) fun kind => ?_)
    · obtain ⟨bytes, hroom⟩ := chunk
      cases bytes with
      | nil => exact speaks_fail _
      | cons byte bytes =>
        dsimp only
        split
        · next hzero =>
          obtain ⟨tail, htail⟩ := exists_terminator hzero
          refine (adds_publishWhole density _ hready).speaks.mono ?_
          rintro bits next _ ⟨rfl, hnext, hbits⟩
          refine ⟨hnext, _, tail, ?_, congrArg passage.hear htail, hbits⟩
          exact fun hmem => by simpa using List.mem_takeWhile_imp hmem
        · next hzero =>
          refine (speaks_publishPartial density _ published hready _).bind ?_
          rintro published next _ ⟨hnext, rfl⟩
          refine (ih (raw ++ byte :: bytes) published hnext _).mono ?_
          rintro bits next _ ⟨hnext, rest, tail, hrest, rfl, hbits⟩
          refine ⟨hnext, (byte :: bytes) ++ rest, tail, ?_, ?_, ?_⟩
          · exact fun hmem => (List.mem_append.mp hmem).elim hzero hrest
          · rw [Passage.hear_hear, List.append_assoc]
          · rw [← List.append_assoc]
            exact hbits
    · dsimp only
      split
      · exact ih raw published hready passage
      · exact speaks_fail _

theorem drains_drainFast (density : DensityMode) :
    Drains (Ready self) (WholeBits self.sampleFrequency density) (drainFast density) := by
  refine fun host hready => adds_deadline fun deadline => Speaks.close ?_
  refine (speaks_drainFastStream density deadline [] 0 hready .empty).mono ?_
  rintro bits next _ ⟨hnext, stream, tail, hzero, rfl, hbits⟩
  exact ⟨hnext, stream ++ 0 :: tail, rfl, stream, tail, rfl, hzero, hbits⟩

theorem adds_joinRevolution (bits : List Bool) : Adds (joinRevolution bits) self
    fun capture next new => new = [] ∧ next = self ∧ ∃ joined,
      bitsToUnalignedRevolution bits self.highDensity = some (.ok joined) ∧
        capture = ⟨packBits joined, joined.length, false⟩ := by
  refine (adds_self (P := fun host next new => host = self ∧ next = self ∧ new = [])
    ⟨rfl, rfl, rfl⟩).bind ?_
  rintro _ self _ ⟨rfl, rfl, rfl⟩
  refine (adds_orPanic (P := fun result next new => next = self ∧ new = [] ∧
    bitsToUnalignedRevolution bits self.highDensity = some result) fun result hresult =>
    ⟨rfl, rfl, hresult⟩).bind ?_
  rintro result self _ ⟨rfl, rfl, hresult⟩
  refine (adds_ofExcept (P := fun joined next new => next = self ∧ new = [] ∧
    result = .ok joined) fun joined hjoined => ⟨rfl, rfl, hjoined⟩).bind ?_
  rintro joined self _ ⟨rfl, rfl, rfl⟩
  refine (adds_ofExcept (P := fun _ next new => next = self ∧ new = []) fun _ _ =>
    ⟨rfl, rfl⟩).bind ?_
  rintro _ self _ ⟨rfl, rfl⟩
  exact adds_pure ⟨rfl, rfl, joined, hresult, rfl⟩

/-- The window of an immediate read, somewhat over a revolution from where the disk stands. -/
def immediateHeader (self : GreaseweazleHost) : List Byte :=
  fluxHeader (self.sampleFrequency * 232 / 1000) 0 0

theorem adds_readStreamFast (density : DensityMode) : Adds (readStreamFast density) self
    fun capture next new => ∃ heard overflowed bits joined, overflowed.length ≤ 2 ∧
      new = readPassages self (immediateHeader self) heard overflowed ∧
        WholeBits self.sampleFrequency density next.toGreaseweazle bits heard ∧
          bitsToUnalignedRevolution bits next.highDensity = some (.ok joined) ∧
            capture = ⟨packBits joined, joined.length, false⟩ := by
  refine adds_selectTrue.bind ?_
  rintro _ next _ ⟨hnext, rfl⟩
  have hready : Ready self next := by
    rw [hnext]
    exact ready_selected
  refine (adds_self (P := fun host self' new => host = next ∧ self' = next ∧ new = [])
    ⟨rfl, rfl, rfl⟩).bind ?_
  rintro _ next _ ⟨rfl, rfl, rfl⟩
  refine (adds_expectU32 _).bind ?_
  rintro _ next _ ⟨rfl, rfl, rfl⟩
  refine (adds_attempts blind_ready (drains_drainFast density) (fun host => adds_wire
    (P := fun _ next new => next = host ∧ new = []) (fun _ _ => rfl) fun _ => ⟨rfl, rfl⟩)
    2 hready).bind ?_
  rintro bits last _ ⟨hlast, heard, overflowed, hcount, rfl, hbits⟩
  refine (adds_deselectIdle hlast.selected).bind ?_
  rintro _ final _ ⟨hsame, rfl⟩
  refine (adds_joinRevolution bits).mono ?_
  rintro capture final _ ⟨rfl, rfl, joined, hjoined, rfl⟩
  rw [← hsame] at hbits
  refine ⟨heard, overflowed, bits, joined, hcount, ?_, hbits, hjoined, rfl⟩
  have hreleasing : releasing last = releasing self := by
    unfold releasing
    rw [hlast.motor]
  rw [hreleasing, hready.clock]
  simp only [List.nil_append, List.append_assoc, readPassages, immediateHeader]

/-- A capture that is a revolution of the bits of a stream. -/
def Joined (clock : Nat) (density : DensityMode) (flux : Greaseweazle) (capture : RawCapture)
    (stream : List Byte) : Prop :=
  ∃ bits joined, Bits clock density flux bits stream ∧
    bitsToUnalignedRevolution bits flux.highDensity = some (.ok joined) ∧
      capture = ⟨packBits joined, joined.length, false⟩

/-- Whatever was published on the way, the capture is a revolution of the bits of all of the last
attempt's stream. -/
theorem readTrack_immediate {next : GreaseweazleHost} {density : DensityMode}
    {capture : RawCapture} {h h' : History wireSig}
    (hwalk : Walk (.any wireSig) (.ret next (.ok capture)) h' (readTrack .normal density self) h) :
    ∃ stream tail overflowed, overflowed.length ≤ 2 ∧
      passages h' = readPassages self (immediateHeader self) (stream ++ 0 :: tail) overflowed ++
        passages h ∧
      0 ∉ stream ∧ Joined self.sampleFrequency density next.toGreaseweazle capture stream := by
  obtain ⟨new, hnew, heard, overflowed, bits, joined, hcount, rfl, hwhole, hjoined, hcapture⟩ :=
    (adds_readStreamFast density).of_walk hwalk
  obtain ⟨stream, tail, rfl, hzero, hbits⟩ := hwhole
  exact ⟨stream, tail, overflowed, hcount, hnew, hzero, bits, joined, hbits, hjoined, hcapture⟩

/-! ## Reads -/

/-- The window of a read. -/
def readHeader (self : GreaseweazleHost) (mode : ReadMode) : List Byte :=
  if mode = .normal then immediateHeader self else indexedHeader self

/-- What a capture is made of. -/
def Captures (self : GreaseweazleHost) (mode : ReadMode) (density : DensityMode)
    (flux : Greaseweazle) (capture : RawCapture) (stream : List Byte) : Prop :=
  if mode = .normal then Joined self.sampleFrequency density flux capture stream
  else self.toGreaseweazle.extractCapture stream mode density = some (.ok (flux, capture))

/--
**What was heard in a read.** When a read succeeds, the interface was told at most three times to
read, all the attempts but the last have overflowed by its own account, and it has confirmed the
last one. The capture is made of the stream of that attempt up to its first zero, and of nothing
that was heard before it or behind it, whatever was published on the way: from index to index it is
what `read_stream` extracts, and an immediate one is a revolution of the bits that the decoder makes
of the whole stream at the density that the device has now.
-/
theorem readTrack_transcript (self next : GreaseweazleHost) (mode : ReadMode)
    (density : DensityMode) (capture : RawCapture) (h h' : History wireSig)
    (hwalk : Walk (.any wireSig) (.ret next (.ok capture)) h' (readTrack mode density self) h) :
    ∃ stream tail overflowed, overflowed.length ≤ 2 ∧
      passages h' = readPassages self (readHeader self mode) (stream ++ 0 :: tail) overflowed ++
        passages h ∧
      0 ∉ stream ∧ Captures self mode density next.toGreaseweazle capture stream := by
  unfold readHeader Captures
  by_cases hmode : mode = .normal
  · subst hmode
    exact readTrack_immediate hwalk
  · simp only [if_neg hmode]
    obtain ⟨stream, heard, overflowed, hcount, hnew, ⟨hzero, -, tail, rfl⟩, hcapture⟩ :=
      readTrack_indexed hmode hwalk
    exact ⟨stream, tail, overflowed, hcount, hnew, hzero, hcapture⟩

/-- A revolution of forty transitions between two index pulses; the first attempt overflows. -/
def readDrive : Prog wireSig GreaseweazleHost (Except Error RawCapture) × History wireSig :=
  let index : List Byte := [255, 1, 1, 1, 1, 1]
  (readTrack .compatible .double (spinning false)).runWith
    (bringing [[7, 0], [40, 0], [9, 4], [7, 0],
      [40] ++ index ++ List.replicate 40 40 ++ index ++ [40, 0, 5], [9, 0]]) []

theorem readTrack_transcript_overflow : ∃ stream tail overflowed,
    passages readDrive.2 = readPassages (spinning false) (indexedHeader (spinning false))
      (stream ++ 0 :: tail) overflowed ++ [] ∧ 0 ∉ stream ∧
    Captures (spinning false) .compatible .double readDrive.1.priv.toGreaseweazle
      ⟨List.replicate 5 0x5555, 80, true⟩ stream := by
  have hresult : readDrive.1.result? = some (.ok ⟨List.replicate 5 0x5555, 80, true⟩) := by
    decide +kernel
  have hwalk : Walk (.any wireSig) readDrive.1 readDrive.2
      (readTrack .compatible .double (spinning false)) [] :=
    Prog.walk_runWith (fun _ _ _ _ => trivial) _ _
  rw [Prog.eq_ret hresult] at hwalk
  obtain ⟨stream, tail, overflowed, -, hpassages, hzero, hcaptures⟩ :=
    readTrack_transcript _ _ _ _ _ _ _ hwalk
  exact ⟨stream, tail, overflowed, hpassages, hzero, hcaptures⟩

end GreaseweazleHost

end FluxBridge
