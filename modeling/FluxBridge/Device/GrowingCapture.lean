import Mathlib.Data.List.TakeWhile
import FluxBridge.Device.ReplyPipe
import FluxBridge.Device.StreamPrefix

/-!
# Captures that grow

An immediate read publishes the stream so far each time it has grown by 4 KiB, decoded from its
beginning. `arriving` follows a history: what has been read of the stream of the current attempt,
and what was published of it. A stream cut between two codes decodes to the front of the whole one;
but in `Auto` the density is measured again at each publish, and where the verdict changes the cells
published so far are not those of the finished capture.

* `published_grows` — while the density of an attempt stays, each publish extends those before it,
  and the finished revolution agrees with all of them
* `published_shrinks` — a stream whose first 4 KiB hold too few intervals to be judged
-/

namespace FluxBridge

open Atomic

/-! ## The front of a decode -/

/-- The cells of events, and of the front of them. -/
theorem run_prefix (pll : PllDecoder) {events whole : List FluxEvent} (h : events <+: whole) :
    (pll.run events).2 <+: (pll.run whole).2 := by
  obtain ⟨rest, rfl⟩ := h
  rw [PllDecoder.run_append]
  exact List.prefix_append _ _

/-! ## What a history says of an attempt -/

namespace GreaseweazleHost

/-- The bit stream of packed words. -/
def unpack (words : List (BitVec 16)) (bitLen : Nat) : List Bool :=
  (List.range bitLen).map (wordBit words)

theorem unpack_packBits (bits : List Bool) : unpack (packBits bits) bits.length = bits :=
  unpackBits_packBits bits

/-- The density at which what was read so far is decoded. -/
def measure (flux : Greaseweazle) (raw : List Byte) : DensityMode → Bool
  | .double => false
  | .high => true
  | .auto =>
    match decodeStream raw flux.sampleFrequency with
    | .ok events =>
      if HD_DETECT_MIN_EVENTS ≤ events.length then looksHighDensity events else flux.highDensity
    | .error _ => flux.highDensity

/-- The attempt that runs, or the last one. -/
structure Arriving where
  /-- the density it is decoded at -/
  flux : Greaseweazle
  /-- its stream is being read -/
  draining : Bool
  /-- what was read of its stream -/
  raw : List Byte
  /-- the bit streams that were published, the last one first -/
  published : List (List Bool)

/-- A publish decodes what was read so far, and measures the density. -/
def Arriving.publish (attempt : Arriving) (density : DensityMode) (bits : List Bool) : Arriving :=
  { attempt with
    flux := { attempt.flux with highDensity := measure attempt.flux attempt.raw density }
    published := bits :: attempt.published }

section History

variable (flux : Greaseweazle) (density : DensityMode)

/-- The attempt behind a history that began with `flux`. -/
def arriving : History wireSig → Arriving
  | [] => ⟨flux, false, [], []⟩
  | ⟨.deadline, _⟩ :: h =>
    if streamFollows h then ⟨(arriving h).flux, true, [], []⟩
    else { arriving h with draining := false }
  | ⟨.read _, .ok chunk⟩ :: h =>
    if (arriving h).draining then
      { arriving h with raw := (arriving h).raw ++ chunk.1.takeWhile fun byte => byte ≠ 0 }
    else arriving h
  | ⟨.purge, _⟩ :: h => { arriving h with draining := false }
  | ⟨.progress words bitLen, _⟩ :: h =>
    if (arriving h).draining then (arriving h).publish density (unpack words bitLen) else arriving h
  | _ :: h => arriving h

/-- A publish that is not the first of its attempt measures the density of the one before. -/
def Arriving.Keeps (attempt : Arriving) : Prop :=
  attempt.draining = true → attempt.published ≠ [] →
    measure attempt.flux attempt.raw density = attempt.flux.highDensity

/-- No publish has changed the density its attempt was published at before. -/
def Steady : History wireSig → Prop
  | ⟨.progress _ _, _⟩ :: h => Steady h ∧ (arriving flux density h).Keeps density
  | _ :: h => Steady h
  | [] => True

/-- Each bit stream that was published extends those before it. -/
def Growing (h : History wireSig) : Prop :=
  (arriving flux density h).published.Pairwise fun newer older => older <+: newer

/-- What was published of the last attempt agrees with a revolution, as far as both go. -/
def Agrees (capture : RawCapture) (h : History wireSig) : Prop :=
  ∀ bits ∈ (arriving flux density h).published,
    bits <+: unpack capture.words capture.bitLen ∨ unpack capture.words capture.bitLen <+: bits

end History

/-! ## A publish -/

/-- The cells of a decoded stream at a density. -/
def cells (highDensity : Bool) (events : List FluxEvent) : List Bool :=
  (PllDecoder.new.run (if highDensity then events.map FluxEvent.doubled else events)).2

theorem cells_prefix (highDensity : Bool) {events whole : List FluxEvent} (h : events <+: whole) :
    cells highDensity events <+: cells highDensity whole := by
  refine run_prefix .new ?_
  split
  · exact h.map _
  · exact h

theorem decodeAtDensity_eq_ok {flux next : Greaseweazle} {raw : List Byte} {density : DensityMode}
    {events : List FluxEvent} (h : flux.decodeAtDensity raw density = .ok (next, events)) :
    next = { flux with highDensity := measure flux raw density } ∧
      ∃ plain, decodeStream raw flux.sampleFrequency = .ok plain ∧
        (PllDecoder.new.run events).2 = cells next.highDensity plain := by
  unfold Greaseweazle.decodeAtDensity at h
  cases hdecode : decodeStream raw flux.sampleFrequency with
  | error e =>
    rw [hdecode] at h
    cases h
  | ok plain =>
    rw [hdecode] at h
    cases h
    refine ⟨?_, plain, rfl, rfl⟩
    cases density with
    | auto =>
      unfold measure
      rw [hdecode]
    | double => rfl
    | high => rfl

/-- Bits that are the cells of the front of what was read. -/
def Arriving.Front (attempt : Arriving) (bits : List Bool) : Prop :=
  ∃ front plain, front <+: attempt.raw ∧
    decodeStream front attempt.flux.sampleFrequency = .ok plain ∧
    bits = cells attempt.flux.highDensity plain

/-- What was published grows, and the last of it is the front of the stream. -/
def Arriving.Grown (attempt : Arriving) : Prop :=
  attempt.published.Pairwise (fun newer older => older <+: newer) ∧
    ∀ bits, attempt.published.head? = some bits → attempt.Front bits

theorem Arriving.Grown.read {attempt : Arriving} (h : attempt.Grown) (more : List Byte) :
    Arriving.Grown { attempt with raw := attempt.raw ++ more } := by
  refine ⟨h.1, fun bits hbits => ?_⟩
  obtain ⟨front, plain, hfront, hdecode, hcells⟩ := h.2 bits hbits
  exact ⟨front, plain, hfront.trans (List.prefix_append _ _), hdecode, hcells⟩

/-- Everything that was published is the front of the last bit stream. -/
theorem prefix_head {published : List (List Bool)} {last bits : List Bool}
    (hgrowing : published.Pairwise fun newer older => older <+: newer)
    (hlast : published.head? = some last) (hbits : bits ∈ published) : bits <+: last := by
  cases published with
  | nil => cases hlast
  | cons first rest =>
    cases hlast
    rcases List.mem_cons.mp hbits with rfl | hrest
    · exact List.prefix_rfl
    · exact (List.pairwise_cons.mp hgrowing).1 bits hrest

/-- A publish that does not change the density extends what was published. -/
theorem Arriving.Grown.publish {attempt : Arriving} (h : attempt.Grown) {density : DensityMode}
    {next : Greaseweazle} {events : List FluxEvent}
    (hdecode : attempt.flux.decodeAtDensity attempt.raw density = .ok (next, events))
    (hsame : attempt.published ≠ [] →
      measure attempt.flux attempt.raw density = attempt.flux.highDensity) :
    (attempt.publish density (PllDecoder.new.run events).2).Grown := by
  obtain ⟨hnext, plain, hplain, hcells⟩ := decodeAtDensity_eq_ok hdecode
  constructor
  · refine List.pairwise_cons.mpr ⟨fun older holder => ?_, h.1⟩
    cases hlast : attempt.published.head? with
    | none =>
      rw [List.head?_eq_none_iff] at hlast
      rw [hlast] at holder
      cases holder
    | some last =>
      obtain ⟨front, before, hfront, hbefore, hbits⟩ := h.2 last hlast
      have hdensity : next.highDensity = attempt.flux.highDensity := by
        rw [hnext]
        exact hsame (List.ne_nil_of_mem holder)
      calc older <+: last := prefix_head h.1 hlast holder
        _ <+: (PllDecoder.new.run events).2 := by
          rw [hbits, hcells, hdensity]
          exact cells_prefix _ (decodeStream_grows hfront hbefore hplain)
  · intro bits hbits
    cases hbits
    refine ⟨attempt.raw, plain, List.prefix_rfl, hplain, ?_⟩
    rw [hcells, hnext]
    rfl

/-! ## One attempt -/

namespace Growth

section Run

variable {flux : Greaseweazle} {density : DensityMode} {self : GreaseweazleHost}
  {h : History wireSig}

/-- Whatever the port brings, the attempt grows where it is steady. -/
abbrev wlp {α : Type} (flux : Greaseweazle) (density : DensityMode)
    (E : Except Error α → GreaseweazleHost → History wireSig → Prop) (m : Host GreaseweazleHost α)
    (self : GreaseweazleHost) (h : History wireSig) : Prop :=
  Fallible.wlp (.any wireSig) (fun _ _ h => Steady flux density h → Growing flux density h) E m
    self h

/-- A stream is being read, and this much of it was. -/
structure Draining (flux : Greaseweazle) (density : DensityMode) (raw : List Byte)
    (device : GreaseweazleHost) (h : History wireSig) : Prop where
  follows : streamFollows h = false
  draining : (arriving flux density h).draining = true
  raw : (arriving flux density h).raw = raw
  measured : (arriving flux density h).flux = device.toGreaseweazle
  grown : Steady flux density h → (arriving flux density h).Grown

/-- A stream was read, and `P` holds of what was published of it. -/
structure Idle (flux : Greaseweazle) (density : DensityMode) (P : List (List Bool) → Prop)
    (device : GreaseweazleHost) (h : History wireSig) : Prop where
  follows : streamFollows h = false
  measured : (arriving flux density h).flux = device.toGreaseweazle
  growing : Steady flux density h → Growing flux density h
  published : P (arriving flux density h).published

/-- The bits were published last. -/
def Last (bits : List Bool) (published : List (List Bool)) : Prop := published.head? = some bits

theorem Draining.idle {raw : List Byte} (hdraining : Draining flux density raw self h)
    {P : List (List Bool) → Prop} (hP : P (arriving flux density h).published) :
    Idle flux density P self h :=
  ⟨hdraining.follows, hdraining.measured, fun hsteady => (hdraining.grown hsteady).1, hP⟩

theorem Idle.weaken {P : List (List Bool) → Prop} (hidle : Idle flux density P self h) :
    Idle flux density (fun _ => True) self h :=
  ⟨hidle.follows, hidle.measured, hidle.growing, trivial⟩

/-- A publish of what was read. -/
theorem publish_wlp {raw : List Byte} {next : Greaseweazle} {events : List FluxEvent}
    (hdraining : Draining flux density raw self h)
    (hdecode : self.toGreaseweazle.decodeAtDensity raw density = .ok (next, events)) :
    wlp flux density (fun result self' h' => Draining flux density raw self' h' ∧
      ∀ bits, result = .ok bits → Last bits (arriving flux density h').published)
      (publish events) { self with toGreaseweazle := next } h := by
  refine ⟨fun hsteady => (hdraining.grown hsteady).1, fun r _ => ?_⟩
  obtain ⟨hfollows, hopen, hraw, hflux, hgrown⟩ := hdraining
  have hattempt : (arriving flux density h).flux.decodeAtDensity (arriving flux density h).raw
      density = .ok (next, events) := by rw [hflux, hraw, hdecode]
  have hnow : arriving flux density (⟨.progress (packBits (PllDecoder.new.run events).2)
      (PllDecoder.new.run events).2.length, r⟩ :: h) =
        (arriving flux density h).publish density (PllDecoder.new.run events).2 := by
    rw [arriving, if_pos hopen, unpack_packBits]
  refine ⟨⟨rfl, ?_, ?_, ?_, ?_⟩, ?_⟩
  · rw [hnow]
    exact hopen
  · rw [hnow]
    exact hraw
  · rw [hnow]
    exact (decodeAtDensity_eq_ok hattempt).1.symm
  · rintro ⟨hsteady, hkeeps⟩
    rw [hnow]
    exact (hgrown hsteady).publish hattempt (hkeeps hopen)
  · intro bits hbits
    cases hbits
    rw [hnow]
    rfl

theorem decodeAtDensity_error {raw : List Byte} {e : Error}
    (hdecode : self.toGreaseweazle.decodeAtDensity raw density = .error e) :
    decodeAtDensity raw density self = .ret self (.error e) := by
  show (Fallible.ofExcept (self.toGreaseweazle.decodeAtDensity raw density) >>= _ :
    Host GreaseweazleHost _) self = _
  rw [hdecode]
  rfl

theorem decodeAtDensity_ok {raw : List Byte} {next : Greaseweazle} {events : List FluxEvent}
    (hdecode : self.toGreaseweazle.decodeAtDensity raw density = .ok (next, events)) :
    decodeAtDensity raw density self = .ret { self with toGreaseweazle := next } (.ok events) := by
  show (Fallible.ofExcept (self.toGreaseweazle.decodeAtDensity raw density) >>= _ :
    Host GreaseweazleHost _) self = _
  rw [hdecode]
  rfl

theorem publishPartial_wlp {raw : List Byte} (published : Nat)
    (hdraining : Draining flux density raw self h) :
    wlp flux density (fun _ self' h' => Draining flux density raw self' h')
      (publishPartial density raw published) self h := by
  unfold publishPartial
  split
  · show Prog.wlp _ _ _ (((decodeAtDensity raw density self).bind _).bind _) h
    cases hdecode : self.toGreaseweazle.decodeAtDensity raw density with
    | error e =>
      rw [decodeAtDensity_error hdecode]
      exact hdraining
    | ok decoded =>
      rw [decodeAtDensity_ok hdecode]
      refine Fallible.wlp_seq (publish_wlp hdraining hdecode) (fun _ _ _ hR => hR.1) ?_
      intro _ _ _ hR
      exact hR.1
  · exact hdraining

theorem publishWhole_wlp {raw : List Byte} (hdraining : Draining flux density raw self h) :
    wlp flux density (fun result self' h' => Draining flux density raw self' h' ∧
      ∀ bits, result = .ok bits → Last bits (arriving flux density h').published)
      (publishWhole density raw) self h := by
  show Prog.wlp _ _ _ ((decodeAtDensity raw density self).bind _) h
  cases hdecode : self.toGreaseweazle.decodeAtDensity raw density with
  | error e =>
    rw [decodeAtDensity_error hdecode]
    exact ⟨hdraining, nofun⟩
  | ok decoded =>
    rw [decodeAtDensity_ok hdecode]
    exact publish_wlp hdraining hdecode

/-- The bytes of a chunk before its terminator. -/
theorem Draining.read {raw : List Byte} (hdraining : Draining flux density raw self h) {room : Nat}
    (chunk : Chunk room) :
    Draining flux density (raw ++ chunk.1.takeWhile fun byte => byte ≠ 0) self
      (⟨.read room, .ok chunk⟩ :: h) := by
  obtain ⟨hfollows, hopen, hraw, hflux, hgrown⟩ := hdraining
  have hnow : arriving flux density (⟨.read room, .ok chunk⟩ :: h) =
      { arriving flux density h with
        raw := (arriving flux density h).raw ++ chunk.1.takeWhile fun byte => byte ≠ 0 } := by
    rw [arriving, if_pos hopen]
  refine ⟨rfl, ?_, ?_, ?_, fun hsteady => ?_⟩
  · rw [hnow]
    exact hopen
  · rw [hnow, ← hraw]
  · rw [hnow]
    exact hflux
  · rw [hnow]
    exact (hgrown hsteady).read _

theorem drainFastStream_wlp (deadline : Nat) {raw : List Byte} (published : Nat)
    (hdraining : Draining flux density raw self h) :
    wlp flux density (fun result self' h' => ∃ raw', Draining flux density raw' self' h' ∧
      ∀ bits, result = .ok bits → Last bits (arriving flux density h').published)
      (drainFastStream density deadline raw published) self h := by
  -- on the polls that are left; a poll publishes at most once, of what was read up to it
  induction deadline generalizing raw published self h with
  | zero =>
    unfold drainFastStream
    split
    · exact ⟨raw, hdraining, nofun⟩
    · exact ⟨raw, hdraining, nofun⟩
  | succ deadline ih =>
    unfold drainFastStream
    split
    · exact ⟨raw, hdraining, nofun⟩
    · have htimeout : ∀ r, Draining flux density raw self (⟨.setTimeout, r⟩ :: h) := fun r =>
        ⟨rfl, hdraining.draining, hdraining.raw, hdraining.measured, hdraining.grown⟩
      refine Fallible.wlp_seq
        (R := fun _ self' h' => Draining flux density raw self' h')
        ⟨fun hsteady => (hdraining.grown hsteady).1, fun r _ => htimeout r⟩
        (fun e _ _ hR => ⟨raw, hR, nofun⟩) ?_
      intro _ self h hdraining
      refine ⟨fun hsteady => (hdraining.grown hsteady).1, fun answer _ => ?_⟩
      rcases answer with kind | ⟨bytes, hroom⟩
      · have hnothing : Draining flux density raw self (⟨.read CHUNK_BYTES, .error kind⟩ :: h) :=
          ⟨rfl, hdraining.draining, hdraining.raw, hdraining.measured, hdraining.grown⟩
        show wlp flux density _ (if kind.isTimeout then _ else _) _ _
        split
        · exact ih published hnothing
        · exact ⟨raw, hnothing, nofun⟩
      · have hread := hdraining.read ⟨bytes, hroom⟩
        cases bytes with
        | nil => exact ⟨_, hread, nofun⟩
        | cons byte bytes =>
          show wlp flux density _ (if 0 ∈ byte :: bytes then _ else _) _ _
          split
          -- the terminator has come: the whole stream is published
          · exact Fallible.wlp_mono (publishWhole_wlp hread) fun _ _ _ hR => ⟨_, hR⟩
          · next hopen =>
            -- without a terminator the whole chunk belongs to the stream
            have hall : (byte :: bytes).takeWhile (fun byte => byte ≠ 0) = byte :: bytes := by
              refine List.takeWhile_eq_self_iff.mpr fun b hb => decide_eq_true ?_
              rintro rfl
              exact hopen hb
            rw [hall] at hread
            refine Fallible.wlp_seq (publishPartial_wlp published hread)
              (fun e _ _ hR => ⟨_, hR, nofun⟩) ?_
            intro published self h hdraining
            exact ih published hdraining

/-! ## Around an attempt -/

/-- The calls of a command that begins no attempt and publishes nothing. -/
def Aside : WireOp → Prop
  | .accepted code => code ≠ Command.readFlux.code ∧ code ≠ Command.writeFlux.code
  | .progress _ _ => False
  | _ => True

/-- Code around an attempt. -/
abbrev Keeps (flux : Greaseweazle) (density : DensityMode) (P : List (List Bool) → Prop) {α : Type}
    (m : Host GreaseweazleHost α) : Prop :=
  Fallible.Keeps (.any wireSig) (fun _ _ h => Steady flux density h → Growing flux density h)
    (fun l h => Idle flux density P l h) m

variable {P : List (List Bool) → Prop}

/-- What is done aside leaves the density and what was published as they are. -/
theorem aside {o : WireOp} (ho : Aside o) (r : o.Ret) (hfollows : streamFollows h = false) :
    streamFollows (⟨o, r⟩ :: h) = false ∧
      (arriving flux density (⟨o, r⟩ :: h)).flux = (arriving flux density h).flux ∧
      (arriving flux density (⟨o, r⟩ :: h)).published = (arriving flux density h).published ∧
      (Steady flux density (⟨o, r⟩ :: h) → Steady flux density h) := by
  cases o with
  | accepted code =>
    refine ⟨?_, rfl, rfl, id⟩
    obtain ⟨hread, hwrite⟩ := ho
    rw [streamFollows, beq_eq_false_iff_ne.mpr hread, beq_eq_false_iff_ne.mpr hwrite]
    rfl
  | progress words bitLen => exact ho.elim
  | deadline =>
    have hnow : arriving flux density (⟨.deadline, r⟩ :: h) =
        { arriving flux density h with draining := false } := by
      rw [arriving, hfollows]
      rfl
    rw [hnow]
    exact ⟨rfl, rfl, rfl, id⟩
  | read room =>
    cases r with
    | error kind => exact ⟨rfl, rfl, rfl, id⟩
    | ok chunk =>
      refine ⟨rfl, ?_, ?_, id⟩
      · rw [arriving]
        split
        · rfl
        · rfl
      · rw [arriving]
        split
        · rfl
        · rfl
  | _ => exact ⟨rfl, rfl, rfl, id⟩

theorem Idle.aside (hidle : Idle flux density P self h) {o : WireOp} (ho : Aside o) (r : o.Ret) :
    Idle flux density P self (⟨o, r⟩ :: h) := by
  obtain ⟨hfollows, hflux, hpublished, hsteady⟩ := Growth.aside ho r hidle.follows
  refine ⟨hfollows, hflux.trans hidle.measured, fun hnow => ?_, ?_⟩
  · unfold Growing
    rw [hpublished]
    exact hidle.growing (hsteady hnow)
  · rw [hpublished]
    exact hidle.published

theorem frame_idle : Fallible.Frame (.any wireSig)
    (fun _ _ h => Steady flux density h → Growing flux density h)
    (fun l h => Idle flux density P l h) Aside where
  ready _ _ _ _ hidle := hidle.growing
  keeps _ _ _ r ho hidle _ := hidle.aside ho r

theorem keeps_exchange (code : Command) (parameters : List Byte) :
    Keeps flux density P (exchange code parameters) :=
  (Fallible.keeps_ofExcept _).bind fun packet =>
    (frame_idle.perform (o := .deadline) trivial).bind fun deadline =>
    (keeps_writeAllUntil frame_idle trivial (fun _ => trivial) trivial _ packet deadline).bind
      fun deadline => keeps_readExactUntil frame_idle trivial (fun _ => trivial) _ 2 deadline

theorem keeps_modify {f : GreaseweazleHost → GreaseweazleHost}
    (hf : ∀ l, (f l).toGreaseweazle = l.toGreaseweazle) :
    Keeps flux density P (Fallible.modify f) :=
  Fallible.keeps_modify fun l _ hidle =>
    ⟨hidle.follows, hidle.measured.trans (hf l).symm, hidle.growing, hidle.published⟩

theorem keeps_expectOk {code : Command} (parameters : List Byte)
    (hcode : code.code ≠ Command.readFlux.code ∧ code.code ≠ Command.writeFlux.code) :
    Keeps flux density P (expectOk code parameters) := by
  refine Fallible.Keeps.bind ?_ fun _ => Fallible.keeps_pure ()
  refine (keeps_exchange code parameters).bind fun reply => ?_
  show Keeps flux density P (acceptReply code 0 reply.1 reply.2)
  unfold acceptReply
  split
  · exact Fallible.keeps_fail _
  · exact (Fallible.keeps_ofExcept _).bind fun _ =>
      (keeps_readExactUntil frame_idle trivial (fun _ => trivial) _ 0 _).bind fun _ =>
      (frame_idle.perform (o := .accepted code.code) hcode).bind fun _ => Fallible.keeps_pure _

theorem keeps_rawCommandAck {code : Command} (parameters : List Byte)
    (hcode : code.code ≠ Command.readFlux.code ∧ code.code ≠ Command.writeFlux.code) :
    Keeps flux density P (rawCommandAck code parameters) := by
  refine (keeps_exchange code parameters).bind fun reply => ?_
  show Keeps flux density P (acceptAck code reply.1)
  unfold acceptAck
  split
  · exact Fallible.keeps_fail _
  · split
    · exact (frame_idle.perform (o := .accepted code.code) hcode).bind fun _ =>
        Fallible.keeps_pure _
    · exact Fallible.keeps_pure _

theorem keeps_select (selected : Bool) : Keeps flux density P (select selected) := by
  refine Fallible.keeps_self.bind fun self => ?_
  split
  · exact Fallible.keeps_pure ()
  · have hmodify : Keeps flux density P
        (Fallible.modify fun self => { self with selected := selected }) :=
      keeps_modify fun _ => rfl
    split
    · exact (keeps_expectOk _ (by decide)).bind fun _ => hmodify
    · exact (keeps_expectOk _ (by decide)).bind fun _ => hmodify

theorem keeps_deselectIdle : Keeps flux density P deselectIdle := by
  refine Fallible.keeps_self.bind fun self => ?_
  split
  · exact keeps_select false
  · exact Fallible.keeps_pure ()

/-- A `ReadFlux` that was accepted begins an attempt. -/
structure Begun (flux : Greaseweazle) (density : DensityMode) (device : GreaseweazleHost)
    (h : History wireSig) : Prop where
  follows : streamFollows h = true
  measured : (arriving flux density h).flux = device.toGreaseweazle
  growing : Steady flux density h → Growing flux density h

/-- Nothing is said of what was published. -/
abbrev Anything : List (List Bool) → Prop := fun _ => True

/-- Behind the command that starts a stream. -/
def Started {α : Type} (flux : Greaseweazle) (density : DensityMode) (result : Except Error α)
    (self : GreaseweazleHost) (h : History wireSig) : Prop :=
  match result with
  | .error _ => Idle flux density Anything self h
  | .ok _ => Begun flux density self h

theorem readFlux_wlp (header : List Byte) (hidle : Idle flux density Anything self h) :
    wlp flux density (Started flux density) (expectOk .readFlux header) self h := by
  refine Fallible.wlp_seq (R := Started flux density) ?_ (fun _ _ _ hR => hR) fun _ _ _ hR => hR
  refine Fallible.wlp_seq (keeps_exchange .readFlux header self h hidle) (fun _ _ _ hR => hR) ?_
  intro reply self h hidle
  show wlp flux density _ (acceptReply .readFlux 0 reply.1 reply.2) _ _
  unfold acceptReply
  split
  · exact hidle
  · refine Fallible.wlp_seq (R := fun _ self' h' => Idle flux density Anything self' h')
      (Fallible.keeps_ofExcept _ self h hidle) (fun _ _ _ hR => hR) ?_
    intro _ self h hidle
    refine Fallible.wlp_seq
      (keeps_readExactUntil frame_idle trivial (fun _ => trivial) _ 0 reply.2 self h hidle)
      (fun _ _ _ hR => hR) ?_
    intro _ self h hidle
    exact ⟨hidle.growing, fun _ _ => ⟨rfl, hidle.measured, hidle.growing⟩⟩

theorem drainFast_wlp (hbegun : Begun flux density self h) :
    wlp flux density (fun result self' h' =>
      match result with
      | .error _ => Idle flux density Anything self' h'
      | .ok bits => Idle flux density (Last bits) self' h') (drainFast density) self h := by
  refine ⟨hbegun.growing, fun deadline _ => ?_⟩
  have hnow : arriving flux density (⟨.deadline, deadline⟩ :: h) =
      ⟨(arriving flux density h).flux, true, [], []⟩ := by
    rw [arriving, if_pos hbegun.follows]
  have hdraining : Draining flux density [] self (⟨.deadline, deadline⟩ :: h) := by
    refine ⟨rfl, ?_, ?_, ?_, fun _ => ?_⟩
    · rw [hnow]
    · rw [hnow]
    · rw [hnow]
      exact hbegun.measured
    · rw [hnow]
      exact ⟨List.Pairwise.nil, nofun⟩
  refine Fallible.wlp_mono (drainFastStream_wlp deadline 0 hdraining) ?_
  rintro (e | bits) self' h' ⟨raw, hdraining, hlast⟩
  · exact hdraining.idle trivial
  · exact hdraining.idle (hlast bits rfl)

theorem settleAttempt_wlp (bits : List Bool) (last : Bool) (status : Byte)
    (hidle : Idle flux density (Last bits) self h) :
    wlp flux density (fun result self' h' =>
      match result with
      | .ok (some bits) => Idle flux density (Last bits) self' h'
      | _ => Idle flux density Anything self' h')
      (settleAttempt bits (wire (.progress [] 0)) last status) self h := by
  have hstatus : ∀ f, Keeps flux density (Last bits) (setStatus f) := fun f =>
    keeps_modify fun _ => rfl
  unfold settleAttempt
  split
  · exact Fallible.wlp_seq (hstatus _ self h hidle) (fun _ _ _ hR => hR.weaken) fun _ _ _ hR => hR
  · split
    · exact Fallible.wlp_seq (hstatus _ self h hidle) (fun _ _ _ hR => hR.weaken)
        fun _ _ _ hR => hR.weaken
    · split
      · split
        · exact hidle.weaken
        · refine ⟨hidle.growing, fun result _ => ?_⟩
          have hpurged := hidle.aside (o := .purge) trivial result
          cases result with
          | error e => exact hpurged.weaken
          | ok _ =>
            -- the purge has ended the attempt: what says that it is stale is not a publish of it
            exact ⟨hpurged.growing, fun _ _ => ⟨rfl, hpurged.measured,
              fun hsteady => hpurged.growing hsteady.1, trivial⟩⟩
      · cases mapAck .getFluxStatus status with
        | error e => exact hidle.weaken
        | ok _ => exact hidle.weaken

theorem attemptRead_wlp (header : List Byte) (last : Bool)
    (hidle : Idle flux density Anything self h) :
    wlp flux density (fun result self' h' =>
      match result with
      | .ok (some bits) => Idle flux density (Last bits) self' h'
      | _ => Idle flux density Anything self' h')
      (attemptRead header (drainFast density) (wire (.progress [] 0)) last) self h := by
  refine Fallible.wlp_seq (readFlux_wlp header hidle) (fun _ _ _ hR => hR) ?_
  intro _ self h hbegun
  refine Fallible.wlp_seq (drainFast_wlp hbegun) (fun _ _ _ hR => hR) ?_
  intro bits self h hidle
  refine Fallible.wlp_seq (keeps_rawCommandAck [] (by decide) self h hidle)
    (fun _ _ _ hR => hR.weaken) ?_
  intro status self h hidle
  exact settleAttempt_wlp bits last status hidle

theorem attempts_wlp (header : List Byte) (again : Nat)
    (hidle : Idle flux density Anything self h) :
    wlp flux density (fun result self' h' =>
      match result with
      | .error _ => Idle flux density Anything self' h'
      | .ok bits => Idle flux density (Last bits) self' h')
      (attempts header (drainFast density) (wire (.progress [] 0)) again) self h := by
  induction again generalizing self h with
  | zero =>
    refine Fallible.wlp_seq (attemptRead_wlp header true hidle) (fun _ _ _ hR => hR) ?_
    intro outcome self h hR
    cases outcome with
    | some bits => exact hR
    | none => exact ⟨hR.growing, nofun⟩
  | succ again ih =>
    refine Fallible.wlp_seq (attemptRead_wlp header false hidle) (fun _ _ _ hR => hR) ?_
    intro outcome self h hR
    cases outcome with
    | some bits => exact hR
    | none => exact ih hR

/-- A revolution is the front of the cells it is found in. -/
theorem revolution_prefix {bits joined : List Bool} {highDensity : Bool}
    (h : bitsToUnalignedRevolution bits highDensity = some (.ok joined)) : joined <+: bits := by
  unfold bitsToUnalignedRevolution at h
  dsimp only at h
  generalize (if highDensity then 200000 else 100000) = nominal at h
  split at h
  · cases h
  · obtain ⟨found, -, hfound⟩ := Option.map_eq_some_iff.mp h
    cases found with
    | inl join =>
      cases hfound
      exact List.take_prefix _ _
    | inr nearest => cases hfound

/-- The revolution that is returned: nothing more is published. -/
theorem joinRevolution_wlp {bits : List Bool} (hidle : Idle flux density (Last bits) self h) :
    wlp flux density (fun result _ h' => h' = h ∧
      ∀ capture, result = .ok capture → unpack capture.words capture.bitLen <+: bits)
      (joinRevolution bits) self h := by
  refine Fallible.wlp_seq (R := fun result _ h' => h' = h ∧ result = .ok self) ⟨rfl, rfl⟩
    (fun _ _ _ hR => ⟨hR.1, nofun⟩) ?_
  rintro _ _ _ ⟨hh, heq⟩
  cases heq
  refine Fallible.wlp_seq (R := fun result _ h' => h' = h ∧ ∀ joined, result = .ok joined →
    bitsToUnalignedRevolution bits self.highDensity = some joined) ?_
    (fun _ _ _ hR => ⟨hR.1, nofun⟩) ?_
  · rw [hh]
    cases bitsToUnalignedRevolution bits self.highDensity with
    | none => exact ⟨hidle.growing, nofun⟩
    | some result =>
      refine ⟨rfl, fun joined hjoined => ?_⟩
      cases hjoined
      rfl
  rintro found _ _ ⟨hh, hfound⟩
  refine Fallible.wlp_seq (R := fun result _ h' => h' = h ∧ result = found) ⟨hh, rfl⟩
    (fun _ _ _ hR => ⟨hR.1, nofun⟩) ?_
  rintro joined _ _ ⟨hh, rfl⟩
  refine Fallible.wlp_seq (R := fun _ _ h' => h' = h) hh (fun _ _ _ hR => ⟨hR, nofun⟩) ?_
  intro _ _ _ hh
  refine ⟨hh, fun capture hcapture => ?_⟩
  cases hcapture
  rw [unpack_packBits]
  exact revolution_prefix (hfound _ rfl)

theorem readStreamFast_wlp (density : DensityMode) (self : GreaseweazleHost) :
    wlp self.toGreaseweazle density (fun result _ h' =>
      Steady self.toGreaseweazle density h' → Growing self.toGreaseweazle density h' ∧
        ∀ capture, result = .ok capture → Agrees self.toGreaseweazle density capture h')
      (readStreamFast density) self [] := by
  have hstart : Idle self.toGreaseweazle density Anything self [] :=
    ⟨rfl, rfl, fun _ => List.Pairwise.nil, trivial⟩
  refine Fallible.wlp_seq (keeps_select true self [] hstart) ?_ ?_
  · intro e _ _ hidle hsteady
    exact ⟨hidle.growing hsteady, nofun⟩
  intro _ self' h hidle
  refine Fallible.wlp_seq (Fallible.keeps_self self' h hidle) ?_ ?_
  · intro e _ _ hidle hsteady
    exact ⟨hidle.growing hsteady, nofun⟩
  intro device self' h hidle
  have hticks : Keeps self.toGreaseweazle density Anything
      (expectU32 (device.sampleFrequency * 232 / 1000)) := keeps_orPanic frame_idle trivial _
  refine Fallible.wlp_seq (hticks self' h hidle) ?_ ?_
  · intro e _ _ hidle hsteady
    exact ⟨hidle.growing hsteady, nofun⟩
  intro ticks self' h hidle
  refine Fallible.wlp_seq (attempts_wlp (fluxHeader ticks 0 0) 2 hidle) ?_ ?_
  · intro e _ _ hidle hsteady
    exact ⟨hidle.growing hsteady, nofun⟩
  intro bits self' h hidle
  refine Fallible.wlp_seq (keeps_deselectIdle self' h hidle) ?_ ?_
  · intro e _ _ hidle hsteady
    exact ⟨hidle.growing hsteady, nofun⟩
  intro _ self' h hidle
  refine Fallible.wlp_mono (joinRevolution_wlp hidle) ?_
  rintro result _ h' ⟨rfl, hrevolution⟩ hsteady
  refine ⟨hidle.growing hsteady, fun capture hcapture older holder => ?_⟩
  exact List.prefix_or_prefix_of_prefix
    (prefix_head (hidle.growing hsteady) hidle.published holder) (hrevolution capture hcapture)

end Run

end Growth

/-! ## Which attempts keep their density -/

theorem measure_forced {density : DensityMode} (hforced : density ≠ .auto)
    (flux flux' : Greaseweazle) (raw raw' : List Byte) :
    measure flux raw density = measure flux' raw' density := by
  cases density with
  | auto => exact absurd rfl hforced
  | double => rfl
  | high => rfl

/-- What was published at a forced density was published at that. -/
theorem arriving_forced {flux : Greaseweazle} {density : DensityMode} (hforced : density ≠ .auto)
    {h : History wireSig} (hpublished : (arriving flux density h).published ≠ []) :
    measure flux [] density = (arriving flux density h).flux.highDensity := by
  induction h with
  | nil => exact absurd rfl hpublished
  | cons event h ih =>
    obtain ⟨op, ret⟩ := event
    cases op with
    | deadline =>
      rw [arriving] at hpublished ⊢
      split at hpublished
      · exact absurd rfl hpublished
      · next hfollows =>
        rw [if_neg hfollows]
        exact ih hpublished
    | progress words bitLen =>
      rw [arriving] at hpublished ⊢
      split at hpublished
      · next hopen =>
        rw [if_pos hopen]
        exact measure_forced hforced _ _ _ _
      · next hclosed =>
        rw [if_neg hclosed]
        exact ih hpublished
    | read room =>
      cases ret with
      | error kind => exact ih hpublished
      | ok chunk =>
        rw [arriving] at hpublished ⊢
        split at hpublished
        · next hopen =>
          rw [if_pos hopen]
          exact ih hpublished
        · next hclosed =>
          rw [if_neg hclosed]
          exact ih hpublished
    | _ => exact ih hpublished

/-- A forced density is never measured otherwise. -/
theorem steady_forced {flux : Greaseweazle} {density : DensityMode} (hforced : density ≠ .auto)
    (h : History wireSig) : Steady flux density h := by
  induction h with
  | nil => trivial
  | cons event h ih =>
    obtain ⟨op, ret⟩ := event
    cases op with
    | progress words bitLen =>
      exact ⟨ih, fun _ hpublished =>
        (measure_forced hforced _ flux _ []).trans (arriving_forced hforced hpublished)⟩
    | _ => exact ih

/-- **Growing captures.** In every run of an immediate read, at a forced density or where no publish
changes the density of its attempt, at every moment each bit stream of the attempt extends those
before it, and the revolution that is returned agrees with all of them. -/
theorem published_grows (self : GreaseweazleHost) (density : DensityMode)
    {p' : Prog wireSig GreaseweazleHost (Except Error RawCapture)} {h' : History wireSig}
    (hwalk : Walk (.any wireSig) p' h' (readStreamFast density self) [])
    (hsteady : density = .auto → Steady self.toGreaseweazle density h') :
    Growing self.toGreaseweazle density h' ∧ ∀ capture, p'.result? = some (.ok capture) →
      Agrees self.toGreaseweazle density capture h' := by
  have hkept : Steady self.toGreaseweazle density h' := by
    by_cases hauto : density = .auto
    · exact hsteady hauto
    · exact steady_forced hauto h'
  have hleft := hwalk.wlp (Growth.readStreamFast_wlp density self)
  cases p' with
  | act l o k => exact ⟨hleft.1 hkept, nofun⟩
  | ret l result =>
    obtain ⟨hgrowing, hagrees⟩ := hleft hkept
    refine ⟨hgrowing, fun capture hcapture => hagrees capture ?_⟩
    cases hcapture
    rfl

/-! ## An attempt that does not -/

instance (attempt : Arriving) (density : DensityMode) : Decidable (attempt.Keeps density) :=
  inferInstanceAs (Decidable (_ → _ → _))

/-- `Steady`, decided publish by publish. -/
def isSteady (flux : Greaseweazle) (density : DensityMode) : History wireSig → Bool
  | ⟨.progress _ _, _⟩ :: h =>
    isSteady flux density h && decide ((arriving flux density h).Keeps density)
  | _ :: h => isSteady flux density h
  | [] => true

theorem steady_of_isSteady {flux : Greaseweazle} {density : DensityMode} {h : History wireSig}
    (hsteady : isSteady flux density h = true) : Steady flux density h := by
  induction h with
  | nil => trivial
  | cons event h ih =>
    obtain ⟨op, ret⟩ := event
    cases op with
    | progress words bitLen =>
      obtain ⟨hrest, hkeeps⟩ := Bool.and_eq_true_iff.mp hsteady
      exact ⟨ih hrest, of_decide_eq_true hkeeps⟩
    | _ => exact ih hsteady

/-- A PC drive at 10 MHz whose motor runs, and the density it was last read at. -/
def spinning (highDensity : Bool) : GreaseweazleHost where
  sampleFrequency := 10000000
  highDensity := highDensity
  frequency_pos := by decide
  frequency_lt := by decide
  status := { DriveStatus.initial with motorRunning := true }
  delays := Vector.replicate 5 0
  bus := 1
  drive := 0
  selected := true

/-- A port that takes everything, and brings one chunk in each poll. -/
def bringing (chunks : List (List Byte)) (h : History wireSig) : (o : WireOp) → Option o.Ret
  | .deadline => some 3
  | .read room =>
    let taken := h.countP fun event => match event.op with | .read _ => true | _ => false
    let chunk := chunks.getD taken []
    if hroom : chunk.length ≤ room then some (.ok ⟨chunk, hroom⟩) else none
  | .write bytes => some (.ok (Fin.last bytes.length))
  | .flush => some (.ok ())
  | .setTimeout | .purge | .setCtsFlowControl _ | .setDtr _ | .setRts _ => some (.ok ())
  | .progress _ _ | .accepted _ => some ()
  | .panic => none

/-- A read in `Auto` whose first 4 KiB hold four intervals of 4 µs, and its next thousand bytes a
thousand of them. -/
def sparseRead (highDensity : Bool) :
    Prog wireSig GreaseweazleHost (Except Error RawCapture) × History wireSig :=
  (readStreamFast .auto (spinning highDensity)).runWith
    (bringing [[7, 0], (List.replicate 1364 [255, 3, 1]).flatten ++ [40, 40, 40, 40],
      List.replicate 1000 40 ++ [0], [9, 0]]) []

theorem walk_sparseRead (highDensity : Bool) :
    Walk (.any wireSig) (sparseRead highDensity).1 (sparseRead highDensity).2
      (readStreamFast .auto (spinning highDensity)) [] :=
  Prog.walk_runWith (fun _ _ _ _ => trivial) _ _

/-- The two publishes of the last attempt, of which the second does not extend the first. -/
def shrinks (attempt : Arriving) : Bool :=
  match attempt.published with
  | [newer, older] => !decide (older <+: newer)
  | _ => false

theorem not_growing_of_shrinks {flux : Greaseweazle} {density : DensityMode} {h : History wireSig}
    (hshrinks : shrinks (arriving flux density h) = true) : ¬ Growing flux density h := by
  intro hgrowing
  unfold Growing at hgrowing
  unfold shrinks at hshrinks
  split at hshrinks
  · next newer older heq =>
    rw [heq] at hgrowing
    have hextends := (List.pairwise_cons.mp hgrowing).1 older (List.mem_singleton_self _)
    rw [decide_eq_true hextends] at hshrinks
    cases hshrinks
  · cases hshrinks

set_option maxRecDepth 20000 in
/-- Read at double density before, the disk is taken for one throughout. -/
theorem published_grows_steady :
    Growing (spinning false).toGreaseweazle .auto (sparseRead false).2 ∧
      ∀ capture, (sparseRead false).1.result? = some (.ok capture) →
        Agrees (spinning false).toGreaseweazle .auto capture (sparseRead false).2 :=
  published_grows (spinning false) .auto (walk_sparseRead false)
    fun _ => steady_of_isSteady (by decide +kernel)

set_option maxRecDepth 20000 in
/-- Read at high density before, the first publish is decoded at that, and the second is not. -/
theorem published_shrinks :
    ¬ ∀ (self : GreaseweazleHost) (density : DensityMode)
      (p' : Prog wireSig GreaseweazleHost (Except Error RawCapture)) (h' : History wireSig),
      Walk (.any wireSig) p' h' (readStreamFast density self) [] →
        Growing self.toGreaseweazle density h' := by
  intro hgrows
  have hwalk := walk_sparseRead true
  have hshrinks : shrinks (arriving (spinning true).toGreaseweazle .auto (sparseRead true).2) =
      true := by decide +kernel
  generalize sparseRead true = run at hwalk hshrinks
  exact not_growing_of_shrinks hshrinks (hgrows _ _ _ _ hwalk)

end GreaseweazleHost

end FluxBridge
