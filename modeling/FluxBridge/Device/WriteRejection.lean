import FluxBridge.Device.WriteEncodings

/-!
# Rejected writes

`write_stream` of a DrawBridge encodes the track before it speaks to the interface, but looks at the
length of the encoding only behind its command and the permission of the interface. A track with
more transitions than the length field can announce is rejected there, and the interface is left
waiting.

* `mild_send`, `mild_readByte`, `mild_expectCommand` — talking to the interface rejects nothing
* `length_encodeDd` — the length of a double density encoding
* `rejectsSilently_iff` — which tracks are rejected before a byte is sent
* `dense_not_rejectsSilently` — a track of nothing but transitions is not
-/

namespace FluxBridge

open Atomic

/-! ## The port -/

/-- The write was not refused by the interface or by the port, but for what it was asked. -/
def Error.rejects : Error → Bool
  | .trackTooLarge _ _ | .invalidConfig _ => true
  | _ => false

/-- `map_error` of a serial port. -/
def Error.mapped : Error → Bool
  | .portNotFound _ | .permissionDenied _ | .portInUse _ | .io _ | .protocol _ => true
  | _ => false

/-- What the port may answer: its own errors went through `map_error`. -/
def answerMapped : Event wireSig → Bool
  | ⟨.setTimeout, .error e⟩ | ⟨.purge, .error e⟩ | ⟨.setCtsFlowControl _, .error e⟩ => e.mapped
  | ⟨.setDtr _, .error e⟩ | ⟨.setRts _, .error e⟩ => e.mapped
  | _ => true

def portEnv : Env wireSig := fun _ o r => answerMapped ⟨o, r⟩ = true

/-- Some byte was taken by the port. -/
def BytesSent (h : History wireSig) : Prop := ∃ event ∈ h, match event with
  | ⟨.write _, .ok written⟩ => 0 < written.val
  | _ => False

theorem Error.not_rejects_of_mapped {e : Error} (h : e.mapped = true) : e.rejects = false := by
  cases e <;> first | rfl | cases h

/-! ## Talking rejects nothing -/

/-- The code leaves the device as it is, and rejects nothing. -/
def MildAt {D α : Type} (self : D) (m : Host D α) : Prop :=
  ∀ h, m.wlp portEnv (fun _ _ _ => True)
    (fun result next _ => next = self ∧ ∀ e, result = .error e → e.rejects = false) self h

section Mild

variable {D α β : Type} {self : D}

theorem mild_ofExcept {result : Except Error α}
    (h : ∀ e, result = .error e → e.rejects = false) :
    MildAt self (Fallible.ofExcept result : Host D α) := fun _ => ⟨rfl, h⟩

theorem mild_pure (a : α) : MildAt self (pure a : Host D α) := fun _ => ⟨rfl, nofun⟩

theorem mild_fail {e : Error} (h : e.rejects = false) :
    MildAt self (Fallible.fail e : Host D α) := by
  refine fun _ => ⟨rfl, ?_⟩
  rintro _ ⟨⟩
  exact h

theorem mild_perform (o : WireOp) : MildAt self (wire o : Host D _) := fun _ =>
  ⟨trivial, fun _ _ => ⟨rfl, nofun⟩⟩

theorem MildAt.bind {m : Host D α} {f : α → Host D β} (hm : MildAt self m)
    (hf : ∀ a, MildAt self (f a)) : MildAt self (m >>= f) := by
  intro h
  refine Fallible.wlp_seq (hm h) ?_ ?_
  · rintro e next h ⟨rfl, herror⟩
    refine ⟨rfl, ?_⟩
    rintro _ ⟨⟩
    exact herror e rfl
  · rintro a next h ⟨rfl, -⟩
    exact hf a h

/-- The code rejects nothing, whatever it makes of the device. -/
def WillingAt (self : D) (m : Host D α) : Prop :=
  ∀ h, m.wlp portEnv (fun _ _ _ => True)
    (fun result _ _ => ∀ e, result = .error e → e.rejects = false) self h

theorem MildAt.willing {m : Host D α} (hm : MildAt self m) : WillingAt self m := fun h =>
  Fallible.wlp_mono (hm h) fun _ _ _ hresult => hresult.2

theorem MildAt.then_willing {m : Host D α} {f : α → Host D β} (hm : MildAt self m)
    (hf : ∀ a, WillingAt self (f a)) : WillingAt self (m >>= f) := by
  intro h
  refine Fallible.wlp_seq (hm h) ?_ ?_
  · rintro e next h ⟨-, herror⟩ _ ⟨⟩
    exact herror e rfl
  · rintro a next h ⟨rfl, -⟩
    exact hf a h

theorem mild_self {f : D → Host D α} (hf : MildAt self (f self)) :
    MildAt self (Fallible.self >>= f) := hf

theorem mild_setTimeout : MildAt self (setTimeout : Host D Unit) := by
  refine fun h => ⟨trivial, fun answer hanswer => ⟨rfl, ?_⟩⟩
  rintro e rfl
  exact Error.not_rejects_of_mapped hanswer

theorem mild_deadlineFromNow : MildAt self (deadlineFromNow : Host D Nat) := mild_perform _

theorem mild_readExactUntil (operation : String) (count deadline : Nat) :
    MildAt self (readExactUntil operation count deadline : Host D _) := by
  induction deadline generalizing count with
  | zero =>
    cases count with
    | zero => exact mild_pure _
    | succ count => exact mild_fail rfl
  | succ deadline ih =>
    cases count with
    | zero => exact mild_pure _
    | succ count =>
      refine mild_setTimeout.bind fun _ => (mild_perform _).bind fun answer => ?_
      split
      · exact mild_fail rfl
      · exact (ih _).bind fun _ => mild_pure _
      · split
        · exact ih _
        · exact mild_fail rfl

theorem mild_flush (deadline : Nat) (operation : String) :
    MildAt self (writeAllUntil operation [] deadline : Host D _) := by
  unfold writeAllUntil
  refine (mild_perform _).bind fun answer => ?_
  split
  · exact mild_pure _
  · exact mild_fail rfl

theorem mild_writeAllUntil (operation : String) (input : List Byte) (deadline : Nat) :
    MildAt self (writeAllUntil operation input deadline : Host D _) := by
  induction deadline generalizing input with
  | zero =>
    cases input with
    | nil => exact mild_flush _ _
    | cons byte input => exact mild_fail rfl
  | succ deadline ih =>
    cases input with
    | nil => exact mild_flush _ _
    | cons byte input =>
      refine mild_setTimeout.bind fun _ => (mild_perform _).bind fun answer => ?_
      split
      · split
        · exact mild_fail rfl
        · exact ih _
      · split
        · exact ih _
        · exact mild_fail rfl

end Mild

namespace DrawBridge

variable {self : DrawBridge}

theorem mild_send (bytes : List Byte) (operation : String) : MildAt self (send bytes operation) :=
  mild_deadlineFromNow.bind fun _ => (mild_writeAllUntil _ _ _).bind fun _ => mild_pure _

theorem mild_readByteUntil (deadline : Nat) (operation : String) :
    MildAt self (readByteUntil deadline operation) :=
  (mild_readExactUntil _ _ _).bind fun _ => mild_pure _

theorem mild_readByte (operation : String) : MildAt self (readByte operation) :=
  mild_deadlineFromNow.bind fun _ => (mild_readByteUntil _ _).bind fun _ => mild_pure _

theorem mild_expectCommand (command : Byte) : MildAt self (expectCommand command) := by
  refine (mild_send _ _).bind fun _ => (mild_readByte _).bind fun response => ?_
  split
  · exact mild_perform _
  · split
    · exact mild_fail rfl
    · exact mild_fail rfl

theorem writeResult_not_rejects (response : Byte) (e : Error)
    (h : writeResult response = .error e) : e.rejects = false := by
  unfold writeResult at h
  split at h
  · cases h
  · repeat' split at h
    all_goals
      cases h
      rfl

/-- Once the length fits, nothing is rejected any more. -/
theorem mild_sendTrack {encoded : List Byte}
    (hfits : self.highDensity = true ∨ encoded.length < 2 ^ 16) (bitLen : Nat) (fromIndex : Bool) :
    MildAt self (sendTrack encoded bitLen fromIndex) := by
  have hlength : MildAt self (sendLength encoded.length bitLen) := by
    refine mild_self ?_
    split
    · exact mild_pure _
    · next hdouble =>
      refine MildAt.bind (mild_ofExcept ?_) fun _ => mild_send _ _
      unfold lengthBytes
      rw [if_pos (hfits.resolve_left hdouble)]
      exact nofun
  refine hlength.bind fun _ => (mild_send _ _).bind fun _ => (mild_readByte _).bind fun ready => ?_
  split
  · exact mild_fail rfl
  · exact mild_deadlineFromNow.bind fun _ => (mild_writeAllUntil _ _ _).bind fun _ =>
      mild_deadlineFromNow.bind fun _ => (mild_readByteUntil _ _).bind fun response =>
        mild_ofExcept (writeResult_not_rejects _)

/-! ## The length of the encoding -/

theorem length_transitionGaps (cells : Nat) (bits : List Bool) :
    (transitionGaps cells bits).length = bits.count true := by
  induction bits generalizing cells with
  | nil => rfl
  | cons bit bits ih =>
    cases bit with
    | false => rw [transitionGaps, ih, List.count_cons_of_ne (by decide)]
    | true => rw [transitionGaps, List.length_cons, ih, List.count_cons_self]

/-- The transitions of the track and of the run-out are counted. -/
theorem length_transitionCounts {words : List (BitVec 16)} {bitLen limit : Nat}
    (hlimit : limit ≤ 255) {counts : List Nat}
    (h : transitionCounts words bitLen limit = .ok counts) :
    counts.length = (trackBits words bitLen).count true + 4 := by
  have hloop := foldl_countStep words bitLen limit hlimit (List.range (bitLen + 8)) 0 []
  unfold transitionCounts at h
  split at h
  · cases h
  · cases h
    have hrunOut : [true, false, true, false, true, false, true, false].count true = 4 := by decide
    rw [show ((0 : Nat), ([] : List Nat)) = (min 0 255, []) from rfl, hloop, List.nil_append,
      List.length_map, length_transitionGaps, map_bitAt, List.count_append, hrunOut]

theorem length_packNibbles (nibbles : List Nat) :
    (packNibbles nibbles).length = (nibbles.length + 1) / 2 := by
  induction nibbles using packNibbles.induct with
  | case1 => rfl
  | case2 low => simp [packNibbles]
  | case3 low high rest ih =>
    rw [packNibbles, List.length_cons, ih, List.length_cons, List.length_cons]
    omega

/-- **The length.** A double density encoding has a nibble for each transition of the track, and
four for the run-out. -/
theorem length_encodeDd {words : List (BitVec 16)} {bitLen : Nat} {precomp : Bool}
    {encoded : List Byte} (h : encodeDd words bitLen precomp = .ok encoded) :
    encoded.length = ((trackBits words bitLen).count true + 5) / 2 := by
  unfold encodeDd at h
  cases hcounts : transitionCounts words bitLen 5 with
  | error e =>
    rw [hcounts] at h
    cases h
  | ok counts =>
    rw [hcounts] at h
    cases h
    rw [length_packNibbles, length_ddNibbles, length_transitionCounts (by decide) hcounts]

/-! ## Rejection -/

/-- Whatever the interface replies, a write that is rejected has sent no byte. -/
def RejectsSilently (self : DrawBridge) (words : List (BitVec 16)) (bitLen : Nat)
    (fromIndex : Bool) : Prop :=
  ∀ next e h, Walk portEnv (.ret next (.error e)) h (writeStream words bitLen fromIndex self) [] →
    e.rejects = true → ¬ BytesSent h

/-- What is encoded before anything is sent. -/
def encoding (self : DrawBridge) (words : List (BitVec 16)) (bitLen : Nat) :
    Except Error (List Byte) :=
  if self.highDensity then encodeHd words bitLen
  else encodeDd words bitLen (40 ≤ self.status.cylinder)

/-- `write_stream` behind the encoder. -/
def speak (self : DrawBridge) (encoded : List Byte) (bitLen : Nat) (fromIndex : Bool) :
    Host DrawBridge Unit := do
  expectCommand (if self.highDensity then WRITE_HD else WRITE_DD)
  let permission ← readByte "DrawBridge write permission"
  if permission = ascii 'N' then
    setStatus fun status => { status with writeProtected := true }
    Fallible.fail .writeProtected
  else if permission ≠ ascii 'Y' then
    Fallible.fail (.protocol ("DrawBridge returned invalid write permission "
      ++ hexByte permission))
  else sendTrack encoded bitLen fromIndex

theorem willing_speak {encoded : List Byte}
    (hfits : self.highDensity = true ∨ encoded.length < 2 ^ 16) (bitLen : Nat) (fromIndex : Bool) :
    WillingAt self (speak self encoded bitLen fromIndex) := by
  refine (mild_expectCommand _).then_willing fun _ => (mild_readByte _).then_willing
    fun permission => ?_
  split
  · rintro h _ ⟨⟩
    rfl
  · split
    · exact (mild_fail rfl).willing
    · exact (mild_sendTrack hfits bitLen fromIndex).willing

theorem writeStream_eq {words : List (BitVec 16)} {bitLen : Nat} (fromIndex : Bool) :
    writeStream words bitLen fromIndex self =
      (Fallible.ofExcept (encoding self words bitLen) >>= fun encoded =>
        speak self encoded bitLen fromIndex) self := rfl

/-- Where the length fits, or there is none, only the encoder rejects, and it comes first. -/
theorem rejectsSilently_of_fits {words : List (BitVec 16)} {bitLen : Nat} (fromIndex : Bool)
    (hfits : ∀ encoded, encoding self words bitLen = .ok encoded →
      self.highDensity = true ∨ encoded.length < 2 ^ 16) :
    RejectsSilently self words bitLen fromIndex := by
  have hwrite : (writeStream words bitLen fromIndex).wlp portEnv (fun _ _ _ => True)
      (fun result _ h => ∀ e, result = .error e → e.rejects = true → h = []) self [] := by
    unfold Fallible.wlp
    rw [writeStream_eq]
    cases hencoding : encoding self words bitLen with
    | error e => exact fun _ _ _ => rfl
    | ok encoded =>
      have hwilling : WillingAt self (speak self encoded bitLen fromIndex) :=
        willing_speak (hfits encoded hencoding) bitLen fromIndex
      refine Fallible.wlp_mono (hwilling []) fun result _ h hresult e heq hrejects => ?_
      rw [hresult e heq] at hrejects
      cases hrejects
  intro next e h hwalk hrejects
  obtain rfl := hwalk.wlp hwrite e rfl hrejects
  rintro ⟨event, hevent, -⟩
  cases hevent

/-- The answers of an interface that accepts the command and permits the write. -/
def permitting : History wireSig → (o : WireOp) → Option o.Ret :=
  answering [ascii '1', ascii 'Y'] []

theorem permitting_mapped (h : History wireSig) (o : WireOp) (r : o.Ret)
    (hanswer : permitting h o = some r) : portEnv h o r := by
  cases o with
  | setTimeout | purge | setCtsFlowControl _ | setDtr _ | setRts _ =>
    cases hanswer
    rfl
  | _ => rfl

/-- The command of a double density write, accepted. -/
def commanded : History wireSig :=
  [⟨.accepted WRITE_DD, ()⟩, ⟨.read 1, .ok ⟨[ascii '1'], Nat.le_refl 1⟩⟩, ⟨.setTimeout, .ok ()⟩,
    ⟨.deadline, (100 : Nat)⟩, ⟨.flush, .ok ()⟩, ⟨.write [WRITE_DD], .ok ⟨1, Nat.lt_succ_self 1⟩⟩,
    ⟨.setTimeout, .ok ()⟩, ⟨.deadline, (100 : Nat)⟩]

/-- The permission behind it. -/
def permitted : History wireSig :=
  ⟨.read 1, .ok ⟨[ascii 'Y'], Nat.le_refl 1⟩⟩ :: ⟨.setTimeout, .ok ()⟩ ::
    ⟨.deadline, (100 : Nat)⟩ :: commanded

theorem sent_permitted : BytesSent permitted := by
  refine ⟨⟨.write [WRITE_DD], .ok ⟨1, Nat.lt_succ_self 1⟩⟩, ?_, Nat.one_pos⟩
  unfold permitted commanded
  simp

/-- Where the length does not fit, the write is rejected behind the permission. -/
theorem runWith_speak (hdouble : self.highDensity = false) {encoded : List Byte}
    (hlong : 2 ^ 16 ≤ encoded.length) (bitLen : Nat) (fromIndex : Bool) :
    (speak self encoded bitLen fromIndex self).runWith permitting [] =
      (.ret self (.error (.trackTooLarge bitLen MAX_TRACK_BITS)), permitted) := by
  have hcommand : (expectCommand WRITE_DD self).runWith permitting [] =
      (.ret self (.ok ()), commanded) := rfl
  have hpermission : (readByte "DrawBridge write permission" self).runWith permitting commanded =
      (.ret self (.ok (ascii 'Y')), permitted) := rfl
  have hlength : (sendLength encoded.length bitLen self).runWith permitting permitted =
      (.ret self (.error (.trackTooLarge bitLen MAX_TRACK_BITS)), permitted) := by
    have hbytes : lengthBytes encoded.length bitLen =
        .error (.trackTooLarge bitLen MAX_TRACK_BITS) := if_neg (by omega)
    show ((if self.highDensity then pure () else
      Fallible.ofExcept (lengthBytes encoded.length bitLen) >>= fun bytes =>
        send bytes "DrawBridge write length" : Host DrawBridge Unit) self).runWith _ _ = _
    rw [hdouble, hbytes]
    rfl
  unfold speak
  rw [hdouble, if_neg Bool.false_ne_true, Fallible.runWith_ok hcommand,
    Fallible.runWith_ok hpermission, if_neg (by decide), if_neg (by decide)]
  exact Fallible.runWith_error hlength

/-- A write whose length does not fit is not rejected silently. -/
theorem not_rejectsSilently {words : List (BitVec 16)} {bitLen : Nat} (fromIndex : Bool)
    (hdouble : self.highDensity = false) {encoded : List Byte}
    (hencoding : encoding self words bitLen = .ok encoded) (hlong : 2 ^ 16 ≤ encoded.length) :
    ¬ RejectsSilently self words bitLen fromIndex := by
  intro hsilent
  have heq : writeStream words bitLen fromIndex self =
      speak self encoded bitLen fromIndex self := by
    rw [writeStream_eq, hencoding]
    rfl
  have hwalk := @Prog.walk_runWith _ _ _ portEnv permitting permitting_mapped
    (writeStream words bitLen fromIndex self) []
  rw [heq, runWith_speak hdouble hlong, ← heq] at hwalk
  exact hsilent _ _ _ hwalk rfl sent_permitted

/-- What a double density track is encoded to. -/
theorem encoding_cases (hdouble : self.highDensity = false) (words : List (BitVec 16))
    (bitLen : Nat) :
    ((bitLen = 0 ∨ words.length * 16 < bitLen) ∧ ∃ e, encoding self words bitLen = .error e) ∨
      (¬ (bitLen = 0 ∨ words.length * 16 < bitLen) ∧
        ∃ encoded, encoding self words bitLen = .ok encoded ∧
          encoded.length = ((trackBits words bitLen).count true + 5) / 2) := by
  have heq : encoding self words bitLen = encodeDd words bitLen (40 ≤ self.status.cylinder) := by
    unfold encoding
    rw [hdouble, if_neg Bool.false_ne_true]
  rw [heq]
  by_cases hfits : bitLen = 0 ∨ words.length * 16 < bitLen
  · refine Or.inl ⟨hfits, ?_⟩
    unfold encodeDd transitionCounts
    rw [if_pos hfits]
    exact ⟨_, rfl⟩
  · refine Or.inr ⟨hfits, ?_⟩
    cases hencoding : encodeDd words bitLen (40 ≤ self.status.cylinder) with
    | error e =>
      unfold encodeDd transitionCounts at hencoding
      rw [if_neg hfits] at hencoding
      cases hencoding
    | ok encoded => exact ⟨encoded, rfl, length_encodeDd hencoding⟩

/--
**Rejected writes.** For any track, density and replies a rejected write has sent no byte just where
the track is written at high density, does not fit its words, or has no more transitions than the
length field can announce with the four of the run-out.
-/
theorem rejectsSilently_iff (self : DrawBridge) (words : List (BitVec 16)) (bitLen : Nat)
    (fromIndex : Bool) :
    RejectsSilently self words bitLen fromIndex ↔
      self.highDensity = true ∨ bitLen = 0 ∨ words.length * 16 < bitLen ∨
        (trackBits words bitLen).count true ≤ 131066 := by
  rw [← or_assoc (a := bitLen = 0)]
  cases hdensity : self.highDensity with
  | true =>
    exact iff_of_true (rejectsSilently_of_fits fromIndex fun _ _ => Or.inl hdensity) (Or.inl rfl)
  | false =>
    rcases encoding_cases hdensity words bitLen with
      ⟨hinvalid, e, herror⟩ | ⟨hvalid, encoded, hencoding, hlength⟩
    · refine iff_of_true (rejectsSilently_of_fits fromIndex ?_) (Or.inr (Or.inl hinvalid))
      rw [herror]
      exact nofun
    · constructor
      · intro hsilent
        refine Or.inr (Or.inr (Nat.le_of_not_lt fun hmany => ?_))
        exact not_rejectsSilently fromIndex hdensity hencoding (by omega) hsilent
      · rintro (hhigh | hinvalid | hfew)
        · cases hhigh
        · exact absurd hinvalid hvalid
        · refine rejectsSilently_of_fits fromIndex fun other hother => Or.inr ?_
          rw [hencoding] at hother
          cases hother
          omega

/-! ## A dense track -/

/-- A track of nothing but transitions. -/
theorem count_trackBits_ones (count : Nat) :
    (trackBits (List.replicate count 0xffff) (count * 16)).count true = count * 16 := by
  have hones : trackBits (List.replicate count 0xffff) (count * 16) =
      List.replicate (count * 16) true := by
    unfold trackBits
    rw [List.map_eq_replicate_iff.mpr, List.length_range]
    intro position hposition
    have hlt := List.mem_range.mp hposition
    rw [wordBit_eq, List.getD_eq_getElem?_getD, List.getElem?_replicate, if_pos (by omega),
      Option.getD_some]
    have hbits : ∀ bit < 16, (0xffff : BitVec 16).getLsbD bit = true := by decide
    exact hbits _ (by omega)
  rw [hones, List.count_replicate_self]

/-- It is within the bound of a track, and the interface is left in the middle of its handshake. -/
theorem dense_not_rejectsSilently :
    131072 ≤ MAX_TRACK_BITS ∧
      ¬ RejectsSilently ⟨DriveStatus.initial, (1, 8, 0), 0, false, false⟩
        (List.replicate 8192 0xffff) 131072 true := by
  refine ⟨by decide, ?_⟩
  rcases @encoding_cases ⟨DriveStatus.initial, (1, 8, 0), 0, false, false⟩ rfl
    (List.replicate 8192 0xffff) 131072 with ⟨hinvalid, -⟩ | ⟨-, encoded, hencoding, hlength⟩
  · rw [List.length_replicate] at hinvalid
    omega
  · rw [show 131072 = 8192 * 16 from rfl, count_trackBits_ones] at hlength
    exact not_rejectsSilently true rfl hencoding (by omega)

end DrawBridge

end FluxBridge
