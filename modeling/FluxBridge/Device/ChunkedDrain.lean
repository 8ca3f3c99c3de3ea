import FluxBridge.Device.GrowingCapture

/-!
# A stream in chunks

The port delivers a stream in reads of any size, with reads in between that bring nothing in time.
An immediate read decodes what it has after each of them, and in `Auto` such a decode changes the
density; what it ends with does not depend on where the stream was cut.

* `decodeAtDensity_front` — a decode of the front of a stream leaves the decode of the whole alone
* `drainFastStream_chunking` — however a stream is delivered, an immediate read ends as a decode of
  the whole payload in one shot
-/

namespace FluxBridge

open Atomic

namespace GreaseweazleHost

/-! ## Deliveries -/

/-- What a read brings: nothing in time, or some bytes. -/
inductive Poll where
  | late (kind : IoErrorKind) (timeout : kind.isTimeout = true)
  | chunk (bytes : List Byte) (nonempty : bytes ≠ []) (fits : bytes.length ≤ CHUNK_BYTES)

def Poll.bytes : Poll → List Byte
  | .late _ _ => []
  | .chunk bytes _ _ => bytes

def Poll.answer (room : Nat) : Poll → Except IoErrorKind (Chunk room)
  | .late kind _ => .error kind
  | .chunk bytes _ _ => .ok ⟨bytes.take room, List.length_take_le room bytes⟩

theorem Poll.answer_chunk {bytes : List Byte} (nonempty : bytes ≠ [])
    (fits : bytes.length ≤ CHUNK_BYTES) :
    (Poll.chunk bytes nonempty fits).answer CHUNK_BYTES = .ok ⟨bytes, fits⟩ :=
  congrArg Except.ok (Subtype.ext (List.take_of_length_le fits))

/-- The reads of a history. -/
def readCount : History wireSig → Nat
  | [] => 0
  | ⟨.read _, _⟩ :: h => readCount h + 1
  | _ :: h => readCount h

/-- A port that brings the polls one after the other, and does nothing else. -/
def delivering (polls : List Poll) (h : History wireSig) : (o : WireOp) → Option o.Ret
  | .setTimeout => some (.ok ())
  | .read room => polls[readCount h]?.map (Poll.answer room)
  | .progress _ _ => some ()
  | _ => none

/-- The polls bring a payload and the zero behind it, before the deadline. -/
structure Delivers (polls : List Poll) (deadline : Nat) (payload : List Byte) : Prop where
  brings : payload ++ [0] <+: polls.flatMap Poll.bytes
  inTime : polls.length ≤ deadline

/-- The decode of a whole payload, and the bits of it. -/
def oneShot (host : GreaseweazleHost) (density : DensityMode) (payload : List Byte) :
    Except Error (GreaseweazleHost × List Bool) :=
  (host.toGreaseweazle.decodeAtDensity payload density).map fun (flux, events) =>
    ({ host with toGreaseweazle := flux }, (PllDecoder.new.run events).2)

/-- A run has ended as the decode in one shot. -/
def EndsAs (host : GreaseweazleHost) (density : DensityMode) (payload : List Byte)
    (run : Prog wireSig GreaseweazleHost (Except Error (List Bool))) : Prop :=
  match oneShot host density payload with
  | .ok (host', bits) => run = .ret host' (.ok bits)
  | .error e => run.result? = some (.error e)

end GreaseweazleHost

/-! ## Decodes in between -/

/-- A decode of the front of a stream leaves the decode of the whole as it is: what changes the
density without being asked for it has seen enough events, and the whole has them too. -/
theorem Greaseweazle.decodeAtDensity_front {self flux : Greaseweazle} {front : List Byte}
    {density : DensityMode} {events : List FluxEvent}
    (h : self.decodeAtDensity front density = .ok (flux, events)) (rest : List Byte) :
    flux.decodeAtDensity (front ++ rest) density =
      self.decodeAtDensity (front ++ rest) density := by
  unfold Greaseweazle.decodeAtDensity at h ⊢
  cases hfront : decodeStream front self.sampleFrequency with
  | error e =>
    rw [hfront] at h
    cases h
  | ok early =>
    rw [hfront] at h
    cases h
    dsimp only
    cases hwhole : decodeStream (front ++ rest) self.sampleFrequency with
    | error e => rfl
    | ok whole =>
      cases density with
      | double => rfl
      | high => rfl
      | auto =>
        have hlength : early.length ≤ whole.length :=
          (decodeStream_grows (List.prefix_append front rest) hfront hwhole).length_le
        by_cases hmany : HD_DETECT_MIN_EVENTS ≤ whole.length
        · simp [bind, Except.bind, pure, Except.pure, hmany]
        · have hfew : ¬ HD_DETECT_MIN_EVENTS ≤ early.length := fun h => hmany (h.trans hlength)
          simp [bind, Except.bind, pure, Except.pure, hmany, hfew]

namespace GreaseweazleHost

theorem oneShot_front {self : GreaseweazleHost} {flux : Greaseweazle} {front : List Byte}
    {density : DensityMode} {events : List FluxEvent}
    (h : self.toGreaseweazle.decodeAtDensity front density = .ok (flux, events))
    (rest : List Byte) :
    oneShot { self with toGreaseweazle := flux } density (front ++ rest) =
      oneShot self density (front ++ rest) := by
  unfold oneShot
  rw [Greaseweazle.decodeAtDensity_front h rest]

/-! ## Polls -/

section Run

variable {D α : Type} {polls left : List Poll} {poll : Poll} {h : History wireSig}

/-- One pass of a loop: the read is answered by the next poll. -/
theorem runWith_poll {f : Except IoErrorKind (Chunk CHUNK_BYTES) → Host D α} (self : D)
    (hleft : polls.drop (readCount h) = poll :: left) :
    ((setTimeout >>= fun _ => wire (.read CHUNK_BYTES) >>= f) self).runWith (delivering polls) h =
      (f (poll.answer CHUNK_BYTES) self).runWith (delivering polls)
        (⟨.read CHUNK_BYTES, poll.answer CHUNK_BYTES⟩ :: ⟨.setTimeout, .ok ()⟩ :: h) := by
  have hread : delivering polls (⟨.setTimeout, .ok ()⟩ :: h) (.read CHUNK_BYTES) =
      some (poll.answer CHUNK_BYTES) := by
    have hnext : polls[readCount h]? = some poll := by
      rw [← List.head?_drop, hleft, List.head?_cons]
    show (polls[readCount h]?).map (Poll.answer CHUNK_BYTES) = _
    rw [hnext, Option.map_some]
  have htimeout : ((setTimeout : Host D Unit) self).runWith (delivering polls) h =
      (.ret self (.ok ()), ⟨.setTimeout, .ok ()⟩ :: h) := rfl
  rw [Fallible.runWith_ok htimeout, Fallible.runWith_ok (Fallible.runWith_perform hread)]

theorem drop_poll (hleft : polls.drop (readCount h) = poll :: left)
    {answer : Except IoErrorKind (Chunk CHUNK_BYTES)} :
    polls.drop (readCount (⟨.read CHUNK_BYTES, answer⟩ :: ⟨.setTimeout, .ok ()⟩ :: h)) = left := by
  show polls.drop (readCount h + 1) = left
  rw [← List.drop_drop, hleft]
  rfl

end Run

/-! ## The payload -/

theorem takeWhile_payload {payload : List Byte} (hzero : 0 ∉ payload) (rest : List Byte) :
    (payload ++ 0 :: rest).takeWhile (fun byte => byte ≠ 0) = payload := by
  have hall : ∀ byte ∈ payload, decide (byte ≠ 0) = true := by
    intro byte hbyte
    exact decide_eq_true fun heq => hzero (heq ▸ hbyte)
  rw [List.takeWhile_append_of_pos hall, List.takeWhile_cons_of_neg (by simp), List.append_nil]

/-- What was read before the zero is the front of the payload. -/
theorem prefix_payload {payload raw more : List Byte} (hraw : 0 ∉ raw)
    (hbrings : payload ++ [0] <+: raw ++ more) : raw <+: payload := by
  rcases List.prefix_or_prefix_of_prefix (List.prefix_append raw more) hbrings with hfront | hback
  · rcases List.prefix_concat_iff.mp hfront with heq | hfront
    · rw [heq] at hraw
      exact absurd (List.mem_append_right payload (List.mem_singleton_self 0)) hraw
    · exact hfront
  · exact absurd (hback.subset (List.mem_append_right payload (List.mem_singleton_self 0))) hraw

/-- The read that brings the zero completes the payload. -/
theorem payload_eq {payload raw bytes more : List Byte} (hzero : 0 ∉ payload) (hraw : 0 ∉ raw)
    (hbytes : 0 ∈ bytes) (hbrings : payload ++ [0] <+: raw ++ (bytes ++ more)) :
    raw ++ bytes.takeWhile (fun byte => byte ≠ 0) = payload := by
  obtain ⟨rest, hrest⟩ := hbrings
  obtain ⟨front, back, rfl, hfront⟩ := List.eq_append_cons_of_mem hbytes
  have hboth : 0 ∉ raw ++ front := by
    intro hmem
    rcases List.mem_append.mp hmem with hmem | hmem
    · exact hraw hmem
    · exact hfront hmem
  have heq : payload ++ 0 :: rest = (raw ++ front) ++ 0 :: (back ++ more) := by
    simpa using hrest
  calc raw ++ (front ++ 0 :: back).takeWhile (fun byte => byte ≠ 0)
      = raw ++ front := by rw [takeWhile_payload hfront]
    _ = ((raw ++ front) ++ 0 :: (back ++ more)).takeWhile (fun byte => byte ≠ 0) :=
      (takeWhile_payload hboth _).symm
    _ = payload := by rw [← heq, takeWhile_payload hzero]

/-! ## The loops -/

section Loops

variable {polls : List Poll} {payload : List Byte}

/-- Where a loop over a delivered stream stands: what was read, and the polls that are left. -/
structure Under (polls : List Poll) (payload raw : List Byte) (left : List Poll) (deadline : Nat)
    (h : History wireSig) : Prop where
  next : polls.drop (readCount h) = left
  inTime : left.length ≤ deadline
  nonzero : 0 ∉ raw
  brings : payload ++ [0] <+: raw ++ left.flatMap Poll.bytes

variable {raw : List Byte} {left : List Poll} {poll : Poll} {deadline : Nat}
  {h : History wireSig}

/-- There is a poll, and time for it: the zero has not come yet. -/
theorem Under.cases (hunder : Under polls payload raw left deadline h) :
    ∃ poll later deadline', left = poll :: later ∧ deadline = deadline' + 1 := by
  cases left with
  | nil =>
    have hmem : 0 ∈ raw ++ [] := hunder.brings.subset
      (List.mem_append_right payload (List.mem_singleton_self 0))
    rw [List.append_nil] at hmem
    exact absurd hmem hunder.nonzero
  | cons poll later =>
    cases deadline with
    | zero => exact absurd hunder.inTime (Nat.not_succ_le_zero _)
    | succ deadline' => exact ⟨poll, later, deadline', rfl, rfl⟩

/-- A read that brings nothing in time. -/
theorem Under.late {kind : IoErrorKind} {timeout : kind.isTimeout = true}
    (hunder : Under polls payload raw (.late kind timeout :: left) (deadline + 1) h) :
    Under polls payload raw left deadline
      (⟨.read CHUNK_BYTES, .error kind⟩ :: ⟨.setTimeout, .ok ()⟩ :: h) where
  next := drop_poll hunder.next
  inTime := Nat.le_of_succ_le_succ hunder.inTime
  nonzero := hunder.nonzero
  brings := hunder.brings

/-- A read that does not bring the zero. -/
theorem Under.chunk {bytes : List Byte} {nonempty : bytes ≠ []} {fits : bytes.length ≤ CHUNK_BYTES}
    (hunder : Under polls payload raw (.chunk bytes nonempty fits :: left) (deadline + 1) h)
    (hbytes : 0 ∉ bytes) :
    Under polls payload (raw ++ bytes) left deadline
      (⟨.read CHUNK_BYTES, .ok ⟨bytes, fits⟩⟩ :: ⟨.setTimeout, .ok ()⟩ :: h) where
  next := drop_poll hunder.next
  inTime := Nat.le_of_succ_le_succ hunder.inTime
  nonzero hmem := (List.mem_append.mp hmem).elim hunder.nonzero hbytes
  brings := by
    have hbrings := hunder.brings
    rwa [List.flatMap_cons, ← List.append_assoc] at hbrings

/-- The loop does not stop at the ceiling. -/
theorem Under.room (hunder : Under polls payload raw left deadline h)
    (hshort : payload.length < MAX_STREAM_BYTES) : ¬ MAX_STREAM_BYTES ≤ raw.length := by
  have hlength := (prefix_payload hunder.nonzero hunder.brings).length_le
  omega

/-- Reading a whole stream. -/
theorem runWith_readTerminatedUntil {D : Type} (operation : String) (self : D)
    (hzero : 0 ∉ payload) (hshort : payload.length < MAX_STREAM_BYTES)
    (hunder : Under polls payload raw left deadline h) :
    ∃ h', ((readTerminatedUntil operation MAX_STREAM_BYTES deadline raw : Host D _) self).runWith
      (delivering polls) h = (.ret self (.ok payload), h') := by
  -- on the polls that are left: each of them takes one pass
  induction left generalizing raw deadline h with
  | nil =>
    obtain ⟨poll, later, _, hleft, _⟩ := hunder.cases
    cases hleft
  | cons poll left ih =>
    obtain ⟨_, _, deadline, hleft, rfl⟩ := hunder.cases
    cases hleft
    rw [readTerminatedUntil, if_neg (hunder.room hshort), runWith_poll self hunder.next]
    cases poll with
    | late kind timeout =>
      show ∃ h', ((if kind.isTimeout then _ else _ : Host D _) self).runWith _ _ = _
      rw [if_pos timeout]
      exact ih hunder.late
    | chunk bytes nonempty fits =>
      rw [Poll.answer_chunk]
      cases bytes with
      | nil => exact absurd rfl nonempty
      | cons byte bytes =>
        by_cases hbytes : 0 ∈ byte :: bytes
        · have hpayload := payload_eq hzero hunder.nonzero hbytes hunder.brings
          show ∃ h', ((if 0 ∈ byte :: bytes then _ else _ : Host D _) self).runWith _ _ = _
          rw [if_pos hbytes, hpayload]
          exact ⟨_, rfl⟩
        · show ∃ h', ((if 0 ∈ byte :: bytes then _ else _ : Host D _) self).runWith _ _ = _
          rw [if_neg hbytes]
          exact ih (hunder.chunk hbytes)

/-! ### Publishing -/

theorem runWith_decodeAtDensity {self : GreaseweazleHost} {density : DensityMode}
    {flux : Greaseweazle} {events : List FluxEvent}
    (hdecode : self.toGreaseweazle.decodeAtDensity raw density = .ok (flux, events)) :
    (decodeAtDensity raw density self).runWith (delivering polls) h =
      (.ret { self with toGreaseweazle := flux } (.ok events), h) := by
  have hself : ((Fallible.self : Host GreaseweazleHost _) self).runWith (delivering polls) h =
      (.ret self (.ok self), h) := rfl
  unfold decodeAtDensity
  rw [Fallible.runWith_ok hself, hdecode]
  rfl

theorem runWith_decodeAtDensity_error {self : GreaseweazleHost} {density : DensityMode} {e : Error}
    (hdecode : self.toGreaseweazle.decodeAtDensity raw density = .error e) :
    (decodeAtDensity raw density self).runWith (delivering polls) h =
      (.ret self (.error e), h) := by
  have hself : ((Fallible.self : Host GreaseweazleHost _) self).runWith (delivering polls) h =
      (.ret self (.ok self), h) := rfl
  unfold decodeAtDensity
  rw [Fallible.runWith_ok hself, hdecode]
  rfl

/-- The whole stream. -/
theorem runWith_publishWhole (self : GreaseweazleHost) (density : DensityMode) :
    EndsAs self density payload
      ((publishWhole density payload self).runWith (delivering polls) h).1 := by
  unfold EndsAs oneShot publishWhole
  cases hdecode : self.toGreaseweazle.decodeAtDensity payload density with
  | error e =>
    rw [Fallible.runWith_error (runWith_decodeAtDensity_error hdecode)]
    rfl
  | ok decoded =>
    rw [Fallible.runWith_ok (runWith_decodeAtDensity hdecode)]
    rfl

/-- A publish in between may change the density, but not what the whole stream decodes to. -/
theorem runWith_publishPartial (self : GreaseweazleHost) (density : DensityMode)
    (published : Nat) :
    ∃ self' published' h', (publishPartial density raw published self).runWith (delivering polls) h
        = (.ret self' (.ok published'), h') ∧ readCount h' = readCount h ∧
      ∀ rest, oneShot self' density (raw ++ rest) = oneShot self density (raw ++ rest) := by
  unfold publishPartial
  split
  · cases hdecode : self.toGreaseweazle.decodeAtDensity raw density with
    | error e =>
      rw [Fallible.runWith_ok
        (Fallible.runWith_attempt (runWith_decodeAtDensity_error hdecode))]
      exact ⟨self, published, h, rfl, rfl, fun _ => rfl⟩
    | ok decoded =>
      rw [Fallible.runWith_ok (Fallible.runWith_attempt (runWith_decodeAtDensity hdecode))]
      exact ⟨_, raw.length, _, rfl, rfl, oneShot_front hdecode⟩
  · exact ⟨self, published, h, rfl, rfl, fun _ => rfl⟩

theorem Under.of_readCount (hunder : Under polls payload raw left deadline h)
    {h' : History wireSig} (hcount : readCount h' = readCount h) :
    Under polls payload raw left deadline h' where
  next := hcount ▸ hunder.next
  inTime := hunder.inTime
  nonzero := hunder.nonzero
  brings := hunder.brings

/-- An immediate read of a delivered stream. -/
theorem runWith_drainFastStream (density : DensityMode) (hzero : 0 ∉ payload)
    (hshort : payload.length < MAX_STREAM_BYTES)
    (hunder : Under polls payload raw left deadline h) (published : Nat)
    (self : GreaseweazleHost) :
    EndsAs self density payload
      ((drainFastStream density deadline raw published self).runWith (delivering polls) h).1 := by
  -- on the polls that are left; a publish in between leaves the end as it is
  induction left generalizing raw deadline h published self with
  | nil =>
    obtain ⟨poll, later, _, hleft, _⟩ := hunder.cases
    cases hleft
  | cons poll left ih =>
    obtain ⟨_, _, deadline, hleft, rfl⟩ := hunder.cases
    cases hleft
    rw [drainFastStream, if_neg (hunder.room hshort), runWith_poll self hunder.next]
    cases poll with
    | late kind timeout =>
      show EndsAs self density payload
        (((if kind.isTimeout then _ else _ : Host GreaseweazleHost _) self).runWith _ _).1
      rw [if_pos timeout]
      exact ih hunder.late published self
    | chunk bytes nonempty fits =>
      rw [Poll.answer_chunk]
      cases bytes with
      | nil => exact absurd rfl nonempty
      | cons byte bytes =>
        show EndsAs self density payload
          (((if 0 ∈ byte :: bytes then _ else _ : Host GreaseweazleHost _) self).runWith _ _).1
        by_cases hbytes : 0 ∈ byte :: bytes
        · rw [if_pos hbytes, payload_eq hzero hunder.nonzero hbytes hunder.brings]
          exact runWith_publishWhole self density
        · rw [if_neg hbytes]
          have hread := hunder.chunk hbytes
          obtain ⟨self', published', h', hpartial, hcount, hsame⟩ :=
            @runWith_publishPartial polls _ _ self density published
          rw [Fallible.runWith_ok hpartial]
          have hend := ih (hread.of_readCount hcount) published' self'
          obtain ⟨rest, hrest⟩ := prefix_payload hread.nonzero hread.brings
          unfold EndsAs at hend ⊢
          rwa [← hrest, hsame rest, hrest] at hend

end Loops

/-! ## Any two deliveries -/

theorem Delivers.under {polls : List Poll} {payload : List Byte} {deadline : Nat}
    (h : Delivers polls deadline payload) : Under polls payload [] polls deadline [] where
  next := List.drop_zero
  inTime := h.inTime
  nonzero := List.not_mem_nil
  brings := h.brings

/-- A whole stream that is delivered. -/
def terminated (operation : String) (polls : List Poll) (deadline : Nat) (host : GreaseweazleHost) :
    Prog wireSig GreaseweazleHost (Except Error (List Byte)) :=
  ((readTerminatedUntil operation MAX_STREAM_BYTES deadline [] : Host GreaseweazleHost _)
    host).runWith (delivering polls) [] |>.1

/-- An immediate read of a stream that is delivered. -/
def drained (density : DensityMode) (polls : List Poll) (deadline : Nat)
    (host : GreaseweazleHost) : Prog wireSig GreaseweazleHost (Except Error (List Bool)) :=
  ((drainFastStream density deadline [] 0 host).runWith (delivering polls) []).1

theorem EndsAs.eq {host : GreaseweazleHost} {density : DensityMode} {payload : List Byte}
    {run run' : Prog wireSig GreaseweazleHost (Except Error (List Bool))}
    (h : EndsAs host density payload run) (h' : EndsAs host density payload run') :
    run.result? = run'.result? ∧ ∀ bits, run.result? = some (.ok bits) → run = run' := by
  unfold EndsAs at h h'
  split at h
  · next hdecode =>
    rw [hdecode] at h'
    rw [h, h']
    exact ⟨rfl, fun _ _ => rfl⟩
  · next hdecode =>
    rw [hdecode] at h'
    rw [h, h']
    exact ⟨rfl, fun _ hbits => by cases hbits⟩

/-- **Chunking.** However a stream is delivered before the deadline, an immediate read ends with the
same bits or the same error, and leaves the same density; it ends as the decode in one shot of the
payload, which is what reading the whole stream returns. -/
theorem drainFastStream_chunking (host : GreaseweazleHost) (density : DensityMode)
    {payload : List Byte} (hzero : 0 ∉ payload) (hshort : payload.length < MAX_STREAM_BYTES)
    {polls polls' : List Poll} {deadline deadline' : Nat} (h : Delivers polls deadline payload)
    (h' : Delivers polls' deadline' payload) (operation : String) :
    let run := drained density polls deadline host
    let run' := drained density polls' deadline' host
    run.result? = run'.result? ∧
      (∀ bits, run.result? = some (.ok bits) → run.priv.highDensity = run'.priv.highDensity) ∧
      EndsAs host density payload run ∧ EndsAs host density payload run' ∧
      (terminated operation polls deadline host).result? = some (.ok payload) ∧
      (terminated operation polls' deadline' host).result? = some (.ok payload) := by
  intro run run'
  have hrun : EndsAs host density payload run :=
    runWith_drainFastStream density hzero hshort h.under 0 host
  have hrun' : EndsAs host density payload run' :=
    runWith_drainFastStream density hzero hshort h'.under 0 host
  obtain ⟨hresult, hsame⟩ := hrun.eq hrun'
  refine ⟨hresult, fun bits hbits => ?_, hrun, hrun', ?_, ?_⟩
  · rw [hsame bits hbits]
  · obtain ⟨_, hend⟩ := runWith_readTerminatedUntil operation host hzero hshort h.under
    unfold terminated
    rw [hend]
    rfl
  · obtain ⟨_, hend⟩ := runWith_readTerminatedUntil operation host hzero hshort h'.under
    unfold terminated
    rw [hend]
    rfl

/-- One read of everything and of more, and one code cut in two. -/
theorem drainFastStream_chunking_cut :
    let run := drained .auto [.chunk [80, 250, 6, 0, 7] (by decide) (by decide)] 1 (spinning true)
    run.result? = (drained .auto [.chunk [80, 250] (by decide) (by decide), .late .timedOut rfl,
      .chunk [6, 0] (by decide) (by decide)] 5 (spinning true)).result? ∧
      EndsAs (spinning true) .auto [80, 250, 6] run :=
  have hwhole : Delivers [.chunk [80, 250, 6, 0, 7] (by decide) (by decide)] 1 [80, 250, 6] :=
    ⟨by decide, by decide⟩
  have hcut : Delivers [.chunk [80, 250] (by decide) (by decide), .late .timedOut rfl,
      .chunk [6, 0] (by decide) (by decide)] 5 [80, 250, 6] := ⟨by decide, by decide⟩
  have hchunking := drainFastStream_chunking (spinning true) .auto (by decide) (by decide) hwhole
    hcut "read"
  ⟨hchunking.1, hchunking.2.2.1⟩

end GreaseweazleHost

end FluxBridge
