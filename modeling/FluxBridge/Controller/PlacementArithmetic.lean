import FluxBridge.Atomic.History
import FluxBridge.Controller.Placement

/-!
# The arithmetic of a write's place

`start_bit` is the only field of a request that no check bounds. It enters `start_bit + 30 >=
track_bits` twice: in `submit_write`, when a capture of the track is cached, and in
`perform_write`. With overflow checks the sum panics; and it is at the end of the track for every
position from there on, also for one that is not on the track.

* `anyContent`, `whileCached` — what the shared state may answer
* `NoOverflow` — neither function overflows, whatever the cache holds
* `RefusesPastEnd` — a write that names no position of the track is not made
* `performWrite_unwinds_iff`, `noOverflow_iff` — the requests that never overflow
* `placementTotal_iff` — the requests for which both hold
-/

namespace FluxBridge

open Atomic

/-! ## The shared state -/

/-- The shared state may hold anything. -/
def anyContent : Env controllerSig := fun _ o r => ∃ i w w', exec o i w = some (r, w')

/-- A capture of that many bits is at the front of the track's queue throughout. -/
def whileCached (track : TrackAddress) (bits : Nat) : Env controllerSig := fun _ o r =>
  ∃ i w w', exec o i w = some (r, w') ∧
    (w.front track).map (fun c => c.capture.bitLen) = some bits

/-- `submit_write` comes to hand the request over to the worker, with its track clamped. -/
def Enqueues (env : Env controllerSig) (checks : Bool) (request sent : WriteRequest) : Prop :=
  ∃ bridge p h id, Walk env p h (Bridge.submitWrite checks request bridge) [] ∧
    p.next? = some (.trySendCommand (.write id sent))

/-- Neither function overflows: no sum with `start_bit` panics, and none with `bit_len` could. -/
structure NoOverflow (request : WriteRequest) : Prop where
  submit : ∀ bridge bridge' answer h,
    Walk anyContent (.ret bridge' answer) h (Bridge.submitWrite true request bridge) [] →
    answer ≠ .panicked
  perform : ∀ sent, Enqueues anyContent true request sent → ∀ id worker worker' flow h,
    Walk anyContent (.ret worker' flow) h (performWrite true id sent worker) [] → flow ≠ .unwound
  submitLength : ∀ bridge p h track,
    Walk anyContent p h (Bridge.submitWrite true request bridge) [] →
    p.next? = some (.frontCapture track) → request.bitLen + 16 < USIZE_RANGE
  performLength : ∀ sent, Enqueues anyContent true request sent → sent.bitLen + 16 < USIZE_RANGE

/-- The request is too short for a track of `bits` bits and begins behind its end. -/
def PastEnd (request : WriteRequest) (bits : Nat) : Prop :=
  request.bitLen + 16 < bits ∧ bits + INDEX_WRITE_SLACK_BITS ≤ request.startBit

/-- Such a request is not written while a capture of that length is cached. -/
def RefusesPastEnd (checks : Bool) (request : WriteRequest) (bits : Nat) : Prop :=
  PastEnd request bits → ∀ sent, Enqueues (whileCached sent.track bits) checks request sent →
    ∀ id worker p h,
      Walk (whileCached sent.track bits) p h (performWrite checks id sent worker) [] →
      ∀ written fromIndex density,
        p.next? ≠ some (.deviceWrite sent written fromIndex density)

variable {checks : Bool} {request : WriteRequest}

/-! ## The sum -/

theorem fromIndex_ne_none {startBit bits : Nat}
    (h : startBit + INDEX_WRITE_SLACK_BITS < USIZE_RANGE) :
    fromIndex checks startBit bits ≠ none := by
  unfold fromIndex addUsize
  rw [if_pos h]
  split <;> simp

theorem fromIndex_eq_none {startBit : Nat} (h : USIZE_RANGE ≤ startBit + INDEX_WRITE_SLACK_BITS)
    (bits : Nat) : fromIndex true startBit bits = none := by
  unfold fromIndex addUsize
  rw [if_neg (by unfold USIZE_RANGE INDEX_WRITE_SLACK_BITS at *; omega), if_neg (by omega)]
  rfl

/-- Every position from the end of the track on counts as near the index. -/
theorem fromIndex_pastEnd {startBit bits : Nat}
    (hroom : startBit + INDEX_WRITE_SLACK_BITS < USIZE_RANGE)
    (hpast : bits + INDEX_WRITE_SLACK_BITS ≤ startBit) :
    fromIndex checks startBit bits = some true := by
  unfold fromIndex addUsize
  rw [if_pos hroom]
  split
  · rfl
  · simp only [Option.map_some, Option.some.injEq, decide_eq_true_eq]
    omega

theorem bitLen_of_valid (h : Bridge.validateRequest request = .ok ()) :
    request.bitLen + 16 < USIZE_RANGE := by
  unfold Bridge.validateRequest at h
  split at h
  · cases h
  · split at h
    · cases h
    · split at h
      · cases h
      · split at h
        · cases h
        next hlimit =>
          unfold MAX_TRACK_BITS at hlimit
          unfold USIZE_RANGE
          omega

/-! ## `submit_write` -/

/-- The request with its track clamped. -/
def clamped (bridge : Bridge) (request : WriteRequest) : WriteRequest :=
  { request with track := clampTrack request.track bridge.maxCylinders }

/-- What `submit_write` does with the front capture it found. -/
def submitPlaced (checks : Bool) (request : WriteRequest) (front : Option Cached) :
    BridgeM Answer :=
  match Bridge.checkPlacement checks request ((front.map fun c => c.capture.bitLen).getD 0) with
  | none => pure .panicked
  | some (.error e) => pure (.accepted (.error e))
  | some (.ok ()) => Bridge.enqueueWrite request

/-- What `submit_write` does with the checks of the request alone. -/
def submitChecked (checks : Bool) (request : WriteRequest) : Except Error Unit → BridgeM Answer
  | .error e => pure (.accepted (.error e))
  | .ok () => do
    let status ← step .readStatus
    if status.writeProtected then pure (.accepted (.error .writeProtected))
    else do
      let front ← step (.frontCapture request.track)
      submitPlaced checks request front

theorem submitWrite_eq (request : WriteRequest) (bridge : Bridge) :
    Bridge.submitWrite checks request bridge =
      submitChecked checks (clamped bridge request) (Bridge.validateRequest request) bridge := rfl

theorem fromIndex_of_checkPlacement {bits : Nat}
    (h : Bridge.checkPlacement checks request bits = none) :
    fromIndex checks request.startBit bits = none := by
  unfold Bridge.checkPlacement at h
  split at h
  · cases h
  · simpa using h

/-- What `submit_write` knows of the request where it looks at the cache and where it sends. -/
def Carries (request : WriteRequest) : Op → Prop
  | .trySendCommand (.write _ sent) => Bridge.validateRequest request = .ok () ∧
      sent.bitLen = request.bitLen ∧ sent.startBit = request.startBit
  | .frontCapture _ => Bridge.validateRequest request = .ok ()
  | _ => True

theorem submitPlaced_wlp {env : Env controllerSig} {bridge : Bridge} {front : Option Cached}
    {l : Bridge} {h : History controllerSig} (hvalid : Bridge.validateRequest request = .ok ()) :
    (submitPlaced checks (clamped bridge request) front l).wlp env
      (fun _ o _ => Carries request o)
      (fun answer _ _ => answer = .panicked →
        fromIndex checks request.startBit ((front.map fun c => c.capture.bitLen).getD 0) = none)
      h := by
  unfold submitPlaced
  cases hplace : Bridge.checkPlacement checks (clamped bridge request)
      ((front.map fun c => c.capture.bitLen).getD 0) with
  | none => exact fun _ => fromIndex_of_checkPlacement hplace
  | some result =>
    cases result with
    | error e => exact nofun
    | ok _ =>
      refine ⟨⟨hvalid, rfl, rfl⟩, fun r _ => ?_⟩
      cases r <;> exact nofun

/-- Where `submit_write` panics, the sum with `start_bit` did. -/
theorem submitWrite_wlp {env : Env controllerSig} {bridge : Bridge}
    {h : History controllerSig} :
    (Bridge.submitWrite checks request bridge).wlp env (fun _ o _ => Carries request o)
      (fun answer _ _ => answer = .panicked → Bridge.validateRequest request = .ok () ∧
        ∃ bits, fromIndex checks request.startBit bits = none) h := by
  rw [submitWrite_eq]
  cases hvalid : Bridge.validateRequest request with
  | error e => exact nofun
  | ok _ =>
    refine ⟨trivial, fun status _ => ?_⟩
    show Prog.wlp _ _ _ ((if status.writeProtected then _ else _ : BridgeM Answer) bridge) _
    split
    · exact nofun
    · refine ⟨hvalid, fun front _ => ?_⟩
      exact Prog.wlp_mono (submitPlaced_wlp hvalid) fun _ _ _ hpanic answer =>
        ⟨rfl, _, hpanic answer⟩

theorem carries_of_enqueues {env : Env controllerSig} {sent : WriteRequest}
    (h : Enqueues env checks request sent) : Bridge.validateRequest request = .ok () ∧
      sent.bitLen = request.bitLen ∧ sent.startBit = request.startBit := by
  obtain ⟨bridge, p, h, id, hwalk, hnext⟩ := h
  exact hwalk.ready submitWrite_wlp hnext

/-! ## `perform_write` -/

/-- What `perform_write` does with the length it looked up. -/
def writePlaced (checks : Bool) (request : WriteRequest) (trackBits : Nat) :
    WorkerM (Option (Except Error Unit)) :=
  match fromIndex checks request.startBit trackBits with
  | none => pure none
  | some fromIndex => do
    let wholeRevolution := decide (trackBits ≤ request.bitLen + 16)
    if !fromIndex && !wholeRevolution then
      pure (some (.error (.unplaceablePartialWrite request.startBit trackBits)))
    else do
      let w ← own
      let result ← step (.deviceWrite request request.bitLen fromIndex w.config.density)
      pure (some result)

/-- What `perform_write` does when the device part is over. -/
def reportWrite (id : WriteId) (request : WriteRequest) :
    Option (Except Error Unit) → WorkerM Flow
  | none => pure .unwound
  | some result => do
    step (.invalidate request.track)
    let _ ← step (.trySendEvent (writeEvent id request result))
    pure .go

theorem writePlaced_wlp {env : Env controllerSig} {trackBits : Nat} {l : Worker}
    {h : History controllerSig} (hroom : request.startBit + INDEX_WRITE_SLACK_BITS < USIZE_RANGE) :
    (writePlaced checks request trackBits l).wlp env (fun _ _ _ => True)
      (fun result _ _ => result ≠ none) h := by
  unfold writePlaced
  cases hfrom : fromIndex checks request.startBit trackBits with
  | none => exact absurd hfrom (fromIndex_ne_none hroom)
  | some fi =>
    dsimp only
    split
    · exact nofun
    · exact ⟨trivial, fun _ _ => nofun⟩

/-- Where the sum does not overflow, the worker does not unwind. -/
theorem performWrite_wlp {env : Env controllerSig} {id : WriteId} {worker : Worker}
    {h : History controllerSig} (hroom : request.startBit + INDEX_WRITE_SLACK_BITS < USIZE_RANGE) :
    (performWrite checks id request worker).wlp env (fun _ _ _ => True)
      (fun flow _ _ => flow ≠ .unwound) h := by
  have hattempt : (attemptWrite checks request worker).wlp env (fun _ _ _ => True)
      (fun result _ _ => result ≠ none) h := by
    refine Prog.wlp_bind.mpr (Prog.wlp_always _ fun positioned l h => ?_)
    cases positioned with
    | error e => exact nofun
    | ok _ => exact ⟨trivial, fun trackBits _ => writePlaced_wlp hroom⟩
  refine Prog.wlp_bind.mpr (Prog.wlp_mono hattempt fun result l h hresult => ?_)
  cases result with
  | none => exact absurd rfl hresult
  | some result => exact ⟨trivial, fun _ _ => ⟨trivial, fun _ _ => nofun⟩⟩

/-! ## Runs past the bounds -/

/-- A capture of that many bits in the cache. -/
def holding (track : TrackAddress) (bits : Nat) : World :=
  { World.opened .idle track with
    captures := AList.insert track
      [⟨{ words := [], bitLen := bits, quality := .indexAligned, generation := 0 }, 0⟩] ∅ }

theorem front_holding (track : TrackAddress) (bits : Nat) :
    ((holding track bits).front track).map (fun c => c.capture.bitLen) = some bits := by
  unfold World.front World.queue holding
  rw [AList.lookup_insert]
  rfl

theorem whileCached_of_exec {track : TrackAddress} {bits : Nat} {o : Op} {r : o.Ret} {w : World}
    {h : History controllerSig} (hexec : exec o {} (holding track bits) = some (r, w)) :
    whileCached track bits h o r :=
  ⟨{}, _, w, hexec, front_holding track bits⟩

theorem anyContent_of_exec {o : Op} {r : o.Ret} {w w' : World} {h : History controllerSig}
    (hexec : exec o {} w = some (r, w')) : anyContent h o r :=
  ⟨{}, w, w', hexec⟩

/-- A worker whose head is where the request wants it. -/
def parked (request : WriteRequest) : Worker :=
  { Worker.new { mode := .normal, density := .auto, stallTimeout := 0 } 0 with
    positioned := true, physical := request.track }

theorem position_parked (request : WriteRequest) :
    position request.track (parked request) = .act (parked request)
      (.confirmPosition request.track.cylinder request.track.side)
      fun _ => .ret (parked request) (.ok ()) := by
  have hcylinder : positionCylinder request.track (parked request) =
      .ret (parked request) (.ok ()) := by
    show (if (false || request.track.cylinder != request.track.cylinder) = true then _
      else pure (.ok ()) : WorkerM (Except Error Unit)) (parked request) = _
    rw [if_neg (by simp)]
    rfl
  have hside : positionSide request.track (parked request) = .ret (parked request) (.ok ()) := by
    show (if (false || request.track.side != request.track.side) = true then _
      else pure (.ok ()) : WorkerM (Except Error Unit)) (parked request) = _
    rw [if_neg (by simp)]
    rfl
  show (positionCylinder request.track (parked request)).bind _ = _
  rw [hcylinder]
  show (positionSide request.track (parked request)).bind _ = _
  rw [hside]
  rfl

/-- A parked worker confirms its position, looks the length up and goes on from there. -/
theorem performWrite_parked (id : WriteId) (request : WriteRequest) :
    performWrite checks id request (parked request) =
      .act (parked request) (.confirmPosition request.track.cylinder request.track.side) fun _ =>
        .act (parked request) (.revolutionBits request) fun trackBits =>
          (writePlaced checks request trackBits (parked request)).bind
            (reportWrite id request) := by
  show ((position request.track (parked request)).bind _).bind _ = _
  rw [position_parked]
  rfl

/-- A valid request on an unprotected disk comes to its placement. -/
theorem walk_submitPlaced {env : Env controllerSig} {bridge : Bridge} {status : DriveStatus}
    {front : Option Cached} (hvalid : Bridge.validateRequest request = .ok ())
    (hopen : status.writeProtected = false) (hstatus : env [] .readStatus status)
    (hfront : env [⟨.readStatus, status⟩] (.frontCapture (clamped bridge request).track) front) :
    Walk env (submitPlaced checks (clamped bridge request) front bridge)
      [⟨.frontCapture (clamped bridge request).track, front⟩, ⟨.readStatus, status⟩]
      (Bridge.submitWrite checks request bridge) [] := by
  rw [submitWrite_eq, hvalid]
  refine .step hstatus ?_
  show Walk env _ _ ((if status.writeProtected then _ else _ : BridgeM Answer) bridge) _
  rw [if_neg (by simp [hopen])]
  exact .step hfront .here

/-- A parked worker comes to place the request on the length it looks up. -/
theorem walk_writePlaced {env : Env controllerSig} {trackBits : Nat} (id : WriteId)
    (hconfirm : env [] (.confirmPosition request.track.cylinder request.track.side) ())
    (hlength : ∀ h, env h (.revolutionBits request) trackBits) :
    ∃ h, Walk env
      ((writePlaced checks request trackBits (parked request)).bind (reportWrite id request)) h
      (performWrite checks id request (parked request)) [] := by
  rw [performWrite_parked]
  exact ⟨_, .step hconfirm (.step (hlength _) .here)⟩

/-- **The worker** unwinds exactly where the sum overflows, for any content of the cache. -/
theorem performWrite_unwinds_iff (id : WriteId) :
    (∃ worker worker' h, Walk anyContent (.ret worker' .unwound) h
      (performWrite true id request worker) []) ↔
      USIZE_RANGE ≤ request.startBit + INDEX_WRITE_SLACK_BITS := by
  constructor
  · intro ⟨worker, worker', h, hwalk⟩
    by_contra hroom
    exact hwalk.wlp (performWrite_wlp (Nat.lt_of_not_le hroom)) rfl
  · intro hover
    have hconfirm : anyContent []
        (.confirmPosition request.track.cylinder request.track.side) () :=
      anyContent_of_exec (w := World.opened .idle request.track) rfl
    have hlength (h) : anyContent h (.revolutionBits request) request.bitLen :=
      anyContent_of_exec (w := World.opened .idle request.track) rfl
    obtain ⟨h, hwalk⟩ :=
      @walk_writePlaced true request anyContent request.bitLen id hconfirm hlength
    unfold writePlaced at hwalk
    rw [fromIndex_eq_none hover] at hwalk
    exact ⟨_, _, h, hwalk⟩

/-- `submit_write` panics where the sum overflows and a capture of the track is cached. -/
theorem submitWrite_panics (hvalid : Bridge.validateRequest request = .ok ())
    (hover : USIZE_RANGE ≤ request.startBit + INDEX_WRITE_SLACK_BITS) (bridge : Bridge) :
    ∃ bridge' h, Walk anyContent (.ret bridge' .panicked) h
      (Bridge.submitWrite true request bridge) [] := by
  have hstatus : anyContent [] .readStatus .idle :=
    anyContent_of_exec (w := World.opened .idle request.track) rfl
  have hfront := front_holding (clamped bridge request).track 1
  have hwalk := @walk_submitPlaced true request anyContent bridge .idle _ hvalid rfl hstatus
    (anyContent_of_exec (w := holding (clamped bridge request).track 1) rfl)
  unfold submitPlaced Bridge.checkPlacement at hwalk
  rw [hfront] at hwalk
  rw [show fromIndex true (clamped bridge request).startBit _ = none from
    fromIndex_eq_none hover _] at hwalk
  exact ⟨_, _, hwalk⟩

/-- Neither function overflows on a request that is refused, or has room for the slack. -/
theorem noOverflow_iff : NoOverflow request ↔ (Bridge.validateRequest request = .ok () →
    request.startBit + INDEX_WRITE_SLACK_BITS < USIZE_RANGE) := by
  constructor
  · intro hno hvalid
    by_contra hover
    obtain ⟨bridge', h, hwalk⟩ := submitWrite_panics hvalid (Nat.le_of_not_lt hover)
      { nextWrite := 1, maxCylinders := 80, stallTimeout := none }
    exact hno.submit _ _ _ _ hwalk rfl
  · intro hroom
    refine ⟨?_, ?_, ?_, ?_⟩
    · intro bridge bridge' answer h hwalk hpanic
      obtain ⟨hvalid, bits, hnone⟩ := hwalk.wlp submitWrite_wlp hpanic
      exact fromIndex_ne_none (hroom hvalid) hnone
    · intro sent hsent id worker worker' flow h hwalk
      obtain ⟨hvalid, -, hstart⟩ := carries_of_enqueues hsent
      exact hwalk.wlp (performWrite_wlp (hstart ▸ hroom hvalid))
    · intro bridge p h track hwalk hnext
      exact bitLen_of_valid (hwalk.ready submitWrite_wlp hnext)
    · intro sent hsent
      obtain ⟨hvalid, hlength, -⟩ := carries_of_enqueues hsent
      exact hlength ▸ bitLen_of_valid hvalid

/-! ## Positions that are not on the track -/

theorem checkPlacement_pastEnd {bits : Nat}
    (hroom : request.startBit + INDEX_WRITE_SLACK_BITS < USIZE_RANGE)
    (hpast : PastEnd request bits) :
    Bridge.checkPlacement checks request bits = some (.ok ()) := by
  unfold Bridge.checkPlacement
  split
  · rfl
  · rw [fromIndex_pastEnd hroom hpast.2]
    rfl

/-- `submit_write` takes a position behind the end of the cached track for one at the index. -/
theorem enqueues_pastEnd {bits : Nat} (hvalid : Bridge.validateRequest request = .ok ())
    (hroom : request.startBit + INDEX_WRITE_SLACK_BITS < USIZE_RANGE)
    (hpast : PastEnd request bits) (bridge : Bridge) :
    Enqueues (whileCached (clamped bridge request).track bits) checks request
      (clamped bridge request) := by
  have hwalk := @walk_submitPlaced checks request
    (whileCached (clamped bridge request).track bits) bridge .idle _ hvalid rfl
    (whileCached_of_exec rfl) (whileCached_of_exec rfl)
  unfold submitPlaced at hwalk
  rw [front_holding, Option.getD_some,
    @checkPlacement_pastEnd checks (clamped bridge request) bits hroom hpast] at hwalk
  exact ⟨bridge, _, _, ⟨bridge.nextWrite⟩, hwalk, rfl⟩

/-- And so does `perform_write`, which writes it from the index. -/
theorem writes_pastEnd {bits : Nat}
    (hroom : request.startBit + INDEX_WRITE_SLACK_BITS < USIZE_RANGE)
    (hpast : PastEnd request bits) (id : WriteId) :
    ∃ worker p h, Walk (whileCached request.track bits) p h
        (performWrite checks id request worker) [] ∧
      ∃ density, p.next? = some (.deviceWrite request request.bitLen true density) := by
  have hlength (h) : whileCached request.track bits h (.revolutionBits request) bits :=
    ⟨{}, holding request.track bits, _, by rw [exec, front_holding]; rfl, front_holding _ _⟩
  obtain ⟨h, hwalk⟩ := @walk_writePlaced checks request (whileCached request.track bits) bits id
    (whileCached_of_exec rfl) hlength
  unfold writePlaced at hwalk
  rw [fromIndex_pastEnd hroom hpast.2] at hwalk
  exact ⟨_, _, h, hwalk, _, rfl⟩

theorem refusesPastEnd_iff {bits : Nat} (hvalid : Bridge.validateRequest request = .ok ())
    (hroom : request.startBit + INDEX_WRITE_SLACK_BITS < USIZE_RANGE) :
    RefusesPastEnd checks request bits ↔ ¬ PastEnd request bits := by
  constructor
  · intro hrefuses hpast
    let bridge : Bridge := { nextWrite := 1, maxCylinders := 80, stallTimeout := none }
    obtain ⟨worker, p, h, hwalk, density, hnext⟩ :=
      @writes_pastEnd checks (clamped bridge request) bits hroom hpast ⟨1⟩
    exact hrefuses hpast _ (enqueues_pastEnd hvalid hroom hpast bridge) _ worker p h hwalk
      _ _ _ hnext
  · intro hnot hpast
    exact absurd hpast hnot

/--
**Placement arithmetic.** Neither function overflows and a position behind the end of the cached
track is refused, exactly for the requests that are refused anyway and for those that leave room
for the slack and do not name such a position.
-/
theorem placementTotal_iff (checks : Bool) (request : WriteRequest) (bits : Nat) :
    (NoOverflow request ∧ RefusesPastEnd checks request bits) ↔
      (Bridge.validateRequest request = .ok () →
        request.startBit + INDEX_WRITE_SLACK_BITS < USIZE_RANGE ∧ ¬ PastEnd request bits) := by
  constructor
  · intro ⟨hno, hrefuses⟩ hvalid
    have hroom := noOverflow_iff.mp hno hvalid
    exact ⟨hroom, (refusesPastEnd_iff hvalid hroom).mp hrefuses⟩
  · intro hplaced
    refine ⟨noOverflow_iff.mpr fun hvalid => (hplaced hvalid).1, fun hpast sent hsent => ?_⟩
    obtain ⟨hvalid, -, -⟩ := carries_of_enqueues hsent
    exact absurd hpast (hplaced hvalid).2

/-- Capture a track of 200 bits, and let the worker take up a write that begins at bit 240. -/
def captureThenWritePast : Schedule true :=
  calling (.setMotor .lower true) 4 {} ++ calling (.readTrack ⟨0, .lower⟩) 5 {}
    ++ working [{}] ++ working (.replicate 16 { capture := .ok shortCapture })
    ++ calling (.submitWrite (requestAt 1 16 240)) 5 {} ++ working []
    ++ working (.replicate 3 {})

/--
A write at bit 240 of a track of 200 bits is made from the index, also in a run of the opened
bridge, and one at the last position of `usize` panics.
-/
theorem not_placementTotal :
    ¬ NoOverflow (requestAt 1 16 (2 ^ 64 - 1)) ∧
    ¬ RefusesPastEnd true (requestAt 1 16 240) 200 ∧
    ∃ m : Moment true, Reachable (anyRun true) m ∧
      placing? m = some (requestAt 1 16 240, 16, true, some 200) := by
  have hvalid (start) : Bridge.validateRequest (requestAt 1 16 start) = .ok () := rfl
  refine ⟨fun hno => ?_, fun hrefuses => ?_, ?_⟩
  · exact absurd (noOverflow_iff.mp hno (hvalid _)) (by decide)
  · exact (refusesPastEnd_iff (hvalid 240) (by decide)).mp hrefuses (by unfold PastEnd; decide)
  · have hplay : ((play (anyRun true) (opened true .normal ⟨5, .upper⟩)
        captureThenWritePast).any
        fun m => placing? m = some (requestAt 1 16 240, 16, true, some 200)) = true := by
      decide +kernel
    obtain ⟨m, hrun, htest⟩ := exists_reach_of_play hplay
    exact ⟨m, ⟨hrun⟩, by simpa using htest⟩

end FluxBridge
