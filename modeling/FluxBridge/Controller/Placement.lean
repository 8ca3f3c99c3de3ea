import FluxBridge.Controller.CaptureCache
import FluxBridge.Controller.Rounds

/-!
# Where a write begins on the track

A partial write can be placed only at the index (`start_bit` near 0 or near the end), or when it
covers the whole revolution. Both checks of the source compare with the length of the front
capture; without a cached capture `perform_write` compares with the request's own length.

* `lastLength` — the length of the track as the last capture of it showed, cached or not
* `Placed` — a write that begins at the index, or covers the whole track of that length
* `heldLengths` — the lengths that are still cached, as the history of the run says
* `held_of_act` — the cache holds these lengths and no others
* `lastLength_of_held` — the last of them is the length the last capture showed
* `lengthHeld_of_front` — the capture that showed it is enough where it stands in front
* `wellPlaced_of_lengthKnown` — a write is `Placed` as long as nothing has taken the length out of
  the cache when a request comes that the length would refuse
-/

namespace FluxBridge

open Atomic Atomic.Side

/-- The length of the last capture of the track that was cached since the last disk change. -/
def lastLength (track : TrackAddress) : List (Event controllerSig) → Option Nat
  | [] => none
  | ⟨.storeCapture t capture, _⟩ :: rest =>
    if t = track then some capture.bitLen else lastLength track rest
  | ⟨.clearCaptures, _⟩ :: _ => none
  | _ :: rest => lastLength track rest

/-- The write begins at the index, or covers the whole track. -/
def Placed (request : WriteRequest) (bits : Nat) (fromIndex : Bool)
    (s : Snap controller) : Prop :=
  ∀ length, lastLength request.track s.trace = some length →
    request.startBit + INDEX_WRITE_SLACK_BITS < USIZE_RANGE →
    (fromIndex = true ∧ (request.startBit ≤ INDEX_WRITE_SLACK_BITS ∨
      length ≤ request.startBit + INDEX_WRITE_SLACK_BITS)) ∨ length ≤ bits + 16

/-- Every write the worker is about to make is `Placed`. -/
def WellPlaced {checks : Bool} (m : Moment checks) : Prop :=
  ∀ request bits fromIndex density,
    m.left.next? = some (.deviceWrite request bits fromIndex density) →
    Placed request bits fromIndex m.snap

/-- A track of this length has room for the request at its index, or is covered by it. -/
def placeable (request : WriteRequest) (trackBits : Nat) : Bool :=
  request.startBit ≤ INDEX_WRITE_SLACK_BITS ||
    trackBits ≤ request.startBit + INDEX_WRITE_SLACK_BITS || trackBits ≤ request.bitLen + 16

/-! ## What keeps a length -/

/-- A reading behind the others, in a queue that holds no more than `CAPTURES_PER_TRACK`. -/
def enqueue (lengths : List Nat) (length : Nat) : List Nat :=
  (if CAPTURES_PER_TRACK ≤ lengths.length then lengths.tail else lengths) ++ [length]

/--
The lengths of the readings of the track that nothing has taken out of the cache since, oldest
first. `advance_revolution` takes the oldest. A write of the track takes all of them, whatever
becomes of it, and so do a disk change and the eviction of the track for another one.
-/
def heldLengths (track : TrackAddress) : List (Event controllerSig) → List Nat
  | [] => []
  | ⟨.storeCapture t capture, evicted⟩ :: rest =>
    if t = track then enqueue (heldLengths track rest) capture.bitLen
    else if evicted = some track then [] else heldLengths track rest
  | ⟨.retireFront t, _⟩ :: rest =>
    if t = track then (heldLengths track rest).tail else heldLengths track rest
  | ⟨.invalidate t, _⟩ :: rest => if t = track then [] else heldLengths track rest
  | ⟨.clearCaptures, _⟩ :: _ => []
  | _ :: rest => heldLengths track rest

/--
What keeps the length of the track of a request: the track has room for the request, or the capture
that showed it is still held, and the oldest reading that is held with it refuses the request.
-/
def lengthHeld (request : WriteRequest) (trace : List (Event controllerSig)) : Bool :=
  (lastLength request.track trace).all fun length => placeable request length ||
    (heldLengths request.track trace).head?.any fun oldest => !placeable request oldest

/-- The runs in which a length that is needed to refuse a write is held when it is looked up. -/
@[reducible] def lengthKnown (checks : Bool) : Conditions checks :=
  .of (fun _ o _ s =>
    match o with
    | .revolutionBits request => lengthHeld request s.trace
    | _ => true) fun _ _ _ _ => true

variable {checks : Bool} {asm : Conditions checks}

/-- What the cache holds is what the history says. -/
def LengthsHeld (s : Snap controller) : Prop :=
  ∀ track, (s.world.queue track).map (fun c => c.capture.bitLen) = heldLengths track s.trace

/-- The outline: the cache holds what it should, and nothing else has to hold between the rounds. -/
def placement (asm : Conditions checks) : Outline asm where
  inv := LengthsHeld
  leftOps o := o.ofWorker = true
  rightOps o := o.ofCaller = true
  leftAt _ _ _ := True
  rightAt _ _ _ := True
  leftReady _ o s :=
    match o with
    | .deviceWrite request bits fromIndex _ => Placed request bits fromIndex s
    | _ => True
  rightReady _ _ _ := True

namespace Placement

/-! ## The length over time -/

theorem lastLength_cons {track : TrackAddress} {o : Op} {r : o.Ret}
    {trace : List (Event controllerSig)} (hstores : o.stores = false)
    (hclear : o ≠ .clearCaptures) :
    lastLength track (⟨o, r⟩ :: trace) = lastLength track trace := by
  cases o <;> simp_all [lastLength, Op.stores]

theorem heldLengths_cons {track : TrackAddress} {o : Op} {r : o.Ret}
    {trace : List (Event controllerSig)} (hcaches : o.caches = false) :
    heldLengths track (⟨o, r⟩ :: trace) = heldLengths track trace := by
  cases o <;> first | rfl | cases hcaches

/-- **What is held.** Every step changes the cache as its history says. -/
theorem held_of_act {o : Op} {i : Outside} {r : o.Ret} {s s' : Snap controller}
    (h : controller.act o i s = some (r, s')) (hs : LengthsHeld s) : LengthsHeld s' := by
  intro track
  have hexec := exec_of_act h
  have htrack := hs track
  rw [(Machine.act_eq_some.mp h).2]
  by_cases hcaches : o.caches = true
  · cases o with
    | retireFront other =>
      rw [(exec_retireFront hexec).2, World.queue_retire, heldLengths, ← htrack]
      by_cases hother : track = other
      · rw [if_pos hother, if_pos hother.symm, List.map_tail, hother]
      · rw [if_neg hother, if_neg (Ne.symm hother)]
    | invalidate other =>
      rw [exec_invalidate hexec, heldLengths, ← htrack]
      by_cases hother : track = other
      · rw [if_pos hother, if_pos hother.symm, List.map_nil]
      · rw [if_neg hother, if_neg (Ne.symm hother)]
    | clearCaptures =>
      rw [exec_clearCaptures hexec]
      rfl
    | storeCapture other capture =>
      obtain ⟨hevicted, hworld⟩ := exec_storeCapture hexec
      rw [hworld, World.queue_store, heldLengths, ← hevicted, ← htrack]
      by_cases hother : track = other
      · rw [if_pos hother, if_pos hother.symm, enqueue, List.length_map, hother, List.map_append]
        split
        · rw [List.map_tail]
          rfl
        · rfl
      · rw [if_neg hother, if_neg (Ne.symm hother)]
        split
        · rfl
        · rfl
    | _ => cases hcaches
  · have hkept : o.caches = false := by simpa using hcaches
    rw [World.queue_eq_of_captures (exec_captures hexec hkept), heldLengths_cons hkept]
    exact htrack

/-- The capture that showed the length is the last one that is held. -/
theorem lastLength_of_held {track : TrackAddress} {trace : List (Event controllerSig)}
    (h : heldLengths track trace ≠ []) :
    lastLength track trace = (heldLengths track trace).getLast? := by
  -- on the history: a step that takes readings away takes the last one only with all the others
  induction trace with
  | nil => exact absurd rfl h
  | cons event trace ih =>
    obtain ⟨o, r⟩ := event
    by_cases hcaches : o.caches = true
    · cases o with
      | retireFront other =>
        rw [lastLength_cons rfl (by simp)]
        rw [heldLengths] at h ⊢
        split
        · next hother =>
          rw [if_pos hother] at h
          have hheld : heldLengths track trace ≠ [] := fun hnil => h (by rw [hnil]; rfl)
          rw [ih hheld, List.getLast?_tail, if_neg]
          intro hlength
          exact h (List.length_eq_zero_iff.mp (by rw [List.length_tail]; omega))
        · next hother =>
          rw [if_neg hother] at h
          exact ih h
      | invalidate other =>
        rw [lastLength_cons rfl (by simp)]
        rw [heldLengths] at h ⊢
        split
        · next hother => exact absurd (if_pos hother) h
        · next hother =>
          rw [if_neg hother] at h
          exact ih h
      | clearCaptures => exact absurd rfl h
      | storeCapture other capture =>
        rw [heldLengths] at h ⊢
        rw [lastLength]
        by_cases hother : other = track
        · rw [if_pos hother, if_pos hother, enqueue, List.getLast?_concat]
        · rw [if_neg hother] at h
          rw [if_neg hother, if_neg hother]
          split
          · next hevicted => exact absurd (if_pos hevicted) h
          · next hevicted =>
            rw [if_neg hevicted] at h
            exact ih h
      | _ => cases hcaches
    · have hkept : o.caches = false := by simpa using hcaches
      rw [heldLengths_cons hkept] at h ⊢
      rw [lastLength_cons (by cases o <;> first | rfl | cases hkept) (by rintro rfl; cases hkept)]
      exact ih h

/-- The capture that showed the length is enough where it stands in front, whatever the request. -/
theorem lengthHeld_of_front {request : WriteRequest} {trace : List (Event controllerSig)}
    (h : (heldLengths request.track trace).head? = lastLength request.track trace) :
    lengthHeld request trace = true := by
  unfold lengthHeld
  rw [h]
  cases lastLength request.track trace with
  | none => rfl
  | some length => cases hplace : placeable request length <;> simp [hplace]

theorem lengthHeld_of_alone {request : WriteRequest} {trace : List (Event controllerSig)}
    {length : Nat} (h : heldLengths request.track trace = [length]) :
    lengthHeld request trace = true := by
  refine lengthHeld_of_front ?_
  rw [lastLength_of_held (by rw [h]; simp), h]
  rfl

theorem placed_stable {request : WriteRequest} {bits : Nat} {fromIndex : Bool} :
    (placement asm).left.Stable (Placed request bits fromIndex) := by
  refine stable_of_action fun o i r s s' ho _ _ h hP => ?_
  have ho : o.ofCaller = true := ho
  have htrace := (Machine.act_eq_some.mp h).2
  have hsame : lastLength request.track s'.trace = lastLength request.track s.trace := by
    rw [htrace]
    refine lastLength_cons ?_ ?_
    · cases o <;> simp_all [Op.ofCaller, Op.ofCall, Op.stores]
    · rintro rfl
      cases ho
  intro length hlength
  exact hP length (by rw [← hsame]; exact hlength)

/-! ## The check -/

/-- What `perform_write` lets through is placed on the length it looked up. -/
theorem placeable_of_fromIndex {request : WriteRequest} {trackBits : Nat} {fi : Bool}
    (hroom : request.startBit + INDEX_WRITE_SLACK_BITS < USIZE_RANGE)
    (hfi : fromIndex checks request.startBit trackBits = some fi) :
    fi = decide (request.startBit ≤ INDEX_WRITE_SLACK_BITS ∨
      trackBits ≤ request.startBit + INDEX_WRITE_SLACK_BITS) := by
  unfold fromIndex addUsize at hfi
  by_cases hstart : request.startBit ≤ INDEX_WRITE_SLACK_BITS
  · rw [if_pos hstart] at hfi
    cases hfi
    simp [hstart]
  · rw [if_neg hstart, if_pos hroom] at hfi
    cases hfi
    simp [hstart]

/-- A write that passes the check against `trackBits` is placed. -/
theorem placed_of_check {request : WriteRequest} {trackBits : Nat} {fi : Bool}
    {s : Snap controller}
    (hknown : ∀ length, lastLength request.track s.trace = some length →
      placeable request length = true ∨ placeable request trackBits = false)
    (hfi : fromIndex checks request.startBit trackBits = some fi)
    (hpass : fi = true ∨ trackBits ≤ request.bitLen + 16) :
    Placed request request.bitLen fi s := by
  intro length hlength hroom
  have hfi := placeable_of_fromIndex hroom hfi
  rcases hknown length hlength with hplace | hrefuse
  · simp only [placeable, Bool.or_eq_true, decide_eq_true_eq] at hplace
    by_cases hwhole : length ≤ request.bitLen + 16
    · exact Or.inr hwhole
    · refine Or.inl ⟨?_, hplace.resolve_right hwhole⟩
      rw [hfi]
      rcases hpass with hpass | hpass
      · rwa [hfi] at hpass
      · -- placed on `length` only, which is longer than the length looked up
        simp only [decide_eq_true_eq]
        omega
  · -- the length looked up refuses the request, so it did not pass
    exfalso
    simp only [placeable, Bool.or_eq_false_iff, decide_eq_false_iff_not] at hrefuse
    obtain ⟨⟨hstart, hend⟩, hwhole⟩ := hrefuse
    rcases hpass with hpass | hpass
    · rw [hfi, decide_eq_true_eq] at hpass
      omega
    · exact hwhole hpass

/-- What the look-up finds: room on the last known length, or a length that refuses. -/
theorem known_of_lookup {request : WriteRequest} {trackBits : Nat} {i : Outside}
    {s : Snap controller} {w : World} (hs : LengthsHeld s) (ha : lengthHeld request s.trace = true)
    (hexec : exec (.revolutionBits request) i s.world = some (trackBits, w)) (length : Nat)
    (hlength : lastLength request.track s.trace = some length) :
    placeable request length = true ∨ placeable request trackBits = false := by
  simp only [lengthHeld, hlength, Option.all_some, Bool.or_eq_true] at ha
  refine ha.imp_right fun hrefuses => ?_
  obtain ⟨oldest, holdest, hrefuse⟩ := (Option.any_eq_true _ _).mp hrefuses
  simp only [exec, Option.some.injEq, Prod.mk.injEq] at hexec
  -- the oldest reading that is held is the one at the front of the queue
  have hfront : (s.world.front request.track).map (fun c => c.capture.bitLen) = some oldest := by
    rw [World.front, ← List.head?_map, hs]
    exact holdest
  rw [hfront] at hexec
  rw [← hexec.1]
  simpa using hrefuse

/-! ## The worker -/

section Worker

variable {l : Worker} {s : Snap controller}

/-- Code without a write has nothing to observe. -/
theorem free_wp {α : Type} {m : WorkerM α} {ops : Op → Bool}
    (hm : m.Keeps (fun _ => True) (ops ·))
    (hops : ∀ o, ops o = true → o.ofWorker = true ∧ ∀ l s, (placement asm).leftReady l o s) :
    (placement asm).left.wpc m (fun _ _ _ => True) l s := by
  refine wpc_mono (wpc_of_keeps (P := fun _ => True) hm stable_const ?_ trivial trivial)
    fun _ _ _ _ => trivial
  intro l o _ ho
  obtain ⟨hworker, hready⟩ := hops o ho
  exact ⟨hworker, fun s hs _ => ⟨hready l s, fun _ _ _ _ hact => ⟨held_of_act hact hs, trivial⟩⟩⟩

theorem step_wp {o : Op} {Q : o.Ret → Worker → Snap controller → Prop} (ho : o.ofWorker = true)
    (hready : ∀ s, (placement asm).leftReady l o s)
    (h : ∀ i r s₁ s₂, LengthsHeld s₁ → asm.left l o i s₁ → controller.act o i s₁ = some (r, s₂) →
      Q r l s₂) : (placement asm).left.wpc (step o) Q l s :=
  wpc_perform_of (P := fun _ => True) ho stable_const trivial (fun s₁ _ _ => hready s₁)
    fun i r s₁ s₂ hs₁ _ ha hact => ⟨held_of_act hact hs₁, h i r s₁ s₂ hs₁ ha hact⟩

theorem attemptWrite_wp {request : WriteRequest} :
    (placement (lengthKnown checks)).left.wpc (attemptWrite checks request)
      (fun _ _ _ => True) l s := by
  refine wpc_seq (free_wp (position_keeps unaffected_true.place request.track) ?_)
    fun r l₁ s₁ _ => ?_
  · intro o ho
    cases o <;> first | exact ⟨rfl, fun _ _ => trivial⟩ | cases ho
  cases r with
  | error e => trivial
  | ok _ =>
    refine wpc_bind.mpr (step_wp rfl (fun _ => trivial) fun i trackBits s₂ s₃ hs₂ ha hact => ?_)
    obtain ⟨hexec, htrace⟩ := Machine.act_eq_some.mp hact
    dsimp only
    split
    · trivial
    next fi hfi =>
    split
    · trivial
    next hpass =>
    have hknown := known_of_lookup (i := i) hs₂ ha hexec
    -- the look-up stores nothing, so the last known length is still that of the look-up
    have hlength : lastLength request.track s₃.trace = lastLength request.track s₂.trace := by
      rw [htrace]
      exact lastLength_cons rfl (by simp)
    rw [← hlength] at hknown
    have hplaced : Placed request request.bitLen fi s₃ := by
      refine placed_of_check hknown hfi ?_
      simpa [Decidable.imp_iff_not_or] using hpass
    refine wpc_bind.mpr (wpc_own.mpr (wpc_bind.mpr ?_))
    exact wpc_perform_of rfl placed_stable hplaced (fun _ _ h => h)
      fun _ _ _ _ hs₄ _ _ hact => ⟨held_of_act hact hs₄, trivial⟩

theorem performWrite_wp {id : WriteId} {request : WriteRequest} :
    (placement (lengthKnown checks)).left.wpc (performWrite checks id request)
      (fun _ _ _ => True) l s := by
  refine wpc_seq attemptWrite_wp fun r l₁ s₁ _ => ?_
  cases r with
  | none => trivial
  | some result =>
    refine wpc_bind.mpr (step_wp rfl (fun _ => trivial) fun _ _ _ _ _ _ _ => ?_)
    exact wpc_bind.mpr (step_wp rfl (fun _ => trivial) fun _ _ _ _ _ _ _ => trivial)

theorem process_wp {c : Command} :
    (placement (lengthKnown checks)).left.wpc (process checks c) (fun _ _ _ => True) l s := by
  cases c with
  | noClick side =>
    refine free_wp (processNoClick_keeps unaffected_true.errors checks side) fun o ho => ?_
    cases o <;> first | exact ⟨rfl, fun _ _ => trivial⟩ | cases ho
  | write id request =>
    exact process_write_wp (I := fun _ _ _ => True) (wpc_mono performWrite_wp fun flow _ _ _ => by
      cases flow <;> simp)
  | shutdown => trivial

theorem rounds : Rounds (placement (lengthKnown checks)).left checks (fun _ _ _ => True)
    (fun _ _ _ => True) (fun _ _ => True) where
  hot _ _ h := h
  select _ _ _ := step_wp rfl (fun _ => trivial) fun _ r _ _ _ _ _ => by cases r <;> trivial
  receive _ _ _ := step_wp rfl (fun _ => trivial) fun _ r _ _ _ _ _ => by cases r <;> trivial
  process _ _ _ _ := process_wp
  desired _ _ _ := free_wp (applyDesired_keeps unaffected_true) fun o ho => by
    cases o <;> first | exact ⟨rfl, fun _ _ => trivial⟩ | cases ho
  status _ _ _ := free_wp (refreshStatusIfDue_keeps unaffected_true.errors unaffected_true.schedule)
    fun o ho => by cases o <;> first | exact ⟨rfl, fun _ _ => trivial⟩ | cases ho
  capture _ _ _ := free_wp (captureIfNeeded_keeps unaffected_true fun _ _ h => h) fun o ho => by
    cases o <;> first | exact ⟨rfl, fun _ _ => trivial⟩ | cases ho
  failed _ _ h _ := h
  again _ _ _ h _ := h
  stop _ _ _ := free_wp stopRound_keeps fun o ho => by
    cases o <;> first | exact ⟨rfl, fun _ _ => trivial⟩ | cases ho
  unwind _ _ _ := free_wp unwindRound_keeps fun o ho => by
    cases o <;> first | exact ⟨rfl, fun _ _ => trivial⟩ | cases ho

end Worker

theorem valid : (placement (lengthKnown checks)).Valid where
  leftStable _ _ := stable_const
  rightStable _ _ := stable_const
  leftRound _ _ _ _ _ hm _ h := rounds.round hm h
  rightRound := rightRound_of_call fun _ _ _ _ _ =>
    callRound_wp_of (fun _ ho => ho) (fun _ _ _ => trivial)
      fun _ _ _ _ _ _ _ _ hact hs => held_of_act hact hs

end Placement

/-- At the beginning nothing is held. -/
theorem held_opened {status : DriveStatus} {head : TrackAddress} :
    LengthsHeld ⟨World.opened status head, []⟩ :=
  fun _ => rfl

/--
**Placement.** In a run in which the length is held whenever it is needed to refuse a write, every
write begins at the index or covers the whole track, as the last capture of the track showed it.
-/
theorem wellPlaced_of_lengthKnown {m : Moment checks} (h : Reachable (lengthKnown checks) m) :
    WellPlaced m := by
  have hholds := h.holds Placement.valid fun config status head now =>
    ⟨held_opened, trivial, trivial⟩
  intro request bits fromIndex density hnext
  exact (hholds.leftReady hnext).2

/-! ## A length that was forgotten -/

/-- A capture of 200 bits. -/
def shortCapture : RawCapture :=
  { words := .replicate 13 0, bitLen := 200, indexAligned := true }

/-- A request on cylinder 0, lower side. -/
def requestAt (words bitLen startBit : Nat) : WriteRequest :=
  { track := ⟨0, .lower⟩, words := .replicate words 0, bitLen := bitLen, startBit := startBit }

/-- Start the motor, capture the track, and let the worker take up a write of all of it. -/
def captureThenWrite : Schedule true :=
  calling (.setMotor .lower true) 4 {} ++ calling (.readTrack ⟨0, .lower⟩) 5 {}
    ++ working [{}] ++ working (.replicate 16 { capture := .ok shortCapture })
    ++ calling (.submitWrite (requestAt 13 200 0)) 5 {} ++ working []
    ++ working (.replicate 3 {})

/-- Finish that write, and let the worker take up one that begins at bit 50. -/
def thenWriteInside : Schedule true :=
  captureThenWrite ++ .replicate 3 (.left {})
    ++ calling (.submitWrite (requestAt 1 16 50)) 5 {} ++ working (.replicate 3 {})

/-- The write the worker is about to make, and the last known length of its track. -/
def placing? {checks : Bool} (m : Moment checks) :
    Option (WriteRequest × Nat × Bool × Option Nat) :=
  match m.left.next? with
  | some (.deviceWrite request bits fromIndex _) =>
    some (request, bits, fromIndex, lastLength request.track m.snap.trace)
  | _ => none

theorem placing?_eq_some {m : Moment checks} {request : WriteRequest} {bits : Nat}
    {fi : Bool} {length : Option Nat} (h : placing? m = some (request, bits, fi, length)) :
    (∃ density, m.left.next? = some (.deviceWrite request bits fi density)) ∧
      lastLength request.track m.snap.trace = length := by
  unfold placing? at h
  split at h
  · next request bits fi density hnext =>
    cases h
    exact ⟨⟨density, hnext⟩, rfl⟩
  · cases h

/--
A partial write that is given in while the track is being captured, so that the worker is the one
to refuse it, and then one behind the end of the track.
-/
def refusedThenPlaced : Schedule true :=
  calling (.setMotor .lower true) 4 {} ++ calling (.readTrack ⟨0, .lower⟩) 5 {}
    ++ working [{}] ++ working (.replicate 8 { capture := .ok shortCapture })
    ++ calling (.submitWrite (requestAt 1 16 50)) 5 {}
    ++ .replicate 8 (.left { capture := .ok shortCapture })
    ++ calling (.submitWrite (requestAt 1 16 180)) 5 {} ++ working []
    ++ working (.replicate 5 {}) ++ working (.replicate 3 {})

theorem wellPlaced_of_lengthKnown_partial : ∃ m : Moment true,
    m.snap.world.events.map Sent.event =
      [.writeFailed ⟨1⟩ ⟨0, .lower⟩ (.unplaceablePartialWrite 50 200)] ∧
    placing? m = some (requestAt 1 16 180, 16, true, some 200) ∧ WellPlaced m := by
  have hplay : ((play (lengthKnown true) (opened true .normal ⟨5, .upper⟩) refusedThenPlaced).any
      fun m => m.snap.world.events.map Sent.event =
          [.writeFailed ⟨1⟩ ⟨0, .lower⟩ (.unplaceablePartialWrite 50 200)] ∧
        placing? m = some (requestAt 1 16 180, 16, true, some 200)) = true := by
    decide +kernel
  obtain ⟨m, hrun, htest⟩ := exists_reach_of_play hplay
  obtain ⟨hevents, hplacing⟩ := of_decide_eq_true htest
  exact ⟨m, hevents, hplacing, wellPlaced_of_lengthKnown ⟨hrun⟩⟩

/--
After a write has emptied the cache, a write of 16 bits at bit 50 of a track of 200 bits is made
at the index.
-/
theorem writes_at_wrong_place : ¬ ∀ (checks : Bool) (m : Moment checks),
    Reachable (anyRun checks) m → WellPlaced m := by
  intro h
  have hplay : ((play (anyRun true) (opened true .normal ⟨5, .upper⟩) thenWriteInside).any
      fun m => placing? m = some (requestAt 1 16 50, 16, true, some 200)) = true := by
    decide +kernel
  obtain ⟨m, hrun, htest⟩ := exists_reach_of_play hplay
  obtain ⟨⟨density, hnext⟩, hlength⟩ := placing?_eq_some (by simpa using htest)
  have hplaced := h true m ⟨hrun⟩ _ _ _ density hnext 200 hlength (by decide)
  revert hplaced
  decide

end FluxBridge
