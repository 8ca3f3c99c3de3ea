import FluxBridge.Controller.CaptureCache
import FluxBridge.Controller.DeviceCalls

/-!
# The partial capture

A read publishes what it has got so far in a slot of its own. Only a read that works, and whose
capture is valid, withdraws it, and it does so before the capture is in the cache.

* `capturePhase` — how far the capture on its way has come, from what was performed
* `partialHidden_of_withdrawn` — where every read that fails has withdrawn what it published,
  nothing is served but during a capture
* `handover_of_covered` — where the cache holds an older reading when the partial is withdrawn, and
  until the capture is stored, the caller always finds the track in one place or the other
-/

namespace FluxBridge

open Atomic Atomic.Side

/-- How far the capture on its way has come. -/
inductive CapturePhase where
  | idle
  /-- the device reads the track, or has read it -/
  | reading (track : TrackAddress)
  /-- the partial is withdrawn, and the capture not yet in the cache -/
  | withdrawn (track : TrackAddress)
  deriving DecidableEq, Repr

/-- The read worked, and its capture is valid. -/
def finished (result : Except Error RawCapture) : Bool := readAnswer result = some (.ok ())

namespace CapturePhase

/-- The device has answered. -/
def answer (result : Except Error RawCapture) (phase : CapturePhase) : CapturePhase :=
  if finished result then phase else idle

/-- The partial is withdrawn. -/
def withdraw : CapturePhase → CapturePhase
  | reading track => withdrawn track
  | phase => phase

/-- The steps of the worker that may come in a phase. -/
def Permits : CapturePhase → Op → Prop
  | idle, o => o ≠ .withdraw ∧ o ≠ .deviceReadResult ∧ (∀ track, o ≠ .publish track) ∧
      ∀ track capture, o ≠ .storeCapture track capture
  | reading track, o => o = .publish track ∨ o = .deviceReadResult ∨ o = .withdraw
  | withdrawn track, o => ∃ capture, o = .storeCapture track capture

end CapturePhase

/-- How far the capture on its way has come, from what was performed, newest first. -/
def capturePhase : List (Event controllerSig) → CapturePhase
  | [] => .idle
  | ⟨.deviceRead track _ _, _⟩ :: _ => .reading track
  | ⟨.deviceReadResult, result⟩ :: rest => (capturePhase rest).answer result
  | ⟨.withdraw, _⟩ :: rest => (capturePhase rest).withdraw
  | ⟨.storeCapture _ _, _⟩ :: _ => .idle
  | _ :: rest => capturePhase rest

namespace Op

/-- The steps that move a capture on. -/
def capturing : Op → Bool
  | .deviceRead _ _ _ | .deviceReadResult | .withdraw | .storeCapture _ _ => true
  | _ => false

/-- The steps of a capture. -/
def ofReading : Op → Bool
  | .publish _ => true
  | o => o.capturing

end Op

namespace Phases

variable {o : Op} {i : Outside} {r : o.Ret} {l : Worker} {s s' : Snap controller}
  {track : TrackAddress} {checks : Bool}

/-- Nothing is being captured. -/
def Idle (s : Snap controller) : Prop := capturePhase s.trace = .idle

def Reading (track : TrackAddress) (s : Snap controller) : Prop :=
  capturePhase s.trace = .reading track

def Withdrawn (track : TrackAddress) (s : Snap controller) : Prop :=
  capturePhase s.trace = .withdrawn track

theorem phase_kept (ho : o.capturing = false) (hact : controller.act o i s = some (r, s')) :
    capturePhase s'.trace = capturePhase s.trace := by
  rw [(Machine.act_eq_some.mp hact).2]
  cases o <;> first | rfl | cases ho

/-- The outline of a capture: each step comes in its phase. -/
def phases (checks : Bool) : Outline (anyRun checks) where
  inv _ := True
  leftOps o := o.ofWorker = true
  rightOps o := o.ofCaller = true
  leftAt _ _ := Idle
  rightAt _ _ _ := True
  leftReady _ o s := (capturePhase s.trace).Permits o
  rightReady _ _ _ := True

theorem phase_stable {phase : CapturePhase} :
    (phases checks).left.Stable fun s => capturePhase s.trace = phase := by
  refine stable_of_action fun o i r s s' ho _ _ hact hs => ?_
  have ho : o.ofCaller = true := ho
  have hkept : o.capturing = false := by
    cases o <;> first | rfl | cases ho
  rw [phase_kept hkept hact]
  exact hs

theorem step_wp {o : Op} {phase : CapturePhase} {Q : o.Ret → Worker → Snap controller → Prop}
    (ho : o.ofWorker = true) (hs : capturePhase s.trace = phase) (hpermits : phase.Permits o)
    (h : ∀ i r s₁ s₂, capturePhase s₁.trace = phase → controller.act o i s₁ = some (r, s₂) →
      Q r l s₂) :
    (phases checks).left.wpc (step o) Q l s :=
  wpc_perform_of ho phase_stable hs (fun s₁ _ h₁ => by
    show (capturePhase s₁.trace).Permits o
    rw [h₁]
    exact hpermits) fun i r s₁ s₂ _ h₁ _ hact => ⟨trivial, h i r s₁ s₂ h₁ hact⟩

theorem permits_idle (ho : o.ofReading = false) : CapturePhase.idle.Permits o := by
  refine ⟨?_, ?_, ?_, ?_⟩
  all_goals intros; rintro rfl; cases ho

/-- The frame: code that captures nothing. -/
theorem frame_wp {α : Type} {m : WorkerM α} {ops : Op → Bool} (hm : m.Keeps (fun _ => True) (ops ·))
    (hops : ∀ o, ops o = true → o.ofWorker = true ∧ o.ofReading = false) (hs : Idle s) :
    (phases checks).left.wpc m (fun _ _ s => Idle s) l s := by
  refine wpc_mono (wpc_of_keeps hm phase_stable (fun l o _ ho => ?_) trivial hs) fun _ _ _ h => h.2
  obtain ⟨hworker, hreading⟩ := hops o ho
  refine ⟨hworker, fun s₁ _ h₁ => ⟨?_, fun i r s₂ _ hact => ⟨trivial, ?_⟩⟩⟩
  · show (capturePhase s₁.trace).Permits o
    rw [h₁]
    exact permits_idle hreading
  · have hcapturing : o.capturing = false := by
      cases o <;> first | rfl | cases hreading
    rw [phase_kept hcapturing hact]
    exact h₁

/-- The parts of a round in which nothing is read. -/
theorem of_part (ho : o.ofWishes = true ∨ o.ofStatus = true ∨ o.ofWriting = true ∨
    o.ofNoClick = true ∨ o.ofTarget = true ∨ o.ofEnding = true) :
    o.ofWorker = true ∧ o.ofReading = false := by
  cases o <;> first
    | exact ⟨rfl, rfl⟩
    | (rcases ho with ho | ho | ho | ho | ho | ho <;> cases ho)

theorem noteError_wp {e : Error} (hs : Idle s) :
    (phases checks).left.wpc (noteError e) (fun _ _ s => Idle s) l s :=
  frame_wp (noteError_keeps unaffected_true.errors e)
    (fun _ ho => of_part (Or.inl (Op.ofWishes_of_errors ho))) hs

theorem position_wp (hs : Idle s) :
    (phases checks).left.wpc (position track) (fun _ _ s => Idle s) l s :=
  frame_wp (position_keeps unaffected_true.place track)
    (fun _ ho => of_part (Or.inl (Op.ofWishes_of_position ho))) hs

/-- A read: the capture is on its way while it works. -/
theorem readTrack_wp (hs : Idle s) :
    (phases checks).left.wpc (readTrack track)
      (fun r _ s => capturePhase s.trace = (CapturePhase.reading track).answer r) l s := by
  refine wpc_bind.mpr (wpc_own.mpr (wpc_bind.mpr (step_wp rfl hs ⟨nofun, nofun, nofun, nofun⟩
    fun i reports s₁ s₂ _ hact => ?_)))
  have h₂ : Reading track s₂ := by
    unfold Reading
    rw [(Machine.act_eq_some.mp hact).2]
    rfl
  refine wpc_seq (wpc_times (J := fun _ => Reading track) (fun l s hr => ?_) reports _ _ h₂)
    fun _ l₃ s₃ h₃ => ?_
  · refine step_wp rfl hr (Or.inl rfl) fun i r s₁ s₂ h₁ hact => ?_
    exact (phase_kept rfl hact).trans h₁
  · refine step_wp rfl h₃ (Or.inr (Or.inl rfl)) fun i r s₁ s₂ h₁ hact => ?_
    rw [(Machine.act_eq_some.mp hact).2, ← h₁]
    rfl

theorem keepCapture_wp {capture : RawCapture} (hs : Reading track s) :
    (phases checks).left.wpc (keepCapture track capture) (fun _ _ s => Idle s) l s := by
  refine wpc_bind.mpr (step_wp rfl hs (Or.inr (Or.inr rfl)) fun i r s₁ s₂ h₁ hact => ?_)
  have h₂ : Withdrawn track s₂ := by
    unfold Withdrawn
    rw [(Machine.act_eq_some.mp hact).2]
    show (capturePhase s₁.trace).withdraw = _
    rw [h₁]
    rfl
  refine wpc_bind.mpr (wpc_update.mpr (wpc_bind.mpr (wpc_update.mpr
    (wpc_bind.mpr (wpc_own.mpr ?_)))))
  refine wpc_bind.mpr (step_wp rfl h₂ ⟨_, rfl⟩ fun i r s₃ s₄ h₃ hact => ?_)
  show Idle s₄
  unfold Idle
  rw [(Machine.act_eq_some.mp hact).2]
  rfl

theorem captureIfNeeded_wp (hs : Idle s) :
    (phases checks).left.wpc captureIfNeeded (fun _ _ s => Idle s) l s := by
  have htarget : (phases checks).left.wpc captureTarget (fun _ _ s => Idle s) l s :=
    frame_wp captureTarget_keeps (fun _ ho => of_part (by simp [ho])) hs
  refine captureIfNeeded_wp_of htarget (fun _ _ h => h) (fun _ _ _ h => position_wp h)
    (fun _ _ _ _ h => noteError_wp h) (fun _ _ _ h => readTrack_wp h) (fun _ _ _ _ h => h) ?_ ?_ ?_
  · intro wanted e l s hother h
    rw [CapturePhase.answer, finished, readAnswer_error hother] at h
    exact noteError_wp h
  · intro wanted capture e l s hvalid h
    rw [CapturePhase.answer, finished, readAnswer_ok hvalid] at h
    exact noteError_wp h
  · intro wanted capture l s hvalid h
    rw [CapturePhase.answer, finished, readAnswer_ok hvalid] at h
    exact keepCapture_wp h

theorem process_wp {c : Command} (hs : Idle s) :
    (phases checks).left.wpc (process checks c) (fun _ _ s => Idle s) l s := by
  cases c with
  | noClick side =>
    exact frame_wp (processNoClick_keeps unaffected_true.errors checks side)
      (fun _ ho => of_part (by simp [ho])) hs
  | write id request =>
    refine process_write_wp (I := fun _ _ => Idle) ?_
    refine wpc_seq (frame_wp (attemptWrite_keeps unaffected_true.place checks request)
      (fun _ ho => of_part (by simp [ho])) hs) fun r l₁ s₁ h₁ => ?_
    cases r with
    | none => exact h₁
    | some result =>
      refine wpc_bind.mpr (step_wp rfl h₁ (permits_idle rfl) fun i r s₁ s₂ h₁ hact => ?_)
      have h₂ : Idle s₂ := (phase_kept rfl hact).trans h₁
      refine wpc_bind.mpr (step_wp rfl h₂ (permits_idle rfl) fun i r s₃ s₄ h₃ hact => ?_)
      have h₄ : Idle s₄ := (phase_kept rfl hact).trans h₃
      exact ⟨fun _ => h₄, fun _ => h₄⟩
  | shutdown => exact hs

theorem rounds : Rounds (phases checks).left checks (fun _ _ => Idle) (fun _ _ => Idle)
    (fun _ => Idle) where
  hot _ _ h := h
  select _ _ h := step_wp rfl h (permits_idle rfl) fun i r s₁ s₂ h₁ hact => by
    have h₂ : Idle s₂ := (phase_kept rfl hact).trans h₁
    cases r <;> exact h₂
  receive _ _ h := step_wp rfl h (permits_idle rfl) fun i r s₁ s₂ h₁ hact => by
    have h₂ : Idle s₂ := (phase_kept rfl hact).trans h₁
    cases r <;> exact h₂
  process _ _ _ h := process_wp h
  desired _ _ h := frame_wp (applyDesired_keeps unaffected_true)
    (fun _ ho => of_part (Or.inl ho)) h
  status _ _ h := frame_wp (refreshStatusIfDue_keeps unaffected_true.errors fun _ _ h => h)
    (fun _ ho => of_part (Or.inr (Or.inl ho))) h
  capture _ _ h := captureIfNeeded_wp h
  failed _ _ h _ := h
  again _ _ _ h _ := h
  stop _ _ h := frame_wp stopRound_keeps (fun _ ho => of_part (by simp [ho])) h
  unwind _ _ h := frame_wp unwindRound_keeps (fun _ ho => of_part (by simp [ho])) h

theorem valid : (phases checks).Valid where
  leftStable _ _ := phase_stable
  rightStable _ _ := stable_const
  leftRound _ _ _ _ _ hm _ h := rounds.round hm h
  rightRound := rightRound_of_call fun _ _ _ _ _ =>
    callRound_wp_of (fun _ ho => ho) (fun _ _ _ => trivial) fun _ _ _ _ _ _ _ _ _ _ => trivial

theorem step_anyRun {asm : Conditions checks} (c c' : Moment checks) (h : Step asm c c') :
    Step (anyRun checks) c c' := by
  cases h with
  | leftAct _ done => exact .leftAct rfl done
  | leftNext begins => exact .leftNext begins
  | rightAct _ done => exact .rightAct rfl done
  | rightNext begins => exact .rightNext begins

theorem holds_fromDevice (config : BridgeConfig) (status : DriveStatus) (head : TrackAddress)
    (now : Nat) : (phases checks).Holds (fromDevice checks config status head now) :=
  ⟨trivial, rfl, trivial⟩

end Phases

/-! ## What is served between captures -/

namespace World

/-- The slot of the partial capture shows nothing. -/
def hidden (w : World) : Bool :=
  match w.inFlight with
  | some p => p.bitLen = 0
  | none => true

/-- The slot shows something of a track. -/
def slotHolds (w : World) (track : TrackAddress) : Bool :=
  match w.inFlight with
  | some p => p.track = track && 0 < p.bitLen
  | none => false

/-- The cache has a capture of a track. -/
def cacheHolds (w : World) (track : TrackAddress) : Bool := (w.front track).isSome

theorem cacheHolds_iff {w : World} {track : TrackAddress} :
    w.cacheHolds track = true ↔ w.queue track ≠ [] := by
  unfold cacheHolds front
  rw [Option.isSome_iff_ne_none, ne_eq, List.head?_eq_none_iff]

end World

/-- The steps that leave no partial behind: a read that fails has withdrawn what it published. -/
def withdrawsPartial (o : Op) (i : Outside) (s : Snap controller) : Bool :=
  match o with
  | .deviceReadResult => finished i.capture || s.world.hidden
  | _ => true

/-- The runs in which every read that fails has withdrawn what it published. -/
@[reducible] def partialsWithdrawn (checks : Bool) : Conditions checks :=
  .of (fun _ o i s => withdrawsPartial o i s) fun _ _ _ _ => true

/-- Unless a track is being read, `partial_track` returns `None` for every track. -/
def PartialHidden {checks : Bool} (m : Moment checks) : Prop :=
  (∀ track, capturePhase m.snap.trace ≠ .reading track) →
    ∀ track i r w, exec (.readInFlight track) i m.snap.world = some (r, w) → r = none

namespace Phases

variable {o : Op} {i : Outside} {r : o.Ret} {s s' : Snap controller}

/-- Between captures the slot shows nothing. -/
def Hidden (s : Snap controller) : Prop :=
  (∀ track, capturePhase s.trace ≠ .reading track) → s.world.hidden = true

theorem hidden_of_inFlight {w w' : World} (h : w'.inFlight = w.inFlight) :
    w'.hidden = w.hidden := by
  unfold World.hidden
  rw [h]

theorem hidden_of_act (hpermits : (capturePhase s.trace).Permits o)
    (hwithdraws : withdrawsPartial o i s = true) (hact : controller.act o i s = some (r, s'))
    (hs : Hidden s) : Hidden s' := by
  have hexec := exec_of_act hact
  have htrace := (Machine.act_eq_some.mp hact).2
  intro hidle
  cases o with
  | publish track =>
    -- the device reports only while it reads, and then nothing is asked of the slot
    have hkept : capturePhase s'.trace = capturePhase s.trace := phase_kept rfl hact
    cases hphase : capturePhase s.trace with
    | idle =>
      rw [hphase] at hpermits
      exact absurd rfl (hpermits.2.2.1 track)
    | reading other => exact absurd (hkept.trans hphase) (hidle other)
    | withdrawn other =>
      rw [hphase] at hpermits
      obtain ⟨capture, heq⟩ := hpermits
      cases heq
  | withdraw =>
    simp only [exec, Option.some.injEq, Prod.mk.injEq, true_and] at hexec
    rw [← hexec]
    rfl
  | deviceRead track mode density =>
    rw [htrace] at hidle
    exact absurd rfl (hidle track)
  | deviceReadResult =>
    rw [hidden_of_inFlight (exec_inFlight hexec rfl)]
    have hresult : r = i.capture := by
      simp only [exec, Option.some.injEq, Prod.mk.injEq] at hexec
      exact hexec.1.symm
    -- a read that fails leaves the slot empty, by the condition on its reports
    rcases (Bool.or_eq_true _ _).mp hwithdraws with hfinished | hhidden
    · refine hs fun track hreading => hidle track ?_
      rw [htrace, ← hreading]
      show (capturePhase s.trace).answer r = _
      unfold CapturePhase.answer
      rw [hresult, if_pos hfinished]
    · exact hhidden
  | storeCapture track capture =>
    rw [hidden_of_inFlight (exec_inFlight hexec rfl)]
    refine hs fun other hreading => ?_
    rw [hreading] at hpermits
    rcases hpermits with heq | heq | heq <;> cases heq
  | _ =>
    rw [hidden_of_inFlight (exec_inFlight hexec rfl)]
    exact hs fun track hreading => hidle track ((phase_kept rfl hact).trans hreading)

end Phases

/-- **Partials.** Where every read that fails has withdrawn what it published, nothing is served
between captures. -/
theorem partialHidden_of_withdrawn {checks : Bool} {m : Moment checks}
    (h : Reachable (partialsWithdrawn checks) m) : PartialHidden m := by
  obtain @⟨config, status, head, now, _, run⟩ := h
  have hkept : Phases.Hidden m.snap := by
    refine (Phases.valid.keeps Phases.step_anyRun ?_ ?_ run
      (Phases.holds_fromDevice config status head now) fun _ => rfl).2
    · exact fun _ _ _ _ _ _ _ hpermits hallowed hact hs =>
        Phases.hidden_of_act hpermits hallowed hact hs
    · intro _ o _ _ s s' ho _ _ hact hs hidle
      have ho : o.ofCaller = true := ho
      rw [Phases.hidden_of_inFlight (exec_inFlight (exec_of_act hact) (Op.ofCaller_kept ho).2.2.2)]
      have hcapturing : o.capturing = false := by
        cases o <;> first | rfl | cases ho
      exact hs fun track hreading =>
        hidle track ((Phases.phase_kept hcapturing hact).trans hreading)
  intro hidle track i r w hexec
  have hhidden := hkept hidle
  simp only [exec, Option.some.injEq, Prod.mk.injEq] at hexec
  rw [← hexec.1]
  unfold World.hidden at hhidden
  cases hslot : m.snap.world.inFlight with
  | none => rfl
  | some p =>
    rw [hslot] at hhidden
    have hzero : p.bitLen = 0 := by simpa using hhidden
    simp [Option.filter, hzero]

/-- Switch the motor on, ask for a track, and let the worker read it. -/
def captureRun (i : Outside) (steps : Nat) : Schedule true :=
  calling (.setMotor .lower true) 4 {} ++ calling (.readTrack ⟨0, .lower⟩) 5 {} ++ working [{}] ++
    working (.replicate steps i)

/-- A read that reports two words on its way. -/
def reporting (capture : Except Error RawCapture) : Outside :=
  { reports := 1, words := [0x4489, 0x4489], bitLen := 32, capture := capture }

/-- A capture whose quality cannot be verified. -/
def unprovenCapture : RawCapture := { words := .replicate 4 0, bitLen := 64, indexAligned := false }

theorem partialHidden_of_withdrawn_finished : ∃ m : Moment true,
    capturePhase m.snap.trace = .idle ∧ m.snap.world.taken = 1 ∧ PartialHidden m := by
  have hplay : ((play (partialsWithdrawn true) (opened true .normal ⟨5, .upper⟩)
      (captureRun (reporting (.ok unprovenCapture)) 17)).any
      fun m => capturePhase m.snap.trace = .idle ∧ m.snap.world.taken = 1) = true := by
    decide +kernel
  obtain ⟨m, hrun, htest⟩ := exists_reach_of_play hplay
  obtain ⟨hidle, htaken⟩ : capturePhase m.snap.trace = .idle ∧ m.snap.world.taken = 1 := by
    simpa using htest
  exact ⟨m, hidle, htaken, partialHidden_of_withdrawn ⟨hrun⟩⟩

/-- A read that times out leaves what it published to be served. -/
theorem timeout_leaves_partial : ¬ ∀ (checks : Bool) (m : Moment checks),
    Reachable (anyRun checks) m → PartialHidden m := by
  intro h
  have hplay : ((play (anyRun true) (opened true .normal ⟨5, .upper⟩)
      (captureRun (reporting (.error (.timeout "index"))) 15)).any
      fun m => capturePhase m.snap.trace = .idle ∧
        m.snap.world.inFlight = some ⟨⟨0, .lower⟩, [0x4489, 0x4489], 32⟩) = true := by
    decide +kernel
  obtain ⟨m, hrun, htest⟩ := exists_reach_of_play hplay
  obtain ⟨hidle, hslot⟩ : capturePhase m.snap.trace = .idle ∧
      m.snap.world.inFlight = some ⟨⟨0, .lower⟩, [0x4489, 0x4489], 32⟩ := by simpa using htest
  have hhidden := h true m ⟨hrun⟩ (fun track => by rw [hidle]; exact nofun) ⟨0, .lower⟩ {} _ _ rfl
  rw [hslot] at hhidden
  cases hhidden

/-! ## From the partial to the capture -/

/--
The steps that retire no capture of a track and fail no read of it: the worker writes no such track,
sees no disk change and evicts no reading of it, and every read whose partial is all there is works
and reports on.
-/
def keepsTrack (track : TrackAddress) (o : Op) (i : Outside) (s : Snap controller) : Bool :=
  match o with
  | .publish _ => 0 < i.bitLen || s.world.cacheHolds track
  | .deviceReadResult => finished i.capture || s.world.cacheHolds track
  | .invalidate other => other ≠ track
  | .clearCaptures => false
  | .storeCapture other _ => other = track ||
      (World.evict s.world.captures other i.victim).lookup track = s.world.captures.lookup track
  | _ => true

/-- The caller does not retire the last reading of a track, unless its next one is on its way. -/
def callerKeepsTrack (track : TrackAddress) (o : Op) (s : Snap controller) : Bool :=
  match o with
  | .retireFront other => other ≠ track || 2 ≤ (s.world.queue track).length ||
      capturePhase s.trace = .withdrawn track ||
      capturePhase s.trace = .reading track && s.world.slotHolds track
  | _ => true

/-- The runs in which the capture of a track that is on its way is cached, and not retired. -/
@[reducible] def unretired (checks : Bool) (track : TrackAddress) : Conditions checks :=
  .of (fun _ o i s => keepsTrack track o i s) fun _ o _ s => callerKeepsTrack track o s

/-- The partial is withdrawn only when the cache has an older reading. -/
def withdrawsLate (track : TrackAddress) (o : Op) (s : Snap controller) : Bool :=
  match o with
  | .withdraw => capturePhase s.trace ≠ .reading track || s.world.cacheHolds track
  | _ => true

/-- The older reading is not retired before the capture is stored. -/
def retiresLate (track : TrackAddress) (o : Op) (s : Snap controller) : Bool :=
  match o with
  | .retireFront other => other ≠ track || capturePhase s.trace ≠ .withdrawn track ||
      2 ≤ (s.world.queue track).length
  | _ => true

/-- Those in which an older reading covers the time between the partial and the capture. -/
@[reducible] def covered (checks : Bool) (track : TrackAddress) : Conditions checks :=
  .of (fun _ o i s => keepsTrack track o i s && withdrawsLate track o s)
    fun _ o _ s => callerKeepsTrack track o s && retiresLate track o s

namespace Phases

variable {o : Op} {i : Outside} {r : o.Ret} {s s' : Snap controller} {track : TrackAddress}

/-- The track is found: in the cache, or in the slot while it is being read. -/
def Found (track : TrackAddress) (s : Snap controller) : Prop :=
  s.world.cacheHolds track = true ∨ Reading track s ∧ s.world.slotHolds track = true

theorem cacheHolds_of_captures {w w' : World} (h : w'.captures = w.captures) :
    w'.cacheHolds track = w.cacheHolds track := by
  unfold World.cacheHolds World.front
  rw [World.queue_eq_of_captures h]

theorem slotHolds_of_inFlight {w w' : World} (h : w'.inFlight = w.inFlight) :
    w'.slotHolds track = w.slotHolds track := by
  unfold World.slotHolds
  rw [h]

/-- The steps of the worker that change the cache leave a track in it that they do not retire. -/
theorem cacheHolds_of_act (ho : o.ofWorker = true) (hkeeps : keepsTrack track o i s = true)
    (hact : controller.act o i s = some (r, s')) (hs : s.world.cacheHolds track = true) :
    s'.world.cacheHolds track = true := by
  have hexec := exec_of_act hact
  by_cases hcaches : o.caches = true
  · rw [World.cacheHolds_iff] at hs ⊢
    cases o with
    | invalidate other =>
      have hother : other ≠ track := by simpa [keepsTrack] using hkeeps
      rw [exec_invalidate hexec, if_neg hother.symm]
      exact hs
    | clearCaptures => cases hkeeps
    | storeCapture other capture =>
      rw [(exec_storeCapture hexec).2, World.queue_store]
      split
      · exact List.append_ne_nil_of_right_ne_nil _ (List.cons_ne_nil _ _)
      · next hother =>
        -- an eviction that leaves the track as it is takes nothing from it
        have hlookup : (World.evict s.world.captures other i.victim).lookup track =
            s.world.captures.lookup track := by
          simpa [keepsTrack, Ne.symm hother] using hkeeps
        rw [World.lookup_evict] at hlookup
        split
        · next hevicted =>
          rw [if_pos hevicted] at hlookup
          rwa [World.queue, ← hlookup] at hs
        · exact hs
    | retireFront other => cases ho
    | _ => cases hcaches
  · rw [cacheHolds_of_captures (exec_captures hexec (by simpa using hcaches))]
    exact hs

/-- A step of the worker leaves the track found. -/
theorem found_of_worker (ho : o.ofWorker = true) (hpermits : (capturePhase s.trace).Permits o)
    (hkeeps : keepsTrack track o i s = true) (hlate : withdrawsLate track o s = true)
    (hact : controller.act o i s = some (r, s')) (hs : Found track s) : Found track s' := by
  have hexec := exec_of_act hact
  by_cases hcache : s.world.cacheHolds track = true
  · exact Or.inl (cacheHolds_of_act ho hkeeps hact hcache)
  obtain ⟨hreading, hslot⟩ := hs.resolve_left hcache
  rw [hreading] at hpermits
  rcases hpermits with rfl | rfl | rfl
  · -- the device reports on
    right
    refine ⟨(phase_kept rfl hact).trans hreading, ?_⟩
    have hlen : 0 < i.bitLen := by simpa [keepsTrack, hcache] using hkeeps
    simp only [exec, Option.some.injEq, Prod.mk.injEq, true_and] at hexec
    rw [← hexec]
    simpa [World.slotHolds] using hlen
  · -- the read works
    right
    have hfinished : finished i.capture = true := by simpa [keepsTrack, hcache] using hkeeps
    refine ⟨?_, by rw [slotHolds_of_inFlight (exec_inFlight hexec rfl)]; exact hslot⟩
    have hresult : r = i.capture := by
      simp only [exec, Option.some.injEq, Prod.mk.injEq] at hexec
      exact hexec.1.symm
    unfold Reading
    rw [(Machine.act_eq_some.mp hact).2]
    show (capturePhase s.trace).answer r = _
    unfold CapturePhase.answer
    rw [hresult, if_pos hfinished]
    exact hreading
  · -- the partial is withdrawn: only an older reading is left
    have hreading : capturePhase s.trace = .reading track := hreading
    simp [withdrawsLate, hreading, hcache] at hlate

/-- A step of the caller leaves the track found. -/
theorem found_of_caller (ho : o.ofCaller = true) (hkeeps : callerKeepsTrack track o s = true)
    (hlate : retiresLate track o s = true) (hact : controller.act o i s = some (r, s'))
    (hs : Found track s) : Found track s' := by
  have hexec := exec_of_act hact
  have hcapturing : o.capturing = false := by
    cases o <;> first | rfl | cases ho
  have hphase := phase_kept hcapturing hact
  have hslot : s'.world.slotHolds track = s.world.slotHolds track :=
    slotHolds_of_inFlight (exec_inFlight hexec (Op.ofCaller_kept ho).2.2.2)
  have hfound : Reading track s ∧ s.world.slotHolds track = true → Found track s' := by
    rintro ⟨hreading, hholds⟩
    exact Or.inr ⟨hphase.trans hreading, hslot.trans hholds⟩
  rcases hs with hcache | hreading
  · cases o with
    | retireFront other =>
      by_cases hreading : Reading track s ∧ s.world.slotHolds track = true
      · exact hfound hreading
      left
      rw [World.cacheHolds_iff] at hcache ⊢
      obtain ⟨-, hretire⟩ := exec_retireFront hexec
      rw [hretire, World.queue_retire]
      split
      · next hother =>
        subst hother
        -- before the withdrawal the slot holds the track, and then the cache keeps a second reading
        have hlong : 2 ≤ (s.world.queue track).length := by
          unfold Reading at hreading
          by_cases hwithdrawn : capturePhase s.trace = .withdrawn track
          · simpa [retiresLate, hwithdrawn] using hlate
          · simp only [callerKeepsTrack, ne_eq, not_true_eq_false, decide_false, Bool.false_or,
              hwithdrawn, Bool.or_false, Bool.or_eq_true, decide_eq_true_eq, Bool.and_eq_true]
              at hkeeps
            exact hkeeps.resolve_right hreading
        intro hempty
        have hlength := congrArg List.length hempty
        rw [List.length_tail, List.length_nil] at hlength
        omega
      · exact hcache
    | invalidate other => cases ho
    | clearCaptures => cases ho
    | storeCapture other capture => cases ho
    | _ =>
      left
      rw [cacheHolds_of_captures (exec_captures hexec rfl)]
      exact hcache
  · exact hfound hreading

end Phases

section Handover

variable {checks : Bool} {track : TrackAddress}

/--
**Handover.** From the moment at which a read has published something of a track, the caller finds
the track in the slot or in the cache, where an older reading covers the time between the partial
and the capture.
-/
theorem handover_of_covered {m₁ m₂ : Moment checks} (h : Reachable (anyRun checks) m₁)
    (hreading : capturePhase m₁.snap.trace = .reading track)
    (hslot : m₁.snap.world.slotHolds track = true) (hrun : Reach (covered checks track) m₁ m₂) :
    m₂.snap.world.slotHolds track = true ∨ m₂.snap.world.cacheHolds track = true := by
  have hholds : (Phases.phases checks).Holds m₁ := h.holds Phases.valid Phases.holds_fromDevice
  have hfound : Phases.Found track m₂.snap := by
    refine (Phases.valid.keeps Phases.step_anyRun ?_ ?_ hrun hholds (Or.inr ⟨hreading, hslot⟩)).2
    · intro _ o i _ s _ ho hpermits hallowed hact hs
      obtain ⟨hkeeps, hlate⟩ := (Bool.and_eq_true _ _).mp hallowed
      exact Phases.found_of_worker ho hpermits hkeeps hlate hact hs
    · intro _ o i _ s _ ho _ hallowed hact hs
      obtain ⟨hkeeps, hlate⟩ := (Bool.and_eq_true _ _).mp hallowed
      exact Phases.found_of_caller ho hkeeps hlate hact hs
  rcases hfound with hcache | ⟨-, hslot⟩
  · exact Or.inr hcache
  · exact Or.inl hslot

/-- A second reading, while the first is in the cache, up to the withdrawal of its partial. -/
theorem handover_of_covered_second : ∃ m₁ m₂ : Moment true,
    capturePhase m₂.snap.trace = .withdrawn ⟨0, .lower⟩ ∧
    Reach (covered true ⟨0, .lower⟩) m₁ m₂ ∧
    (m₂.snap.world.slotHolds ⟨0, .lower⟩ = true ∨ m₂.snap.world.cacheHolds ⟨0, .lower⟩ = true) := by
  have hplay : ((play (anyRun true) (opened true .normal ⟨5, .upper⟩)
      (captureRun (reporting (.ok unprovenCapture)) 17 ++ working [] ++
        working (.replicate 8 (reporting (.ok unprovenCapture))))).any fun m₁ =>
      (capturePhase m₁.snap.trace = .reading ⟨0, .lower⟩ ∧
        m₁.snap.world.slotHolds ⟨0, .lower⟩ = true) &&
      (play (covered true ⟨0, .lower⟩) m₁
        (.replicate 2 (.left (reporting (.ok unprovenCapture))))).any fun m₂ =>
        capturePhase m₂.snap.trace = .withdrawn ⟨0, .lower⟩) = true := by
    decide +kernel
  obtain ⟨m₁, hrun₁, htest⟩ := exists_reach_of_play hplay
  obtain ⟨hstart, hplay⟩ := (Bool.and_eq_true _ _).mp htest
  obtain ⟨m₂, hrun₂, hend⟩ := exists_reach_of_play hplay
  obtain ⟨hreading, hslot⟩ := of_decide_eq_true hstart
  exact ⟨m₁, m₂, of_decide_eq_true hend, hrun₂,
    handover_of_covered ⟨hrun₁⟩ hreading hslot hrun₂⟩

/-- Between the withdrawal of a first reading's partial and its place in the cache there is
nothing. -/
theorem handover_window : ¬ ∀ (checks : Bool) (track : TrackAddress) (m₁ m₂ m₃ : Moment checks),
    Reachable (anyRun checks) m₁ → capturePhase m₁.snap.trace = .reading track →
    m₁.snap.world.slotHolds track = true → Reach (unretired checks track) m₁ m₂ →
    Reach (unretired checks track) m₂ m₃ → capturePhase m₃.snap.trace = .idle →
    m₃.snap.world.cacheHolds track = true →
    m₂.snap.world.slotHolds track = true ∨ m₂.snap.world.cacheHolds track = true := by
  intro h
  have hplay : ((play (anyRun true) (opened true .normal ⟨5, .upper⟩)
      (captureRun (reporting (.ok unprovenCapture)) 14)).any fun m₁ =>
      (capturePhase m₁.snap.trace = .reading ⟨0, .lower⟩ ∧
        m₁.snap.world.slotHolds ⟨0, .lower⟩ = true) &&
      (play (unretired true ⟨0, .lower⟩) m₁
        (.replicate 2 (.left (reporting (.ok unprovenCapture))))).any fun m₂ =>
        (m₂.snap.world.slotHolds ⟨0, .lower⟩ = false ∧
          m₂.snap.world.cacheHolds ⟨0, .lower⟩ = false) &&
        (play (unretired true ⟨0, .lower⟩) m₂
          [.left (reporting (.ok unprovenCapture))]).any fun m₃ =>
          capturePhase m₃.snap.trace = .idle ∧
            m₃.snap.world.cacheHolds ⟨0, .lower⟩ = true) = true := by
    decide +kernel
  obtain ⟨m₁, hrun₁, htest₁⟩ := exists_reach_of_play hplay
  obtain ⟨hstart, hplay₁⟩ := (Bool.and_eq_true _ _).mp htest₁
  obtain ⟨m₂, hrun₂, htest₂⟩ := exists_reach_of_play hplay₁
  obtain ⟨hnothing, hplay₂⟩ := (Bool.and_eq_true _ _).mp htest₂
  obtain ⟨m₃, hrun₃, hend⟩ := exists_reach_of_play hplay₂
  obtain ⟨hreading, hslot⟩ := of_decide_eq_true hstart
  obtain ⟨hslot₂, hcache₂⟩ := of_decide_eq_true hnothing
  obtain ⟨hidle, hcached⟩ := of_decide_eq_true hend
  rcases h true ⟨0, .lower⟩ m₁ m₂ m₃ ⟨hrun₁⟩ hreading hslot hrun₂ hrun₃ hidle hcached with hs | hc
  · rw [hslot₂] at hs
    cases hs
  · rw [hcache₂] at hc
    cases hc

end Handover

end FluxBridge
