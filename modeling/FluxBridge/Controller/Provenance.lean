import FluxBridge.Controller.Freshness

/-!
# Where captures come from

The worker has one place where it asks the device for a track, and one where it stores a capture.
In between it checks what was read, grades it and numbers it.

* `exactlyOnce_of_reachable` — every valid reading enters the cache once, in the order of the
  readings and under the track that was asked for, and nothing else is cached or returned
* `sameReading_of_reachable` — a generation identifies a reading

`readings` is the list of what the device handed over, read off the trace alone; `keeps` lists what
was stored.
-/

namespace FluxBridge

open Atomic Atomic.Side

/-! ## The readings of a run -/

/-- The track that the device was last asked to read. -/
def reading : List (Event controllerSig) → Option TrackAddress
  | [] => none
  | ⟨.deviceRead track _ _, _⟩ :: _ => some track
  | _ :: rest => reading rest

/-- The valid readings that the device handed over, the oldest first, with their tracks. -/
def readings : List (Event controllerSig) → List (TrackAddress × RawCapture)
  | [] => []
  | ⟨.deviceReadResult, .ok raw⟩ :: rest =>
    match validateCapture raw, reading rest with
    | .ok (), some track => readings rest ++ [(track, raw)]
    | _, _ => readings rest
  | _ :: rest => readings rest

/-- The captures that an event puts into the cache. -/
def keeps : Event controllerSig → List (TrackAddress × TrackCapture)
  | ⟨.storeCapture track capture, _⟩ => [(track, capture)]
  | _ => []

/-- What a call of `read_track` was asked for, and the capture it returned. -/
def capturesReturned : Event controllerSig → List (TrackAddress × Cached)
  | ⟨.returned (.readTrack asked) (.capture (.ok (some c))), _⟩ => [(asked, c)]
  | _ => []

/-- What the worker makes of a reading that has `n` before it. -/
def grade (n : Nat) (raw : RawCapture) : TrackCapture where
  words := raw.words
  bitLen := raw.bitLen
  quality := captureQuality raw
  generation := (n + 1) % USIZE_RANGE

/-- What the worker makes of all readings. -/
def graded (taken : List (TrackAddress × RawCapture)) : List (TrackAddress × TrackCapture) :=
  taken.mapIdx fun n reading => (reading.1, grade n reading.2)

theorem graded_append (taken : List (TrackAddress × RawCapture)) (track : TrackAddress)
    (raw : RawCapture) :
    graded (taken ++ [(track, raw)]) = graded taken ++ [(track, grade taken.length raw)] := by
  unfold graded
  rw [List.mapIdx_append]
  simp

section Events

variable {o : Op} {r : o.Ret} {trace : List (Event controllerSig)}

theorem reading_cons (ho : o.reads = false) : reading (⟨o, r⟩ :: trace) = reading trace := by
  cases o <;> first | rfl | cases ho

theorem readings_cons (ho : o ≠ .deviceReadResult) :
    readings (⟨o, r⟩ :: trace) = readings trace := by
  cases o <;> first | rfl | exact absurd rfl ho

theorem keeps_eq_nil (ho : o.stores = false) : keeps ⟨o, r⟩ = [] := by
  cases o <;> first | rfl | cases ho

end Events

/-! ## The outline -/

namespace Provenance

/-- What is cached and what was returned had been stored. -/
structure Books (maxCylinders : Nat) (s : Snap controller) : Prop where
  queued : ∀ track, ∀ c ∈ s.world.queue track, (track, c.capture) ∈ gather keeps s.trace
  answered : ∀ a ∈ gather capturesReturned s.trace,
    (clampTrack a.1 maxCylinders, a.2.capture) ∈ gather keeps s.trace

/-- Every reading is stored. -/
structure Settled (l : Worker) (s : Snap controller) : Prop where
  stored : gather keeps s.trace = graded (readings s.trace)
  numbered : l.generation = (readings s.trace).length % USIZE_RANGE

/-- At most the newest reading is not stored yet. -/
def Held (s : Snap controller) : Prop :=
  ∃ done hand, readings s.trace = done ++ hand ∧ hand.length ≤ 1 ∧
    gather keeps s.trace = graded done

/-- What a call may return. -/
def Answers (maxCylinders : Nat) (call : Call) (answer : Answer) (s : Snap controller) : Prop :=
  ∀ a ∈ capturesReturned ⟨.returned call answer, ()⟩,
    (clampTrack a.1 maxCylinders, a.2.capture) ∈ gather keeps s.trace

end Provenance

open Provenance in
/-- The outline: every reading is stored once, and only what was stored is seen. -/
def provenance {checks : Bool} (maxCylinders : Nat) (asm : Conditions checks) : Outline asm where
  inv := Books maxCylinders
  leftOps o := o.ofWorker = true
  rightOps o := o.ofCaller = true
  leftAt _ := Settled
  rightAt _ b _ := b.maxCylinders = maxCylinders
  leftReady _ _ := Held
  rightReady b _ _ := b.maxCylinders = maxCylinders

namespace Provenance

variable {checks : Bool} {asm : Conditions checks} {maxCylinders : Nat} {l : Worker} {o : Op}
  {i : Outside} {r : o.Ret} {s s' : Snap controller}

/-! ## One step -/

/-- What was stored stays stored. -/
theorem keeps_kept {kept : TrackAddress × TrackCapture} (h : controller.act o i s = some (r, s'))
    (hs : kept ∈ gather keeps s.trace) : kept ∈ gather keeps s'.trace := by
  rw [gather_of_act keeps h]
  exact List.mem_append_left _ hs

theorem books_of_act (h : controller.act o i s = some (r, s'))
    (ho : ∀ call answer, o = .returned call answer → Answers maxCylinders call answer s)
    (hs : Books maxCylinders s) : Books maxCylinders s' where
  queued track c hc := by
    rcases mem_of_exec (exec_of_act h) hc with hold | ⟨capture, rfl, rfl⟩
    · exact keeps_kept h (hs.queued track c hold)
    · rw [gather_of_act keeps h]
      exact List.mem_append_right _ List.mem_cons_self
  answered a ha := by
    rw [gather_of_act capturesReturned h, List.mem_append] at ha
    rcases ha with hold | hnew
    · exact keeps_kept h (hs.answered a hold)
    · refine keeps_kept h ?_
      cases o with
      | returned call answer => exact ho call answer rfl a hnew
      | _ => exact absurd hnew List.not_mem_nil

/-- The steps that neither read nor store. -/
def calm : Op → Bool
  | .deviceRead _ _ _ | .deviceReadResult | .storeCapture _ _ => false
  | _ => true

theorem calm_of_caller (ho : o.ofCaller = true) : calm o = true := by
  cases o <;> first | rfl | cases ho

theorem not_returned_of_worker (ho : o.ofWorker = true) :
    ∀ call answer, o ≠ .returned call answer := by
  rintro call answer rfl
  cases ho

theorem not_returned_of_call (ho : o.ofCall = true) :
    ∀ call answer, o ≠ .returned call answer := by
  rintro call answer rfl
  cases ho

/-- A calm step leaves all three histories as they are. -/
theorem calm_histories (ho : calm o = true) (h : controller.act o i s = some (r, s')) :
    reading s'.trace = reading s.trace ∧ readings s'.trace = readings s.trace ∧
      gather keeps s'.trace = gather keeps s.trace := by
  have hreads : o.reads = false := by cases o <;> first | rfl | cases ho
  have hstores : o.stores = false := by cases o <;> first | rfl | cases ho
  have hresult : o ≠ .deviceReadResult := by
    rintro rfl
    cases ho
  rw [(Machine.act_eq_some.mp h).2]
  exact ⟨reading_cons hreads, readings_cons hresult, by
    rw [gather, keeps_eq_nil hstores, List.append_nil]⟩

theorem Settled.kept (ho : calm o = true) (h : controller.act o i s = some (r, s'))
    (hs : Settled l s) : Settled l s' := by
  obtain ⟨-, hreadings, hkeeps⟩ := calm_histories ho h
  constructor
  · rw [hkeeps, hreadings]
    exact hs.stored
  · rw [hreadings]
    exact hs.numbered

theorem Settled.held (hs : Settled l s) : Held s :=
  ⟨readings s.trace, [], (List.append_nil _).symm, Nat.zero_le _, hs.stored⟩

/-! ## The worker -/

section Worker

variable {wanted : TrackAddress}

theorem books_of_worker (ho : o.ofWorker = true) (h : controller.act o i s = some (r, s'))
    (hs : Books maxCylinders s) : Books maxCylinders s' :=
  books_of_act h (fun call answer heq => absurd heq (not_returned_of_worker ho call answer)) hs

theorem settled_stable : (provenance maxCylinders asm).left.Stable (Settled l) :=
  stable_of_action fun _ _ _ _ _ ho _ _ hact hs => hs.kept (calm_of_caller ho) hact

/-- One step of the worker, with an assertion the caller cannot take back. -/
theorem step_wp {P : Snap controller → Prop} {Q : o.Ret → Worker → Snap controller → Prop}
    (ho : o.ofWorker = true) (hstable : (provenance maxCylinders asm).left.Stable P) (hs : P s)
    (hheld : ∀ s, P s → Held s)
    (h : ∀ i r s₁ s₂, P s₁ → controller.act o i s₁ = some (r, s₂) → Q r l s₂) :
    (provenance maxCylinders asm).left.wpc (step o) Q l s :=
  wpc_perform_of ho hstable hs (fun s₁ _ h₁ => hheld s₁ h₁) fun i r s₁ s₂ hinv h₁ _ hact =>
    ⟨books_of_worker ho hact hinv, h i r s₁ s₂ h₁ hact⟩

theorem calm_wp {Q : o.Ret → Worker → Snap controller → Prop} (ho : o.ofWorker = true)
    (hcalm : calm o = true) (hs : Settled l s) (h : ∀ r s, Settled l s → Q r l s) :
    (provenance maxCylinders asm).left.wpc (step o) Q l s :=
  step_wp ho settled_stable hs (fun _ => Settled.held) fun _ r _ s₂ h₁ hact =>
    h r s₂ (h₁.kept hcalm hact)

/-- The frame: code that neither reads, nor stores, nor numbers. -/
theorem frame_wp {α : Type} {m : WorkerM α} {ops : Op → Bool}
    (hm : m.Keeps (fun w => w.generation = l.generation) (ops ·))
    (hops : ∀ o, ops o = true → o.ofWorker = true ∧ calm o = true) (hs : Settled l s) :
    (provenance maxCylinders asm).left.wpc m (fun _ l s => Settled l s) l s := by
  refine wpc_mono (wpc_of_keeps hm settled_stable ?_ rfl hs) fun _ l' s' ⟨hgen, h⟩ => ?_
  · refine fun l' o _ ho => ⟨(hops o ho).1, fun s₁ hinv h₁ => ⟨h₁.held, fun i r s₂ _ hact => ?_⟩⟩
    exact ⟨books_of_worker (hops o ho).1 hact hinv, h₁.kept (hops o ho).2 hact⟩
  · exact ⟨h.stored, by rw [hgen]; exact h.numbered⟩

/-- The parts of a round that neither read nor store. -/
theorem calm_of_part (ho : o.ofWishes = true ∨ o.ofWriting = true ∨ o.ofNoClick = true ∨
    o.ofStatus = true ∨ o.ofTarget = true ∨ o.ofEnding = true) :
    o.ofWorker = true ∧ calm o = true := by
  cases o <;> first
    | exact ⟨rfl, rfl⟩
    | (rcases ho with ho | ho | ho | ho | ho | ho <;> cases ho)

theorem generation_unaffected : Unaffected fun w => w.generation = l.generation :=
  unaffected_generation l.generation

theorem noteError_wp {e : Error} (hs : Settled l s) :
    (provenance maxCylinders asm).left.wpc (noteError e) (fun _ l s => Settled l s) l s :=
  frame_wp (noteError_keeps generation_unaffected.errors e)
    (fun _ ho => calm_of_part (.inl (Op.ofWishes_of_errors ho))) hs

theorem process_wp {c : Command} (hs : Settled l s) :
    (provenance maxCylinders asm).left.wpc (process checks c) (fun _ l s => Settled l s) l s := by
  cases c with
  | noClick side =>
    exact frame_wp (processNoClick_keeps generation_unaffected.errors checks side)
      (fun _ ho => calm_of_part (.inr (.inr (.inl ho)))) hs
  | write id request =>
    have hperform : (provenance maxCylinders asm).left.wpc (performWrite checks id request)
        (fun _ l s => Settled l s) l s := by
      refine wpc_seq (frame_wp (attemptWrite_keeps generation_unaffected.place checks request)
        (fun _ ho => calm_of_part (.inr (.inl ho))) hs) fun r l₁ s₁ h₁ => ?_
      cases r with
      | none => exact h₁
      | some result =>
        refine wpc_bind.mpr (calm_wp rfl rfl h₁ fun _ s₂ h₂ => ?_)
        exact wpc_bind.mpr (calm_wp rfl rfl h₂ fun _ s₃ h₃ => h₃)
    refine process_write_wp (I := fun _ => Settled) (wpc_mono hperform fun flow l₁ s₁ h₁ => ?_)
    cases flow with
    | go => exact ⟨fun _ => h₁, fun _ => h₁⟩
    | stop => exact h₁
    | unwound => exact h₁
  | shutdown => exact hs

/-! ### A reading -/

/-- The device was asked for a track, and every reading before is stored. -/
def Awaiting (wanted : TrackAddress) (l : Worker) (s : Snap controller) : Prop :=
  Settled l s ∧ reading s.trace = some wanted

theorem Awaiting.kept (ho : calm o = true) (h : controller.act o i s = some (r, s'))
    (hs : Awaiting wanted l s) : Awaiting wanted l s' :=
  ⟨hs.1.kept ho h, (calm_histories ho h).1.trans hs.2⟩

theorem awaiting_stable : (provenance maxCylinders asm).left.Stable (Awaiting wanted l) :=
  stable_of_action fun _ _ _ _ _ ho _ _ hact hs => hs.kept (calm_of_caller ho) hact

/-- A valid reading is in hand: all but it are stored. -/
structure InHand (wanted : TrackAddress) (raw : RawCapture) (l : Worker) (s : Snap controller) :
    Prop where
  taken : ∃ done, readings s.trace = done ++ [(wanted, raw)] ∧
    gather keeps s.trace = graded done ∧ l.generation = done.length % USIZE_RANGE

/-- What a read has come to. -/
structure Fetched (wanted : TrackAddress) (r : Except Error RawCapture) (l : Worker)
    (s : Snap controller) : Prop where
  settled : (∀ raw, r = .ok raw → validateCapture raw ≠ .ok ()) → Settled l s
  inHand : ∀ raw, r = .ok raw → validateCapture raw = .ok () → InHand wanted raw l s

/-- The result of a read is a reading of the track that was asked for, when it is valid. -/
theorem fetched_of_act {r : Except Error RawCapture} (hs : Awaiting wanted l s)
    (h : controller.act .deviceReadResult i s = some (r, s')) : Fetched wanted r l s' := by
  obtain ⟨hsettled, hreading⟩ := hs
  have htrace := (Machine.act_eq_some.mp h).2
  have hkeeps : gather keeps s'.trace = gather keeps s.trace := gather_kept h rfl
  refine ⟨fun hinvalid => ?_, fun raw hr hvalid => ?_⟩
  · have hsame : readings s'.trace = readings s.trace := by
      rw [htrace]
      cases r with
      | error e => rfl
      | ok raw =>
        have hraw := hinvalid raw rfl
        simp only [readings]
        split
        · next hvalid _ => exact absurd hvalid hraw
        · rfl
    constructor
    · rw [hkeeps, hsame]
      exact hsettled.stored
    · rw [hsame]
      exact hsettled.numbered
  · subst hr
    refine ⟨readings s.trace, ?_, ?_, hsettled.numbered⟩
    · rw [htrace]
      simp only [readings, hvalid, hreading]
    · rw [hkeeps]
      exact hsettled.stored

theorem readTrack_wp (hs : Settled l s) :
    (provenance maxCylinders asm).left.wpc (readTrack wanted) (Fetched wanted) l s := by
  refine wpc_bind.mpr (wpc_own.mpr (wpc_bind.mpr ?_))
  refine step_wp rfl settled_stable hs (fun _ => Settled.held) fun i reports s₁ s₂ h₁ hact => ?_
  have htrace := (Machine.act_eq_some.mp hact).2
  have h₂ : Awaiting wanted l s₂ := by
    refine ⟨⟨?_, ?_⟩, by rw [htrace]; rfl⟩
    · rw [gather_kept hact rfl, htrace, readings_cons (by simp)]
      exact h₁.stored
    · rw [htrace, readings_cons (by simp)]
      exact h₁.numbered
  -- the reports on the way change nothing
  refine wpc_seq (R := fun _ => Awaiting wanted) (wpc_times (fun l₃ s₃ h₃ => ?_) reports l s₂ h₂)
    fun _ l₄ s₄ h₄ => ?_
  · exact step_wp rfl awaiting_stable h₃ (fun _ h => h.1.held) fun _ _ _ _ h hact =>
      h.kept rfl hact
  · exact step_wp rfl awaiting_stable h₄ (fun _ h => h.1.held) fun _ _ _ _ h hact =>
      fetched_of_act h hact

/-! ### Keeping it -/

theorem InHand.kept {raw : RawCapture} (ho : calm o = true)
    (h : controller.act o i s = some (r, s')) (hs : InHand wanted raw l s) :
    InHand wanted raw l s' := by
  obtain ⟨done, htaken, hstored, hnumbered⟩ := hs.taken
  obtain ⟨-, hreadings, hkeeps⟩ := calm_histories ho h
  exact ⟨done, hreadings.trans htaken, hkeeps.trans hstored, hnumbered⟩

theorem InHand.held {raw : RawCapture} (hs : InHand wanted raw l s) : Held s := by
  obtain ⟨done, htaken, hstored, -⟩ := hs.taken
  exact ⟨done, [(wanted, raw)], htaken, Nat.le_refl 1, hstored⟩

theorem inHand_stable {raw : RawCapture} :
    (provenance maxCylinders asm).left.Stable (InHand wanted raw l) :=
  stable_of_action fun _ _ _ _ _ ho _ _ hact hs => hs.kept (calm_of_caller ho) hact

theorem settled_of_store {raw : RawCapture} {l' : Worker} {r : Option TrackAddress}
    (hs : InHand wanted raw l s)
    (hl : l'.generation = (l.generation + 1) % USIZE_RANGE)
    (h : controller.act (.storeCapture wanted
      { words := raw.words, bitLen := raw.bitLen, quality := captureQuality raw,
        generation := l'.generation }) i s = some (r, s')) : Settled l' s' := by
  obtain ⟨done, htaken, hstored, hnumbered⟩ := hs.taken
  have hgen : l'.generation = (done.length + 1) % USIZE_RANGE := by
    rw [hl, hnumbered, Nat.mod_add_mod]
  have hreadings : readings s'.trace = done ++ [(wanted, raw)] := by
    rw [(Machine.act_eq_some.mp h).2, readings_cons (by simp)]
    exact htaken
  constructor
  · rw [gather_of_act keeps h, hreadings, graded_append, hstored, grade, ← hgen]
    rfl
  · rw [hreadings, List.length_append]
    exact hgen

theorem keepCapture_wp {raw : RawCapture} (hs : InHand wanted raw l s) :
    (provenance maxCylinders asm).left.wpc (keepCapture wanted raw)
      (fun _ l s => Settled l s) l s := by
  refine wpc_bind.mpr (step_wp rfl inHand_stable hs (fun _ => InHand.held)
    fun _ _ _ s₁ h₁ hact => ?_)
  have h₁ := h₁.kept rfl hact
  refine wpc_bind.mpr (wpc_update.mpr (wpc_bind.mpr (wpc_update.mpr (wpc_bind.mpr
    (wpc_own.mpr ?_)))))
  exact wpc_bind.mpr (step_wp rfl inHand_stable h₁ (fun _ => InHand.held)
    fun _ _ _ s₂ h₂ hact => settled_of_store h₂ rfl hact)

theorem captureIfNeeded_wp (hs : Settled l s) :
    (provenance maxCylinders asm).left.wpc captureIfNeeded (fun _ l s => Settled l s) l s := by
  refine captureIfNeeded_wp_of (P := fun _ => Settled) (M := fun _ _ => Settled) (R := Fetched)
    ?_ (fun _ _ h => h) (fun wanted l s h => ?_) (fun _ _ _ _ h => noteError_wp h)
    (fun _ _ _ h => readTrack_wp h) (fun _ _ _ _ h => h.settled fun _ hr => by cases hr)
    (fun _ _ _ _ _ h => noteError_wp (h.settled fun _ hr => by cases hr)) ?_
    fun _ raw _ _ hvalid h => keepCapture_wp (h.inHand raw rfl hvalid)
  · exact frame_wp captureTarget_keeps (fun _ ho => calm_of_part (by simp [ho])) hs
  · exact frame_wp (position_keeps generation_unaffected.place wanted)
      (fun _ ho => calm_of_part (.inl (Op.ofWishes_of_position ho))) h
  · intro wanted raw e l s hvalid h
    refine noteError_wp (h.settled fun raw' hr => ?_)
    cases hr
    rw [hvalid]
    simp

theorem rounds : Rounds (provenance maxCylinders asm).left checks (fun _ => Settled)
    (fun _ => Settled) Settled where
  hot _ _ h := h
  select _ _ h := calm_wp rfl rfl h fun r _ h₁ => by cases r <;> exact h₁
  receive _ _ h := calm_wp rfl rfl h fun r _ h₁ => by cases r <;> exact h₁
  process _ _ _ h := process_wp h
  desired _ _ h := frame_wp (applyDesired_keeps generation_unaffected)
    (fun _ ho => calm_of_part (.inl ho)) h
  status _ _ h := frame_wp (refreshStatusIfDue_keeps generation_unaffected.errors
    generation_unaffected.schedule) (fun _ ho => calm_of_part (by simp [ho])) h
  capture _ _ h := captureIfNeeded_wp h
  failed _ _ h _ := h
  again _ _ _ h _ := h
  stop _ _ h := frame_wp stopRound_keeps (fun _ ho => calm_of_part (by simp [ho])) h
  unwind _ _ h := frame_wp unwindRound_keeps (fun _ ho => calm_of_part (by simp [ho])) h

end Worker

/-! ## The caller -/

section Caller

variable {b : Bridge}

theorem answers_stable {call : Call} {answer : Answer} :
    (provenance maxCylinders asm).right.Stable (Answers maxCylinders call answer) :=
  stable_of_action fun _ _ _ _ _ _ _ _ hact hs a ha => keeps_kept hact (hs a ha)

/-- One step of a call. -/
theorem call_wp {Q : o.Ret → Bridge → Snap controller → Prop} (ho : o.ofCall = true)
    (hb : b.maxCylinders = maxCylinders)
    (h : ∀ i r s₁ s₂, Books maxCylinders s₁ → controller.act o i s₁ = some (r, s₂) → Q r b s₂) :
    (provenance maxCylinders asm).right.wpc (step o) Q b s :=
  wpc_perform_of (P := fun _ => True) (Op.ofCaller_of_call ho) stable_const trivial
    (fun _ _ _ => hb) fun i r s₁ s₂ hinv _ _ hact =>
      ⟨books_of_act hact (fun call answer heq => absurd heq (not_returned_of_call ho call answer))
        hinv, h i r s₁ s₂ hinv hact⟩

theorem callFrame_wp {α : Type} {m : BridgeM α} {ops : Op → Bool}
    (hm : m.Keeps (fun b => b.maxCylinders = maxCylinders) (ops ·))
    (hops : ∀ o, ops o = true → o.ofCall = true) (hb : b.maxCylinders = maxCylinders) :
    (provenance maxCylinders asm).right.wpc m (fun _ b _ => b.maxCylinders = maxCylinders) b
      s := by
  refine wpc_mono (wpc_of_keeps (P := fun _ => True) hm stable_const ?_ hb trivial)
    fun _ _ _ h => h.1
  refine fun b' o hb' ho => ⟨Op.ofCaller_of_call (hops o ho), fun s₁ hinv _ => ⟨hb', ?_⟩⟩
  intro i r s₂ _ hact
  have hnot := not_returned_of_call (hops o ho)
  exact ⟨books_of_act hact (fun call answer heq => absurd heq (hnot call answer)) hinv, trivial⟩

/-- The front of a queue was stored. -/
theorem answers_front {asked : TrackAddress} {c : Cached} (hs : Books maxCylinders s)
    (h : controller.act (.frontCapture (clampTrack asked maxCylinders)) i s =
      some (some c, s')) :
    Answers maxCylinders (.readTrack asked) (.capture (.ok (some c))) s' := by
  have hexec := exec_of_act h
  simp only [exec, Option.some.injEq, Prod.mk.injEq] at hexec
  have hmem : c ∈ s.world.queue (clampTrack asked maxCylinders) := List.mem_of_head? hexec.1
  intro a ha
  have ha : a = (asked, c) := List.mem_singleton.mp ha
  rw [ha]
  exact keeps_kept h (hs.queued _ c hmem)

theorem answers_nothing {asked : TrackAddress} {result : Except Error (Option Cached)}
    (hresult : ∀ c, result ≠ .ok (some c)) :
    Answers maxCylinders (.readTrack asked) (.capture result) s := by
  intro a ha
  unfold capturesReturned at ha
  split at ha
  · next heq =>
    cases heq
    exact absurd rfl (hresult _)
  · exact absurd ha List.not_mem_nil

/-- A stalling read, by induction on how often it looks. -/
theorem stall_wp {asked : TrackAddress} (hb : b.maxCylinders = maxCylinders) :
    ∀ (polls : Nat) (s : Snap controller), (provenance maxCylinders asm).right.wpc
      (Bridge.stall (clampTrack asked maxCylinders) polls) (fun r b s =>
        b.maxCylinders = maxCylinders ∧
          Answers maxCylinders (.readTrack asked) (.capture r) s) b s
  | 0, _ => ⟨hb, answers_nothing (by simp)⟩
  | polls + 1, s => by
    refine wpc_bind.mpr (call_wp rfl hb fun i front s₁ s₂ hinv hact => ?_)
    cases front with
    | some c => exact ⟨hb, answers_front hinv hact⟩
    | none =>
      refine wpc_bind.mpr (call_wp rfl hb fun _ status _ s₃ _ _ => ?_)
      split
      · exact ⟨hb, answers_nothing (by simp)⟩
      · exact stall_wp hb polls s₃

theorem readTrackCall_wp {asked : TrackAddress} (hb : b.maxCylinders = maxCylinders) :
    (provenance maxCylinders asm).right.wpc (Bridge.readTrack asked) (fun answer b s =>
      b.maxCylinders = maxCylinders ∧ Answers maxCylinders (.readTrack asked) answer s) b s := by
  refine wpc_bind.mpr (wpc_bind.mpr (wpc_own.mpr (wpc_pure.mpr ?_)))
  rw [hb]
  refine wpc_bind.mpr (call_wp rfl hb fun _ _ _ s₁ _ _ => ?_)
  refine wpc_bind.mpr (call_wp rfl hb fun i front s₁ s₂ hinv hact => ?_)
  cases front with
  | some c => exact ⟨hb, answers_front hinv hact⟩
  | none =>
    refine wpc_bind.mpr (call_wp rfl hb fun _ _ _ s₃ _ _ => wpc_bind.mpr (wpc_own.mpr ?_))
    cases b.stallTimeout with
    | none => exact ⟨hb, answers_nothing (by simp)⟩
    | some timeout =>
      refine wpc_bind.mpr (call_wp rfl hb fun _ polls _ s₄ _ _ => ?_)
      exact wpc_seq (stall_wp hb polls s₄) fun _ _ _ h => h

theorem perform_wp {call : Call} (hb : b.maxCylinders = maxCylinders) :
    (provenance maxCylinders asm).right.wpc (Bridge.perform checks call) (fun answer b s =>
      b.maxCylinders = maxCylinders ∧ Answers maxCylinders call answer s) b s := by
  by_cases hread : ∃ asked, call = .readTrack asked
  · obtain ⟨asked, rfl⟩ := hread
    exact readTrackCall_wp hb
  · refine wpc_mono (callFrame_wp (perform_keeps (fun _ _ h => h) checks call) (fun _ h => h) hb)
      fun answer b' s' hb' => ⟨hb', fun a ha => ?_⟩
    -- the other calls return no capture
    unfold capturesReturned at ha
    split at ha
    · next heq =>
      cases heq
      exact absurd ⟨_, rfl⟩ hread
    · exact absurd ha List.not_mem_nil

theorem callRound_wp {call : Call} (hb : b.maxCylinders = maxCylinders) :
    (provenance maxCylinders asm).right.wpc (callRound checks call)
      (fun _ b _ => b.maxCylinders = maxCylinders) b s := by
  refine wpc_bind.mpr (wpc_perform_of (P := fun _ => True) rfl stable_const trivial
    (fun _ _ _ => hb) fun i _ s₁ s₂ hinv _ _ hact => ⟨books_of_act hact ?_ hinv, ?_⟩)
  · rintro _ _ heq
    cases heq
  refine wpc_seq (perform_wp hb) fun answer b₃ s₃ ⟨hb₃, hanswers⟩ => ?_
  refine wpc_bind.mpr (wpc_perform_of rfl answers_stable hanswers (fun _ _ _ => hb₃)
    fun i _ s₄ s₅ hinv h₄ _ hact => ⟨books_of_act hact ?_ hinv, hb₃⟩)
  rintro _ _ heq
  cases heq
  exact h₄

end Caller

theorem valid : (@provenance checks maxCylinders asm).Valid where
  leftStable _ _ := settled_stable
  rightStable _ _ := stable_const
  leftRound _ _ _ _ _ hm _ h := rounds.round hm h
  rightRound := rightRound_of_call fun _ _ _ _ hb => callRound_wp hb

end Provenance

/-! ## Every interleaving -/

section Runs

variable {checks : Bool} {asm : Conditions checks} {m : Moment checks}

open Provenance in
theorem provenance_of_reachable (h : Reachable asm m) :
    (provenance m.right.priv.maxCylinders asm).Holds m := by
  cases h with
  | @intro config status head now _ run =>
    have hstart : (provenance status.maxCylinders asm).Holds
        (fromDevice checks config status head now) :=
      ⟨⟨fun _ _ hc => absurd hc List.not_mem_nil, fun _ ha => absurd ha List.not_mem_nil⟩,
        ⟨rfl, rfl⟩, rfl⟩
    have hholds := Provenance.valid.holds run hstart
    have hmax : m.right.priv.maxCylinders = status.maxCylinders :=
      hholds.rightView (J := fun (b : Bridge) _ => b.maxCylinders = status.maxCylinders)
        (fun _ _ _ hb => hb) fun _ _ _ hb => hb
    rw [hmax]
    exact hholds

/-- From the device to the caller, every reading counts once. -/
structure ExactlyOnce (m : Moment checks) : Prop where
  /-- what was stored are the readings, in their order, at most the newest one being in hand -/
  stored : ∃ done hand, readings m.snap.trace = done ++ hand ∧ hand.length ≤ 1 ∧
    gather keeps m.snap.trace = graded done
  /-- between two rounds of the worker none is in hand -/
  settled : ∀ loc, m.left.result? = some loc →
    gather keeps m.snap.trace = graded (readings m.snap.trace)
  cached : ∀ track, ∀ c ∈ m.snap.world.queue track,
    (track, c.capture) ∈ graded (readings m.snap.trace)
  returned : ∀ a ∈ gather capturesReturned m.snap.trace,
    (clampTrack a.1 m.right.priv.maxCylinders, a.2.capture) ∈ graded (readings m.snap.trace)

theorem mem_graded_of_append {done hand : List (TrackAddress × RawCapture)}
    {kept : TrackAddress × TrackCapture} (h : kept ∈ graded done) :
    kept ∈ graded (done ++ hand) := by
  unfold graded at h ⊢
  rw [List.mapIdx_append]
  exact List.mem_append_left _ h

theorem held_of_reachable (h : Reachable asm m) : Provenance.Held m.snap :=
  (provenance_of_reachable h).leftView (J := fun _ s => Provenance.Held s)
    (fun _ _ _ hs => hs.held) fun _ _ _ hs => hs

theorem mem_graded_of_keeps (h : Reachable asm m) {kept : TrackAddress × TrackCapture}
    (hkept : kept ∈ gather keeps m.snap.trace) : kept ∈ graded (readings m.snap.trace) := by
  obtain ⟨done, hand, hreadings, -, hstored⟩ := held_of_reachable h
  rw [hstored] at hkept
  rw [hreadings]
  exact mem_graded_of_append hkept

theorem returned_of_reachable (h : Reachable asm m) {a : TrackAddress × Cached}
    (ha : a ∈ gather capturesReturned m.snap.trace) :
    (clampTrack a.1 m.right.priv.maxCylinders, a.2.capture) ∈ graded (readings m.snap.trace) :=
  mem_graded_of_keeps h ((provenance_of_reachable h).inv.answered a ha)

/-- Ask for a track, let the worker capture it, and read it twice, once beyond the last track. -/
def readTwice : Schedule true :=
  let raw : RawCapture := { words := .replicate 13 0, bitLen := 200, indexAligned := true }
  calling (.setMotor .lower true) 4 {} ++ calling (.readTrack ⟨79, .upper⟩) 5 {}
    ++ working [{}] ++ working (.replicate 18 { capture := .ok raw })
    ++ calling (.readTrack ⟨79, .upper⟩) 4 {} ++ calling (.readTrack ⟨90, .upper⟩) 4 {}

/--
**Exactly once.** In every interleaving, whatever the device answers: the captures stored are the
valid readings of the device in their order, each once and unchanged, under the track it was asked
to read and with consecutive generations. What is cached and what `read_track` returns for a track
is such a reading of that track.
-/
theorem exactlyOnce_of_reachable (h : Reachable (anyRun checks) m) : ExactlyOnce m where
  stored := held_of_reachable h
  settled _ hloc := ((provenance_of_reachable h).leftAt hloc).stored
  cached track c hc := mem_graded_of_keeps h ((provenance_of_reachable h).inv.queued track c hc)
  returned _ ha := returned_of_reachable h ha

/-- The tracks asked for and the generations returned by the reads of a run. -/
def readsReturned (trace : List (Event controllerSig)) : List (TrackAddress × Nat) :=
  (gather capturesReturned trace).map fun a => (a.1, a.2.capture.generation)

theorem exists_readTwice : ∃ m : Moment true, Reachable (anyRun true) m ∧
    readsReturned m.snap.trace = [(⟨79, .upper⟩, 1), (⟨90, .upper⟩, 1)] ∧
      (readings m.snap.trace).length = 1 := by
  have hplay : ((play (anyRun true) (opened true .normal ⟨5, .upper⟩) readTwice).any fun m =>
      readsReturned m.snap.trace = [(⟨79, .upper⟩, 1), (⟨90, .upper⟩, 1)] ∧
        (readings m.snap.trace).length = 1) = true := by
    decide +kernel
  obtain ⟨m, hrun, htest⟩ := exists_reach_of_play hplay
  exact ⟨m, ⟨hrun⟩, by simpa using htest⟩

theorem exactlyOnce_of_reachable_readTwice : ∃ m : Moment true,
    readsReturned m.snap.trace = [(⟨79, .upper⟩, 1), (⟨90, .upper⟩, 1)] ∧ ExactlyOnce m := by
  obtain ⟨m, hreachable, hread, -⟩ := exists_readTwice
  exact ⟨m, hread, exactlyOnce_of_reachable hreachable⟩

/-! ## Generations -/

/-- Among fewer readings than there are numbers, a generation determines the reading. -/
theorem eq_of_generation {taken : List (TrackAddress × RawCapture)}
    (hlt : taken.length < USIZE_RANGE) {a b : TrackAddress × TrackCapture} (ha : a ∈ graded taken)
    (hb : b ∈ graded taken) (hgen : a.2.generation = b.2.generation) : a = b := by
  unfold graded at ha hb
  obtain ⟨n, hn, rfl⟩ := List.mem_mapIdx.mp ha
  obtain ⟨k, hk, rfl⟩ := List.mem_mapIdx.mp hb
  have hnk : n = k := by
    simp only [grade] at hgen
    rw [Nat.mod_eq_of_lt (by omega), Nat.mod_eq_of_lt (by omega)] at hgen
    omega
  subst hnk
  rfl

/--
**Generations identify readings.** While fewer than `2 ^ 64` readings were made, two calls of
`read_track` that return the same generation return the same capture of the same track.
-/
theorem sameReading_of_reachable (h : Reachable (anyRun checks) m)
    (hlt : (readings m.snap.trace).length < USIZE_RANGE) {a b : TrackAddress × Cached}
    (ha : a ∈ gather capturesReturned m.snap.trace)
    (hb : b ∈ gather capturesReturned m.snap.trace)
    (hgen : a.2.capture.generation = b.2.capture.generation) :
    clampTrack a.1 m.right.priv.maxCylinders = clampTrack b.1 m.right.priv.maxCylinders ∧
      a.2.capture = b.2.capture := by
  have hsame := eq_of_generation hlt (returned_of_reachable h ha) (returned_of_reachable h hb) hgen
  simpa using hsame

theorem sameReading_of_reachable_readTwice : ∃ m : Moment true, ∃ a b : TrackAddress × Cached,
    gather capturesReturned m.snap.trace = [a, b] ∧ a.1 = ⟨79, .upper⟩ ∧ b.1 = ⟨90, .upper⟩ ∧
      a.2.capture = b.2.capture := by
  obtain ⟨m, hreachable, hread, hone⟩ := exists_readTwice
  unfold readsReturned at hread
  obtain ⟨a, rest, hanswers, ha, hrest⟩ := List.map_eq_cons_iff.mp hread
  obtain ⟨b, rest, rfl, hb, hnil⟩ := List.map_eq_cons_iff.mp hrest
  obtain rfl := List.map_eq_nil_iff.mp hnil
  obtain ⟨ha₁, ha₂⟩ := Prod.mk.inj ha
  obtain ⟨hb₁, hb₂⟩ := Prod.mk.inj hb
  refine ⟨m, a, b, hanswers, ha₁, hb₁, ?_⟩
  have hlt : (readings m.snap.trace).length < USIZE_RANGE := by
    rw [hone]
    decide
  refine (sameReading_of_reachable hreachable hlt ?_ ?_ (ha₂.trans hb₂.symm)).2
  · rw [hanswers]
    exact List.mem_cons_self
  · rw [hanswers]
    exact List.mem_cons_of_mem _ List.mem_cons_self

end Runs

end FluxBridge
