import FluxBridge.Controller.Floors
import FluxBridge.Controller.Rounds

/-!
# Freshness of what is read

Both threads respect the floors: the worker empties the cache before it sends an event and
stores captures in the order in which they were read, the caller sees the front of a queue.

* `fresh_of_reachable` — the cache is fresh at every moment of every interleaving
* `readsAfterEvents_of_reachable` — after an event, only captures read after it are returned
* `cacheInvariant_of_reachable` — the size of the cache, the order of its queues, and how
  captures leave it
-/

namespace FluxBridge

open Atomic Atomic.Side

/-! ## The outline -/

/-- Every capture completed is stored, and the worker's generation counts them. -/
def Counted (l : Worker) (s : Snap controller) : Prop :=
  completed s.trace = s.world.taken ∧ l.generation = s.world.taken % USIZE_RANGE

/-- Between the rounds too the generation counts the captures, and a capture finds room. -/
def Roomy (l : Worker) (o : Op) (s : Snap controller) : Prop :=
  s.world.taken ≤ completed s.trace ∧ l.generation = completed s.trace % USIZE_RANGE ∧
    ∀ track capture, o = .storeCapture track capture →
      (s.world.queue track).length < CAPTURES_PER_TRACK

/-- The outline of freshness. -/
def freshness {checks : Bool} (maxCylinders : Nat) (asm : Conditions checks) : Outline asm where
  inv := Fresh maxCylinders
  leftOps o := o.ofWorker = true
  rightOps o := o.ofCaller = true
  leftAt _ := Counted
  rightAt _ b _ := b.maxCylinders = maxCylinders
  leftReady := Roomy
  rightReady b _ _ := b.maxCylinders = maxCylinders

namespace Freshness

variable {checks : Bool} {asm : Conditions checks} {maxCylinders : Nat} {l : Worker}
  {s s' : Snap controller}

/-- The steps of the worker that bring no floor and change no count. -/
def calm : Op → Bool
  | .storeCapture _ _ | .withdraw => false
  | .trySendEvent event => event.isDisconnected
  | o => o.ofWorker

theorem ofWorker_of_calm {o : Op} (ho : calm o = true) : o.ofWorker = true := by
  cases o <;> first | rfl | exact ho

/-- The parts of a round that store no capture and send no event about a track. -/
theorem calm_of_part {o : Op} (ho : o.ofWishes = true ∨ o.ofWriting = true ∨ o.ofNoClick = true ∨
    o.ofAwaiting = true ∨ o.ofEnding = true) : calm o = true := by
  cases o with
  | trySendEvent event =>
    cases event with
    | disconnected e => rfl
    | _ => rcases ho with ho | ho | ho | ho | ho <;> cases ho
  | _ => first | rfl | (rcases ho with ho | ho | ho | ho | ho <;> cases ho)

theorem respects_of_calm {o : Op} (ho : calm o = true) : Respects maxCylinders o s where
  store track capture h := by
    rw [h] at ho
    cases ho
  send event h track hconcerns := by
    rw [h] at ho
    cases event <;> simp_all [calm, BridgeEvent.isDisconnected, BridgeEvent.concerns]
  answer call answer h := by
    rw [h] at ho
    cases ho

theorem respects_of_call {o : Op} (ho : o.ofCall = true) : Respects maxCylinders o s where
  store track capture h := by
    rw [h] at ho
    cases ho
  send event h := by
    rw [h] at ho
    cases ho
  answer call answer h := by
    rw [h] at ho
    cases ho

theorem respects_withdraw : Respects maxCylinders .withdraw s where
  store _ _ h := by cases h
  send _ h := by cases h
  answer _ _ h := by cases h

theorem completed_cons {o : Op} {r : o.Ret} {trace : List (Event controllerSig)}
    (ho : o ≠ .withdraw) : completed (⟨o, r⟩ :: trace) = completed trace := by
  cases o <;> first | rfl | exact absurd rfl ho

/-! ## What the other thread cannot take back -/

theorem counted_of_act {o : Op} {i : Outside} {r : o.Ret} (ho : o ≠ .withdraw)
    (hstores : o.stores = false) (h : controller.act o i s = some (r, s')) (hl : Counted l s) :
    Counted l s' := by
  unfold Counted
  rw [(Machine.act_eq_some.mp h).2, completed_cons ho, exec_taken (exec_of_act h) hstores]
  exact hl

theorem ofCaller_plain {o : Op} (ho : o.ofCaller = true) :
    o ≠ .withdraw ∧ o.stores = false ∧ o.reads = false ∧ ∀ event, o ≠ .trySendEvent event := by
  refine ⟨?_, ?_, ?_, ?_⟩
  · rintro rfl
    cases ho
  · cases o <;> first | rfl | cases ho
  · cases o <;> first | rfl | cases ho
  · rintro event rfl
    cases ho

theorem counted_stable : (freshness maxCylinders asm).left.Stable (Counted l) :=
  stable_of_action fun _ _ _ _ _ ho _ _ h hl =>
    counted_of_act (ofCaller_plain ho).1 (ofCaller_plain ho).2.1 h hl

theorem length_queue_le {o : Op} {i : Outside} {r : o.Ret} (hstores : o.stores = false)
    (h : controller.act o i s = some (r, s')) (track : TrackAddress) :
    (s'.world.queue track).length ≤ (s.world.queue track).length := by
  have hsub := (exec_queue (exec_of_act h) track).length_le
  have hnone : o.stored s.world track = [] := by
    cases o <;> first | rfl | cases hstores
  rwa [hnone, List.append_nil] at hsub

/-- The caller does not lengthen a queue. -/
theorem short_stable {track : TrackAddress} {n : Nat} :
    (freshness maxCylinders asm).left.Stable fun s => (s.world.queue track).length ≤ n :=
  stable_of_action fun _ _ _ _ _ ho _ _ h hs =>
    Nat.le_trans (length_queue_le (ofCaller_plain ho).2.1 h track) hs

/-- The last read is later than everything the caller could have learnt. -/
def ReadLast (maxCylinders : Nat) (s : Snap controller) : Prop :=
  ∀ track, ∀ f ∈ floors maxCylinders track s, f.readAt ≤ s.world.lastRead

theorem readLast_of_act {o : Op} {i : Outside} {r : o.Ret} (hreads : o.reads = false)
    (hsend : ∀ event, o = .trySendEvent event → ∀ track, event.concerns track = false)
    (h : controller.act o i s = some (r, s')) (hs : ReadLast maxCylinders s) :
    ReadLast maxCylinders s' := by
  intro track f hf
  rw [(exec_read (exec_of_act h) hreads).1]
  rcases floors_of_act h hf with hf | hf
  · exact hs track f hf
  · cases hf with
    | none => exact Nat.zero_le _
    | @sent event =>
      have hfloor : Sent.floor ⟨event, s.world.deviceCalls, s.world.taken⟩ track = .none := by
        unfold Sent.floor
        rw [hsend event rfl track]
        rfl
      rw [hfloor]
      exact Nat.zero_le _
    | retired => exact Nat.zero_le _
    | read => exact Nat.zero_le _

theorem readLast_stable :
    (freshness maxCylinders asm).left.Stable (ReadLast maxCylinders) := by
  refine stable_of_action fun o _ _ _ _ ho _ _ h hs => ?_
  obtain ⟨-, -, hreads, hsend⟩ := ofCaller_plain ho
  exact readLast_of_act hreads (fun event heq => absurd heq (hsend event)) h hs

theorem calm_plain {o : Op} (ho : calm o = true) :
    o ≠ .withdraw ∧ o.stores = false ∧
      ∀ event, o = .trySendEvent event → ∀ track, event.concerns track = false := by
  refine ⟨fun h => ?_, ?_, fun event h track => ?_⟩
  · rw [h] at ho
    cases ho
  · cases o <;> first | rfl | cases ho
  · rw [h] at ho
    cases event <;> simp_all [calm, BridgeEvent.isDisconnected, BridgeEvent.concerns]

/-! ## The worker -/

theorem roomy_of_counted {o : Op} (ho : o.stores = false) (hl : Counted l s) : Roomy l o s := by
  refine ⟨Nat.le_of_eq hl.1.symm, ?_, fun track capture h => ?_⟩
  · rw [hl.1]
    exact hl.2
  · rw [h] at ho
    cases ho

/-- The rule for a calm step. -/
theorem calm_wp {o : Op} {Q : o.Ret → Worker → Snap controller → Prop}
    {P : Snap controller → Prop} (ho : calm o = true)
    (hstable : (freshness maxCylinders asm).left.Stable P) (hl : Counted l s) (hs : P s)
    (h : ∀ i r s₁ s₂, P s₁ → Fresh maxCylinders s₁ → controller.act o i s₁ = some (r, s₂) →
      Counted l s₂ → Q r l s₂) :
    (freshness maxCylinders asm).left.wpc (step o) Q l s := by
  obtain ⟨hwithdraw, hstores, -⟩ := calm_plain ho
  refine wpc_perform_of (ofWorker_of_calm ho) (counted_stable.and hstable) ⟨hl, hs⟩
    (fun s₁ _ h₁ => roomy_of_counted hstores h₁.1) ?_
  intro i r s₁ s₂ hfresh h₁ _ hact
  exact ⟨fresh_of_act hfresh (respects_of_calm ho) hact,
    h i r s₁ s₂ h₁.2 hfresh hact (counted_of_act hwithdraw hstores hact h₁.1)⟩

/-- The frame: calm code keeps the count, and whatever its steps keep. -/
theorem frame_wp {α : Type} {m : WorkerM α} {ops : Op → Bool} {P : Snap controller → Prop}
    (hm : m.Keeps (fun w => w.generation = l.generation) (ops ·))
    (hops : ∀ o, ops o = true → calm o = true)
    (hstable : (freshness maxCylinders asm).left.Stable P)
    (hP : ∀ o i r s s', ops o = true → controller.act o i s = some (r, s') → P s → P s')
    (hl : Counted l s) (hs : P s) :
    (freshness maxCylinders asm).left.wpc m (fun _ l s => Counted l s ∧ P s) l s := by
  refine wpc_mono (wpc_of_keeps (P := fun s => Counted l s ∧ P s) hm
    (counted_stable.and hstable) ?_ rfl ⟨hl, hs⟩) ?_
  · intro l' o hgen ho
    obtain ⟨hwithdraw, hstores, -⟩ := calm_plain (hops o ho)
    refine ⟨ofWorker_of_calm (hops o ho), fun s₁ hfresh h₁ => ⟨?_, fun i r s₂ _ hact => ?_⟩⟩
    · have hcounted : Counted l' s₁ := ⟨h₁.1.1, hgen.trans h₁.1.2⟩
      exact roomy_of_counted hstores hcounted
    · exact ⟨fresh_of_act hfresh (respects_of_calm (hops o ho)) hact,
        counted_of_act hwithdraw hstores hact h₁.1, hP o i r s₁ s₂ ho hact h₁.2⟩
  · rintro - l' s' ⟨hgen, hcounted, hP'⟩
    exact ⟨⟨hcounted.1, hgen.trans hcounted.2⟩, hP'⟩

theorem counted_wp {α : Type} {m : WorkerM α} {ops : Op → Bool}
    (hm : m.Keeps (fun w => w.generation = l.generation) (ops ·))
    (hops : ∀ o, ops o = true → calm o = true) (hl : Counted l s) :
    (freshness maxCylinders asm).left.wpc m (fun _ l s => Counted l s) l s :=
  wpc_mono (frame_wp (P := fun _ => True) hm hops stable_const (fun _ _ _ _ _ _ _ _ => trivial)
    hl trivial) fun _ _ _ h => h.1

/-- The generation is not among what the worker's other functions change. -/
theorem generation_unaffected : Unaffected fun w => w.generation = l.generation :=
  unaffected_generation l.generation

theorem noteError_wp {e : Error} (hl : Counted l s) :
    (freshness maxCylinders asm).left.wpc (noteError e) (fun _ l s => Counted l s) l s :=
  counted_wp (noteError_keeps generation_unaffected.errors e)
    (fun _ ho => calm_of_part (Or.inl (Op.ofWishes_of_errors ho))) hl

theorem position_wp {track : TrackAddress} {P : Snap controller → Prop}
    (hstable : (freshness maxCylinders asm).left.Stable P)
    (hP : ∀ o i r s s', o.ofPosition = true → controller.act o i s = some (r, s') → P s → P s')
    (hl : Counted l s) (hs : P s) :
    (freshness maxCylinders asm).left.wpc (position track) (fun _ l s => Counted l s ∧ P s) l s :=
  frame_wp (position_keeps generation_unaffected.place track)
    (fun _ ho => calm_of_part (Or.inl (Op.ofWishes_of_position ho))) hstable hP hl hs

theorem performWrite_wp {id : WriteId} {request : WriteRequest} (hl : Counted l s) :
    (freshness maxCylinders asm).left.wpc (performWrite checks id request)
      (fun _ l s => Counted l s) l s := by
  refine wpc_seq (counted_wp (attemptWrite_keeps generation_unaffected.place checks request)
    (fun _ ho => calm_of_part (Or.inr (Or.inl ho))) hl)
    fun r l₁ s₁ h₁ => ?_
  cases r with
  | none => exact h₁
  | some result =>
    refine wpc_bind.mpr (calm_wp (P := fun _ => True) rfl stable_const h₁ trivial ?_)
    intro i _ s₂ s₃ _ _ hact h₃
    have hempty : (s₃.world.queue request.track).length ≤ 0 := by
      rw [exec_invalidate (exec_of_act hact), if_pos rfl]
      exact Nat.le_refl _
    -- the cache is empty when the event is sent
    refine wpc_bind.mpr (wpc_perform_of rfl (counted_stable.and short_stable) ⟨h₃, hempty⟩
      (fun s₄ _ h₄ => roomy_of_counted rfl h₄.1) ?_)
    intro i r s₄ s₅ hfresh h₄ _ hact
    refine ⟨fresh_of_act hfresh ⟨?_, ?_, ?_⟩ hact, counted_of_act (by simp) rfl hact h₄.1⟩
    · intro _ _ h
      cases h
    · intro event h track hconcerns
      cases h
      have htrack : track = request.track := by
        cases result <;> simpa [writeEvent, BridgeEvent.concerns, eq_comm] using hconcerns
      rw [htrack]
      exact List.eq_nil_of_length_eq_zero (Nat.le_zero.mp h₄.2)
    · intro _ _ h
      cases h

theorem process_wp {c : Command} (hl : Counted l s) :
    (freshness maxCylinders asm).left.wpc (process checks c) (fun _ l s => Counted l s) l s := by
  cases c with
  | noClick side =>
    exact counted_wp (processNoClick_keeps generation_unaffected.errors checks side)
      (fun _ ho => calm_of_part (Or.inr (Or.inr (Or.inl ho)))) hl
  | write id request =>
    refine process_write_wp (I := fun _ => Counted)
      (wpc_mono (performWrite_wp hl) fun flow l₁ s₁ h₁ => ?_)
    cases flow with
    | go => exact ⟨fun _ => h₁, fun _ => h₁⟩
    | stop => exact h₁
    | unwound => exact h₁
  | shutdown => exact hl

theorem applyDesired_wp (hl : Counted l s) :
    (freshness maxCylinders asm).left.wpc applyDesired (fun _ l s => Counted l s) l s :=
  counted_wp (applyDesired_keeps generation_unaffected)
    (fun _ ho => calm_of_part (Or.inl ho)) hl

/-- When the disk was changed, every queue is empty before the event is sent. -/
theorem reportDisk_wp {changed present : Bool} (hl : Counted l s) :
    (freshness maxCylinders asm).left.wpc (reportDisk changed present)
      (fun _ l s => Counted l s) l s := by
  unfold reportDisk
  split
  · refine wpc_bind.mpr (calm_wp (P := fun _ => True) rfl stable_const hl trivial ?_)
    intro i _ s₁ s₂ _ _ hact h₂
    -- the caller stores nothing, so the queues are empty until the event is sent
    have hempty : ∀ track, (s₂.world.queue track).length ≤ 0 := fun track => by
      rw [exec_clearCaptures (exec_of_act hact)]
      exact Nat.le_refl _
    refine wpc_bind.mpr (wpc_perform_of rfl
      (counted_stable.and (Stable.forall fun _ => short_stable)) ⟨h₂, hempty⟩
      (fun s₃ _ h₃ => roomy_of_counted rfl h₃.1) ?_)
    intro i r s₃ s₄ hfresh h₃ _ hact
    refine ⟨fresh_of_act hfresh ⟨?_, ?_, ?_⟩ hact, counted_of_act (by simp) rfl hact h₃.1⟩
    · intro _ _ h
      cases h
    · exact fun event h track _ => List.eq_nil_of_length_eq_zero (Nat.le_zero.mp (h₃.2 track))
    · intro _ _ h
      cases h
  · exact hl

theorem now_wp {o : Op} {Q : o.Ret → Worker → Snap controller → Prop} (ho : calm o = true)
    (hl : Counted l s) (h : ∀ r s', Counted l s' → Q r l s') :
    (freshness maxCylinders asm).left.wpc (step o) Q l s :=
  calm_wp (P := fun _ => True) ho stable_const hl trivial fun _ r _ s₂ _ _ _ h₂ => h r s₂ h₂

theorem refreshStatus_wp (hl : Counted l s) :
    (freshness maxCylinders asm).left.wpc refreshStatus (fun _ l s => Counted l s) l s := by
  refine wpc_bind.mpr (now_wp rfl hl fun now s₁ h₁ => wpc_bind.mpr (wpc_update.mpr ?_))
  refine wpc_bind.mpr (now_wp rfl (by exact h₁) fun old s₂ h₂ => ?_)
  refine wpc_bind.mpr (now_wp rfl h₂ fun r s₃ h₃ => ?_)
  cases r with
  | error e => exact noteError_wp h₃
  | ok new =>
    refine wpc_bind.mpr (wpc_own.mpr (wpc_seq (reportDisk_wp h₃) fun _ l₄ s₄ h₄ => ?_))
    exact wpc_bind.mpr (now_wp rfl h₄ fun _ s₅ h₅ => h₅)

theorem refreshStatusIfDue_wp (hl : Counted l s) :
    (freshness maxCylinders asm).left.wpc refreshStatusIfDue (fun _ l s => Counted l s) l s := by
  refine wpc_bind.mpr (wpc_own.mpr (wpc_bind.mpr (now_wp rfl hl fun now s₁ h₁ => ?_)))
  split
  · exact h₁
  · exact refreshStatus_wp h₁

/-! ## The worker's captures -/

theorem length_of_not_full {w : World} {track : TrackAddress} (h : w.full track = false) :
    (w.queue track).length ≤ 1 := by
  unfold World.full at h
  unfold World.queue
  cases hl : w.captures.lookup track with
  | none => exact Nat.zero_le _
  | some captures =>
    rw [hl] at h
    simp only [decide_eq_false_iff_not, Nat.not_le] at h
    have hdepth : ∀ newest, wantedDepth newest ≤ 2 := by
      intro newest
      unfold wantedDepth CAPTURES_PER_TRACK
      split
      · split <;> omega
      · omega
    have := hdepth (((some captures).bind List.getLast?).map Cached.capture)
    rw [Option.getD_some]
    omega

/-- A capture is only begun for a track with room for it. -/
theorem captureTarget_wp (hl : Counted l s) :
    (freshness maxCylinders asm).left.wpc captureTarget (fun r l s =>
      Counted l s ∧ ∀ wanted, r = some wanted → (s.world.queue wanted).length ≤ 1) l s := by
  refine wpc_bind.mpr (now_wp rfl hl fun status s₁ h₁ => ?_)
  split
  · exact ⟨h₁, fun _ hr => by cases hr⟩
  refine wpc_bind.mpr (wpc_own.mpr ?_)
  split
  · exact ⟨h₁, fun _ hr => by cases hr⟩
  next demanded _ =>
  split
  · exact ⟨h₁, fun _ hr => by cases hr⟩
  refine wpc_bind.mpr (calm_wp (P := fun _ => True) rfl stable_const h₁ trivial ?_)
  intro i full s₂ s₃ _ _ hact h₃
  refine ⟨h₃, fun wanted hr => ?_⟩
  have hexec := exec_of_act hact
  simp only [exec, Option.some.injEq, Prod.mk.injEq] at hexec
  obtain ⟨hfull, hworld⟩ := hexec
  split at hr
  · cases hr
  · next hnot =>
    cases hr
    rw [← hworld]
    exact length_of_not_full (by rw [hfull]; simpa using hnot)

theorem readTrack_wp {wanted : TrackAddress} (hl : Counted l s)
    (hroom : (s.world.queue wanted).length ≤ 1) :
    (freshness maxCylinders asm).left.wpc (readTrack wanted) (fun _ l s =>
      Counted l s ∧ (s.world.queue wanted).length ≤ 1 ∧ ReadLast maxCylinders s) l s := by
  refine wpc_bind.mpr (wpc_own.mpr (wpc_bind.mpr (calm_wp rfl short_stable hl hroom ?_)))
  intro i reports s₁ s₂ hroom₁ hfresh hact h₂
  have hroom₂ := Nat.le_trans (length_queue_le rfl hact wanted) hroom₁
  have hread₂ : ReadLast maxCylinders s₂ := by
    intro track f hf
    rw [(exec_deviceRead (exec_of_act hact)).2.1]
    rcases floors_of_act hact hf with hf | hf
    · exact (hfresh.reached track f hf).1
    · cases hf
      exact Nat.zero_le _
  refine frame_wp (awaitCapture_keeps wanted reports)
    (fun _ ho => calm_of_part (by simp [ho]))
    (short_stable.and readLast_stable) ?_ h₂ ⟨hroom₂, hread₂⟩
  intro o i r s₃ s₄ ho hact h₃
  have hplain : o.stores = false ∧ o.reads = false ∧ ∀ event, o ≠ .trySendEvent event := by
    refine ⟨?_, ?_, ?_⟩
    · cases o <;> first | rfl | cases ho
    · cases o <;> first | rfl | cases ho
    · rintro event rfl
      cases ho
  obtain ⟨hstores, hreads, hsend⟩ := hplain
  exact ⟨Nat.le_trans (length_queue_le hstores hact wanted) h₃.1,
    readLast_of_act hreads (fun event heq => absurd heq (hsend event)) hact h₃.2⟩

/-- One more capture is completed than stored, and the generation says so. -/
def Ahead (l : Worker) (s : Snap controller) : Prop :=
  completed s.trace = s.world.taken + 1 ∧ l.generation = (s.world.taken + 1) % USIZE_RANGE

theorem ahead_stable : (freshness maxCylinders asm).left.Stable (Ahead l) := by
  refine stable_of_action fun o i r s s' ho _ _ h hl => ?_
  obtain ⟨hwithdraw, hstores, -⟩ := ofCaller_plain ho
  unfold Ahead
  rw [(Machine.act_eq_some.mp h).2, completed_cons hwithdraw, exec_taken (exec_of_act h) hstores]
  exact hl

theorem storeCapture_wp {wanted : TrackAddress} {capture : TrackCapture} (hl : Ahead l s)
    (hgen : capture.generation = l.generation) (hroom : (s.world.queue wanted).length ≤ 1)
    (hread : ReadLast maxCylinders s) :
    (freshness maxCylinders asm).left.wpc (step (.storeCapture wanted capture))
      (fun _ l s => Counted l s) l s := by
  refine wpc_perform_of rfl (ahead_stable.and (short_stable.and readLast_stable))
    ⟨hl, hroom, hread⟩ ?_ ?_
  -- ready: the completed reading is counted, and there is room for it
  · rintro s₁ - ⟨hahead, hroom₁, -⟩
    refine ⟨by rw [hahead.1]; exact Nat.le_succ _, by rw [hahead.1]; exact hahead.2, ?_⟩
    intro track c hc
    cases hc
    exact Nat.lt_succ_of_le hroom₁
  · rintro i r s₁ s₂ hfresh ⟨hahead, hroom₁, hread₁⟩ - hact
    have hok : Respects maxCylinders (.storeCapture wanted capture) s₁ := by
      refine ⟨?_, ?_, ?_⟩
      · intro track c hc
        cases hc
        exact ⟨by rw [hgen]; exact hahead.2, fun f hf => hread₁ _ f hf⟩
      · intro _ h
        cases h
      · intro _ _ h
        cases h
    refine ⟨fresh_of_act hfresh hok hact, ?_⟩
    have htaken : s₂.world.taken = s₁.world.taken + 1 := by
      rw [(exec_storeCapture (exec_of_act hact)).2]
      rfl
    unfold Counted
    rw [(Machine.act_eq_some.mp hact).2, completed_cons (by simp), htaken]
    exact hahead

theorem keepCapture_wp {wanted : TrackAddress} {capture : RawCapture} (hl : Counted l s)
    (hroom : (s.world.queue wanted).length ≤ 1) (hread : ReadLast maxCylinders s) :
    (freshness maxCylinders asm).left.wpc (keepCapture wanted capture)
      (fun _ l s => Counted l s) l s := by
  refine wpc_bind.mpr (wpc_perform_of rfl
    (counted_stable.and (short_stable.and readLast_stable)) ⟨hl, hroom, hread⟩
    (fun s₁ _ h₁ => roomy_of_counted rfl h₁.1) ?_)
  rintro i r s₁ s₂ hfresh ⟨hcounted, hroom₁, hread₁⟩ - hact
  refine ⟨fresh_of_act hfresh respects_withdraw hact, ?_⟩
  have htaken : s₂.world.taken = s₁.world.taken := exec_taken (exec_of_act hact) rfl
  have hcompleted : completed s₂.trace = completed s₁.trace + 1 := by
    rw [(Machine.act_eq_some.mp hact).2]
    rfl
  refine wpc_bind.mpr (wpc_update.mpr (wpc_bind.mpr (wpc_update.mpr (wpc_bind.mpr
    (wpc_own.mpr (wpc_bind.mpr (storeCapture_wp ⟨?_, ?_⟩ rfl ?_ ?_)))))))
  · rw [hcompleted, htaken, hcounted.1]
  · show (l.generation + 1) % USIZE_RANGE = _
    rw [htaken, hcounted.2, Nat.mod_add_mod]
  · exact Nat.le_trans (length_queue_le rfl hact wanted) hroom₁
  · exact readLast_of_act rfl (fun _ h => by cases h) hact hread₁

theorem captureIfNeeded_wp (hl : Counted l s) :
    (freshness maxCylinders asm).left.wpc captureIfNeeded (fun _ l s => Counted l s) l s := by
  have hposition : ∀ wanted l s, Counted l s → (s.world.queue wanted).length ≤ 1 →
      (freshness maxCylinders asm).left.wpc (position wanted)
        (fun _ l s => Counted l s ∧ (s.world.queue wanted).length ≤ 1) l s := by
    intro wanted l s hcounted hroom
    refine position_wp short_stable (fun o i r s s' ho hact hs => ?_) hcounted hroom
    refine Nat.le_trans (length_queue_le ?_ hact wanted) hs
    cases o <;> first | rfl | cases ho
  exact captureIfNeeded_wp_of (captureTarget_wp hl) (fun _ _ h => h.1)
    (fun wanted l s h => hposition wanted l s h.1 (h.2 wanted rfl))
    (fun _ _ _ _ h => noteError_wp h.1) (fun _ _ _ h => readTrack_wp h.1 h.2)
    (fun _ _ _ _ h => h.1) (fun _ _ _ _ _ h => noteError_wp h.1)
    (fun _ _ _ _ _ _ h => noteError_wp h.1) fun _ _ _ _ _ h => keepCapture_wp h.1 h.2.1 h.2.2

theorem rounds : Rounds (freshness maxCylinders asm).left checks (fun _ => Counted)
    (fun _ => Counted) Counted where
  hot _ _ h := h
  select _ _ h := now_wp rfl h fun r _ h₁ => by cases r <;> exact h₁
  receive _ _ h := now_wp rfl h fun r _ h₁ => by cases r <;> exact h₁
  process _ _ _ h := process_wp h
  desired _ _ h := applyDesired_wp h
  status _ _ h := refreshStatusIfDue_wp h
  capture _ _ h := captureIfNeeded_wp h
  failed _ _ h _ := h
  again _ _ _ h _ := h
  stop _ _ h := counted_wp stopRound_keeps
    (fun _ ho => calm_of_part (by simp [ho])) h
  unwind _ _ h := counted_wp unwindRound_keeps
    (fun _ ho => calm_of_part (by simp [ho])) h

/-! ## The caller -/

section Caller

variable {b : Bridge}

theorem floorOf_worker {o : Op} {r : o.Ret} {track : TrackAddress} (ho : o.ofWorker = true) :
    floorOf maxCylinders track ⟨o, r⟩ = .none := by
  cases o <;> first | rfl | cases ho

/-- What a call may return, it may return still after the worker has gone on. -/
theorem returns_stable {call : Call} {answer : Answer} :
    (freshness maxCylinders asm).right.Stable (Returns maxCylinders call answer) := by
  refine stable_of_action fun o i r s s' ho _ hfresh' h hs => ?_
  have ho : o.ofWorker = true := ho
  have hfresh' : Fresh maxCylinders s' := hfresh'
  have hexec := exec_of_act h
  have hle := taken_le hexec
  have htrace := (Machine.act_eq_some.mp h).2
  revert hs
  unfold Returns
  split
  · next asked c =>
    rintro ⟨hadmits, hnumber⟩
    refine ⟨fun e he => ?_, fun hlt => ?_⟩
    · rw [htrace, List.mem_cons] at he
      rcases he with rfl | he
      · rw [floorOf_worker ho]
        exact Floor.none_admits
      · exact (hadmits e he).mono hle
    · obtain ⟨hgen, hqueue⟩ := hnumber (by omega)
      refine ⟨by omega, fun c' hc' => ?_⟩
      rcases mem_of_exec hexec hc' with hold | ⟨capture, rfl, rfl⟩
      · exact hqueue c' hold
      · -- a capture stored meanwhile has the highest number
        have hstored := hfresh'.stored _ capture r s.trace htrace
        rw [Nat.mod_eq_of_lt hlt] at hstored
        show _ ≤ capture.generation
        omega
  · intro hmem
    rw [htrace]
    exact List.mem_cons_of_mem _ hmem
  · exact fun h => h

/-- The rule for one step of a call. -/
theorem call_wp {o : Op} {Q : o.Ret → Bridge → Snap controller → Prop} (ho : o.ofCall = true)
    (hb : b.maxCylinders = maxCylinders)
    (h : ∀ i r s₁ s₂, Fresh maxCylinders s₁ → controller.act o i s₁ = some (r, s₂) → Q r b s₂) :
    (freshness maxCylinders asm).right.wpc (step o) Q b s :=
  wpc_perform_of (P := fun _ => True) (Op.ofCaller_of_call ho) stable_const trivial
    (fun _ _ _ => hb) fun i r s₁ s₂ hfresh _ _ hact =>
      ⟨fresh_of_act hfresh (respects_of_call ho) hact, h i r s₁ s₂ hfresh hact⟩

theorem callFrame_wp {α : Type} {m : BridgeM α} {ops : Op → Bool}
    (hm : m.Keeps (fun b => b.maxCylinders = maxCylinders) (ops ·))
    (hops : ∀ o, ops o = true → o.ofCall = true) (hb : b.maxCylinders = maxCylinders) :
    (freshness maxCylinders asm).right.wpc m (fun _ b _ => b.maxCylinders = maxCylinders) b s := by
  refine wpc_mono (wpc_of_keeps (P := fun _ => True) hm stable_const ?_ hb trivial)
    fun _ _ _ h => h.1
  intro b' o hb' ho
  exact ⟨Op.ofCaller_of_call (hops o ho), fun s₁ hfresh _ => ⟨hb', fun i r s₂ _ hact =>
    ⟨fresh_of_act hfresh (respects_of_call (hops o ho)) hact, trivial⟩⟩⟩

/-- The front capture stands on everything the caller has seen. -/
theorem returns_front {asked : TrackAddress} {c : Cached} {i : Outside}
    (hfresh : Fresh maxCylinders s)
    (h : controller.act (.frontCapture (clampTrack asked maxCylinders)) i s = some (some c, s')) :
    Returns maxCylinders (.readTrack asked) (.capture (.ok (some c))) s' := by
  have hexec := exec_of_act h
  simp only [exec, Option.some.injEq, Prod.mk.injEq] at hexec
  obtain ⟨hfront, hworld⟩ := hexec
  have hmem : c ∈ s.world.queue (clampTrack asked maxCylinders) := List.mem_of_head? hfront
  refine ⟨fun e he => ?_, fun hlt => ?_⟩
  · rw [(Machine.act_eq_some.mp h).2, List.mem_cons] at he
    rw [← hworld]
    rcases he with rfl | he
    · exact Floor.none_admits
    · refine hfresh.admitted _ _ ?_ c hmem
      exact List.mem_append_left _ (List.mem_map_of_mem he)
  · rw [← hworld] at hlt ⊢
    refine ⟨hfresh.numbered hlt _ c hmem, fun c' hc' => ?_⟩
    have hordered := hfresh.ordered hlt (clampTrack asked maxCylinders)
    cases hq : s.world.queue (clampTrack asked maxCylinders) with
    | nil =>
      rw [hq] at hc'
      simp at hc'
    | cons first rest =>
      rw [hq] at hordered hc'
      simp only [World.front, hq, List.head?_cons, Option.some.injEq] at hfront
      rw [List.mem_cons] at hc'
      rcases hc' with rfl | hc'
      · rw [hfront]
      · rw [← hfront]
        exact Nat.le_of_lt ((List.pairwise_cons.mp hordered).1 c' hc')

/-- A stalling read, by induction on how often it looks. -/
theorem stall_wp {asked : TrackAddress} (hb : b.maxCylinders = maxCylinders) :
    ∀ (polls : Nat) (s : Snap controller), (freshness maxCylinders asm).right.wpc
      (Bridge.stall (clampTrack asked maxCylinders) polls) (fun r b s =>
        b.maxCylinders = maxCylinders ∧
          Returns maxCylinders (.readTrack asked) (.capture r) s) b s
  | 0, _ => ⟨hb, trivial⟩
  | polls + 1, s => by
    refine wpc_bind.mpr (call_wp rfl hb fun i front s₁ s₂ hfresh hact => ?_)
    cases front with
    | some c => exact ⟨hb, returns_front hfresh hact⟩
    | none =>
      refine wpc_bind.mpr (call_wp rfl hb fun _ status _ s₃ _ _ => ?_)
      split
      · exact ⟨hb, trivial⟩
      · exact stall_wp hb polls s₃

theorem readTrackCall_wp {asked : TrackAddress} (hb : b.maxCylinders = maxCylinders) :
    (freshness maxCylinders asm).right.wpc (Bridge.readTrack asked) (fun answer b s =>
      b.maxCylinders = maxCylinders ∧ Returns maxCylinders (.readTrack asked) answer s) b s := by
  subst hb
  refine wpc_bind.mpr (wpc_bind.mpr (wpc_own.mpr (wpc_pure.mpr ?_)))
  refine wpc_bind.mpr (call_wp rfl rfl fun _ _ _ s₁ _ _ => ?_)
  refine wpc_bind.mpr (call_wp rfl rfl fun i front s₁ s₂ hfresh hact => ?_)
  cases front with
  | some c => exact ⟨rfl, returns_front hfresh hact⟩
  | none =>
    refine wpc_bind.mpr (call_wp rfl rfl fun _ _ _ s₃ _ _ => wpc_bind.mpr (wpc_own.mpr ?_))
    cases b.stallTimeout with
    | none => exact ⟨rfl, trivial⟩
    | some timeout =>
      refine wpc_bind.mpr (call_wp rfl rfl fun _ polls _ s₄ _ _ => ?_)
      exact wpc_seq (stall_wp rfl polls s₄) fun r b' s₅ h₅ => h₅

theorem pollEvent_wp (hb : b.maxCylinders = maxCylinders) :
    (freshness maxCylinders asm).right.wpc Bridge.pollEvent (fun answer b s =>
      b.maxCylinders = maxCylinders ∧ Returns maxCylinders .pollEvent answer s) b s := by
  refine wpc_bind.mpr (call_wp rfl hb fun _ r _ s₂ _ hact => ⟨hb, ?_⟩)
  cases r with
  | none => trivial
  | some sent =>
    show (⟨.tryRecvEvent, some sent⟩ : Event controllerSig) ∈ s₂.trace
    rw [(Machine.act_eq_some.mp hact).2]
    exact List.mem_cons_self

theorem returns_of_other {call : Call} {answer : Answer} (hread : ∀ asked, call ≠ .readTrack asked)
    (hpoll : call ≠ .pollEvent) : Returns maxCylinders call answer s := by
  unfold Returns
  split
  · next asked _ => exact absurd rfl (hread asked)
  · exact absurd rfl hpoll
  · trivial

theorem perform_wp {call : Call} (hb : b.maxCylinders = maxCylinders) :
    (freshness maxCylinders asm).right.wpc (Bridge.perform checks call) (fun answer b s =>
      b.maxCylinders = maxCylinders ∧ Returns maxCylinders call answer s) b s := by
  by_cases hread : ∃ asked, call = .readTrack asked
  · obtain ⟨asked, rfl⟩ := hread
    exact readTrackCall_wp hb
  by_cases hpoll : call = .pollEvent
  · rw [hpoll]
    exact pollEvent_wp hb
  · refine wpc_mono (callFrame_wp (perform_keeps (fun _ _ h => h) checks call) (fun _ h => h) hb)
      fun answer b' s' hb' => ⟨hb', ?_⟩
    exact returns_of_other (fun asked h => hread ⟨asked, h⟩) hpoll

theorem callRound_wp {call : Call} (hb : b.maxCylinders = maxCylinders) :
    (freshness maxCylinders asm).right.wpc (callRound checks call)
      (fun _ b _ => b.maxCylinders = maxCylinders) b s := by
  refine wpc_bind.mpr (wpc_perform_of (P := fun _ => True) rfl stable_const trivial
    (fun _ _ _ => hb) fun i _ s₁ s₂ hfresh _ _ hact => ⟨fresh_of_act hfresh ?_ hact, ?_⟩)
  · refine ⟨?_, ?_, ?_⟩
    · intro _ _ h
      cases h
    · intro _ h
      cases h
    · intro _ _ h
      cases h
  refine wpc_seq (perform_wp hb) fun answer b₃ s₃ h₃ => ?_
  obtain ⟨hb₃, hreturns⟩ := h₃
  refine wpc_bind.mpr (wpc_perform_of rfl returns_stable hreturns (fun _ _ _ => hb₃)
    fun i _ s₄ s₅ hfresh hreturns₄ _ hact => ⟨fresh_of_act hfresh ?_ hact, hb₃⟩)
  refine ⟨?_, ?_, ?_⟩
  · intro _ _ h
    cases h
  · intro _ h
    cases h
  · intro _ _ h
    cases h
    exact hreturns₄

end Caller

theorem valid : (freshness maxCylinders asm).Valid where
  leftStable _ _ := counted_stable
  rightStable _ _ := stable_const
  leftRound _ _ _ _ _ hm _ h := rounds.round hm h
  rightRound := rightRound_of_call fun _ _ _ _ hb => callRound_wp hb

end Freshness

/-! ## Every interleaving -/

section Runs

variable {checks : Bool} {asm : Conditions checks} {m : Moment checks}

/-- **Freshness.** At every moment of every interleaving the cache is fresh. -/
theorem fresh_of_reachable (h : Reachable asm m) :
    (freshness m.right.priv.maxCylinders asm).Holds m := by
  cases h with
  | @intro config status head now _ run =>
    have hstart : (freshness status.maxCylinders asm).Holds
        (fromDevice checks config status head now) := by
      refine ⟨⟨⟨Nat.zero_le _, fun _ => Nat.zero_le _⟩, ?_, ?_, ?_, ?_, ?_, trivial⟩, ⟨rfl, rfl⟩,
        rfl⟩
      · exact fun _ _ => List.Pairwise.nil
      · exact fun _ _ c hc => absurd hc List.not_mem_nil
      · exact fun _ f hf => absurd hf List.not_mem_nil
      · exact fun _ f hf => absurd hf List.not_mem_nil
      · intro _ _ _ _ htrace
        cases htrace
    have hholds := Freshness.valid.holds run hstart
    have hmax : m.right.priv.maxCylinders = status.maxCylinders :=
      hholds.rightView (J := fun (b : Bridge) _ => b.maxCylinders = status.maxCylinders)
        (fun _ _ _ h => h) fun _ _ _ h => h
    rw [hmax]
    exact hholds

theorem honest_of_append {maxCylinders n : Nat} {older : List (Event controllerSig)} :
    ∀ (newer : List (Event controllerSig)), Honest maxCylinders n (newer ++ older) →
      Honest maxCylinders n older
  | [], h => h
  | _ :: newer, h => honest_of_append newer h.2

/-- A polled event had come out of the channel before. -/
theorem received_of_polled {maxCylinders n : Nat} {older : List (Event controllerSig)}
    {sent : Sent} (hhonest : Honest maxCylinders n older)
    (hpoll : ⟨.returned .pollEvent (.event (some sent)), ()⟩ ∈ older) :
    ⟨.tryRecvEvent, some sent⟩ ∈ older := by
  obtain ⟨between, oldest, rfl⟩ := List.append_of_mem hpoll
  have hrecv : ⟨.tryRecvEvent, some sent⟩ ∈ oldest := (honest_of_append _ hhonest).1
  exact List.mem_append_right _ (List.mem_cons_of_mem _ hrecv)

/-- Fewer captures are stored than completed, so the bound on the latter is enough. -/
theorem taken_lt (h : Reachable asm m) (hlt : completed m.snap.trace < USIZE_RANGE) :
    m.snap.world.taken < USIZE_RANGE := by
  have hle : m.snap.world.taken ≤ completed m.snap.trace :=
    (fresh_of_reachable h).leftView
      (J := fun (_ : Worker) (s : Snap controller) => s.world.taken ≤ completed s.trace)
      (fun _ _ _ hl => Nat.le_of_eq hl.1.symm) fun _ _ _ hl => hl.1
  omega

/--
Once `poll_event` has returned an event about a track (a write of it, or a change of the disk),
`read_track` returns only captures of it that the device read after the event was sent, with
generations above all those assigned before.
-/
def ReadsAfterEvents (m : Moment checks) : Prop :=
  ∀ newer older asked c sent,
    m.snap.trace = newer ++ ⟨.returned (.readTrack asked) (.capture (.ok (some c))), ()⟩ :: older →
    ⟨.returned .pollEvent (.event (some sent)), ()⟩ ∈ older →
    sent.event.concerns (clampTrack asked m.right.priv.maxCylinders) = true →
    sent.sentAt < c.readAt ∧
      (completed m.snap.trace < USIZE_RANGE → sent.taken < c.capture.generation)

/-- **Reads after events.** In every interleaving, whatever the device answers. -/
theorem readsAfterEvents_of_reachable (h : Reachable (anyRun checks) m) : ReadsAfterEvents m := by
  intro newer older asked c sent htrace hpoll hconcerns
  have hhonest := (fresh_of_reachable h).inv.honest
  rw [htrace] at hhonest
  have hread := honest_of_append _ hhonest
  have hadmits := hread.1 _ (received_of_polled hread.2 hpoll)
  simp only [floorOf, Sent.floor, hconcerns, if_true] at hadmits
  exact ⟨hadmits.1, fun hlt => hadmits.2 (taken_lt h hlt)⟩

/-! ## A run that reads again -/

/-- The generations that `read_track` has returned, newest first. -/
def generationsRead (trace : List (Event controllerSig)) : List Nat :=
  trace.filterMap fun
    | ⟨.returned (.readTrack _) (.capture (.ok (some c))), _⟩ => some c.capture.generation
    | _ => none

/-- The writes whose outcome `poll_event` has returned. -/
def outcomesPolled (trace : List (Event controllerSig)) : List WriteId :=
  trace.filterMap fun
    | ⟨.returned .pollEvent (.event (some ⟨.writeCompleted id _ _, _, _⟩)), _⟩ => some id
    | _ => none

/-- Capture a track, read it, write it, poll the outcome, capture it again and read it again. -/
def readWriteRead : Schedule true :=
  let raw : RawCapture := { words := .replicate 13 0, bitLen := 200, indexAligned := true }
  let request : WriteRequest :=
    { track := ⟨0, .lower⟩, words := .replicate 13 0, bitLen := 200, startBit := 0 }
  calling (.setMotor .lower true) 4 {} ++ calling (.readTrack ⟨0, .lower⟩) 5 {}
    ++ working [{}] ++ working (.replicate 16 { capture := .ok raw })
    ++ calling (.readTrack ⟨0, .lower⟩) 4 {} ++ calling (.submitWrite request) 5 {}
    ++ working [] ++ working (.replicate 6 {}) ++ calling .pollEvent 3 {}
    ++ working (.replicate 11 { capture := .ok raw })
    ++ calling (.readTrack ⟨0, .lower⟩) 4 {}

theorem readsAfterEvents_of_readWriteRead : ∃ m : Moment true,
    outcomesPolled m.snap.trace = [⟨1⟩] ∧ generationsRead m.snap.trace = [2, 1] ∧
      ReadsAfterEvents m := by
  have hplay : ((play (anyRun true) (opened true .normal ⟨5, .upper⟩) readWriteRead).any fun m =>
      outcomesPolled m.snap.trace = [⟨1⟩] ∧ generationsRead m.snap.trace = [2, 1]) = true := by
    decide +kernel
  obtain ⟨m, hrun, htest⟩ := exists_reach_of_play hplay
  obtain ⟨hpolled, hread⟩ : outcomesPolled m.snap.trace = [⟨1⟩] ∧
      generationsRead m.snap.trace = [2, 1] := by simpa using htest
  exact ⟨m, hpolled, hread, readsAfterEvents_of_reachable ⟨hrun⟩⟩

/-! ## The cache -/

/--
The steps that may drop a capture of a track: `advance_revolution` of it, a write attempt on it,
a change of the disk, and a capture of another track that needs its place.
-/
def Op.Drops (o : Op) (track : TrackAddress) : Prop :=
  o = .retireFront track ∨ o = .invalidate track ∨ o = .clearCaptures ∨
    ∃ key capture, o = .storeCapture key capture ∧ key ≠ track

/-- The invariant of the capture cache. -/
structure CacheInvariant (m : Moment checks) : Prop where
  bounded : m.snap.world.Bounded
  ordered : completed m.snap.trace < USIZE_RANGE → ∀ track, (m.snap.world.queue track).Pairwise
    fun a b => a.capture.generation < b.capture.generation
  numbered : completed m.snap.trace < USIZE_RANGE → ∀ track, ∀ c ∈ m.snap.world.queue track,
    c.capture.generation ≤ m.left.priv.generation
  /-- the queue a capture is stored in is not full, so nothing is dropped at its front -/
  room : ∀ track capture, m.left.next? = some (.storeCapture track capture) →
    (m.snap.world.queue track).length < CAPTURES_PER_TRACK
  leaves : ∀ m', Step (anyRun checks) m m' → ∀ track, ∀ c ∈ m.snap.world.queue track,
    c ∉ m'.snap.world.queue track → ∃ o r, m'.snap.trace = ⟨o, r⟩ :: m.snap.trace ∧ o.Drops track
  monotone : completed m.snap.trace < USIZE_RANGE → ∀ newer older asked c asked' c',
    m.snap.trace = newer ++ ⟨.returned (.readTrack asked) (.capture (.ok (some c))), ()⟩ :: older →
    ⟨.returned (.readTrack asked') (.capture (.ok (some c'))), ()⟩ ∈ older →
    clampTrack asked' m.right.priv.maxCylinders = clampTrack asked m.right.priv.maxCylinders →
    c'.capture.generation ≤ c.capture.generation
  retired : completed m.snap.trace < USIZE_RANGE → ∀ newer older asked c c',
    m.snap.trace = newer ++ ⟨.returned (.readTrack asked) (.capture (.ok (some c))), ()⟩ :: older →
    ⟨.retireFront (clampTrack asked m.right.priv.maxCylinders), some c'⟩ ∈ older →
    c'.capture.generation < c.capture.generation

theorem room_of_reachable (h : Reachable asm m) {track : TrackAddress} {capture : TrackCapture}
    (hnext : m.left.next? = some (.storeCapture track capture)) :
    (m.snap.world.queue track).length < CAPTURES_PER_TRACK :=
  ((fresh_of_reachable h).leftReady hnext).2.2.2 track capture rfl

theorem drops_of_step (h : Reachable asm m) {m' : Moment checks} (hstep : Step asm m m')
    {track : TrackAddress} {c : Cached} (hc : c ∈ m.snap.world.queue track)
    (hc' : c ∉ m'.snap.world.queue track) :
    ∃ o r, m'.snap.trace = ⟨o, r⟩ :: m.snap.trace ∧ o.Drops track := by
  -- a reading leaves by one of the four steps that drop it, or is pushed out by a store, for which
  -- there is always room
  have hdrops : ∀ {o : Op} {i : Outside} {r : o.Ret} {s s' : Snap controller},
      (∀ capture, o = .storeCapture track capture →
        (s.world.queue track).length < CAPTURES_PER_TRACK) →
      controller.act o i s = some (r, s') → c ∈ s.world.queue track →
      c ∉ s'.world.queue track → o.Drops track := by
    intro o i r s s' hroom hact hc hc'
    rcases exec_leaves (exec_of_act hact) hc hc' with h | h | h | h | ⟨capture, h, hfull⟩
    · exact Or.inl h
    · exact Or.inr (Or.inl h)
    · exact Or.inr (Or.inr (Or.inl h))
    · exact Or.inr (Or.inr (Or.inr h))
    · have := hroom capture h
      omega
  cases hstep with
  | leftAct allowed done =>
    refine ⟨_, _, (Machine.act_eq_some.mp done).2, hdrops (fun capture ho => ?_) done hc hc'⟩
    exact room_of_reachable h (by rw [← ho]; rfl : _ = some (Op.storeCapture track capture))
  | leftNext => exact absurd hc hc'
  | rightAct allowed done =>
    refine ⟨_, _, (Machine.act_eq_some.mp done).2, hdrops (fun capture ho => ?_) done hc hc'⟩
    -- the caller stores nothing
    have hcaller : Op.ofCaller _ = true := ((fresh_of_reachable h).rightReady rfl).1
    rw [ho] at hcaller
    cases hcaller
  | rightNext => exact absurd hc hc'

/-- **The capture cache.** In every interleaving, whatever the device answers. -/
theorem cacheInvariant_of_reachable (h : Reachable (anyRun checks) m) : CacheInvariant m where
  bounded := (fresh_of_reachable h).inv.bounded
  ordered hlt := (fresh_of_reachable h).inv.ordered (taken_lt h hlt)
  numbered hlt track c hc := by
    have hle := (fresh_of_reachable h).inv.numbered (taken_lt h hlt) track c hc
    have hgen : m.snap.world.taken ≤ completed m.snap.trace ∧
        m.left.priv.generation = completed m.snap.trace % USIZE_RANGE := by
      refine (fresh_of_reachable h).leftView
        (J := fun (l : Worker) (s : Snap controller) => s.world.taken ≤ completed s.trace ∧
          l.generation = completed s.trace % USIZE_RANGE)
        (fun _ _ _ hl => ?_) fun _ _ _ hl => ⟨hl.1, hl.2.1⟩
      exact ⟨Nat.le_of_eq hl.1.symm, by rw [hl.1]; exact hl.2⟩
    rw [hgen.2, Nat.mod_eq_of_lt hlt]
    omega
  room track capture hnext := room_of_reachable h hnext
  leaves m' hstep track c hc hc' := drops_of_step h hstep hc hc'
  monotone hlt newer older asked c asked' c' htrace hmem htrack := by
    have hhonest := (fresh_of_reachable h).inv.honest
    rw [htrace] at hhonest
    have hadmits := (honest_of_append _ hhonest).1 _ hmem
    simp only [floorOf, htrack, if_true] at hadmits
    exact hadmits.2 (taken_lt h hlt)
  retired hlt newer older asked c c' htrace hmem := by
    have hhonest := (fresh_of_reachable h).inv.honest
    rw [htrace] at hhonest
    have hadmits := (honest_of_append _ hhonest).1 _ hmem
    simp only [floorOf, if_true] at hadmits
    exact hadmits.2 (taken_lt h hlt)

theorem cacheInvariant_of_readWriteRead : ∃ m : Moment true,
    generationsRead m.snap.trace = [2, 1] ∧ CacheInvariant m := by
  have hplay : ((play (anyRun true) (opened true .normal ⟨5, .upper⟩) readWriteRead).any fun m =>
      generationsRead m.snap.trace = [2, 1]) = true := by
    decide +kernel
  obtain ⟨m, hrun, htest⟩ := exists_reach_of_play hplay
  exact ⟨m, by simpa using htest, cacheInvariant_of_reachable ⟨hrun⟩⟩

end Runs

end FluxBridge
