import FluxBridge.Controller.DeviceCalls

/-!
# What the device is asked for

The worker reads a track on its own account: no command says so. It does when somebody asked for
the track, when the head belongs there, when the disk turns, and when the cache is short of it.
Every track it moves to was clamped to the mechanism by the call that named it.

* `Demanded` — what holds whenever `Device::read_track` is called
* `demanded_of_reachable` — it holds in every interleaving of calls with the worker
* `inside_of_reachable` — no device call leaves the mechanism

The tracks travel from the calls through `Desired` and the command queue (`Wishes`) to the fields of
the worker (`Aimed`).
-/

namespace FluxBridge

open Atomic Atomic.Side

/-- A track of the mechanism. -/
def Inside (maxCylinders : Nat) (track : TrackAddress) : Prop :=
  track.cylinder ≤ maxCylinders - 1

/-- A clamped track lies inside the mechanism. -/
theorem inside_clampTrack (track : TrackAddress) (maxCylinders : Nat) :
    Inside maxCylinders (clampTrack track maxCylinders) :=
  Nat.min_le_right _ _

/-- The call asks to read this track. -/
def Call.asks (maxCylinders : Nat) (track : TrackAddress) : Call → Prop
  | .readTrack asked | .advanceRevolution asked => clampTrack asked maxCylinders = track
  | _ => False

/-- Somebody has asked to read this track. -/
def Asked (maxCylinders : Nat) (track : TrackAddress) (trace : List (Event controllerSig)) :
    Prop :=
  ∃ event ∈ trace, ∃ call : Call, event.op = .called call ∧ call.asks maxCylinders track

/-- The drive is in use, as far as the worker knows. -/
def Spinning (s : Snap controller) : Prop :=
  s.world.status.working = true ∧ s.world.status.motorRunning = true ∧
    s.world.status.diskPresent = true

/-- What holds of the worker and of what it shares when it reads a track. -/
structure Demanded (maxCylinders : Nat) (track : TrackAddress) (l : Worker)
    (s : Snap controller) : Prop where
  wanted : l.wanted = some track
  target : l.target = track
  asked : Asked maxCylinders track s.trace
  positioned : l.positioned = true
  physical : l.physical = track
  shown : s.world.status.cylinder = track.cylinder ∧ s.world.status.side = track.side
  spinning : Spinning s
  short : s.world.full track = false
  kept : l.failed = false

/-! ## The outline -/

namespace Demand

/-- What the caller has left for the worker. -/
structure Wishes (maxCylinders : Nat) (s : Snap controller) : Prop where
  target : ∀ track, s.world.desired.target = some track → Inside maxCylinders track
  wanted : ∀ track, s.world.desired.wanted = some track →
    Inside maxCylinders track ∧ Asked maxCylinders track s.trace
  writes : ∀ id request, .write id request ∈ s.world.commands → Inside maxCylinders request.track

/-- What the worker keeps of it. -/
structure Aimed (maxCylinders : Nat) (l : Worker) (s : Snap controller) : Prop where
  target : Inside maxCylinders l.target
  wanted : ∀ track, l.wanted = some track →
    Inside maxCylinders track ∧ Asked maxCylinders track s.trace

/-- What the worker has to know before it acts. -/
structure Ready (maxCylinders : Nat) (l : Worker) (o : Op) (s : Snap controller) : Prop where
  seek : ∀ cylinder, o = .deviceSeek cylinder → cylinder ≤ maxCylinders - 1
  read : ∀ track mode density, o = .deviceRead track mode density →
    Demanded maxCylinders track l s ∧ Inside maxCylinders track ∧ mode = l.config.mode ∧
      density = l.config.density
  write : ∀ request bits fromIndex density, o = .deviceWrite request bits fromIndex density →
    Inside maxCylinders request.track ∧ l.positioned = true ∧ l.physical = request.track

/-- What the caller has to know before it acts. -/
structure Asks (maxCylinders : Nat) (o : Op) (s : Snap controller) : Prop where
  target : ∀ track, o = .wishTarget track → Inside maxCylinders track
  track : ∀ track, o = .wishTrack track →
    Inside maxCylinders track ∧ Asked maxCylinders track s.trace
  write : ∀ id request, o = .trySendCommand (.write id request) →
    Inside maxCylinders request.track

end Demand

open Demand in
/-- The outline: what the caller asks for, and what the worker makes of it. -/
def demand {checks : Bool} (maxCylinders : Nat) (asm : Conditions checks) : Outline asm where
  inv := Wishes maxCylinders
  leftOps o := o.ofWorker = true
  rightOps o := o.ofCaller = true
  leftAt _ := Aimed maxCylinders
  rightAt _ b _ := b.maxCylinders = maxCylinders
  leftReady := Ready maxCylinders
  rightReady b o s := b.maxCylinders = maxCylinders ∧ Asks maxCylinders o s

namespace Demand

variable {checks : Bool} {asm : Conditions checks} {maxCylinders : Nat} {l : Worker} {o : Op}
  {i : Outside} {r : o.Ret} {s s' : Snap controller}

/-! ## One step -/

/-- What was asked for stays asked for. -/
theorem asked_kept {track : TrackAddress} (h : controller.act o i s = some (r, s'))
    (hs : Asked maxCylinders track s.trace) : Asked maxCylinders track s'.trace := by
  obtain ⟨event, hevent, hcall⟩ := hs
  rw [(Machine.act_eq_some.mp h).2]
  exact ⟨event, List.mem_cons_of_mem _ hevent, hcall⟩

/-- No step of either thread takes the worker's aim back. -/
theorem Aimed.kept (h : controller.act o i s = some (r, s')) (hs : Aimed maxCylinders l s) :
    Aimed maxCylinders l s' :=
  ⟨hs.target, fun track htrack =>
    ⟨(hs.wanted track htrack).1, asked_kept h (hs.wanted track htrack).2⟩⟩

/-- A command in the queue was there before, or the step has sent it. -/
theorem command_of_exec {w w' : World} (h : exec o i w = some (r, w')) {c : Command}
    (hc : c ∈ w'.commands) (hshutdown : c ≠ .shutdown) :
    c ∈ w.commands ∨ o = .trySendCommand c := by
  by_cases ho : o.commands = true
  · cases o <;> simp only [Op.commands, Bool.false_eq_true] at ho
    · simp only [exec, Option.some.injEq] at h
      unfold World.select at h
      grind
    · simp only [exec] at h
      grind
    · simp only [exec, World.trySend] at h
      grind
    · simp only [exec] at h
      grind
  · rw [exec_commands h (by simpa using ho)] at hc
    exact .inl hc

/-- A target among the wishes was there before, or a call has just put it there. -/
theorem target_of_exec {w w' : World} (h : exec o i w = some (r, w')) {track : TrackAddress}
    (htrack : w'.desired.target = some track) :
    w.desired.target = some track ∨ o = .wishTarget track ∨ o = .wishTrack track := by
  by_cases ho : o.wishes = true
  · cases o <;> simp only [Op.wishes, Bool.false_eq_true] at ho <;> simp only [exec] at h <;>
      grind [Desired.none]
  · rw [exec_desired h (by simpa using ho)] at htrack
    exact .inl htrack

/-- A track that is wanted was so before, or was just asked for. -/
theorem wanted_of_exec {w w' : World} (h : exec o i w = some (r, w')) {track : TrackAddress}
    (htrack : w'.desired.wanted = some track) :
    w.desired.wanted = some track ∨ o = .wishTrack track := by
  by_cases ho : o.wishes = true
  · cases o <;> simp only [Op.wishes, Bool.false_eq_true] at ho <;> simp only [exec] at h <;>
      grind [Desired.none]
  · rw [exec_desired h (by simpa using ho)] at htrack
    exact .inl htrack

/-- The wishes name tracks inside the mechanism, and only tracks that were asked for. -/
theorem wishes_of_act (h : controller.act o i s = some (r, s')) (ho : Asks maxCylinders o s)
    (hs : Wishes maxCylinders s) : Wishes maxCylinders s' where
  target track htrack := by
    rcases target_of_exec (exec_of_act h) htrack with hold | hnew | hnew
    · exact hs.target track hold
    · exact ho.target track hnew
    · exact (ho.track track hnew).1
  wanted track htrack := by
    rcases wanted_of_exec (exec_of_act h) htrack with hold | hnew
    · exact ⟨(hs.wanted track hold).1, asked_kept h (hs.wanted track hold).2⟩
    · exact ⟨(ho.track track hnew).1, asked_kept h (ho.track track hnew).2⟩
  writes id request hmem := by
    rcases command_of_exec (exec_of_act h) hmem (by simp) with hold | hnew
    · exact hs.writes id request hold
    · exact ho.write id request hnew

/-- The steps of the worker leave the caller nothing to ask. -/
theorem asks_of_worker (ho : o.ofWorker = true) : Asks maxCylinders o s where
  target track h := by
    subst h
    cases ho
  track track h := by
    subst h
    cases ho
  write id request h := by
    subst h
    cases ho

/-- An advance takes the oldest reading of one track. -/
theorem queue_retire (w : World) (track other : TrackAddress) :
    (w.retire other).captures.lookup track =
      if track = other then (w.captures.lookup track).map List.tail
      else w.captures.lookup track := by
  unfold World.retire
  by_cases hsame : track = other
  · subst hsame
    rw [if_pos rfl]
    cases hlookup : w.captures.lookup track with
    | none => exact hlookup
    | some captures => exact AList.lookup_insert _
  · rw [if_neg hsame]
    cases w.captures.lookup other with
    | none => rfl
    | some captures => exact AList.lookup_insert_ne hsame

/-- Retiring a capture does not fill a queue. -/
theorem full_retire {w : World} {track : TrackAddress} (other : TrackAddress)
    (h : w.full track = false) : (w.retire other).full track = false := by
  unfold World.full at h ⊢
  rw [queue_retire]
  by_cases hsame : track = other
  · rw [if_pos hsame]
    cases hlookup : w.captures.lookup track with
    | none => rfl
    | some captures =>
      rw [hlookup] at h
      simp only [Option.map_some, Option.bind_some, decide_eq_false_iff_not, Nat.not_le] at h ⊢
      cases captures with
      | nil => exact h
      | cons first rest =>
        cases rest with
        | nil => simp [wantedDepth]
        | cons second rest =>
          rw [List.getLast?_cons_cons] at h
          rw [List.tail_cons]
          exact Nat.lt_of_succ_lt h
  · rw [if_neg hsame]
    exact h

/-- The caller only takes readings away, so a track that lacks one goes on lacking it. -/
theorem full_of_caller {track : TrackAddress} (ho : o.ofCaller = true)
    (h : controller.act o i s = some (r, s')) (hs : s.world.full track = false) :
    s'.world.full track = false := by
  by_cases hcaches : o.caches = true
  · cases o with
    | retireFront other =>
      have hexec := exec_of_act h
      simp only [exec, Option.some.injEq, Prod.mk.injEq] at hexec
      rw [← hexec.2]
      exact full_retire other hs
    | _ => first | cases ho; done | cases hcaches
  · have hsame := exec_captures (exec_of_act h) (by simpa using hcaches)
    unfold World.full at hs ⊢
    rw [hsame]
    exact hs

/-! ## The worker -/

section Worker

/-- The steps that need no more than the outline gives. -/
def plain : Op → Bool
  | .deviceSeek _ | .deviceRead _ _ _ | .deviceWrite _ _ _ _ => false
  | o => o.ofWorker

theorem ofWorker_of_plain (ho : plain o = true) : o.ofWorker = true := by
  cases o <;> first | rfl | exact ho

/-- The plain steps need no track. -/
theorem ready_of_plain (ho : plain o = true) : Ready maxCylinders l o s where
  seek cylinder h := by
    subst h
    cases ho
  read track mode density h := by
    subst h
    cases ho
  write request bits fromIndex density h := by
    subst h
    cases ho

theorem wishes_of_worker (ho : o.ofWorker = true) (h : controller.act o i s = some (r, s'))
    (hs : Wishes maxCylinders s) : Wishes maxCylinders s' :=
  wishes_of_act h (asks_of_worker ho) hs

/-- One step of the worker, with an assertion the caller cannot take back. -/
theorem step_wp {P : Snap controller → Prop} {Q : o.Ret → Worker → Snap controller → Prop}
    (ho : o.ofWorker = true) (hstable : (demand maxCylinders asm).left.Stable P) (hs : P s)
    (hready : ∀ s, P s → Ready maxCylinders l o s)
    (h : ∀ i r s₁ s₂, Wishes maxCylinders s₁ → P s₁ → controller.act o i s₁ = some (r, s₂) →
      Q r l s₂) :
    (demand maxCylinders asm).left.wpc (step o) Q l s :=
  wpc_perform_of ho hstable hs (fun s₁ _ h₁ => hready s₁ h₁) fun i r s₁ s₂ hinv h₁ _ hact =>
    ⟨wishes_of_worker ho hact hinv, h i r s₁ s₂ hinv h₁ hact⟩

theorem aimed_stable : (demand maxCylinders asm).left.Stable (Aimed maxCylinders l) :=
  stable_of_action fun _ _ _ _ _ _ _ _ hact hs => hs.kept hact

/-- The fields that the tracks are kept in. -/
def SameAim (l l' : Worker) : Prop := l'.target = l.target ∧ l'.wanted = l.wanted

/-- The aim is a matter of these two fields. -/
theorem Aimed.same {l' : Worker} (h : SameAim l l') (hs : Aimed maxCylinders l s) :
    Aimed maxCylinders l' s := by
  obtain ⟨htarget, hwanted⟩ := h
  constructor
  · rw [htarget]
    exact hs.target
  · rw [hwanted]
    exact hs.wanted

theorem sameAim_errors : ErrorsKeep (SameAim l) := fun _ _ _ h _ => h

/-- The frame: code that leaves the tracks alone and performs plain steps. -/
theorem frame_wp {α : Type} {m : WorkerM α} {ops : Op → Bool}
    (hm : m.Keeps (SameAim l) (ops ·)) (hops : ∀ o, ops o = true → plain o = true)
    (hs : Aimed maxCylinders l s) :
    (demand maxCylinders asm).left.wpc m (fun _ l s => Aimed maxCylinders l s) l s := by
  refine wpc_mono (wpc_of_keeps hm aimed_stable ?_ ⟨rfl, rfl⟩ hs) fun _ l' s' h => h.2.same h.1
  refine fun l' o _ ho => ⟨ofWorker_of_plain (hops o ho), fun s₁ hinv h₁ => ?_⟩
  have hready : Ready maxCylinders l' o s₁ := ready_of_plain (hops o ho)
  exact ⟨hready, fun i r s₂ _ hact =>
    ⟨wishes_of_worker (ofWorker_of_plain (hops o ho)) hact hinv, h₁.kept hact⟩⟩

/-- One plain step of the worker. -/
theorem plain_wp {Q : o.Ret → Worker → Snap controller → Prop} (ho : plain o = true)
    (hs : Aimed maxCylinders l s)
    (h : ∀ i r s₁ s₂, Wishes maxCylinders s₁ → Aimed maxCylinders l s₂ →
      controller.act o i s₁ = some (r, s₂) → Q r l s₂) :
    (demand maxCylinders asm).left.wpc (step o) Q l s :=
  step_wp (ofWorker_of_plain ho) aimed_stable hs (fun _ _ => ready_of_plain ho)
    fun i r s₁ s₂ hinv h₁ hact => h i r s₁ s₂ hinv (h₁.kept hact) hact

theorem noteError_wp {e : Error} (hs : Aimed maxCylinders l s) :
    (demand maxCylinders asm).left.wpc (noteError e) (fun _ l s => Aimed maxCylinders l s) l s := by
  refine frame_wp (noteError_keeps sameAim_errors e) (fun o ho => ?_) hs
  cases o <;> first | rfl | cases ho

theorem clearErrors_wp (hs : Aimed maxCylinders l s) :
    (demand maxCylinders asm).left.wpc clearErrors (fun _ l s => Aimed maxCylinders l s) l s :=
  wpc_update.mpr ⟨hs.target, hs.wanted⟩

/-! ### Positioning -/

/-- Only where the worker takes the head to be has changed. -/
def Moved (l l' : Worker) : Prop :=
  l' = { l with physical := l'.physical, positioned := l'.positioned }

/-- What neither the caller nor a move can change. -/
structure Placeless (asm : Conditions checks) (maxCylinders : Nat) (P : Snap controller → Prop) :
    Prop where
  stable : (demand maxCylinders asm).left.Stable P
  moves : ∀ (o : Op) (i : Outside) (r : o.Ret) (s s' : Snap controller), o.ofPosition = true →
    controller.act o i s = some (r, s') → P s → P s'

variable {P : Snap controller → Prop} {track : TrackAddress}

/-- The seek is to the cylinder of the track, and believed once it succeeds. -/
theorem positionCylinder_wp (hP : Placeless asm maxCylinders P)
    (htrack : Inside maxCylinders track) (hs : P s) :
    (demand maxCylinders asm).left.wpc (positionCylinder track) (fun r l' s' =>
      Moved l l' ∧ P s' ∧ (r = .ok () → l'.physical.cylinder = track.cylinder)) l s := by
  refine positionCylinder_wp_of (step_wp rfl hP.stable hs (fun s h => ?_) ?_) fun _ hthere => ?_
  · exact ⟨fun cylinder h => (by cases h; exact htrack), fun _ _ _ h => (by cases h),
      fun _ _ _ _ h => (by cases h)⟩
  · intro i r s₁ s₂ _ h₁ hact
    have h₂ := hP.moves (.deviceSeek track.cylinder) i r s₁ s₂ rfl hact h₁
    cases r with
    | error e => exact ⟨rfl, h₂, fun h => by cases h⟩
    | ok _ => exact ⟨rfl, h₂, fun _ => rfl⟩
  · exact ⟨rfl, hs, fun _ => hthere⟩

/-- The side in the same way; the cylinder stays. -/
theorem positionSide_wp (hP : Placeless asm maxCylinders P) (hs : P s) :
    (demand maxCylinders asm).left.wpc (positionSide track) (fun r l' s' =>
      Moved l l' ∧ P s' ∧ l'.physical.cylinder = l.physical.cylinder ∧
        (r = .ok () → l'.physical.side = track.side)) l s := by
  refine positionSide_wp_of (step_wp rfl hP.stable hs (fun _ _ => ready_of_plain rfl) ?_)
    fun _ hthere => ?_
  · intro i r s₁ s₂ _ h₁ hact
    have h₂ := hP.moves (.deviceSide track.side) i r s₁ s₂ rfl hact h₁
    cases r with
    | error e => exact ⟨rfl, h₂, rfl, fun h => by cases h⟩
    | ok _ => exact ⟨rfl, h₂, rfl, fun _ => rfl⟩
  · exact ⟨rfl, hs, rfl, fun _ => hthere⟩

/-- The worker is at a track, and the status shows it. -/
structure At (track : TrackAddress) (l : Worker) (s : Snap controller) : Prop where
  positioned : l.positioned = true
  physical : l.physical = track
  shown : s.world.status.cylinder = track.cylinder ∧ s.world.status.side = track.side

theorem Moved.trans {l₁ l₂ l₃ : Worker} (h : Moved l₁ l₂) (h' : Moved l₂ l₃) : Moved l₁ l₃ := by
  unfold Moved at h h' ⊢
  rw [h', h]

/-- A successful `position` leaves the worker believing that it is on the track. -/
theorem position_wp (hP : Placeless asm maxCylinders P) (htrack : Inside maxCylinders track)
    (hs : P s) :
    (demand maxCylinders asm).left.wpc (position track) (fun r l' s' =>
      Moved l l' ∧ P s' ∧ (r = .ok () → At track l' s')) l s := by
  have hside : ∀ l₁ s₁, Moved l l₁ ∧ P s₁ ∧
      ((.ok () : Except Error Unit) = .ok () → l₁.physical.cylinder = track.cylinder) →
      (demand maxCylinders asm).left.wpc (positionSide track) (fun r l' s' =>
        Moved l l' ∧ P s' ∧ (r = .ok () → l'.physical = track)) l₁ s₁ := by
    rintro l₁ s₁ ⟨hmoved, h₁, hcylinder⟩
    refine wpc_mono (positionSide_wp hP h₁) fun r l₂ s₂ h₂ => ?_
    obtain ⟨hmoved', h₂, hsame, hside⟩ := h₂
    refine ⟨hmoved.trans hmoved', h₂, fun hok => ?_⟩
    rw [show l₂.physical = ⟨l₂.physical.cylinder, l₂.physical.side⟩ from rfl, hsame,
      hcylinder rfl, hside hok]
  refine position_wp_of (positionCylinder_wp hP htrack hs) ?_ hside ?_ ?_
  · exact fun e l₁ s₁ h => ⟨h.1, h.2.1, fun h => by cases h⟩
  · exact fun e l₁ s₁ h => ⟨h.1, h.2.1, fun h => by cases h⟩
  · rintro l₂ s₂ ⟨hmoved, h₂, hthere⟩
    refine step_wp rfl hP.stable h₂ (fun _ _ => ready_of_plain rfl) ?_
    intro i r s₃ s₄ _ h₃ hact
    refine ⟨?_, hP.moves (.confirmPosition _ _) i r s₃ s₄ rfl hact h₃,
      fun _ => ⟨rfl, hthere rfl, ?_⟩⟩
    · unfold Moved at hmoved ⊢
      rw [hmoved]
    · have hexec := exec_of_act hact
      simp only [exec, Option.some.injEq, Prod.mk.injEq, true_and] at hexec
      rw [← hexec, ← hthere rfl]
      exact ⟨rfl, rfl⟩

/-- Moving the head does not change the aim. -/
theorem Moved.aim {l l' : Worker} (h : Moved l l') : SameAim l l' := by
  unfold Moved at h
  rw [h]
  exact ⟨rfl, rfl⟩

theorem placeless_aimed : Placeless asm maxCylinders (Aimed maxCylinders l) where
  stable := aimed_stable
  moves _ _ _ _ _ _ hact hs := hs.kept hact

/-- A position for which only the tracks matter. -/
theorem position_aimed (htrack : Inside maxCylinders track) (hs : Aimed maxCylinders l s) :
    (demand maxCylinders asm).left.wpc (position track) (fun r l' s' =>
      Aimed maxCylinders l' s' ∧ (r = .ok () → At track l' s')) l s :=
  wpc_mono (position_wp placeless_aimed htrack hs) fun _ _ _ ⟨hmoved, h, hthere⟩ =>
    ⟨h.same hmoved.aim, hthere⟩

/-! ### Commands -/

/-- A write positions on its own track before it calls the device. -/
theorem attemptWrite_wp {request : WriteRequest} (htrack : Inside maxCylinders request.track)
    (hs : Aimed maxCylinders l s) :
    (demand maxCylinders asm).left.wpc (attemptWrite checks request)
      (fun _ l s => Aimed maxCylinders l s) l s := by
  refine wpc_seq (position_aimed htrack hs) fun r l₁ s₁ h₁ => ?_
  obtain ⟨h₁, hthere⟩ := h₁
  cases r with
  | error e => exact h₁
  | ok _ =>
    refine wpc_bind.mpr (plain_wp rfl h₁ fun i trackBits s₂ s₃ _ h₃ _ => ?_)
    dsimp only
    split
    · exact h₃
    split
    · exact h₃
    · refine wpc_bind.mpr (wpc_own.mpr (wpc_bind.mpr ?_))
      refine step_wp rfl aimed_stable h₃ (fun s h => ?_) fun i r s₄ s₅ _ h₄ hact => h₄.kept hact
      refine ⟨fun _ h => (by cases h), fun _ _ _ h => (by cases h), fun _ _ _ _ h => ?_⟩
      cases h
      exact ⟨htrack, (hthere rfl).positioned, (hthere rfl).physical⟩

theorem performWrite_wp {id : WriteId} {request : WriteRequest}
    (htrack : Inside maxCylinders request.track) (hs : Aimed maxCylinders l s) :
    (demand maxCylinders asm).left.wpc (performWrite checks id request)
      (fun _ l s => Aimed maxCylinders l s) l s := by
  refine wpc_seq (attemptWrite_wp htrack hs) fun r l₁ s₁ h₁ => ?_
  cases r with
  | none => exact h₁
  | some result =>
    refine wpc_bind.mpr (plain_wp rfl h₁ fun _ _ _ s₂ _ h₂ _ => ?_)
    exact wpc_bind.mpr (plain_wp rfl h₂ fun _ _ _ s₃ _ h₃ _ => h₃)

/-- A write out of the queue names a track inside the mechanism. -/
theorem process_wp {c : Command}
    (hc : ∀ id request, c = .write id request → Inside maxCylinders request.track)
    (hs : Aimed maxCylinders l s) :
    (demand maxCylinders asm).left.wpc (process checks c)
      (fun _ l s => Aimed maxCylinders l s) l s := by
  cases c with
  | noClick side =>
    refine frame_wp (processNoClick_keeps sameAim_errors checks side) (fun o ho => ?_) hs
    cases o <;> first | rfl | cases ho
  | write id request =>
    refine process_write_wp (I := fun _ => Aimed maxCylinders)
      (wpc_mono (performWrite_wp (hc id request rfl) hs) fun flow l₁ s₁ h₁ => ?_)
    cases flow with
    | go => exact ⟨fun _ => h₁, fun _ => h₁⟩
    | stop => exact h₁
    | unwound => exact h₁
  | shutdown => exact hs

/-! ### Wishes -/

/-- The target becomes the aim before the head is moved to it. -/
theorem applyTarget_wp {target : Option TrackAddress}
    (htarget : ∀ track, target = some track → Inside maxCylinders track)
    (hs : Aimed maxCylinders l s) :
    (demand maxCylinders asm).left.wpc (applyTarget target)
      (fun _ l s => Aimed maxCylinders l s) l s := by
  refine applyTarget_wp_of (M := fun _ _ => Aimed maxCylinders) (fun _ => hs)
    (fun track htrack => ?_) (fun _ _ _ _ _ h => noteError_wp h)
    fun _ _ _ _ h => clearErrors_wp h
  refine wpc_mono (position_aimed (htarget track htrack) ?_) fun _ _ _ h => h.1
  exact ⟨htarget track htrack, hs.wanted⟩

/-- The motor is switched on the cylinder of the target. -/
theorem applyMotorWish_wp {side : Side} {enabled : Bool} (hs : Aimed maxCylinders l s) :
    (demand maxCylinders asm).left.wpc (applyMotorWish side enabled)
      (fun _ l s => Aimed maxCylinders l s) l s := by
  refine applyMotorWish_wp_of (P := Aimed maxCylinders) (M := Aimed maxCylinders)
    (R := fun _ => Aimed maxCylinders) ?_ ?_ (fun _ _ _ h => noteError_wp h)
    (fun _ _ h => clearErrors_wp h)
    (fun _ _ h => plain_wp rfl h fun _ _ _ _ _ h' _ => ⟨h'.target, h'.wanted⟩) fun _ _ h => h
  · exact quickStart_wp_of hs (plain_wp rfl hs fun _ _ _ _ _ h _ => h)
  intro quick l₁ s₁ h₁
  have hinside : Inside maxCylinders { cylinder := l₁.target.cylinder, side := side } := h₁.target
  refine wpc_bind.mpr (wpc_own.mpr ?_)
  refine wpc_seq (position_aimed hinside h₁) fun r l₂ s₂ h₂ => ?_
  cases r with
  | error e => exact h₂.1
  | ok _ =>
    refine wpc_bind.mpr (plain_wp rfl h₂.1 fun _ r _ s₃ _ h₃ _ => ?_)
    cases r with
    | error e => exact h₃
    | ok _ => exact wpc_bind.mpr (plain_wp rfl h₃ fun _ _ _ s₄ _ h₄ _ => h₄)

/-- The wishes the worker takes are those the callers left. -/
theorem applyDesired_wp (hs : Aimed maxCylinders l s) :
    (demand maxCylinders asm).left.wpc applyDesired (fun _ l s => Aimed maxCylinders l s) l s := by
  refine wpc_bind.mpr (plain_wp rfl hs fun i wish s₁ s₂ hwishes h₂ hact => ?_)
  have hexec := exec_of_act hact
  simp only [exec, Option.some.injEq, Prod.mk.injEq] at hexec
  obtain ⟨hwish, -⟩ := hexec
  have hrecord : (demand maxCylinders asm).left.wpc (recordWanted wish.wanted)
      (fun _ l s => Aimed maxCylinders l s) l s₂ := by
    cases hwanted : wish.wanted with
    | none => exact h₂
    | some track =>
      obtain ⟨hinside, hasked⟩ := hwishes.wanted track (by rw [hwish, hwanted])
      refine wpc_update.mpr ⟨h₂.target, fun track' htrack' => ?_⟩
      cases htrack'
      exact ⟨hinside, asked_kept hact hasked⟩
  refine wpc_seq hrecord fun _ l₃ s₃ h₃ => ?_
  refine wpc_seq (applyTarget_wp (fun track htrack => ?_) h₃) fun positioned l₄ s₄ h₄ => ?_
  · exact hwishes.target track (by rw [hwish, htrack])
  split
  · split
    · exact h₄
    · exact applyMotorWish_wp h₄
  · exact h₄

/-- Reading the status has nothing to do with the aim. -/
theorem refreshStatusIfDue_wp (hs : Aimed maxCylinders l s) :
    (demand maxCylinders asm).left.wpc refreshStatusIfDue
      (fun _ l s => Aimed maxCylinders l s) l s := by
  refine frame_wp (refreshStatusIfDue_keeps sameAim_errors fun _ _ h => h) (fun o ho => ?_) hs
  cases o <;> first | rfl | cases ho

/-! ### Captures -/

/-- A capture is wanted of the track the head belongs to, and the cache is short of it. -/
structure Wanted (maxCylinders : Nat) (track : TrackAddress) (l : Worker) (s : Snap controller) :
    Prop where
  aimed : Aimed maxCylinders l s
  wanted : l.wanted = some track
  target : l.target = track
  kept : l.failed = false
  spinning : Spinning s
  short : s.world.full track = false

theorem status_of_caller (ho : o.ofCaller = true) (h : controller.act o i s = some (r, s')) :
    s'.world.status = s.world.status :=
  exec_status (exec_of_act h) (Op.ofCaller_kept ho).2.2.1

/-- The caller does not touch the status. -/
theorem spinning_stable : (demand maxCylinders asm).left.Stable Spinning := by
  refine stable_of_action fun o i r s s' ho _ _ hact hs => ?_
  unfold Spinning
  rw [status_of_caller ho hact]
  exact hs

/-- Nor can it fill the queue of the track that is wanted. -/
theorem wanted_stable : (demand maxCylinders asm).left.Stable (Wanted maxCylinders track l) := by
  intro s s' hrely hs
  refine ⟨aimed_stable s s' hrely hs.aimed, hs.wanted, hs.target, hs.kept,
    spinning_stable s s' hrely hs.spinning, ?_⟩
  have hshort : (demand maxCylinders asm).left.Stable fun s => s.world.full track = false :=
    stable_of_action fun _ _ _ _ _ ho _ _ hact hs => full_of_caller ho hact hs
  exact hshort s s' hrely hs.short

/-- Moving the head changes the position in the status and nothing else that is asked for. -/
theorem placeless_wanted : Placeless asm maxCylinders (Wanted maxCylinders track l) where
  stable := wanted_stable
  moves o i r s s' ho hact hs := by
    refine ⟨hs.aimed.kept hact, hs.wanted, hs.target, hs.kept, ?_, ?_⟩
    · have hexec := exec_of_act hact
      have hspinning := hs.spinning
      unfold Spinning at hspinning ⊢
      cases o with
      | confirmPosition cylinder side =>
        simp only [exec, Option.some.injEq, Prod.mk.injEq, true_and] at hexec
        rw [← hexec]
        exact hspinning
      | deviceSeek cylinder => rwa [exec_status hexec rfl]
      | deviceSide side => rwa [exec_status hexec rfl]
      | _ => cases ho
    · have hsame : s'.world.captures = s.world.captures :=
        exec_captures (exec_of_act hact) (by cases o <;> first | rfl | cases ho)
      have hshort := hs.short
      unfold World.full at hshort ⊢
      rwa [hsame]

/-- What the look for a track finds is wanted, aimed at, and lacks a reading. -/
theorem captureTarget_wp (hkept : l.failed = false) (hs : Aimed maxCylinders l s) :
    (demand maxCylinders asm).left.wpc captureTarget (fun r l s =>
      Aimed maxCylinders l s ∧ ∀ track, r = some track → Wanted maxCylinders track l s) l s := by
  refine wpc_bind.mpr (plain_wp rfl hs fun i status s₁ s₂ _ h₂ hact => ?_)
  have hexec := exec_of_act hact
  simp only [exec, Option.some.injEq, Prod.mk.injEq] at hexec
  obtain ⟨hstatus, hworld⟩ := hexec
  split
  · exact ⟨h₂, fun _ h => by cases h⟩
  next hused =>
  have hspinning : Spinning s₂ := by
    unfold Spinning
    rw [← hworld, hstatus]
    simpa [and_assoc] using hused
  refine wpc_bind.mpr (wpc_own.mpr ?_)
  split
  · exact ⟨h₂, fun _ h => by cases h⟩
  next demanded hwanted =>
  split
  · exact ⟨h₂, fun _ h => by cases h⟩
  next hsame =>
  have htarget : demanded = l.target := by simpa using hsame
  refine wpc_bind.mpr (step_wp rfl (aimed_stable.and spinning_stable) ⟨h₂, hspinning⟩
    (fun _ _ => ready_of_plain rfl) fun i full s₃ s₄ _ h₃ hact => ?_)
  have hexec := exec_of_act hact
  simp only [exec, Option.some.injEq, Prod.mk.injEq] at hexec
  obtain ⟨hfull, hworld⟩ := hexec
  refine ⟨h₃.1.kept hact, fun track htrack => ?_⟩
  split at htrack
  · cases htrack
  · next hshort =>
    cases htrack
    refine ⟨h₃.1.kept hact, hwanted, htarget.symm, hkept, ?_, ?_⟩
    · unfold Spinning
      rw [← hworld]
      exact h₃.2
    · rw [← hworld, hfull]
      simpa using hshort

/-- The read happens where all of this still holds and the head is on the track. -/
theorem readTrack_wp {l₀ : Worker} (hmoved : Moved l₀ l) (hs : Wanted maxCylinders track l₀ s)
    (hthere : At track l s) :
    (demand maxCylinders asm).left.wpc (readTrack track)
      (fun _ l s => Aimed maxCylinders l s) l s := by
  have hshown : (demand maxCylinders asm).left.Stable fun s =>
      s.world.status.cylinder = track.cylinder ∧ s.world.status.side = track.side := by
    refine stable_of_action fun o i r s s' ho _ _ hact hs => ?_
    rw [status_of_caller ho hact]
    exact hs
  refine wpc_bind.mpr (wpc_own.mpr (wpc_bind.mpr ?_))
  refine step_wp rfl (wanted_stable.and hshown) ⟨hs, hthere.shown⟩ (fun s h => ?_) ?_
  · refine ⟨fun _ h => (by cases h), fun _ _ _ h => ?_, fun _ _ _ _ h => (by cases h)⟩
    cases h
    have haimed := h.1.aimed.wanted _ h.1.wanted
    have hfields : l.wanted = l₀.wanted ∧ l.target = l₀.target ∧ l.failed = l₀.failed := by
      unfold Moved at hmoved
      rw [hmoved]
      exact ⟨rfl, rfl, rfl⟩
    obtain ⟨hwanted, htarget, hfailed⟩ := hfields
    exact ⟨⟨hwanted.trans h.1.wanted, htarget.trans h.1.target, haimed.2, hthere.positioned,
      hthere.physical, h.2, h.1.spinning, h.1.short, hfailed.trans h.1.kept⟩, haimed.1, rfl, rfl⟩
  · intro i reports s₁ s₂ _ h₁ hact
    refine frame_wp (awaitCapture_keeps track reports) (fun o ho => ?_)
      ((h₁.1.aimed.kept hact).same hmoved.aim)
    cases o <;> first | rfl | cases ho

theorem keepCapture_wp {capture : RawCapture} (hs : Aimed maxCylinders l s) :
    (demand maxCylinders asm).left.wpc (keepCapture track capture)
      (fun _ l s => Aimed maxCylinders l s) l s := by
  refine wpc_bind.mpr (plain_wp rfl hs fun _ _ _ s₁ _ h₁ _ => ?_)
  refine wpc_bind.mpr (wpc_update.mpr (wpc_bind.mpr (wpc_update.mpr (wpc_bind.mpr
    (wpc_own.mpr ?_)))))
  exact wpc_bind.mpr (plain_wp rfl ⟨h₁.target, h₁.wanted⟩ fun _ _ _ s₂ _ h₂ _ => h₂)

/-- Only a worker that has not failed captures. -/
theorem captureIfNeeded_wp (hkept : l.failed = false) (hs : Aimed maxCylinders l s) :
    (demand maxCylinders asm).left.wpc captureIfNeeded
      (fun _ l s => Aimed maxCylinders l s) l s :=
  captureIfNeeded_wp_of
    (M := fun track r l s => ∃ l₀, Moved l₀ l ∧ Wanted maxCylinders track l₀ s ∧
      (r = .ok () → At track l s))
    (R := fun _ _ => Aimed maxCylinders)
    (captureTarget_wp hkept hs) (fun _ _ h => h.1)
    (fun track l _ h => wpc_mono (position_wp placeless_wanted
      ((h.2 track rfl).aimed.wanted track (h.2 track rfl).wanted).1 (h.2 track rfl))
      fun _ _ _ h => ⟨l, h⟩)
    (fun _ _ _ _ ⟨_, hmoved, h, _⟩ => noteError_wp (h.aimed.same hmoved.aim))
    (fun _ _ _ ⟨_, hmoved, h, hthere⟩ => readTrack_wp hmoved h (hthere rfl))
    (fun _ _ _ _ h => h) (fun _ _ _ _ _ h => noteError_wp h)
    (fun _ _ _ _ _ _ h => noteError_wp h) fun _ _ _ _ _ h => keepCapture_wp h

/-! ### The loop -/

theorem loop : Loop (demand maxCylinders asm).left checks (fun _ => Aimed maxCylinders)
    (fun c l s => Aimed maxCylinders l s ∧
      ∀ id request, c = .write id request → Inside maxCylinders request.track)
    (Aimed maxCylinders) where
  hot _ _ hs := hs
  select l s hs := by
    refine plain_wp rfl hs fun i r s₁ s₂ hwishes h₂ hact => ?_
    cases r with
    | nudge => exact h₂
    | timeout => exact h₂
    | command c =>
      refine ⟨h₂, fun id request hc => hwishes.writes id request ?_⟩
      rw [(exec_selectCommand (exec_of_act hact)).2, hc]
      exact List.mem_cons_self
  receive l s hs := by
    refine plain_wp rfl hs fun i r s₁ s₂ hwishes h₂ hact => ?_
    cases r with
    | none => exact h₂
    | some c =>
      refine ⟨h₂, fun id request hc => hwishes.writes id request ?_⟩
      rw [(exec_tryRecvCommand (exec_of_act hact)).2, hc]
      exact List.mem_cons_self
  process _ _ _ hs := process_wp hs.2 hs.1
  pass _ _ hs := passRound_wp (applyDesired_wp hs) (fun _ _ h _ => refreshStatusIfDue_wp h)
    (fun _ _ h hkept => captureIfNeeded_wp hkept h) (fun _ _ h _ => h) fun _ _ _ h _ => h
  stop l s hs := by
    refine frame_wp (stopRound_keeps (J := SameAim l)) (fun o ho => ?_) hs
    cases o <;> first | rfl | cases ho
  unwind l s hs := by
    refine frame_wp (unwindRound_keeps (J := SameAim l)) (fun o ho => ?_) hs
    cases o <;> first | rfl | cases ho

end Worker

/-! ## The caller -/

section Caller

variable {b : Bridge} {track : TrackAddress}

/-- The steps of the caller that name no track. -/
def trackless : Op → Bool
  | .wishTarget _ | .wishTrack _ | .trySendCommand (.write _ _) => false
  | o => o.ofCaller

theorem ofCaller_of_trackless (ho : trackless o = true) : o.ofCaller = true := by
  unfold trackless at ho
  split at ho
  · cases ho
  · cases ho
  · cases ho
  · exact ho

/-- Steps that name no track ask for nothing. -/
theorem asks_of_trackless (ho : trackless o = true) : Asks maxCylinders o s where
  target track h := by
    subst h
    cases ho
  track track h := by
    subst h
    cases ho
  write id request h := by
    subst h
    cases ho

theorem asked_stable :
    (demand maxCylinders asm).right.Stable fun s => Asked maxCylinders track s.trace :=
  stable_of_action fun _ _ _ _ _ _ _ _ hact hs => asked_kept hact hs

/-- One step of the caller. -/
theorem call_wp {P : Snap controller → Prop} {Q : o.Ret → Bridge → Snap controller → Prop}
    (ho : o.ofCaller = true) (hb : b.maxCylinders = maxCylinders)
    (hstable : (demand maxCylinders asm).right.Stable P) (hs : P s)
    (hasks : ∀ s, P s → Asks maxCylinders o s)
    (h : ∀ i r s₁ s₂, P s₁ → controller.act o i s₁ = some (r, s₂) → Q r b s₂) :
    (demand maxCylinders asm).right.wpc (step o) Q b s :=
  wpc_perform_of ho hstable hs (fun s₁ _ h₁ => ⟨hb, hasks s₁ h₁⟩)
    fun i r s₁ s₂ hinv h₁ _ hact =>
      ⟨wishes_of_act hact (hasks s₁ h₁) hinv, h i r s₁ s₂ h₁ hact⟩

/-- One step of a call that names no track. -/
theorem trackless_wp {Q : o.Ret → Bridge → Snap controller → Prop} (ho : trackless o = true)
    (hb : b.maxCylinders = maxCylinders) (h : ∀ r s', Q r b s') :
    (demand maxCylinders asm).right.wpc (step o) Q b s :=
  call_wp (P := fun _ => True) (ofCaller_of_trackless ho) hb stable_const trivial
    (fun _ _ => asks_of_trackless ho) fun _ r _ s₂ _ _ => h r s₂

/-- A call that asks for a track says so before it writes the wish. -/
theorem wishTrack_wp {asked : TrackAddress} {Q : Unit → Bridge → Snap controller → Prop}
    (hb : b.maxCylinders = maxCylinders)
    (hs : Asked maxCylinders (clampTrack asked maxCylinders) s.trace) (h : ∀ s', Q () b s') :
    (demand maxCylinders asm).right.wpc (step (.wishTrack (clampTrack asked maxCylinders))) Q b
      s := by
  refine call_wp rfl hb asked_stable hs (fun s h => ?_) fun _ _ _ s₂ _ _ => h s₂
  refine ⟨fun _ h => (by cases h), fun _ heq => ?_, fun _ _ h => (by cases h)⟩
  cases heq
  exact ⟨inside_clampTrack asked maxCylinders, h⟩

theorem stall_wp (hb : b.maxCylinders = maxCylinders) : ∀ (polls : Nat) (s : Snap controller),
    (demand maxCylinders asm).right.wpc (Bridge.stall track polls)
      (fun _ b _ => b.maxCylinders = maxCylinders) b s
  | 0, _ => hb
  | polls + 1, s => by
    refine wpc_bind.mpr (trackless_wp rfl hb fun front s₁ => ?_)
    cases front with
    | some capture => exact hb
    | none =>
      refine wpc_bind.mpr (trackless_wp rfl hb fun status s₂ => ?_)
      split
      · exact hb
      · exact stall_wp hb polls s₂

/-- `read_track` asks for the clamped track, and for no other one. -/
theorem readTrack_call_wp {asked : TrackAddress} (hb : b.maxCylinders = maxCylinders)
    (hs : Asked maxCylinders (clampTrack asked maxCylinders) s.trace) :
    (demand maxCylinders asm).right.wpc (Bridge.readTrack asked)
      (fun _ b _ => b.maxCylinders = maxCylinders) b s := by
  refine wpc_bind.mpr (wpc_bind.mpr (wpc_own.mpr (wpc_pure.mpr ?_)))
  rw [hb]
  refine wpc_bind.mpr (wishTrack_wp hb hs fun s₁ => ?_)
  refine wpc_bind.mpr (trackless_wp rfl hb fun front s₂ => ?_)
  cases front with
  | some capture => exact hb
  | none =>
    refine wpc_bind.mpr (trackless_wp rfl hb fun _ s₃ => wpc_bind.mpr (wpc_own.mpr ?_))
    split
    · exact hb
    · refine wpc_bind.mpr (trackless_wp rfl hb fun polls s₄ => ?_)
      exact wpc_seq (stall_wp hb polls s₄) fun _ _ _ h => h

/-- A write is queued for the clamped track. -/
theorem submitWrite_wp {request : WriteRequest} (hb : b.maxCylinders = maxCylinders) :
    (demand maxCylinders asm).right.wpc (Bridge.submitWrite checks request)
      (fun _ b _ => b.maxCylinders = maxCylinders) b s := by
  refine wpc_bind.mpr (wpc_bind.mpr (wpc_own.mpr (wpc_pure.mpr ?_)))
  rw [hb]
  dsimp only
  split
  · exact hb
  refine wpc_bind.mpr (trackless_wp rfl hb fun status s₁ => ?_)
  split
  · exact hb
  refine wpc_bind.mpr (trackless_wp rfl hb fun front s₂ => ?_)
  split
  · exact hb
  · exact hb
  refine wpc_bind.mpr (wpc_own.mpr (wpc_bind.mpr (wpc_update.mpr (wpc_bind.mpr ?_))))
  refine call_wp (P := fun _ => True) rfl hb stable_const trivial (fun s _ => ?_) ?_
  · refine ⟨fun _ h => (by cases h), fun _ h => (by cases h), fun _ _ h => ?_⟩
    cases h
    exact inside_clampTrack request.track maxCylinders
  · intro i r s₃ s₄ _ _
    cases r with
    | error e => exact hb
    | ok _ => exact hb

/-- Every call clamps the track it names. -/
theorem perform_wp {call : Call} (hb : b.maxCylinders = maxCylinders)
    (hs : ∃ event ∈ s.trace, event.op = .called call) :
    (demand maxCylinders asm).right.wpc (Bridge.perform checks call)
      (fun _ b _ => b.maxCylinders = maxCylinders) b s := by
  obtain ⟨event, hevent, hop⟩ := hs
  cases call with
  | setMotor side enabled =>
    exact wpc_bind.mpr (trackless_wp rfl hb fun _ s₁ =>
      wpc_bind.mpr (trackless_wp rfl hb fun _ s₂ => hb))
  | seek asked =>
    refine wpc_bind.mpr (wpc_bind.mpr (wpc_own.mpr (wpc_pure.mpr ?_)))
    rw [hb]
    refine wpc_bind.mpr (call_wp (P := fun _ => True) rfl hb stable_const trivial
      (fun s _ => ?_) fun _ _ _ s₁ _ _ => ?_)
    · refine ⟨fun _ h => ?_, fun _ h => (by cases h), fun _ _ h => (by cases h)⟩
      cases h
      exact inside_clampTrack asked maxCylinders
    · exact wpc_bind.mpr (trackless_wp rfl hb fun _ s₂ => hb)
  | noClickStep side => exact wpc_bind.mpr (trackless_wp rfl hb fun _ s₁ => hb)
  | readTrack asked => exact readTrack_call_wp hb ⟨event, hevent, _, hop, rfl⟩
  | partialTrack asked =>
    refine wpc_bind.mpr (wpc_bind.mpr (wpc_own.mpr (wpc_pure.mpr ?_)))
    exact wpc_bind.mpr (trackless_wp rfl hb fun _ s₁ => hb)
  | advanceRevolution asked =>
    refine wpc_bind.mpr (wpc_bind.mpr (wpc_own.mpr (wpc_pure.mpr ?_)))
    rw [hb]
    refine wpc_bind.mpr (call_wp rfl hb asked_stable ⟨event, hevent, _, hop, rfl⟩
      (fun _ _ => asks_of_trackless rfl) fun _ _ _ s₁ h₁ hact => ?_)
    refine wpc_bind.mpr (wishTrack_wp hb (asked_kept hact h₁) fun s₂ => ?_)
    exact wpc_bind.mpr (trackless_wp rfl hb fun _ s₃ => hb)
  | submitWrite request => exact submitWrite_wp hb
  | pollEvent => exact wpc_bind.mpr (trackless_wp rfl hb fun _ s₁ => hb)
  | drop =>
    exact wpc_bind.mpr (trackless_wp rfl hb fun _ s₁ =>
      wpc_bind.mpr (trackless_wp rfl hb fun _ s₂ => hb))

theorem callRound_wp {call : Call} (hb : b.maxCylinders = maxCylinders) :
    (demand maxCylinders asm).right.wpc (callRound checks call)
      (fun _ b _ => b.maxCylinders = maxCylinders) b s := by
  refine wpc_bind.mpr (call_wp (P := fun _ => True) rfl hb stable_const trivial
    (fun _ _ => asks_of_trackless rfl) fun _ _ _ s₁ _ hact => ?_)
  refine wpc_seq (perform_wp hb ?_) fun answer b s₂ hb => ?_
  · rw [(Machine.act_eq_some.mp hact).2]
    exact ⟨_, List.mem_cons_self, rfl⟩
  · exact wpc_bind.mpr (trackless_wp rfl hb fun _ s₃ => hb)

end Caller

theorem valid : (@demand checks maxCylinders asm).Valid where
  leftStable _ _ := aimed_stable
  rightStable _ _ := stable_const
  leftRound _ _ _ _ _ hm _ h := loop.round hm h
  rightRound := rightRound_of_call fun _ _ _ _ hb => callRound_wp hb

theorem holds_fromDevice (config : BridgeConfig) (status : DriveStatus) (head : TrackAddress)
    (now : Nat) :
    (demand status.maxCylinders asm).Holds (fromDevice checks config status head now) := by
  refine ⟨⟨?_, ?_, ?_⟩, ⟨Nat.zero_le _, fun _ h => ?_⟩, rfl⟩
  · exact fun _ h => by cases h
  · exact fun _ h => by cases h
  · exact fun _ _ h => absurd h List.not_mem_nil
  · cases h

end Demand

/-! ## Every call of the device -/

section Runs

variable {checks : Bool} {asm : Conditions checks} {m : Moment checks}

/-- The outline holds at every reachable moment. -/
theorem demand_of_reachable (h : Reachable asm m) :
    (demand m.right.priv.maxCylinders asm).Holds m := by
  cases h with
  | @intro config status head now _ run =>
    have hholds := Demand.valid.holds run (Demand.holds_fromDevice config status head now)
    have hmax : m.right.priv.maxCylinders = status.maxCylinders :=
      hholds.rightView (J := fun (b : Bridge) _ => b.maxCylinders = status.maxCylinders)
        (fun _ _ _ hb => hb) fun _ _ _ hb => hb.1
    rw [hmax]
    exact hholds

/-- The track that the worker is about to read. -/
def readNext {checks : Bool} (m : Moment checks) : Option TrackAddress :=
  match m.left.next? with
  | some (.deviceRead track _ _) => some track
  | _ => none

theorem exists_of_readNext {track : TrackAddress} (h : readNext m = some track) :
    ∃ mode density, m.left.next? = some (.deviceRead track mode density) := by
  unfold readNext at h
  split at h
  · next track' mode density hnext =>
    cases h
    exact ⟨mode, density, hnext⟩
  · cases h

/-- Switch the drive on, ask for a track beyond its last one, and let the worker begin a read. -/
def askBeyond : Schedule true :=
  calling (.setMotor .lower true) 4 {} ++ calling (.readTrack ⟨90, .upper⟩) 5 {}
    ++ working [{}] ++ working (.replicate 14 {})

theorem exists_askBeyond : ∃ m : Moment true, Reachable (anyRun true) m ∧
    readNext m = some ⟨79, .upper⟩ ∧ m.right.priv.maxCylinders = 80 := by
  have hplay : ((play (anyRun true) (opened true .normal ⟨5, .upper⟩) askBeyond).any fun m =>
      readNext m = some ⟨79, .upper⟩ ∧ m.right.priv.maxCylinders = 80) = true := by
    decide +kernel
  obtain ⟨m, hrun, htest⟩ := exists_reach_of_play hplay
  obtain ⟨hread, hmax⟩ : readNext m = some ⟨79, .upper⟩ ∧ m.right.priv.maxCylinders = 80 := by
    simpa using htest
  exact ⟨m, ⟨hrun⟩, hread, hmax⟩

/--
**Captures on demand.** Whenever the worker calls `Device::read_track`, in any interleaving and
whatever the device has answered, a call has asked for this very track, the head was moved there
and the status shows it, the drive works and turns with a disk in it, and the cache holds fewer
captures of the track than it wants. The mode and the density are those of the configuration.
-/
theorem demanded_of_reachable (h : Reachable (anyRun checks) m) {track : TrackAddress}
    {mode : ReadMode} {density : DensityMode}
    (hread : m.left.next? = some (.deviceRead track mode density)) :
    Demanded m.right.priv.maxCylinders track m.left.priv m.snap ∧
      mode = m.left.priv.config.mode ∧ density = m.left.priv.config.density := by
  obtain ⟨hdemanded, -, hmode, hdensity⟩ :=
    ((demand_of_reachable h).leftReady hread).2.read track mode density rfl
  exact ⟨hdemanded, hmode, hdensity⟩

theorem demanded_of_reachable_askBeyond : ∃ m : Moment true,
    Demanded 80 ⟨79, .upper⟩ m.left.priv m.snap := by
  obtain ⟨m, hreachable, hread, hmax⟩ := exists_askBeyond
  obtain ⟨mode, density, hnext⟩ := exists_of_readNext hread
  have hdemanded := (demanded_of_reachable hreachable hnext).1
  rw [hmax] at hdemanded
  exact ⟨m, hdemanded⟩

/-- The device calls that go to a cylinder go to one of the mechanism. -/
structure InsideMechanism (m : Moment checks) : Prop where
  seek : ∀ cylinder, m.left.next? = some (.deviceSeek cylinder) →
    cylinder ≤ m.right.priv.maxCylinders - 1
  read : ∀ track mode density, m.left.next? = some (.deviceRead track mode density) →
    Inside m.right.priv.maxCylinders track
  write : ∀ request bits fromIndex density,
    m.left.next? = some (.deviceWrite request bits fromIndex density) →
      Inside m.right.priv.maxCylinders request.track ∧ m.left.priv.positioned = true ∧
        m.left.priv.physical = request.track

/--
**Inside the mechanism.** Whatever tracks the calls name, no device call leaves the cylinders that
the drive reported when it was opened, and a write is made on the track the head was moved to.
-/
theorem inside_of_reachable (h : Reachable (anyRun checks) m) : InsideMechanism m where
  seek cylinder hnext := ((demand_of_reachable h).leftReady hnext).2.seek cylinder rfl
  read track mode density hnext :=
    (((demand_of_reachable h).leftReady hnext).2.read track mode density rfl).2.1
  write request bits fromIndex density hnext :=
    ((demand_of_reachable h).leftReady hnext).2.write request bits fromIndex density rfl

theorem inside_of_reachable_askBeyond : ∃ m : Moment true,
    readNext m = some ⟨79, .upper⟩ ∧ InsideMechanism m := by
  obtain ⟨m, hreachable, hread, -⟩ := exists_askBeyond
  exact ⟨m, hread, inside_of_reachable hreachable⟩

end Runs

end FluxBridge
