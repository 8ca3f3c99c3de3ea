import FluxBridge.Controller.Rounds

/-!
# The head and what the worker believes of it

`position` skips a device call when `physical` says that the head is already there, so a write or
a read is made on the right track only while `physical` mirrors the head (`Mirrors`).

* `position_wp` — after a successful `position` the head is on the track, whatever the worker
  believed before, as long as what it believed was true
* `Steady` — what a run has to meet for the mirror to hold at every moment
* `mirror_valid` — under `Steady` the mirror holds at every moment
* `headOnTrack_of_steady` — then every write, every read and every cached capture is of the track
  it names

Two ways lead out of `Steady`: a no-click step selects a side behind the back of `physical`, and
a failing move that has moved the head leaves `physical` as it was.
-/

namespace FluxBridge

open Atomic Atomic.Side

variable {checks : Bool} {asm : Conditions checks} {quiet : Prop}

/-- As long as the worker thinks it knows where the head is, it is right. -/
def Mirrors (l : Worker) (s : Snap controller) : Prop :=
  l.positioned = true → s.world.head = l.physical

/-- A device call, or a capture to be kept, concerns the track the head is (or was) on. -/
def OnTrack (o : Op) (s : Snap controller) : Prop :=
  match o with
  | .deviceWrite request _ _ _ => s.world.head = request.track
  | .deviceRead track _ _ => s.world.head = track
  | .storeCapture track _ => s.world.readFrom = track
  | _ => True

/-- Whatever the worker is about to do is `OnTrack`. -/
def HeadOnTrack (m : Moment checks) : Prop :=
  ∀ o, m.left.next? = some o → OnTrack o m.snap

/--
The moves of a run leave the mirror intact. `quiet` is for runs in which the caller makes no
no-click step.
-/
structure Steady (asm : Conditions checks) (quiet : Prop) : Prop where
  seek : ∀ l c i s e, asm.left l (.deviceSeek c) i s → i.result = .error e →
    l.positioned = true → i.lands.cylinder = s.world.head.cylinder
  side : ∀ l side i s e, asm.left l (.deviceSide side) i s → i.result = .error e →
    l.positioned = true → i.lands.side = s.world.head.side
  noClick : quiet ∨ ∀ l i s, asm.left l .deviceNoClick i s → l.positioned = true →
    s.world.head.cylinder ≠ 0 → i.lands.cylinder = s.world.head.cylinder
  taken : quiet ∨ ∀ l o i s side, asm.left l o i s →
    s.world.taken? o i = some (.noClick side) → l.positioned = true → side = l.physical.side
  silent : quiet → ∀ l side i s, ¬ asm.right l (.trySendCommand (.noClick side)) i s

/-- In a quiet run no no-click step is ever queued. -/
def Quiet (quiet : Prop) (s : Snap controller) : Prop :=
  quiet → ∀ side, .noClick side ∉ s.world.commands

/-- The outline of the mirror. -/
def mirror (asm : Conditions checks) (quiet : Prop) : Outline asm where
  inv := Quiet quiet
  leftOps o := o.ofWorker = true
  rightOps o := o.ofCaller = true
  leftAt _ := Mirrors
  rightAt _ _ _ := True
  leftReady _ := OnTrack
  rightReady _ _ _ := True

namespace Mirror

/-! ## Steps -/

theorem mem_commands_of_worker {o : Op} {i : Outside} {w w' : World} {r : o.Ret}
    (ho : o.ofWorker = true) (h : exec o i w = some (r, w')) {c : Command}
    (hc : c ∈ w'.commands) : c ∈ w.commands := by
  by_cases hcom : o.commands = true
  · cases o <;> simp only [Op.commands, Op.ofWorker, Bool.false_eq_true] at hcom ho
    · simp only [exec, World.select, Option.some.injEq] at h
      grind
    · simp only [exec] at h
      grind
  · rw [exec_commands h (by simpa using hcom)] at hc
    exact hc

theorem quiet_of_worker {o : Op} {i : Outside} {s s' : Snap controller} {r : o.Ret}
    (ho : o.ofWorker = true) (h : controller.act o i s = some (r, s')) (hs : Quiet quiet s) :
    Quiet quiet s' :=
  fun hq side hc => hs hq side (mem_commands_of_worker ho (Machine.act_eq_some.mp h).1 hc)

theorem ofCaller_stays {o : Op} (ho : o.ofCaller = true) : o.moves = false ∧ o.reads = false := by
  cases o <;> simp_all [Op.ofCaller, Op.ofCall, Op.moves, Op.reads]

/-- The caller does not touch the mechanism. -/
theorem stable_place (P : TrackAddress → TrackAddress → Prop) :
    (mirror asm quiet).left.Stable fun s => P s.world.head s.world.readFrom := by
  refine stable_of_action fun o i r s s' ho _ _ h hP => ?_
  have hexec := (Machine.act_eq_some.mp h).1
  rw [exec_head hexec (ofCaller_stays ho).1, (exec_read hexec (ofCaller_stays ho).2).2]
  exact hP

theorem mirrors_stable (l : Worker) : (mirror asm quiet).left.Stable (Mirrors l) :=
  stable_place fun head _ => l.positioned = true → head = l.physical

/-- The rule for one step of the worker. -/
theorem step_wp {o : Op} {l : Worker} {s : Snap controller}
    {Q : o.Ret → Worker → Snap controller → Prop} (ho : o.ofWorker = true)
    (hready : ∀ s₁, s₁.world.head = s.world.head → s₁.world.readFrom = s.world.readFrom →
      OnTrack o s₁)
    (h : ∀ i r s₁ s₂, s₁.world.head = s.world.head → s₁.world.readFrom = s.world.readFrom →
      Quiet quiet s₁ → asm.left l o i s₁ → exec o i s₁.world = some (r, s₂.world) → Q r l s₂) :
    (mirror asm quiet).left.wpc (step o) Q l s := by
  refine wpc_perform_of ho
    (stable_place fun head readFrom => head = s.world.head ∧ readFrom = s.world.readFrom)
    ⟨rfl, rfl⟩ (fun s₁ _ h₁ => hready s₁ h₁.1 h₁.2) ?_
  intro i r s₁ s₂ hinv h₁ ha hact
  exact ⟨quiet_of_worker ho hact hinv,
    h i r s₁ s₂ h₁.1 h₁.2 hinv ha (Machine.act_eq_some.mp hact).1⟩

/-- The rule for a step that concerns neither the mechanism nor a track. -/
theorem plain_wp {o : Op} {l : Worker} {s : Snap controller}
    {Q : o.Ret → Worker → Snap controller → Prop} (ho : o.ofWorker = true)
    (hmoves : o.moves = false) (hreads : o.reads = false) (hready : ∀ s, OnTrack o s)
    (h : ∀ r s', s'.world.head = s.world.head → s'.world.readFrom = s.world.readFrom →
      Q r l s') : (mirror asm quiet).left.wpc (step o) Q l s := by
  refine step_wp ho (fun s₁ _ _ => hready s₁) fun i r s₁ s₂ hhead hread _ _ hexec => ?_
  refine h r s₂ ?_ ?_
  · rw [exec_head hexec hmoves, hhead]
  · rw [(exec_read hexec hreads).2, hread]

/-- The frame: code that concerns neither the mechanism nor a track. -/
theorem place_wp {α : Type} {m : WorkerM α} {J : Worker → Prop} {ops : Op → Bool}
    {P : TrackAddress → TrackAddress → Prop} {l : Worker} {s : Snap controller}
    (hm : m.Keeps J (ops ·))
    (hops : ∀ o, ops o = true → o.ofWorker = true ∧ o.moves = false ∧ o.reads = false ∧
      ∀ s, OnTrack o s) (hl : J l) (hs : P s.world.head s.world.readFrom) :
    (mirror asm quiet).left.wpc m
      (fun _ l s => J l ∧ P s.world.head s.world.readFrom) l s := by
  refine wpc_of_keeps hm (stable_place P) ?_ hl hs
  intro l o _ ho
  obtain ⟨hworker, hmoves, hreads, hready⟩ := hops o ho
  refine ⟨hworker, fun s hinv hP => ⟨hready s, fun i r s' _ hact => ?_⟩⟩
  have hexec := (Machine.act_eq_some.mp hact).1
  refine ⟨quiet_of_worker hworker hact hinv, ?_⟩
  rw [exec_head hexec hmoves, (exec_read hexec hreads).2]
  exact hP

theorem ofStatus_stays {o : Op} (ho : o.ofStatus = true) :
    o.ofWorker = true ∧ o.moves = false ∧ o.reads = false ∧ ∀ s, OnTrack o s := by
  cases o <;> simp_all [Op.ofStatus, Op.ofErrors, Op.ofWorker, Op.moves, Op.reads, OnTrack]

theorem ofErrors_stays {o : Op} (ho : o.ofErrors = true) :
    o.ofWorker = true ∧ o.moves = false ∧ o.reads = false ∧ ∀ s, OnTrack o s :=
  ofStatus_stays (Op.ofStatus_of_errors ho)

theorem ofTarget_stays {o : Op} (ho : o.ofTarget = true) :
    o.ofWorker = true ∧ o.moves = false ∧ o.reads = false ∧ ∀ s, OnTrack o s := by
  cases o <;> simp_all [Op.ofTarget, Op.ofWorker, Op.moves, Op.reads, OnTrack]

theorem ofAwaiting_stays {o : Op} (ho : o.ofAwaiting = true) :
    o.ofWorker = true ∧ o.moves = false ∧ o.reads = false ∧ ∀ s, OnTrack o s := by
  cases o <;> simp_all [Op.ofAwaiting, Op.ofWorker, Op.moves, Op.reads, OnTrack]

theorem ofEnding_stays {o : Op} (ho : o.ofEnding = true) :
    o.ofWorker = true ∧ o.moves = false ∧ o.reads = false ∧ ∀ s, OnTrack o s := by
  cases o <;> simp_all [Op.ofEnding, Op.ofWorker, Op.moves, Op.reads, OnTrack]

/-- The belief of `l'` is the belief of `l`. -/
def Believes (l l' : Worker) : Prop :=
  l'.physical = l.physical ∧ l'.positioned = l.positioned

section Frame

variable {track : TrackAddress} {l : Worker} {s : Snap controller}

/-- Code that neither moves the head nor changes the belief keeps the mirror. -/
theorem frame_mirrors {α : Type} {m : WorkerM α} {ops : Op → Bool}
    (hm : m.Keeps (Believes l) (ops ·))
    (hops : ∀ o, ops o = true → o.ofWorker = true ∧ o.moves = false ∧ o.reads = false ∧
      ∀ s, OnTrack o s) (h : Mirrors l s) :
    (mirror asm quiet).left.wpc m (fun _ l s => Mirrors l s) l s := by
  refine wpc_mono (place_wp (P := fun head _ => l.positioned = true → head = l.physical) hm hops
    ⟨rfl, rfl⟩ h) ?_
  rintro - l' s' ⟨⟨hphys, hpos⟩, hP⟩ hp
  rw [hphys]
  exact hP (hpos ▸ hp)

theorem noteError_wp {e : Error} (h : Mirrors l s) :
    (mirror asm quiet).left.wpc (noteError e) (fun _ l s => Mirrors l s) l s :=
  frame_mirrors (noteError_keeps (fun _ _ _ hw _ => hw) e) (fun _ => ofErrors_stays) h

theorem quickStart_wp {enabled : Bool} (h : Mirrors l s) :
    (mirror asm quiet).left.wpc (quickStart enabled) (fun _ l s => Mirrors l s) l s := by
  refine quickStart_wp_of h (plain_wp rfl rfl rfl (fun _ => trivial) fun now s₁ hhead _ hp => ?_)
  rw [hhead]
  exact h hp

theorem refreshStatusIfDue_wp (h : Mirrors l s) :
    (mirror asm quiet).left.wpc refreshStatusIfDue (fun _ l s => Mirrors l s) l s := by
  have hkeeps : refreshStatusIfDue.Keeps (Believes l) (Op.ofStatus ·) :=
    refreshStatusIfDue_keeps (fun _ _ _ hw _ => hw) fun _ _ hw => hw
  exact frame_mirrors hkeeps (fun _ => ofStatus_stays) h

theorem captureTarget_wp (h : Mirrors l s) :
    (mirror asm quiet).left.wpc captureTarget (fun _ l s => Mirrors l s) l s :=
  frame_mirrors captureTarget_keeps (fun _ => ofTarget_stays) h

/-- A read leaves the head where it is, and remembers where that was. -/
theorem readTrack_wp {wanted : TrackAddress} (h : Mirrors l s) (hon : s.world.head = wanted) :
    (mirror asm quiet).left.wpc (readTrack wanted) (fun _ l s =>
      Mirrors l s ∧ s.world.readFrom = wanted) l s := by
  refine wpc_bind.mpr (wpc_own.mpr (wpc_bind.mpr (step_wp rfl (fun s₁ hhead _ => ?_) ?_)))
  · show s₁.world.head = wanted
    rw [hhead, hon]
  intro i reports s₁ s₂ hhead _ _ _ hexec
  have hhead₂ : s₂.world.head = s.world.head := by rw [exec_head hexec rfl, hhead]
  obtain ⟨hread₂, -, -⟩ := exec_deviceRead hexec
  have hkeeps : (awaitCapture wanted reports).Keeps (Believes l) (Op.ofAwaiting ·) :=
    awaitCapture_keeps wanted reports
  refine wpc_mono (place_wp
    (P := fun head readFrom => (l.positioned = true → head = l.physical) ∧ readFrom = wanted)
    hkeeps (fun _ => ofAwaiting_stays) ⟨rfl, rfl⟩ ⟨?_, ?_⟩) ?_
  · rw [hhead₂]
    exact h
  · rw [hread₂, hhead, hon]
  · rintro - l' s' ⟨⟨hphys, hpos⟩, hP, hread⟩
    refine ⟨fun hp => ?_, hread⟩
    rw [hphys]
    exact hP (hpos ▸ hp)

theorem keepCapture_wp {wanted : TrackAddress} {capture : RawCapture} (h : Mirrors l s)
    (hread : s.world.readFrom = wanted) :
    (mirror asm quiet).left.wpc (keepCapture wanted capture) (fun _ l s => Mirrors l s) l s := by
  refine wpc_bind.mpr (plain_wp rfl rfl rfl (fun _ => trivial) fun _ s₁ hhead₁ hread₁ => ?_)
  refine wpc_bind.mpr (wpc_update.mpr (wpc_bind.mpr (wpc_update.mpr (wpc_bind.mpr
    (wpc_own.mpr (wpc_bind.mpr (step_wp rfl (fun s₂ _ hread₂ => ?_) ?_)))))))
  · show s₂.world.readFrom = wanted
    rw [hread₂, hread₁, hread]
  · intro i r s₂ s₃ hhead₂ _ _ _ hexec hp
    rw [exec_head hexec rfl, hhead₂, hhead₁]
    exact h hp

end Frame

/-! ## Moves -/

section Moves

variable (hasm : Steady asm quiet) {track : TrackAddress} {l : Worker} {s : Snap controller}

include hasm

theorem positionCylinder_wp (h : Mirrors l s) :
    (mirror asm quiet).left.wpc (positionCylinder track) (fun r l' s' =>
      Mirrors l' s' ∧ (r = .ok () → l'.positioned = l.positioned ∧
        l'.physical.cylinder = track.cylinder ∧ s'.world.head.cylinder = track.cylinder)) l s := by
  refine positionCylinder_wp_of (step_wp rfl (fun _ _ _ => trivial) ?_) ?_
  · intro i r s₁ s₂ hhead _ _ ha hexec
    obtain ⟨hr, hok, herror⟩ := exec_deviceSeek hexec
    cases r with
    | error e =>
      refine ⟨fun hp => ?_, fun hr => by cases hr⟩
      -- the failing seek has left the cylinder where it was
      rw [herror e rfl, hasm.seek l _ i s₁ e ha hr.symm hp, hhead]
      exact h hp
    | ok _ =>
      refine ⟨fun hp => ?_, fun _ => ⟨rfl, rfl, ?_⟩⟩
      · rw [hok rfl, hhead, h hp]
      · rw [hok rfl]
  · intro hpos hcyl
    refine ⟨h, fun _ => ⟨rfl, hcyl, ?_⟩⟩
    rw [h hpos]
    exact hcyl

theorem positionSide_wp (h : Mirrors l s) (hcyl : l.physical.cylinder = track.cylinder)
    (hhead : s.world.head.cylinder = track.cylinder) :
    (mirror asm quiet).left.wpc (positionSide track) (fun r l' s' =>
      Mirrors l' s' ∧ (r = .ok () → l'.physical = track ∧ s'.world.head = track)) l s := by
  refine positionSide_wp_of (step_wp rfl (fun _ _ _ => trivial) ?_) ?_
  · intro i r s₁ s₂ hhead₁ _ _ ha hexec
    obtain ⟨hr, hok, herror⟩ := exec_deviceSide hexec
    cases r with
    | error e =>
      refine ⟨fun hp => ?_, fun hr => by cases hr⟩
      rw [herror e rfl, hasm.side l _ i s₁ e ha hr.symm hp, hhead₁]
      exact h hp
    | ok _ =>
      refine ⟨fun hp => ?_, fun _ => ⟨?_, ?_⟩⟩
      · rw [hok rfl, hhead₁, h hp]
      · show (⟨l.physical.cylinder, track.side⟩ : TrackAddress) = track
        rw [hcyl]
      · rw [hok rfl, hhead₁, hhead]
  · intro hpos hside
    -- no call is needed: the worker believes the side selected, and its belief mirrors the head
    have hphys : l.physical = track := by
      cases hl : l.physical
      cases track
      simp_all
    refine ⟨h, fun _ => ⟨hphys, ?_⟩⟩
    rw [h hpos]
    exact hphys

/-- **Positioning.** After a successful `position` the head is on the track. -/
theorem position_wp (h : Mirrors l s) :
    (mirror asm quiet).left.wpc (position track) (fun r l' s' =>
      Mirrors l' s' ∧ (r = .ok () → s'.world.head = track)) l s := by
  refine position_wp_of (positionCylinder_wp hasm h) (fun _ _ _ h₁ => ⟨h₁.1, nofun⟩)
    (fun l₁ s₁ h₁ => positionSide_wp hasm h₁.1 (h₁.2 rfl).2.1 (h₁.2 rfl).2.2)
    (fun _ _ _ h₂ => ⟨h₂.1, nofun⟩) fun l₂ s₂ ⟨hmirrors, hmoved⟩ => ?_
  obtain ⟨hphys, hhead⟩ := hmoved rfl
  refine plain_wp rfl rfl rfl (fun _ => trivial) fun r s' hhead' _ => ?_
  have hon : s'.world.head = track := by rw [hhead', hhead]
  refine ⟨fun _ => ?_, fun _ => hon⟩
  rw [hon]
  exact hphys.symm

/-! ## The entry points -/

theorem attemptWrite_wp {request : WriteRequest} (h : Mirrors l s) :
    (mirror asm quiet).left.wpc (attemptWrite checks request) (fun _ l s => Mirrors l s) l s := by
  refine wpc_seq (position_wp hasm h) fun r l₁ s₁ h₁ => ?_
  obtain ⟨hmirrors, hon⟩ := h₁
  cases r with
  | error e => exact hmirrors
  | ok _ =>
    refine wpc_bind.mpr (plain_wp rfl rfl rfl (fun _ => trivial) fun trackBits s₂ hhead₂ _ => ?_)
    have hmirrors₂ : Mirrors l₁ s₂ := fun hp => by rw [hhead₂]; exact hmirrors hp
    dsimp only
    split
    · exact hmirrors₂
    split
    · exact hmirrors₂
    refine wpc_bind.mpr (wpc_bind.mpr (step_wp rfl (fun s₃ hhead₃ _ => ?_) ?_))
    · show s₃.world.head = request.track
      rw [hhead₃, hhead₂, hon rfl]
    · intro i r s₃ s₄ hhead₃ _ _ _ hexec
      show Mirrors l₁ s₄
      intro hp
      rw [exec_head hexec rfl, hhead₃]
      exact hmirrors₂ hp

theorem performWrite_wp {id : WriteId} {request : WriteRequest} (h : Mirrors l s) :
    (mirror asm quiet).left.wpc (performWrite checks id request)
      (fun _ l s => Mirrors l s) l s := by
  refine wpc_seq (attemptWrite_wp hasm h) fun r l₁ s₁ hmirrors => ?_
  cases r with
  | none => exact hmirrors
  | some result =>
    refine wpc_bind.mpr (plain_wp rfl rfl rfl (fun _ => trivial) fun _ s₂ hhead₂ _ => ?_)
    refine wpc_bind.mpr (plain_wp rfl rfl rfl (fun _ => trivial) fun _ s₃ hhead₃ _ => ?_)
    intro hp
    rw [hhead₃, hhead₂]
    exact hmirrors hp

theorem noClick_wp {side : Side} (h : Mirrors l s) (hquiet : ¬ quiet)
    (hside : l.positioned = true → side = l.physical.side) :
    (mirror asm quiet).left.wpc (noClick side) (fun _ l s => Mirrors l s) l s := by
  have hnoClick := hasm.noClick.resolve_left hquiet
  refine wpc_bind.mpr (step_wp rfl (fun _ _ _ => trivial) ?_)
  intro i r s₁ s₂ hhead _ _ ha hexec
  obtain ⟨hr, hok, herror⟩ := exec_deviceSide hexec
  have hmirrors : Mirrors l s₂ := by
    intro hp
    cases r with
    | error e =>
      rw [herror e rfl, hasm.side l _ i s₁ e ha hr.symm hp, hhead]
      exact h hp
    | ok _ =>
      -- the step selects the side the worker believes selected
      rw [hok rfl, hhead, h hp, hside hp]
  cases r with
  | error e => exact hmirrors
  | ok _ =>
    refine step_wp rfl (fun _ _ _ => trivial) ?_
    intro i r s₃ s₄ hhead₃ _ _ ha hexec hp
    have hstay : s₃.world.head.cylinder = 0 ∨ i.lands.cylinder = s₃.world.head.cylinder := by
      by_cases h0 : s₃.world.head.cylinder = 0
      · exact Or.inl h0
      · exact Or.inr (hnoClick l i s₃ ha hp h0)
    rw [(exec_deviceNoClick hexec).2 hstay, hhead₃]
    exact hmirrors hp

/-- A command that may be processed: a no-click step only on the side believed selected. -/
def Fitting (quiet : Prop) (l : Worker) (c : Command) : Prop :=
  ∀ side, c = .noClick side → ¬ quiet ∧ (l.positioned = true → side = l.physical.side)

theorem process_wp {c : Command} (h : Mirrors l s) (hc : Fitting quiet l c) :
    (mirror asm quiet).left.wpc (process checks c) (fun _ l s => Mirrors l s) l s := by
  cases c with
  | noClick side =>
    obtain ⟨hquiet, hside⟩ := hc side rfl
    refine wpc_seq (noClick_wp hasm h hquiet hside) fun r l₁ s₁ hmirrors => ?_
    cases r with
    | error e => exact wpc_seq (noteError_wp hmirrors) fun _ l₂ s₂ hmirrors₂ => hmirrors₂
    | ok _ => exact hmirrors
  | write id request =>
    refine wpc_seq (performWrite_wp hasm h) fun flow l₁ s₁ hmirrors => ?_
    cases flow <;> exact hmirrors
  | shutdown => exact h

theorem applyMotor_wp {side : Side} {enabled quick : Bool} (h : Mirrors l s) :
    (mirror asm quiet).left.wpc (applyMotor side enabled quick)
      (fun _ l s => Mirrors l s) l s := by
  refine wpc_bind.mpr (wpc_own.mpr (wpc_seq (position_wp hasm h) fun r l₁ s₁ h₁ => ?_))
  obtain ⟨hmirrors, -⟩ := h₁
  cases r with
  | error e => exact hmirrors
  | ok _ =>
    refine wpc_bind.mpr (plain_wp rfl rfl rfl (fun _ => trivial) fun r s₂ hhead₂ _ => ?_)
    have hmirrors₂ : Mirrors l₁ s₂ := fun hp => by rw [hhead₂]; exact hmirrors hp
    cases r with
    | error e => exact hmirrors₂
    | ok _ =>
      refine wpc_bind.mpr (plain_wp rfl rfl rfl (fun _ => trivial) fun _ s₃ hhead₃ _ => ?_)
      intro hp
      rw [hhead₃]
      exact hmirrors₂ hp

theorem applyMotorWish_wp {side : Side} {enabled : Bool} (h : Mirrors l s) :
    (mirror asm quiet).left.wpc (applyMotorWish side enabled) (fun _ l s => Mirrors l s) l s := by
  refine applyMotorWish_wp_of (M := Mirrors) (quickStart_wp h)
    (fun _ _ _ h₁ => applyMotor_wp hasm h₁) (fun _ _ _ h₂ => noteError_wp h₂)
    (fun _ _ h₂ => wpc_update.mpr h₂) ?_ fun _ _ h₂ => h₂
  intro l s h₂
  refine plain_wp rfl rfl rfl (fun _ => trivial) fun now s₃ hhead _ hp => ?_
  rw [hhead]
  exact h₂ hp

theorem applyTarget_wp {target : Option TrackAddress} (h : Mirrors l s) :
    (mirror asm quiet).left.wpc (applyTarget target) (fun _ l s => Mirrors l s) l s := by
  refine applyTarget_wp_of (fun _ => h) (fun track _ => position_wp hasm ?_)
    (fun _ _ _ _ _ h₁ => noteError_wp h₁.1) fun _ _ _ _ h₁ => wpc_update.mpr ?_
  · exact h
  · exact h₁.1

theorem applyDesired_wp (h : Mirrors l s) :
    (mirror asm quiet).left.wpc applyDesired (fun _ l s => Mirrors l s) l s := by
  have htake : (mirror asm quiet).left.wpc (step .takeDesired) (fun _ l s => Mirrors l s) l s :=
    plain_wp rfl rfl rfl (fun _ => trivial) fun wish s₁ hhead _ hp => by
      rw [hhead]
      exact h hp
  refine applyDesired_wp_of (M := fun _ => Mirrors) htake (fun _ _ _ _ h₁ => h₁) ?_
    (fun _ _ h₂ => h₂) fun _ _ _ _ h₂ => applyMotorWish_wp hasm h₂
  exact fun _ _ _ h₁ => wpc_mono (applyTarget_wp hasm h₁) fun _ _ _ h₂ => by split <;> exact h₂

theorem captureIfNeeded_wp (h : Mirrors l s) :
    (mirror asm quiet).left.wpc captureIfNeeded (fun _ l s => Mirrors l s) l s := by
  refine captureIfNeeded_wp_of (captureTarget_wp h) (fun _ _ h₁ => h₁)
    (fun _ _ _ h₁ => position_wp hasm h₁) (fun _ _ _ _ h₂ => noteError_wp h₂.1)
    (fun _ _ _ h₂ => readTrack_wp h₂.1 (h₂.2 rfl)) (fun _ _ _ _ h₃ => h₃.1)
    (fun _ _ _ _ _ h₃ => noteError_wp h₃.1) (fun _ _ _ _ _ _ h₃ => noteError_wp h₃.1)
    fun _ _ _ _ _ h₃ => keepCapture_wp h₃.1 h₃.2

/-! ## The rounds -/

theorem selectCommand_wp (h : Mirrors l s) :
    (mirror asm quiet).left.wpc (step .selectCommand) (fun r l s =>
      match r with
      | .command c => Mirrors l s ∧ Fitting quiet l c
      | .nudge | .timeout => Mirrors l s) l s := by
  refine step_wp rfl (fun _ _ _ => trivial) fun i r s₁ s₂ hhead _ hquiet ha hexec => ?_
  have hmirrors : Mirrors l s₂ := fun hp => by
    rw [exec_head hexec rfl, hhead]
    exact h hp
  cases r with
  | nudge => exact hmirrors
  | timeout => exact hmirrors
  | command c =>
    obtain ⟨htaken, hcommands⟩ := exec_selectCommand hexec
    refine ⟨hmirrors, fun side hc => ?_⟩
    rw [hc] at htaken hcommands
    have hq : ¬ quiet := fun hq => hquiet hq side (by rw [hcommands]; exact List.mem_cons_self)
    exact ⟨hq, hasm.taken.resolve_left hq l _ i s₁ side ha htaken⟩

theorem tryRecvCommand_wp (h : Mirrors l s) :
    (mirror asm quiet).left.wpc (step .tryRecvCommand) (fun r l s =>
      match r with
      | some c => Mirrors l s ∧ Fitting quiet l c
      | none => Mirrors l s) l s := by
  refine step_wp rfl (fun _ _ _ => trivial) fun i r s₁ s₂ hhead _ hquiet ha hexec => ?_
  have hmirrors : Mirrors l s₂ := fun hp => by
    rw [exec_head hexec rfl, hhead]
    exact h hp
  cases r with
  | none => exact hmirrors
  | some c =>
    obtain ⟨htaken, hcommands⟩ := exec_tryRecvCommand hexec
    refine ⟨hmirrors, fun side hc => ?_⟩
    rw [hc] at htaken hcommands
    have hq : ¬ quiet := fun hq => hquiet hq side (by rw [hcommands]; exact List.mem_cons_self)
    exact ⟨hq, hasm.taken.resolve_left hq l _ i s₁ side ha htaken⟩

theorem rounds : Rounds (mirror asm quiet).left checks (fun _ => Mirrors)
    (fun c l s => Mirrors l s ∧ Fitting quiet l c) Mirrors where
  hot _ _ h := h
  select _ _ h := selectCommand_wp hasm h
  receive _ _ h := tryRecvCommand_wp hasm h
  process _ _ _ h := process_wp hasm h.1 h.2
  desired _ _ h := applyDesired_wp hasm h
  status _ _ h := refreshStatusIfDue_wp h
  capture _ _ h := captureIfNeeded_wp hasm h
  failed _ _ h _ := h
  again _ _ _ h _ := h
  stop _ _ h := frame_mirrors stopRound_keeps (fun _ => ofEnding_stays) h
  unwind _ _ h := frame_mirrors unwindRound_keeps (fun _ => ofEnding_stays) h

/-- The caller queues no no-click step in a quiet run. -/
theorem quiet_of_caller {o : Op} {b : Bridge} {i : Outside} {s s' : Snap controller} {r : o.Ret}
    (ho : o.ofCaller = true) (ha : asm.right b o i s)
    (h : controller.act o i s = some (r, s')) (hs : Quiet quiet s) : Quiet quiet s' := by
  intro hq side hc
  have hexec := (Machine.act_eq_some.mp h).1
  by_cases hcom : o.commands = true
  · have hold := hs hq side
    cases o <;> simp only [Op.commands, Op.ofCaller, Op.ofCall, Bool.false_eq_true] at hcom ho
    · next command =>
      have hne : command ≠ .noClick side := fun hc => hasm.silent hq b side i s (hc ▸ ha)
      simp only [exec, World.trySend] at hexec
      grind
    · simp only [exec] at hexec
      grind
  · rw [exec_commands hexec (by simpa using hcom)] at hc
    exact hs hq side hc

theorem callRound_wp {call : Call} {b : Bridge} :
    (mirror asm quiet).right.wpc (callRound checks call) (fun _ _ _ => True) b s := by
  refine callRound_wp_of (fun _ ho => ho) (fun _ _ _ => trivial) ?_
  exact fun _ _ _ _ _ _ ho ha hact hinv => quiet_of_caller hasm ho ha hact hinv

end Moves

end Mirror

open Mirror

/-- Under `Steady` the mirror holds between all rounds, in every interleaving. -/
theorem mirror_valid (hasm : Steady asm quiet) : (mirror asm quiet).Valid where
  leftStable _ := mirrors_stable
  rightStable _ _ := stable_const
  leftRound _ _ _ _ _ hm _ h := (rounds hasm).round hm h
  rightRound := rightRound_of_call fun _ _ _ _ _ => callRound_wp hasm

/-- **The mirror.** Every write, every read and every capture kept is of the track it names. -/
theorem headOnTrack_of_steady (hasm : Steady asm quiet) {m : Moment checks}
    (h : Reachable asm m) : HeadOnTrack m := by
  have hholds : (mirror asm quiet).Holds m := by
    refine h.holds (mirror_valid hasm) fun config status head now => ⟨?_, ?_, trivial⟩
    · intro _ side hc
      cases hc
    · intro hp
      cases hp
  exact fun o ho => (hholds.leftReady ho).2

/-! ## A device whose failures move nothing -/

/-- The step does not move the head unless it succeeds. -/
def failsInPlace (o : Op) (i : Outside) (w : World) : Bool :=
  match o with
  | .deviceSeek _ => i.result == .ok () || i.lands.cylinder == w.head.cylinder
  | .deviceSide _ => i.result == .ok () || i.lands.side == w.head.side
  | .deviceNoClick => i.result == .ok () || i.lands.cylinder == w.head.cylinder
  | _ => true

/--
The no-click steps that leave the belief true: on the side the worker believes selected, and
without moving the head when it is away from cylinder 0.
-/
def stepsInPlace (l : Worker) (o : Op) (i : Outside) (w : World) : Bool :=
  !l.positioned ||
    match o with
    | .deviceNoClick => w.head.cylinder == 0 || i.lands.cylinder == w.head.cylinder
    | _ =>
      match w.taken? o i with
      | some (.noClick side) => side == l.physical.side
      | _ => true

/-- Runs in which the device succeeds, or fails without moving anything. -/
@[reducible] def steadyDevice (checks : Bool) : Conditions checks :=
  .of (fun _ o i s => failsInPlace o i s.world) fun _ _ _ _ => true

/-- These runs, with no-click steps that leave the belief true only. -/
@[reducible] def steadySteps (checks : Bool) : Conditions checks :=
  .of (fun l o i s => failsInPlace o i s.world && stepsInPlace l o i s.world) fun _ _ _ _ => true

theorem steady_of_steps : Steady (steadySteps checks) False where
  seek l c i s e ha he _ := by
    have h := (Bool.and_eq_true_iff.mp ha).1
    simp only [failsInPlace, he] at h
    simpa using h
  side l side i s e ha he _ := by
    have h := (Bool.and_eq_true_iff.mp ha).1
    simp only [failsInPlace, he] at h
    simpa using h
  noClick := by
    refine Or.inr fun l i s ha hp hc => ?_
    have h := (Bool.and_eq_true_iff.mp ha).2
    simp only [stepsInPlace, hp] at h
    simpa [hc] using h
  taken := by
    refine Or.inr fun l o i s side ha htaken hp => ?_
    have h := (Bool.and_eq_true_iff.mp ha).2
    cases o <;> simp only [World.taken?, reduceCtorEq] at htaken <;>
      simp_all [stepsInPlace, World.taken?]
  silent hq := hq.elim

/--
**A write or a read on the wrong track needs a no-click step on the other side.** On a device
whose failures move nothing, every write, read and capture is of its track, as long as each
no-click step names the side the worker believes selected.
-/
theorem headOnTrack_of_steadySteps {m : Moment checks} (h : Reachable (steadySteps checks) m) :
    HeadOnTrack m :=
  headOnTrack_of_steady steady_of_steps h

/-- A write of one word at the index of cylinder 0. -/
def firstWord : WriteRequest :=
  { track := ⟨0, .lower⟩, words := [0], bitLen := 16, startBit := 0 }

/-- Seek to cylinder 0, let the worker follow, make a no-click step, and write. -/
def stepThenWrite (side : Side) : Schedule checks :=
  calling (.seek ⟨0, .lower⟩) 4 {} ++ working [{}] ++ working (.replicate 7 {})
    ++ calling (.noClickStep side) 3 {} ++ working (.replicate 3 {})
    ++ calling (.submitWrite firstWord) 5 {} ++ working (.replicate 3 {})

/-- The track and the head of the write the worker is about to make. -/
def writing? (m : Moment checks) : Option (TrackAddress × TrackAddress) :=
  match m.left.next? with
  | some (.deviceWrite request _ _ _) => some (request.track, m.snap.world.head)
  | _ => none

theorem writing?_eq_some {m : Moment checks} {track head : TrackAddress}
    (h : writing? m = some (track, head)) : ∃ request bits fromIndex density,
      m.left.next? = some (.deviceWrite request bits fromIndex density) ∧
      request.track = track ∧ m.snap.world.head = head := by
  unfold writing? at h
  split at h
  · next request bits fromIndex density hnext =>
    cases h
    exact ⟨request, bits, fromIndex, density, hnext, rfl, rfl⟩
  · cases h

theorem not_headOnTrack_of_writing {m : Moment checks} {track head : TrackAddress}
    (h : writing? m = some (track, head)) (hne : head ≠ track) : ¬ HeadOnTrack m := by
  intro hon
  obtain ⟨request, bits, fromIndex, density, hnext, htrack, hhead⟩ := writing?_eq_some h
  have hrequest : m.snap.world.head = request.track := hon _ hnext
  rw [hhead, htrack] at hrequest
  exact hne hrequest

theorem headOnTrack_of_steadySteps_lower : ∃ m : Moment true,
    writing? m = some (⟨0, .lower⟩, ⟨0, .lower⟩) ∧ HeadOnTrack m := by
  have hplay : ((play (steadySteps true) (opened true .normal ⟨5, .upper⟩)
      (stepThenWrite .lower)).any fun m =>
        writing? m = some (⟨0, .lower⟩, ⟨0, .lower⟩)) = true := by
    decide +kernel
  obtain ⟨m, hrun, htest⟩ := exists_reach_of_play hplay
  exact ⟨m, by simpa using htest, headOnTrack_of_steadySteps ⟨hrun⟩⟩

/-- A no-click step on the other side redirects the next write to that side. -/
theorem writes_on_other_side : ¬ ∀ (checks : Bool) (m : Moment checks),
    Reachable (steadyDevice checks) m → HeadOnTrack m := by
  intro h
  have hplay : ((play (steadyDevice true) (opened true .normal ⟨5, .upper⟩)
      (stepThenWrite .upper)).any fun m =>
        writing? m = some (⟨0, .lower⟩, ⟨0, .upper⟩)) = true := by
    decide +kernel
  obtain ⟨m, hrun, htest⟩ := exists_reach_of_play hplay
  have hon := h true m ⟨hrun⟩
  exact absurd hon (not_headOnTrack_of_writing (by simpa using htest) (by decide))

/-! ## A device whose failures may move the head -/

/-- A move that fails leaves the coordinate where it was, once the worker is positioned. -/
def movesInPlace (l : Worker) (o : Op) (i : Outside) (w : World) : Bool :=
  !l.positioned ||
    match o with
    | .deviceSeek _ => i.result == .ok () || i.lands.cylinder == w.head.cylinder
    | .deviceSide _ => i.result == .ok () || i.lands.side == w.head.side
    | _ => true

/-- The caller makes no no-click step. -/
def noNoClick (o : Op) : Bool :=
  match o with
  | .trySendCommand (.noClick _) => false
  | _ => true

/-- Runs without no-click steps, on any device. -/
@[reducible] def anyMoves (checks : Bool) : Conditions checks :=
  .of (fun _ _ _ _ => true) fun _ o _ _ => noNoClick o

/-- These runs, where moves that fail leave the coordinate where it was. -/
@[reducible] def steadyMoves (checks : Bool) : Conditions checks :=
  .of (fun l o i s => movesInPlace l o i s.world) fun _ o _ _ => noNoClick o

theorem steady_of_moves : Steady (steadyMoves checks) True where
  seek l c i s e ha he hp := by
    simp only [movesInPlace, he, hp] at ha
    simpa using ha
  side l side i s e ha he hp := by
    simp only [movesInPlace, he, hp] at ha
    simpa using ha
  noClick := Or.inl trivial
  taken := Or.inl trivial
  silent _ b side i s ha := by cases ha

/--
**A write or a read on the wrong track needs a failing move that moved the head.** Without
no-click steps every write, read and capture is of its track, as long as a failing move of a
positioned worker leaves the coordinate where it was.
-/
theorem headOnTrack_of_steadyMoves {m : Moment checks} (h : Reachable (steadyMoves checks) m) :
    HeadOnTrack m :=
  headOnTrack_of_steady steady_of_moves h

/-- Seek to cylinder 0, let the worker follow, fail a seek to cylinder 5, and write. -/
def lostSeekThenWrite (lands : Nat) : Schedule checks :=
  calling (.seek ⟨0, .lower⟩) 4 {} ++ working [{}] ++ working (.replicate 7 {})
    ++ calling (.seek ⟨5, .lower⟩) 4 {} ++ working [{}]
    ++ working [{}, {}, { result := .error (.timeout "seek"), lands := ⟨lands, .lower⟩ }, {}, {}]
    ++ calling (.submitWrite firstWord) 5 {} ++ working (.replicate 3 {})

theorem headOnTrack_of_steadyMoves_lost : ∃ m : Moment true,
    writing? m = some (⟨0, .lower⟩, ⟨0, .lower⟩) ∧ HeadOnTrack m := by
  have hplay : ((play (steadyMoves true) (opened true .normal ⟨5, .upper⟩)
      (lostSeekThenWrite 0)).any fun m => writing? m = some (⟨0, .lower⟩, ⟨0, .lower⟩)) = true := by
    decide +kernel
  obtain ⟨m, hrun, htest⟩ := exists_reach_of_play hplay
  exact ⟨m, by simpa using htest, headOnTrack_of_steadyMoves ⟨hrun⟩⟩

/--
A seek that fails after it has moved the head redirects the next write to where the head now is,
and the write succeeds there.
-/
theorem writes_on_other_cylinder : ∃ (m : Moment true) (request : WriteRequest) (bits : Nat)
    (fromIndex : Bool) (density : DensityMode) (i : Outside) (s : Snap controller),
    Reachable (anyMoves true) m ∧ (anyMoves true).left m.left.priv
      (.deviceWrite request bits fromIndex density) i m.snap ∧
    m.left.next? = some (.deviceWrite request bits fromIndex density) ∧
    controller.act (.deviceWrite request bits fromIndex density) i m.snap = some (.ok (), s) ∧
    m.snap.world.head ≠ request.track := by
  have hplay : ((play (anyMoves true) (opened true .normal ⟨5, .upper⟩)
      (lostSeekThenWrite 5)).any fun m => writing? m = some (⟨0, .lower⟩, ⟨5, .lower⟩)) = true := by
    decide +kernel
  obtain ⟨m, hrun, htest⟩ := exists_reach_of_play hplay
  obtain ⟨request, bits, fromIndex, density, hnext, htrack, hhead⟩ :=
    writing?_eq_some (by simpa using htest)
  refine ⟨m, request, bits, fromIndex, density, {}, ⟨m.snap.world.call, _⟩, ⟨hrun⟩, rfl, hnext,
    rfl, ?_⟩
  rw [htrack, hhead]
  decide

end FluxBridge
