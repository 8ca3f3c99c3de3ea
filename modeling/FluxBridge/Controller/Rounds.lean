import FluxBridge.Controller.Frames

/-!
# The worker's loop, once

Every property of the worker is carried round the same loop: `select!`, the drain, and the pass
of wishes, status and capture. `Rounds` lists what a property has to show of each of these, and
`Rounds.round` carries it round. A property that is kept only while the drive is not lost puts its
pass together by `passRound_wp`, and goes round by `Loop.round`.

* `I loc` — what holds where the worker is between two rounds
* `T c` — what holds when it has taken the command `c`
* `D` — what holds during a pass

The rules whose names end in `_wp_of` put one part of a round together from its own steps.
-/

namespace FluxBridge

open Atomic Atomic.Side

/-- An assertion on the worker and what it shares. -/
abbrev Assertion : Type := Worker → Snap controller → Prop

structure Rounds (C : Atomic.Side controller Worker) (checks : Bool) (I : Loc → Assertion)
    (T : Command → Assertion) (D : Assertion) : Prop where
  hot : ∀ l s, I (.top true) l s → I .drain l s
  select : ∀ l s, I (.top false) l s → C.wpc (step .selectCommand) (fun r l s =>
    match r with
    | .command c => T c l s
    | .nudge | .timeout => I .drain l s) l s
  receive : ∀ l s, I .drain l s → C.wpc (step .tryRecvCommand) (fun r l s =>
    match r with
    | some c => T c l s
    | none => D l s) l s
  process : ∀ c l s, T c l s → C.wpc (process checks c) (fun flow l s => I flow.next l s) l s
  desired : ∀ l s, D l s → C.wpc applyDesired (fun _ l s => D l s) l s
  status : ∀ l s, D l s → C.wpc refreshStatusIfDue (fun _ l s => D l s) l s
  capture : ∀ l s, D l s → C.wpc captureIfNeeded (fun _ l s => D l s) l s
  failed : ∀ l s, D l s → l.failed = true → I .stopping l s
  again : ∀ hot l s, D l s → l.failed = false → I (.top hot) l s
  stop : ∀ l s, I .stopping l s → C.wpc stopRound I l s
  unwind : ∀ l s, I .unwinding l s → C.wpc unwindRound I l s

/-- The loop with a pass that is verified as a whole. -/
structure Loop (C : Atomic.Side controller Worker) (checks : Bool) (I : Loc → Assertion)
    (T : Command → Assertion) (D : Assertion) : Prop where
  hot : ∀ l s, I (.top true) l s → I .drain l s
  select : ∀ l s, I (.top false) l s → C.wpc (step .selectCommand) (fun r l s =>
    match r with
    | .command c => T c l s
    | .nudge | .timeout => I .drain l s) l s
  receive : ∀ l s, I .drain l s → C.wpc (step .tryRecvCommand) (fun r l s =>
    match r with
    | some c => T c l s
    | none => D l s) l s
  process : ∀ c l s, T c l s → C.wpc (process checks c) (fun flow l s => I flow.next l s) l s
  pass : ∀ l s, D l s → C.wpc passRound I l s
  stop : ∀ l s, I .stopping l s → C.wpc stopRound I l s
  unwind : ∀ l s, I .unwinding l s → C.wpc unwindRound I l s

section Pass

variable {C : Atomic.Side controller Worker} {checks : Bool} {I : Loc → Assertion}
  {T : Command → Assertion} {D : Assertion} {l : Worker} {s : Snap controller}

/-- A pass, from its parts: each part but the first begins with a drive that is not lost. -/
theorem passRound_wp (hdesired : C.wpc applyDesired (fun _ l s => D l s) l s)
    (hstatus : ∀ l s, D l s → l.failed = false →
      C.wpc refreshStatusIfDue (fun _ l s => D l s) l s)
    (hcapture : ∀ l s, D l s → l.failed = false →
      C.wpc captureIfNeeded (fun _ l s => D l s) l s)
    (hfailed : ∀ l s, D l s → l.failed = true → I .stopping l s)
    (hagain : ∀ hot l s, D l s → l.failed = false → I (.top hot) l s) :
    C.wpc passRound I l s := by
  refine wpc_seq hdesired fun _ l₁ s₁ h₁ => wpc_bind.mpr (wpc_own.mpr ?_)
  split
  · next hlost => exact hfailed l₁ s₁ h₁ hlost
  next hkept =>
  have hkept : l₁.failed = false := by simpa using hkept
  refine wpc_seq (hstatus l₁ s₁ h₁ hkept) fun _ l₂ s₂ h₂ => wpc_bind.mpr (wpc_own.mpr ?_)
  split
  · next hlost => exact hfailed l₂ s₂ h₂ hlost
  next hkept =>
  have hkept : l₂.failed = false := by simpa using hkept
  refine wpc_seq (hcapture l₂ s₂ h₂ hkept) fun hot l₃ s₃ h₃ => wpc_bind.mpr (wpc_own.mpr ?_)
  refine wpc_pure.mpr ?_
  split
  · next hlost => exact hfailed l₃ s₃ h₃ hlost
  · next hkept => exact hagain hot l₃ s₃ h₃ (by simpa using hkept)

namespace Loop

theorem selectRound (h : Loop C checks I T D) (hI : I (.top false) l s) :
    C.wpc (selectRound checks) I l s := by
  refine wpc_seq (h.select l s hI) fun r l₁ s₁ h₁ => ?_
  cases r with
  | nudge => exact h₁
  | timeout => exact h₁
  | command c => exact wpc_seq (h.process c l₁ s₁ h₁) fun _ _ _ h₂ => h₂

theorem drainRound (h : Loop C checks I T D) (hI : I .drain l s) :
    C.wpc (drainRound checks) I l s := by
  refine wpc_seq (h.receive l s hI) fun r l₁ s₁ h₁ => ?_
  cases r with
  | none => exact h.pass l₁ s₁ h₁
  | some c => exact wpc_seq (h.process c l₁ s₁ h₁) fun _ _ _ h₂ => h₂

/-- **The loop.** Each round takes what holds at its beginning to what holds at its end. -/
theorem round (h : Loop C checks I T D) {loc : Loc} {m : WorkerM Loc}
    (hm : round checks loc = some m) (hI : I loc l s) : C.wpc m I l s := by
  cases loc with
  | top hot =>
    cases hm
    split
    · next hhot => exact h.hot l s (by rw [hhot] at hI; exact hI)
    · next hhot => exact h.selectRound (by rw [Bool.not_eq_true] at hhot; rw [hhot] at hI; exact hI)
  | drain =>
    cases hm
    exact h.drainRound hI
  | stopping =>
    cases hm
    exact h.stop l s hI
  | unwinding =>
    cases hm
    exact h.unwind l s hI
  | ended => cases hm

end Loop

theorem Rounds.loop (h : Rounds C checks I T D) : Loop C checks I T D where
  hot := h.hot
  select := h.select
  receive := h.receive
  process := h.process
  pass l s hD := passRound_wp (h.desired l s hD) (fun l s hD _ => h.status l s hD)
    (fun l s hD _ => h.capture l s hD) h.failed h.again
  stop := h.stop
  unwind := h.unwind

theorem Rounds.round (h : Rounds C checks I T D) {loc : Loc} {m : WorkerM Loc}
    (hm : FluxBridge.round checks loc = some m) (hI : I loc l s) : C.wpc m I l s :=
  h.loop.round hm hI

end Pass

/-! ## The parts of a pass -/

section Parts

variable {C : Atomic.Side controller Worker} {D : Assertion} {l : Worker} {s : Snap controller}

/-- The cylinder of a position: a seek, or nothing where the worker believes to be there. -/
theorem positionCylinder_wp_of {track : TrackAddress} {R : Except Error Unit → Assertion}
    (hseek : C.wpc (step (.deviceSeek track.cylinder)) (fun r l s =>
      match r with
      | .error e => R (.error e) l s
      | .ok () => R (.ok ())
          { l with physical := { l.physical with cylinder := track.cylinder } } s) l s)
    (hthere : l.positioned = true → l.physical.cylinder = track.cylinder → R (.ok ()) l s) :
    C.wpc (positionCylinder track) R l s := by
  refine wpc_bind.mpr (wpc_own.mpr ?_)
  split
  · refine wpc_seq hseek fun r l₁ s₁ h₁ => ?_
    cases r with
    | error e => exact h₁
    | ok _ => exact wpc_bind.mpr (wpc_update.mpr h₁)
  · next hskip =>
    have hskip : l.positioned = true ∧ l.physical.cylinder = track.cylinder := by
      simpa using hskip
    exact hthere hskip.1 hskip.2

/-- The side of a position: a selection, or nothing where the worker believes it selected. -/
theorem positionSide_wp_of {track : TrackAddress} {R : Except Error Unit → Assertion}
    (hselect : C.wpc (step (.deviceSide track.side)) (fun r l s =>
      match r with
      | .error e => R (.error e) l s
      | .ok () => R (.ok ()) { l with physical := { l.physical with side := track.side } } s) l s)
    (hthere : l.positioned = true → l.physical.side = track.side → R (.ok ()) l s) :
    C.wpc (positionSide track) R l s := by
  refine wpc_bind.mpr (wpc_own.mpr ?_)
  split
  · refine wpc_seq hselect fun r l₁ s₁ h₁ => ?_
    cases r with
    | error e => exact h₁
    | ok _ => exact wpc_bind.mpr (wpc_update.mpr h₁)
  · next hskip =>
    have hskip : l.positioned = true ∧ l.physical.side = track.side := by simpa using hskip
    exact hthere hskip.1 hskip.2

/-- Positioning, from its parts: an error ends it where it occurs. -/
theorem position_wp_of {track : TrackAddress} {R₁ R₂ R : Except Error Unit → Assertion}
    (hcylinder : C.wpc (positionCylinder track) R₁ l s)
    (hunmoved : ∀ e l s, R₁ (.error e) l s → R (.error e) l s)
    (hside : ∀ l s, R₁ (.ok ()) l s → C.wpc (positionSide track) R₂ l s)
    (hunselected : ∀ e l s, R₂ (.error e) l s → R (.error e) l s)
    (hconfirm : ∀ l s, R₂ (.ok ()) l s →
      C.wpc (step (.confirmPosition l.physical.cylinder l.physical.side))
        (fun _ l s => R (.ok ()) l s) { l with positioned := true } s) :
    C.wpc (position track) R l s := by
  refine wpc_seq hcylinder fun r l₁ s₁ h₁ => ?_
  cases r with
  | error e => exact hunmoved e l₁ s₁ h₁
  | ok _ =>
    refine wpc_seq (hside l₁ s₁ h₁) fun r l₂ s₂ h₂ => ?_
    cases r with
    | error e => exact hunselected e l₂ s₂ h₂
    | ok _ =>
      refine wpc_bind.mpr (wpc_update.mpr (wpc_bind.mpr (wpc_own.mpr ?_)))
      exact wpc_seq (hconfirm l₂ s₂ h₂) fun _ _ _ h₃ => h₃

/-- The head wish, from its parts. -/
theorem applyTarget_wp_of {target : Option TrackAddress}
    {M : TrackAddress → Except Error Unit → Assertion} {R : Bool → Assertion}
    (hnone : target = none → R true l s)
    (hposition : ∀ track, target = some track →
      C.wpc (position track) (M track) { l with target := track } s)
    (hnote : ∀ track e l s, target = some track → M track (.error e) l s →
      C.wpc (noteError e) (fun _ l s => R false l s) l s)
    (hclear : ∀ track l s, target = some track → M track (.ok ()) l s →
      C.wpc clearErrors (fun _ l s => R true l s) l s) :
    C.wpc (applyTarget target) R l s := by
  cases target with
  | none => exact hnone rfl
  | some track =>
    refine wpc_bind.mpr (wpc_update.mpr (wpc_seq (hposition track rfl) fun r l₁ s₁ h₁ => ?_))
    cases r with
    | error e => exact wpc_seq (hnote track e l₁ s₁ rfl h₁) fun _ _ _ h₂ => h₂
    | ok _ => exact wpc_seq (hclear track l₁ s₁ rfl h₁) fun _ _ _ h₂ => h₂

/-- The wishes of a pass, from their parts: `W wish` is what holds once `wish` was taken. -/
theorem applyDesired_wp_of {W : Desired → Assertion} {M : Option (Side × Bool) → Assertion}
    (htake : C.wpc (step .takeDesired) W l s)
    (hwanted : ∀ wish wanted l s, W wish l s → W wish { l with wanted := wanted } s)
    (htarget : ∀ wish l s, W wish l s → C.wpc (applyTarget wish.target)
      (fun positioned l s => if positioned then M wish.motor l s else D l s) l s)
    (hnone : ∀ l s, M none l s → D l s)
    (hmotor : ∀ side enabled l s, M (some (side, enabled)) l s →
      C.wpc (applyMotorWish side enabled) (fun _ l s => D l s) l s) :
    C.wpc applyDesired (fun _ l s => D l s) l s := by
  refine wpc_seq htake fun wish l₁ s₁ h₁ => ?_
  have hrecord : C.wpc (recordWanted wish.wanted) (fun _ l s => W wish l s) l₁ s₁ := by
    cases wish.wanted with
    | none => exact h₁
    | some track => exact wpc_update.mpr (hwanted wish (some track) l₁ s₁ h₁)
  refine wpc_seq hrecord fun _ l₂ s₂ h₂ => ?_
  refine wpc_seq (htarget wish l₂ s₂ h₂) fun positioned l₃ s₃ h₃ => ?_
  cases positioned with
  | false => exact h₃
  | true =>
    have h₃ : M wish.motor l₃ s₃ := h₃
    rw [if_pos rfl]
    cases hmotorWish : wish.motor with
    | none =>
      rw [hmotorWish] at h₃
      exact hnone l₃ s₃ h₃
    | some held =>
      rw [hmotorWish] at h₃
      exact hmotor held.1 held.2 l₃ s₃ h₃

/-- Whether the motor may start at once: at most a look at the clock. -/
theorem quickStart_wp_of {enabled : Bool} {P : Assertion} (hP : P l s)
    (hnow : C.wpc (step .now) (fun _ l s => P l s) l s) :
    C.wpc (quickStart enabled) (fun _ l s => P l s) l s := by
  unfold quickStart
  split
  · exact hP
  · refine wpc_bind.mpr (wpc_own.mpr ?_)
    split
    · exact hP
    · exact wpc_seq hnow fun _ _ _ h => h

/-- A motor wish, from its parts. -/
theorem applyMotorWish_wp_of {side : Side} {enabled : Bool} {P M : Assertion}
    {R : Except Error Unit → Assertion}
    (hquick : C.wpc (quickStart enabled) (fun _ l s => P l s) l s)
    (hmotor : ∀ quick l s, P l s → C.wpc (applyMotor side enabled quick) R l s)
    (hnote : ∀ e l s, R (.error e) l s → C.wpc (noteError e) (fun _ l s => D l s) l s)
    (hclear : ∀ l s, R (.ok ()) l s → C.wpc clearErrors (fun _ l s => M l s) l s)
    (hstopped : ∀ l s, M l s → C.wpc (step .now)
      (fun now l s => D { l with motorStoppedAt := some now } s) l s)
    (hdone : ∀ l s, M l s → D l s) :
    C.wpc (applyMotorWish side enabled) (fun _ l s => D l s) l s := by
  refine wpc_seq hquick fun quick l₁ s₁ h₁ => ?_
  refine wpc_seq (hmotor quick l₁ s₁ h₁) fun r l₂ s₂ h₂ => ?_
  cases r with
  | error e => exact hnote e l₂ s₂ h₂
  | ok _ =>
    refine wpc_seq (hclear l₂ s₂ h₂) fun _ l₃ s₃ h₃ => ?_
    split
    · exact wpc_seq (hstopped l₃ s₃ h₃) fun _ _ _ h₄ => wpc_update.mpr h₄
    · exact hdone l₃ s₃ h₃

/-- A capture, from its parts: a timeout is passed over, every other error is noted. -/
theorem captureIfNeeded_wp_of {P : Option TrackAddress → Assertion}
    {M : TrackAddress → Except Error Unit → Assertion}
    {R : TrackAddress → Except Error RawCapture → Assertion}
    (htarget : C.wpc captureTarget P l s)
    (hnone : ∀ l s, P none l s → D l s)
    (hposition : ∀ wanted l s, P (some wanted) l s → C.wpc (position wanted) (M wanted) l s)
    (hmoved : ∀ wanted e l s, M wanted (.error e) l s →
      C.wpc (noteError e) (fun _ l s => D l s) l s)
    (hread : ∀ wanted l s, M wanted (.ok ()) l s → C.wpc (readTrack wanted) (R wanted) l s)
    (htimeout : ∀ wanted what l s, R wanted (.error (.timeout what)) l s → D l s)
    (hfailed : ∀ wanted e l s, (∀ what, e ≠ .timeout what) → R wanted (.error e) l s →
      C.wpc (noteError e) (fun _ l s => D l s) l s)
    (hinvalid : ∀ wanted capture e l s, validateCapture capture = .error e →
      R wanted (.ok capture) l s → C.wpc (noteError e) (fun _ l s => D l s) l s)
    (hkeep : ∀ wanted capture l s, validateCapture capture = .ok () →
      R wanted (.ok capture) l s → C.wpc (keepCapture wanted capture) (fun _ l s => D l s) l s) :
    C.wpc captureIfNeeded (fun _ l s => D l s) l s := by
  have hnoted : ∀ {e : Error} {l : Worker} {s : Snap controller},
      C.wpc (noteError e) (fun _ l s => D l s) l s →
        C.wpc (do noteError e; pure false : WorkerM Bool) (fun _ l s => D l s) l s :=
    fun h => wpc_seq h fun _ _ _ h => h
  refine wpc_seq htarget fun target l₁ s₁ h₁ => ?_
  cases target with
  | none => exact hnone l₁ s₁ h₁
  | some wanted =>
    refine wpc_seq (hposition wanted l₁ s₁ h₁) fun r l₂ s₂ h₂ => ?_
    cases r with
    | error e => exact hnoted (hmoved wanted e l₂ s₂ h₂)
    | ok _ =>
      refine wpc_seq (hread wanted l₂ s₂ h₂) fun r l₃ s₃ h₃ => ?_
      split
      · next what => exact htimeout wanted what l₃ s₃ h₃
      · next e hother =>
        have hnot : ∀ what, e ≠ .timeout what := fun what h => hother what (by rw [h])
        exact hnoted (hfailed wanted e l₃ s₃ hnot h₃)
      · next capture =>
        split
        · next e hvalid => exact hnoted (hinvalid wanted capture e l₃ s₃ hvalid h₃)
        · next hvalid =>
          exact wpc_seq (hkeep wanted capture l₃ s₃ hvalid h₃) fun _ _ _ h₄ => h₄

end Parts

/-! ## Processing a command -/

section Process

variable {C : Atomic.Side controller Worker} {checks : Bool} {I : Loc → Assertion} {l : Worker}
  {s : Snap controller}

theorem failedFlow_wp
    (h : (l.failed = true → I .stopping l s) ∧ (l.failed = false → I .drain l s)) :
    C.wpc failedFlow (fun flow l s => I flow.next l s) l s := by
  refine wpc_bind.mpr (wpc_own.mpr (wpc_pure.mpr ?_))
  split
  · next hfailed => exact h.1 hfailed
  · next hfailed => exact h.2 (by simpa using hfailed)

/-- Processing a no-click step, from its parts. -/
theorem process_noClick_wp {side : Side} {P : Assertion}
    (hstep : C.wpc (noClick side) (fun _ l s => P l s) l s)
    (hnote : ∀ e l s, P l s → C.wpc (noteError e) (fun _ l s => P l s) l s)
    (hnext : ∀ l s, P l s →
      (l.failed = true → I .stopping l s) ∧ (l.failed = false → I .drain l s)) :
    C.wpc (process checks (.noClick side)) (fun flow l s => I flow.next l s) l s := by
  refine wpc_seq hstep fun r l₁ s₁ h₁ => ?_
  cases r with
  | error e =>
    exact wpc_seq (hnote e l₁ s₁ h₁) fun _ l₂ s₂ h₂ => failedFlow_wp (hnext l₂ s₂ h₂)
  | ok _ => exact failedFlow_wp (hnext l₁ s₁ h₁)

/-- Processing a write, from its parts. -/
theorem process_write_wp {id : WriteId} {request : WriteRequest}
    (h : C.wpc (performWrite checks id request) (fun flow l s =>
      match flow with
      | .go => (l.failed = true → I .stopping l s) ∧ (l.failed = false → I .drain l s)
      | flow => I flow.next l s) l s) :
    C.wpc (process checks (.write id request)) (fun flow l s => I flow.next l s) l s := by
  refine wpc_seq h fun flow l₁ s₁ h₁ => ?_
  cases flow with
  | stop => exact h₁
  | unwound => exact h₁
  | go => exact failedFlow_wp h₁

end Process

/-! ## The caller -/

/-- A call of a caller that is always ready, from the invariant over one of its actions. -/
theorem callRound_wp_of {C : Atomic.Side controller Bridge} {checks : Bool} {call : Call}
    {b : Bridge} {s : Snap controller} (hmine : ∀ o, o.ofCaller = true → C.mine o)
    (hready : ∀ b o s, C.ready b o s)
    (hinv : ∀ b o i r s s', o.ofCaller = true → C.allowed b o i s →
      controller.act o i s = some (r, s') → C.inv s → C.inv s') :
    C.wpc (callRound checks call) (fun _ _ _ => True) b s := by
  refine wpc_mono (wpc_of_keeps (J := fun _ => True) (P := fun _ => True)
    (callRound_keeps (fun _ _ h => h) checks call) stable_const ?_ trivial trivial)
    fun _ _ _ _ => trivial
  exact fun b o _ ho => ⟨hmine o ho, fun s₁ h₁ _ => ⟨hready b o s₁, fun i r s₂ ha hact =>
    ⟨hinv b o i r s₁ s₂ ho ha hact h₁, trivial⟩⟩⟩

/-- The caller begins a round only while it holds the bridge, and that is a call. -/
theorem rightRound_of_call {checks : Bool} {asm : Conditions checks} {O : Outline asm}
    (hcall : ∀ call b s, O.inv s → O.rightAt .holds b s →
      O.right.wpc (callRound checks call) O.rightAt b s)
    (loc : Holding) (call : Call) (m : BridgeM Holding) (b : Bridge) (s : Snap controller)
    (hm : (callerThread checks).next loc call = some m) (hinv : O.inv s)
    (hb : O.rightAt loc b s) : O.right.wpc m O.rightAt b s := by
  cases loc with
  | holds =>
    cases hm
    exact hcall call b s hinv hb
  | dropped => cases hm

end FluxBridge
