import Mathlib.Data.List.Chain
import FluxBridge.Controller.DeviceCalls

/-!
# What the caller is told about the disk

The worker speaks through a channel of 64 events. It drops an event rather than wait for room.

* `diskReports_of_reach` — the changes of the disk that are offered to the channel alternate, and
  the last one agrees with the status
-/

namespace FluxBridge

open Atomic Atomic.Side

/-- Whether a disk is present now, when the event says so. -/
def BridgeEvent.present? : BridgeEvent → Option Bool
  | .diskChanged present => some present
  | _ => none

/-- The events that found room in the channel. -/
def delivered : Event controllerSig → List BridgeEvent
  | ⟨.trySendEvent event, true⟩ => [event]
  | _ => []

/-- The events that came out of the channel. -/
def received : Event controllerSig → List BridgeEvent
  | ⟨.tryRecvEvent, some sent⟩ => [sent.event]
  | _ => []

/-- The events that `poll_event` has returned. -/
def eventsPolled : Event controllerSig → List BridgeEvent
  | ⟨.returned .pollEvent (.event (some sent)), _⟩ => [sent.event]
  | _ => []

/-- The changes of the disk that the worker has offered to the channel. -/
def changes : Event controllerSig → List Bool
  | ⟨.trySendEvent (.diskChanged present), _⟩ => [present]
  | _ => []

/-- The changes of the disk for which there was no room. -/
def missed : Event controllerSig → List Bool
  | ⟨.trySendEvent (.diskChanged present), false⟩ => [present]
  | _ => []

/-- When none was missed, the channel carries all changes. -/
theorem present_delivered : ∀ {trace : List (Event controllerSig)}, gather missed trace = [] →
    (gather delivered trace).filterMap BridgeEvent.present? = gather changes trace
  | [], _ => rfl
  | ⟨o, r⟩ :: rest, h => by
    obtain ⟨hrest, hevent⟩ := List.append_eq_nil_iff.mp h
    have ih := present_delivered hrest
    show (gather delivered rest ++ delivered ⟨o, r⟩).filterMap _ = gather changes rest ++ _
    rw [List.filterMap_append, ih]
    congr 1
    cases o with
    | trySendEvent event =>
      cases event with
      | diskChanged present =>
        cases r with
        | true => rfl
        | false => cases hevent
      | _ => cases r <;> rfl
    | _ => rfl

/-! ## The outline -/

namespace Reports

/-- What went into the channel has come out of it in the same order, or is still there. -/
def Fifo (s : Snap controller) : Prop :=
  gather delivered s.trace = gather received s.trace ++ s.world.events.map Sent.event

/-- The changes reported so far, behind what was so when the bridge was opened. -/
def told (initial : Bool) (s : Snap controller) : List Bool := initial :: gather changes s.trace

/-- Each report says something new. -/
def Alternate (initial : Bool) (s : Snap controller) : Prop := (told initial s).IsChain (· ≠ ·)

/-- The last report agrees with the status. -/
structure Level (initial : Bool) (s : Snap controller) : Prop where
  alternate : Alternate initial s
  shown : (told initial s).getLast? = some s.world.status.diskPresent

/-- Every event that came out of the channel was returned. -/
def Handed (s : Snap controller) : Prop := gather received s.trace = gather eventsPolled s.trace

end Reports

open Reports in
/-- The outline of the reports. -/
def announcing {checks : Bool} (initial : Bool) (asm : Conditions checks) : Outline asm where
  inv := Fifo
  leftOps o := o.ofWorker = true
  rightOps o := o.ofCaller = true
  leftAt _ _ := Level initial
  rightAt _ _ := Handed
  leftReady _ _ := Alternate initial
  rightReady _ _ _ := True

namespace Reports

variable {checks initial : Bool} {asm : Conditions checks} {l : Worker} {o : Op} {i : Outside}
  {r : o.Ret} {s s' : Snap controller}

/-! ## The channel -/

theorem fifo_of_act (h : controller.act o i s = some (r, s')) (hs : Fifo s) :
    Fifo s' := by
  unfold Fifo
  rw [gather_of_act delivered h, gather_of_act received h, hs]
  by_cases ho : o.events = true
  · cases o <;> simp only [Op.events, Bool.false_eq_true] at ho
    · next event =>
      have hexec := exec_of_act h
      simp only [exec, World.sendEvent, Option.some.injEq] at hexec
      split at hexec
      · obtain ⟨rfl, hworld⟩ := Prod.mk.inj hexec
        rw [← hworld]
        simp [delivered, received]
      · obtain ⟨rfl, hworld⟩ := Prod.mk.inj hexec
        rw [← hworld]
        simp [delivered, received]
    · cases r with
      | none =>
        rw [exec_tryRecvEvent_none (exec_of_act h)]
        simp [delivered, received]
      | some sent =>
        rw [exec_tryRecvEvent (exec_of_act h)]
        simp [delivered, received]
  · have hdelivered : delivered ⟨o, r⟩ = [] := by
      cases o <;> first | rfl | exact absurd rfl ho
    have hreceived : received ⟨o, r⟩ = [] := by
      cases o <;> first | rfl | exact absurd rfl ho
    rw [hdelivered, hreceived, exec_events (exec_of_act h) (by simpa using ho), List.append_nil,
      List.append_nil]

/-! ## The disk -/

/-- The steps that report no change of the disk and leave the status of the disk alone. -/
def calm : Op → Bool
  | .trySendEvent event => !event.isDiskChanged
  | .replaceStatus _ => false
  | _ => true

theorem calm_of_caller (ho : o.ofCaller = true) : calm o = true := by
  cases o <;> first | rfl | cases ho

theorem diskPresent_of_exec {w w' : World} (ho : calm o = true)
    (h : exec o i w = some (r, w')) : w'.status.diskPresent = w.status.diskPresent := by
  by_cases hstatus : o.statuses = true
  · cases o <;> simp only [Op.statuses, calm, Bool.false_eq_true] at hstatus ho <;>
      simp only [exec, Option.some.injEq, Prod.mk.injEq, true_and] at h <;> rw [← h]
  · rw [exec_status h (by simpa using hstatus)]

theorem told_kept (ho : calm o = true) (h : controller.act o i s = some (r, s')) :
    told initial s' = told initial s := by
  have hchanges : changes ⟨o, r⟩ = [] := by
    cases o with
    | trySendEvent event => cases event <;> first | rfl | cases ho
    | _ => rfl
  unfold told
  rw [gather_kept h hchanges]

theorem Level.kept (ho : calm o = true) (h : controller.act o i s = some (r, s'))
    (hs : Level initial s) : Level initial s' := by
  constructor
  · unfold Alternate
    rw [told_kept ho h]
    exact hs.alternate
  · rw [told_kept ho h, diskPresent_of_exec ho (exec_of_act h)]
    exact hs.shown

/-- What is known about the disk while the status is being refreshed. -/
def Compared (initial present : Bool) (s : Snap controller) : Prop :=
  Level initial s ∧ s.world.status.diskPresent = present

/-- What has been reported is up to date, and the status is about to be. -/
structure Due (initial present : Bool) (s : Snap controller) : Prop where
  alternate : Alternate initial s
  last : (told initial s).getLast? = some present

theorem Compared.kept {present : Bool} (ho : calm o = true)
    (h : controller.act o i s = some (r, s')) (hs : Compared initial present s) :
    Compared initial present s' :=
  ⟨hs.1.kept ho h, (diskPresent_of_exec ho (exec_of_act h)).trans hs.2⟩

theorem Due.kept {present : Bool} (ho : calm o = true)
    (h : controller.act o i s = some (r, s')) (hs : Due initial present s) :
    Due initial present s' := by
  obtain ⟨halternate, hlast⟩ := hs
  constructor
  · unfold Alternate
    rw [told_kept ho h]
    exact halternate
  · rw [told_kept ho h]
    exact hlast

/-- A report of something new. -/
theorem due_of_report {old present : Bool} {r : Bool}
    (h : controller.act (.trySendEvent (.diskChanged present)) i s = some (r, s'))
    (hnew : old ≠ present) (hs : Compared initial old s) : Due initial present s' := by
  have htold : told initial s' = told initial s ++ [present] := by
    unfold told
    rw [gather_of_act changes h]
    rfl
  constructor
  · unfold Alternate
    rw [htold, List.isChain_append]
    refine ⟨hs.1.alternate, List.isChain_singleton present, fun last hlast first hfirst => ?_⟩
    rw [hs.1.shown, hs.2] at hlast
    cases hlast
    cases hfirst
    exact hnew
  · rw [htold, List.getLast?_concat]

theorem level_of_replace {status : DriveStatus} {r : Unit}
    (h : controller.act (.replaceStatus status) i s = some (r, s'))
    (hs : Due initial status.diskPresent s) : Level initial s' := by
  have htold : told initial s' = told initial s := by
    unfold told
    rw [gather_kept h rfl]
  have hexec := exec_of_act h
  simp only [exec, Option.some.injEq, Prod.mk.injEq, true_and] at hexec
  constructor
  · unfold Alternate
    rw [htold]
    exact hs.alternate
  · rw [htold, ← hexec]
    exact hs.last

/-! ## The worker -/

section Worker

theorem calm_stable {P : Snap controller → Prop}
    (h : ∀ (o : Op) (i : Outside) (r : o.Ret) (s s' : Snap controller), calm o = true →
      controller.act o i s = some (r, s') → P s → P s') :
    (announcing initial asm).left.Stable P :=
  stable_of_action fun o i r s s' ho _ _ hact hs => h o i r s s' (calm_of_caller ho) hact hs

theorem level_stable : (announcing initial asm).left.Stable (Level initial) :=
  calm_stable fun _ _ _ _ _ ho hact hs => hs.kept ho hact

theorem compared_stable {present : Bool} :
    (announcing initial asm).left.Stable (Compared initial present) :=
  calm_stable fun _ _ _ _ _ ho hact hs => hs.kept ho hact

theorem due_stable {present : Bool} :
    (announcing initial asm).left.Stable (Due initial present) :=
  calm_stable fun _ _ _ _ _ ho hact hs => hs.kept ho hact

/-- One step of the worker, with an assertion the caller cannot take back. -/
theorem step_wp {P : Snap controller → Prop} {Q : o.Ret → Worker → Snap controller → Prop}
    (ho : o.ofWorker = true) (hstable : (announcing initial asm).left.Stable P) (hs : P s)
    (halternate : ∀ s, P s → Alternate initial s)
    (h : ∀ i r s₁ s₂, P s₁ → controller.act o i s₁ = some (r, s₂) → Q r l s₂) :
    (announcing initial asm).left.wpc (step o) Q l s :=
  wpc_perform_of ho hstable hs (fun s₁ _ h₁ => halternate s₁ h₁) fun i r s₁ s₂ hinv h₁ _ hact =>
    ⟨fifo_of_act hact hinv, h i r s₁ s₂ h₁ hact⟩

theorem calm_wp {Q : o.Ret → Worker → Snap controller → Prop} (ho : o.ofWorker = true)
    (hcalm : calm o = true) (hs : Level initial s) (h : ∀ r s, Level initial s → Q r l s) :
    (announcing initial asm).left.wpc (step o) Q l s :=
  step_wp ho level_stable hs (fun _ h => h.alternate) fun _ r _ s₂ h₁ hact =>
    h r s₂ (h₁.kept hcalm hact)

/-- The frame: code that says nothing about the disk. -/
theorem frame_wp {α : Type} {m : WorkerM α} {ops : Op → Bool}
    (hm : m.Keeps (fun _ => True) (ops ·))
    (hops : ∀ o, ops o = true → o.ofWorker = true ∧ calm o = true) (hs : Level initial s) :
    (announcing initial asm).left.wpc m (fun _ _ s => Level initial s) l s := by
  refine wpc_mono (wpc_of_keeps hm level_stable ?_ trivial hs) fun _ _ _ h => h.2
  refine fun l' o _ ho => ⟨(hops o ho).1, fun s₁ hinv h₁ => ⟨h₁.alternate, ?_⟩⟩
  exact fun i r s₂ _ hact => ⟨fifo_of_act hact hinv, h₁.kept (hops o ho).2 hact⟩

/-- The parts of a round that say nothing about the disk. -/
theorem calm_of_part (ho : o.ofWishes = true ∨ o.ofWriting = true ∨ o.ofNoClick = true ∨
    o.ofCapture = true ∨ o.ofEnding = true) : o.ofWorker = true ∧ calm o = true := by
  cases o with
  | trySendEvent event =>
    cases event <;> first
      | exact ⟨rfl, rfl⟩
      | (rcases ho with ho | ho | ho | ho | ho <;> cases ho)
  | _ =>
    first
    | exact ⟨rfl, rfl⟩
    | (rcases ho with ho | ho | ho | ho | ho <;> cases ho)

theorem noteError_wp {e : Error} (hs : Level initial s) :
    (announcing initial asm).left.wpc (noteError e) (fun _ _ s => Level initial s) l s :=
  frame_wp (noteError_keeps unaffected_true.errors e)
    (fun _ ho => calm_of_part (.inl (Op.ofWishes_of_errors ho))) hs

theorem process_wp {c : Command} (hs : Level initial s) :
    (announcing initial asm).left.wpc (process checks c) (fun _ _ s => Level initial s) l s := by
  cases c with
  | noClick side =>
    exact frame_wp (processNoClick_keeps unaffected_true.errors checks side)
      (fun _ ho => calm_of_part (.inr (.inr (.inl ho)))) hs
  | write id request =>
    have hperform : (announcing initial asm).left.wpc (performWrite checks id request)
        (fun _ _ s => Level initial s) l s := by
      refine wpc_seq (frame_wp (attemptWrite_keeps unaffected_true.place checks request)
        (fun _ ho => calm_of_part (.inr (.inl ho))) hs) fun r l₁ s₁ h₁ => ?_
      cases r with
      | none => exact h₁
      | some result =>
        refine wpc_bind.mpr (calm_wp rfl rfl h₁ fun _ s₂ h₂ => ?_)
        have hcalm : calm (.trySendEvent (writeEvent id request result)) = true := by
          cases result <;> rfl
        exact wpc_bind.mpr (calm_wp rfl hcalm h₂ fun _ s₃ h₃ => h₃)
    refine process_write_wp (I := fun _ _ => Level initial)
      (wpc_mono hperform fun flow l₁ s₁ h₁ => ?_)
    cases flow with
    | go => exact ⟨fun _ => h₁, fun _ => h₁⟩
    | stop => exact h₁
    | unwound => exact h₁
  | shutdown => exact hs

/-! ### The status -/

theorem reportDisk_wp {old present : Bool} (hs : Compared initial old s) :
    (announcing initial asm).left.wpc (reportDisk (old != present) present)
      (fun _ _ s => Due initial present s) l s := by
  unfold reportDisk
  split
  · next hchanged =>
    have hnew : old ≠ present := by simpa using hchanged
    refine wpc_bind.mpr (step_wp rfl compared_stable hs (fun _ h => h.1.alternate)
      fun _ _ _ s₂ h₁ hact => ?_)
    exact wpc_bind.mpr (step_wp rfl compared_stable (h₁.kept rfl hact)
      (fun _ h => h.1.alternate) fun _ _ _ s₄ h₃ hact => due_of_report hact hnew h₃)
  · next hsame =>
    have hsame : old = present := by simpa using hsame
    exact ⟨hs.1.alternate, by rw [hs.1.shown, hs.2, hsame]⟩

theorem refreshStatus_wp (hs : Level initial s) :
    (announcing initial asm).left.wpc refreshStatus (fun _ _ s => Level initial s) l s := by
  refine wpc_bind.mpr (calm_wp rfl rfl hs fun now s₁ h₁ => wpc_bind.mpr (wpc_update.mpr ?_))
  refine wpc_bind.mpr (step_wp rfl level_stable h₁ (fun _ h => h.alternate)
    fun _ old s₂ s₃ h₂ hact => ?_)
  have hcompared : Compared initial old.diskPresent s₃ := by
    refine ⟨h₂.kept rfl hact, ?_⟩
    have hexec := exec_of_act hact
    simp only [exec, Option.some.injEq, Prod.mk.injEq] at hexec
    rw [← hexec.2, hexec.1]
  refine wpc_bind.mpr (step_wp rfl compared_stable hcompared (fun _ h => h.1.alternate)
    fun _ r _ s₄ h₄ hact => ?_)
  have h₄ := h₄.kept rfl hact
  cases r with
  | error e => exact noteError_wp h₄.1
  | ok new =>
    refine wpc_bind.mpr (wpc_own.mpr (wpc_seq (reportDisk_wp h₄) fun _ l₅ s₅ h₅ => ?_))
    refine wpc_bind.mpr (step_wp rfl due_stable h₅ (fun _ h => h.alternate)
      fun _ _ _ s₆ h₆ hact => wpc_update.mpr ?_)
    exact level_of_replace hact h₆

theorem refreshStatusIfDue_wp (hs : Level initial s) :
    (announcing initial asm).left.wpc refreshStatusIfDue (fun _ _ s => Level initial s) l s := by
  refine wpc_bind.mpr (wpc_own.mpr (wpc_bind.mpr (calm_wp rfl rfl hs fun now s₁ h₁ => ?_)))
  split
  · exact h₁
  · exact refreshStatus_wp h₁

theorem rounds : Rounds (announcing initial asm).left checks (fun _ _ => Level initial)
    (fun _ _ => Level initial) (fun _ => Level initial) where
  hot _ _ h := h
  select _ _ h := calm_wp rfl rfl h fun r _ h₁ => by cases r <;> exact h₁
  receive _ _ h := calm_wp rfl rfl h fun r _ h₁ => by cases r <;> exact h₁
  process _ _ _ h := process_wp h
  desired _ _ h := frame_wp (applyDesired_keeps unaffected_true)
    (fun _ ho => calm_of_part (.inl ho)) h
  status _ _ h := refreshStatusIfDue_wp h
  capture _ _ h := frame_wp (captureIfNeeded_keeps unaffected_true fun _ _ h => h)
    (fun _ ho => calm_of_part (by simp [ho])) h
  failed _ _ h _ := h
  again _ _ _ h _ := h
  stop _ _ h := frame_wp stopRound_keeps (fun _ ho => calm_of_part (by simp [ho])) h
  unwind _ _ h := frame_wp unwindRound_keeps (fun _ ho => calm_of_part (by simp [ho])) h

end Worker

/-! ## The caller -/

section Caller

variable {b : Bridge}

/-- The steps that neither take an event out of the channel nor return one. -/
def silent : Op → Bool
  | .tryRecvEvent | .returned .pollEvent _ => false
  | _ => true

theorem handed_kept (ho : silent o = true) (h : controller.act o i s = some (r, s')) :
    gather received s'.trace = gather received s.trace ∧
      gather eventsPolled s'.trace = gather eventsPolled s.trace := by
  refine ⟨gather_kept h ?_, gather_kept h ?_⟩
  · cases o <;> first | rfl | cases ho
  · cases o with
    | returned call answer => cases call <;> first | rfl | cases ho
    | _ => rfl

theorem silent_of_worker (ho : o.ofWorker = true) : silent o = true := by
  cases o <;> first | rfl | cases ho

theorem handed_stable : (announcing initial asm).right.Stable Handed := by
  refine stable_of_action fun o i r s s' ho _ _ hact hs => ?_
  obtain ⟨hreceived, hpolled⟩ := handed_kept (silent_of_worker ho) hact
  exact hreceived.trans (hs.trans hpolled.symm)

/-- What `poll_event` has taken and will return. -/
def Taken (event : Option Sent) (s : Snap controller) : Prop :=
  gather received s.trace = gather eventsPolled s.trace ++ (event.map Sent.event).toList

theorem taken_stable {event : Option Sent} :
    (announcing initial asm).right.Stable (Taken event) := by
  refine stable_of_action fun o i r s s' ho _ _ hact hs => ?_
  obtain ⟨hreceived, hpolled⟩ := handed_kept (silent_of_worker ho) hact
  unfold Taken
  rw [hreceived, hpolled]
  exact hs

/-- One step of a call, with an assertion the worker cannot take back. -/
theorem call_wp {P : Snap controller → Prop} {Q : o.Ret → Bridge → Snap controller → Prop}
    (ho : o.ofCaller = true) (hstable : (announcing initial asm).right.Stable P) (hs : P s)
    (h : ∀ i r s₁ s₂, P s₁ → controller.act o i s₁ = some (r, s₂) → Q r b s₂) :
    (announcing initial asm).right.wpc (step o) Q b s :=
  wpc_perform_of ho hstable hs (fun _ _ _ => trivial) fun i r s₁ s₂ hinv h₁ _ hact =>
    ⟨fifo_of_act hact hinv, h i r s₁ s₂ h₁ hact⟩

theorem Handed.kept (ho : silent o = true) (h : controller.act o i s = some (r, s'))
    (hs : Handed s) : Handed s' := by
  obtain ⟨hreceived, hpolled⟩ := handed_kept ho h
  exact hreceived.trans (hs.trans hpolled.symm)

/-- The steps of the calls other than `poll_event`. -/
def quiet : Op → Bool
  | .tryRecvEvent => false
  | o => o.ofCall

theorem silent_of_quiet (ho : quiet o = true) : o.ofCaller = true ∧ silent o = true := by
  cases o <;> first | exact ⟨rfl, rfl⟩ | cases ho

theorem stall_quiet {J : Bridge → Prop} (track : TrackAddress) :
    ∀ polls, (Bridge.stall track polls).Keeps J (quiet ·)
  | 0 => Code.keeps_pure
  | polls + 1 => by
    refine (keeps_step rfl).bind fun front => ?_
    cases front with
    | some capture => exact Code.keeps_pure
    | none =>
      refine (keeps_step rfl).bind fun status => ?_
      split
      · exact Code.keeps_pure
      · exact stall_quiet track polls

theorem readTrack_quiet {J : Bridge → Prop} (track : TrackAddress) :
    (Bridge.readTrack track).Keeps J (quiet ·) := by
  refine (clamp_keeps track).bind fun track => (keeps_step rfl).bind fun _ => ?_
  refine (keeps_step rfl).bind fun front => ?_
  cases front with
  | some capture => exact Code.keeps_pure
  | none =>
    refine (keeps_step rfl).bind fun _ => Code.keeps_own.bind fun b => ?_
    cases b.stallTimeout with
    | none => exact Code.keeps_pure
    | some timeout =>
      refine (keeps_step rfl).bind fun polls => ?_
      exact (stall_quiet track polls).bind fun _ => Code.keeps_pure

theorem submitWrite_quiet (request : WriteRequest) :
    (Bridge.submitWrite checks request).Keeps (fun _ => True) (quiet ·) := by
  refine (clamp_keeps request.track).bind fun track => ?_
  dsimp only
  split
  · exact Code.keeps_pure
  refine (keeps_step rfl).bind fun status => ?_
  split
  · exact Code.keeps_pure
  refine (keeps_step rfl).bind fun front => ?_
  split
  · exact Code.keeps_pure
  · exact Code.keeps_pure
  refine Code.keeps_own.bind fun b => (Code.keeps_update fun _ _ => trivial).bind fun _ => ?_
  refine (keeps_step rfl).bind fun r => ?_
  cases r with
  | error e => exact Code.keeps_pure
  | ok _ => exact Code.keeps_pure

theorem perform_quiet {call : Call} (hcall : call ≠ .pollEvent) :
    (Bridge.perform checks call).Keeps (fun _ => True) (quiet ·) := by
  cases call with
  | setMotor side enabled =>
    exact (keeps_step rfl).bind fun _ => (keeps_step rfl).bind fun _ => Code.keeps_pure
  | seek track =>
    refine (clamp_keeps track).bind fun _ => ?_
    exact (keeps_step rfl).bind fun _ => (keeps_step rfl).bind fun _ => Code.keeps_pure
  | noClickStep side => exact (keeps_step rfl).bind fun _ => Code.keeps_pure
  | readTrack track => exact readTrack_quiet track
  | partialTrack track =>
    exact (clamp_keeps track).bind fun _ => (keeps_step rfl).bind fun _ => Code.keeps_pure
  | advanceRevolution track =>
    refine (clamp_keeps track).bind fun _ => (keeps_step rfl).bind fun _ => ?_
    exact (keeps_step rfl).bind fun _ => (keeps_step rfl).bind fun _ => Code.keeps_pure
  | submitWrite request => exact submitWrite_quiet request
  | pollEvent => exact absurd rfl hcall
  | drop => exact (keeps_step rfl).bind fun _ => (keeps_step rfl).bind fun _ => Code.keeps_pure

/-- The frame: code that neither takes an event nor returns one. -/
theorem quiet_wp {α : Type} {m : BridgeM α} (hm : m.Keeps (fun _ => True) (quiet ·))
    (hs : Handed s) : (announcing initial asm).right.wpc m (fun _ _ s => Handed s) b s := by
  refine wpc_mono (wpc_of_keeps hm handed_stable ?_ trivial hs) fun _ _ _ h => h.2
  intro b' o _ ho
  obtain ⟨hcaller, hsilent⟩ := silent_of_quiet ho
  exact ⟨hcaller, fun s₁ hinv h₁ => ⟨trivial, fun i r s₂ _ hact =>
    ⟨fifo_of_act hact hinv, h₁.kept hsilent hact⟩⟩⟩

/-- `poll_event` returns what it took. -/
theorem returned_of_act {event : Option Sent} {r : Unit}
    (h : controller.act (.returned .pollEvent (.event event)) i s = some (r, s'))
    (hs : Taken event s) : Handed s' := by
  unfold Handed
  rw [gather_kept h rfl, gather_of_act eventsPolled h, hs]
  cases event <;> rfl

theorem pollRound_wp (hs : Handed s) :
    (announcing initial asm).right.wpc (do
      let answer ← Bridge.perform checks .pollEvent
      step (.returned .pollEvent answer)
      pure Holding.holds : BridgeM Holding) (fun _ _ s => Handed s) b s := by
  refine wpc_bind.mpr (wpc_bind.mpr (call_wp rfl handed_stable hs
    fun _ r s₁ s₂ h₁ hact => ?_))
  have h₂ : Taken r s₂ := by
    unfold Taken
    rw [gather_of_act received hact, gather_kept hact rfl, h₁]
    cases r <;> rfl
  exact wpc_bind.mpr (call_wp rfl taken_stable h₂
    fun _ _ _ s₄ h₃ hact => returned_of_act hact h₃)

theorem callRound_wp {call : Call} (hs : Handed s) :
    (announcing initial asm).right.wpc (callRound checks call) (fun _ _ s => Handed s) b s := by
  refine wpc_bind.mpr (call_wp rfl handed_stable hs fun _ _ _ s₁ h₀ hact => ?_)
  have h₁ := h₀.kept rfl hact
  by_cases hpoll : call = .pollEvent
  · rw [hpoll]
    exact pollRound_wp h₁
  · refine wpc_seq (quiet_wp (perform_quiet hpoll) h₁) fun answer b₂ s₂ h₂ => ?_
    have hsilent : silent (.returned call answer) = true := by
      cases call <;> first | rfl | exact absurd rfl hpoll
    exact wpc_bind.mpr (call_wp rfl handed_stable h₂
      fun _ _ _ s₃ h₃ hact => h₃.kept hsilent hact)

end Caller

theorem valid : (@announcing checks initial asm).Valid where
  leftStable _ _ := level_stable
  rightStable _ _ := handed_stable
  leftRound _ _ _ _ _ hm _ h := rounds.round hm h
  rightRound := rightRound_of_call fun _ _ _ _ hb => callRound_wp hb

theorem holds_fromDevice (config : BridgeConfig) (status : DriveStatus) (head : TrackAddress)
    (now : Nat) :
    (announcing status.diskPresent asm).Holds (fromDevice checks config status head now) :=
  ⟨rfl, ⟨List.isChain_singleton _, rfl⟩, rfl⟩

end Reports

/-! ## Every interleaving -/

section Runs

variable {checks : Bool} {asm : Conditions checks} {m : Moment checks}

theorem handed_of_result {initial : Bool} (h : (announcing initial asm).Holds m)
    {holding : Holding} (hresult : m.right.result? = some holding) : Reports.Handed m.snap := by
  obtain ⟨s, p, q⟩ := m
  cases q with
  | ret b held =>
    cases hresult
    exact h.right
  | act b o k => cases hresult

/-- The changes of the disk in a run that began with `initial`, up to one moment of it. -/
structure DiskReports (initial : Bool) (m : Moment checks) : Prop where
  /-- each change that is offered to the channel is one -/
  alternating : (initial :: gather changes m.snap.trace).IsChain (· ≠ ·)
  /-- between two rounds of the worker the status is as the last report says -/
  shown : ∀ loc, m.left.result? = some loc →
    (initial :: gather changes m.snap.trace).getLast? = some m.snap.world.status.diskPresent
  /-- a caller who has polled everything, and for whom there was always room, knows the status -/
  seen : ∀ loc holding, m.left.result? = some loc → m.right.result? = some holding →
    gather missed m.snap.trace = [] → m.snap.world.events = [] →
      (initial :: (gather eventsPolled m.snap.trace).filterMap BridgeEvent.present?).getLast? =
        some m.snap.world.status.diskPresent

/--
**Changes of the disk.** In every interleaving, whatever the device answers: the reports alternate,
beginning with the opposite of what was so when the bridge was opened, and agree with the status.
-/
theorem diskReports_of_reach {config : BridgeConfig} {status : DriveStatus} {head : TrackAddress}
    {now : Nat} (run : Reach (anyRun checks) (fromDevice checks config status head now) m) :
    DiskReports status.diskPresent m := by
  have hholds := Reports.valid.holds run (Reports.holds_fromDevice config status head now)
  have hlevel : ∀ loc, m.left.result? = some loc → Reports.Level status.diskPresent m.snap :=
    fun loc hloc => hholds.leftAt hloc
  refine ⟨?_, fun loc hloc => (hlevel loc hloc).shown, ?_⟩
  · exact hholds.leftView (J := fun _ s => Reports.Alternate status.diskPresent s)
      (fun _ _ _ hl => hl.alternate) fun _ _ _ hl => hl
  · intro loc holding hloc hresult hroom hempty
    have hpolled : gather eventsPolled m.snap.trace = gather delivered m.snap.trace := by
      rw [hholds.inv, handed_of_result hholds hresult, hempty, List.map_nil, List.append_nil]
    rw [hpolled, present_delivered hroom]
    exact (hlevel loc hloc).shown

/-- A pass in which the status is read, at the given time. -/
def statusRead (now : Nat) (present : Bool) : Schedule true :=
  working [{}] ++ working [{}, {}, { now := now }, { now := now }, {},
    { status := .ok { DriveStatus.idle with diskPresent := present } }, {}, {}, {}, {}]

/-- Take the disk out, put it in again, and ask for one event. -/
def disksSwapped : Schedule true :=
  statusRead 2 false ++ statusRead (300 * NANOS_PER_MILLI) true ++ calling .pollEvent 3 {}

theorem diskReports_of_reach_disksSwapped : ∃ m : Moment true,
    gather changes m.snap.trace = [false, true] ∧ DiskReports true m := by
  have hplay : ((play (anyRun true) (opened true .normal ⟨5, .upper⟩) disksSwapped).any fun m =>
      gather changes m.snap.trace = [false, true]) = true := by
    decide +kernel
  obtain ⟨m, hrun, htest⟩ := exists_reach_of_play hplay
  exact ⟨m, by simpa using htest, diskReports_of_reach hrun⟩

end Runs

end FluxBridge
