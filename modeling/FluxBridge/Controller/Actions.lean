import FluxBridge.Controller.Bridge

/-!
# Which steps each function performs

A statement about the worker is usually about two or three of its functions; the others only have
to leave alone what it speaks of. Here each function is bounded once: the steps it can perform, and
the fields of `Worker` it can change. `Side.wpc_of_keeps` turns such a bound into a frame.
-/

namespace FluxBridge

open Atomic

def BridgeEvent.isDisconnected : BridgeEvent → Bool
  | .disconnected _ => true
  | _ => false

def BridgeEvent.isDiskChanged : BridgeEvent → Bool
  | .diskChanged _ => true
  | _ => false

/-- The write a command asks for. -/
def Command.writeId? : Command → Option WriteId
  | .write id _ => some id
  | _ => none

namespace Op

/-- The steps of the calls other than `submit_write` and `drop`. -/
def ofPlain : Op → Bool
  | .trySendCommand (.noClick _) => true
  | .nudge | .tryRecvEvent | .wishMotor _ _ | .wishTarget _ | .wishTrack _ | .readStatus
  | .frontCapture _ | .retireFront _ | .readInFlight _ | .stallPolls _ => true
  | _ => false

/-- The steps of the calls other than `submit_write`. -/
def ofOther : Op → Bool
  | .trySendCommand command => command.writeId?.isNone
  | .sendShutdown | .nudge | .tryRecvEvent | .wishMotor _ _ | .wishTarget _ | .wishTrack _
  | .readStatus | .frontCapture _ | .retireFront _ | .readInFlight _ | .stallPolls _
  | .join => true
  | _ => false

/-- The steps of a call, apart from its beginning and its end. -/
def ofCall : Op → Bool
  | .trySendCommand _ | .sendShutdown | .nudge | .tryRecvEvent | .wishMotor _ _ | .wishTarget _
  | .wishTrack _ | .readStatus | .frontCapture _ | .retireFront _ | .readInFlight _
  | .stallPolls _ | .join => true
  | _ => false

/-- The steps of the caller. -/
def ofCaller : Op → Bool
  | .called _ | .returned _ _ => true
  | o => o.ofCall

/-- The steps of the worker. -/
def ofWorker : Op → Bool
  | .selectCommand | .tryRecvCommand | .trySendEvent _ | .takeDesired | .readStatus
  | .confirmPosition _ _ | .confirmMotor _ | .replaceStatus _ | .markStopped | .revolutionBits _
  | .targetFull _ | .invalidate _ | .clearCaptures | .storeCapture _ _ | .publish _ | .withdraw
  | .deviceSeek _ | .deviceSide _ | .deviceMotor _ _ | .deviceNoClick | .deviceStatus
  | .deviceRead _ _ _ | .deviceReadResult | .deviceWrite _ _ _ _ | .now | .exit => true
  | _ => false

/-- The steps of `disconnect`. -/
def ofErrors : Op → Bool
  | .markStopped => true
  | .trySendEvent event => event.isDisconnected
  | _ => false

/-- The steps of `position`. -/
def ofPosition : Op → Bool
  | .deviceSeek _ | .deviceSide _ | .confirmPosition _ _ => true
  | _ => false

/-- The steps of a write up to the device. -/
def ofWriting : Op → Bool
  | .revolutionBits _ | .deviceWrite _ _ _ _ => true
  | o => o.ofPosition

/-- The steps of `apply_desired`. -/
def ofWishes : Op → Bool
  | .takeDesired | .deviceMotor _ _ | .confirmMotor _ | .now => true
  | o => o.ofPosition || o.ofErrors

/-- The steps of `refresh_status_if_due`. -/
def ofStatus : Op → Bool
  | .now | .readStatus | .deviceStatus | .clearCaptures | .replaceStatus _ => true
  | .trySendEvent event => event.isDiskChanged || event.isDisconnected
  | o => o.ofErrors

/-- The steps of the no-click command. -/
def ofNoClick : Op → Bool
  | .deviceSide _ | .deviceNoClick => true
  | o => o.ofErrors

/-- The steps that look for the track worth a capture. -/
def ofTarget : Op → Bool
  | .readStatus | .targetFull _ => true
  | _ => false

/-- The steps of a read after the device was called. -/
def ofAwaiting : Op → Bool
  | .publish _ | .deviceReadResult => true
  | _ => false

/-- The steps of `capture_if_needed`. -/
def ofCapture : Op → Bool
  | .deviceRead _ _ _ | .withdraw | .storeCapture _ _ => true
  | o => o.ofTarget || o.ofAwaiting || o.ofPosition || o.ofErrors

/-- The steps of the end of the thread. -/
def ofEnding : Op → Bool
  | .deviceMotor _ _ | .markStopped | .exit => true
  | _ => false

/-- The steps of a call are the caller's. -/
theorem ofCaller_of_call {o : Op} (h : o.ofCall = true) : o.ofCaller = true := by
  unfold ofCaller
  split <;> simp_all

/-- What the simple calls do, a call other than `submit_write` may do. -/
theorem ofOther_of_plain {o : Op} (h : o.ofPlain = true) : o.ofOther = true := by
  cases o with
  | trySendCommand command => cases command <;> first | rfl | cases h
  | _ => first | rfl | cases h

theorem ofCall_of_other {o : Op} (h : o.ofOther = true) : o.ofCall = true := by
  cases o <;> simp_all [ofOther, ofCall]

/-- `apply_desired` positions the head. -/
theorem ofWishes_of_position {o : Op} (h : o.ofPosition = true) : o.ofWishes = true := by
  unfold ofWishes
  split <;> simp_all

/-- `apply_desired` can find the drive lost. -/
theorem ofWishes_of_errors {o : Op} (h : o.ofErrors = true) : o.ofWishes = true := by
  unfold ofWishes
  split <;> simp_all

/-- A write positions the head first. -/
theorem ofWriting_of_position {o : Op} (h : o.ofPosition = true) : o.ofWriting = true := by
  unfold ofWriting
  split <;> simp_all

theorem ofStatus_of_errors {o : Op} (h : o.ofErrors = true) : o.ofStatus = true := by
  cases o <;> simp_all [ofStatus, ofErrors]

theorem ofNoClick_of_errors {o : Op} (h : o.ofErrors = true) : o.ofNoClick = true := by
  unfold ofNoClick
  split <;> simp_all

theorem ofCapture_of_target {o : Op} (h : o.ofTarget = true) : o.ofCapture = true := by
  unfold ofCapture
  split <;> simp_all

theorem ofCapture_of_awaiting {o : Op} (h : o.ofAwaiting = true) : o.ofCapture = true := by
  unfold ofCapture
  split <;> simp_all

/-- So does a capture. -/
theorem ofCapture_of_position {o : Op} (h : o.ofPosition = true) : o.ofCapture = true := by
  unfold ofCapture
  split <;> simp_all

theorem ofCapture_of_errors {o : Op} (h : o.ofErrors = true) : o.ofCapture = true := by
  unfold ofCapture
  split <;> simp_all

theorem ofWorker_of_ending {o : Op} (h : o.ofEnding = true) : o.ofWorker = true := by
  cases o <;> simp_all [ofEnding, ofWorker]

end Op

/-- `J` does not depend on the count of errors, nor on the drive being found lost. -/
def ErrorsKeep (J : Worker → Prop) : Prop :=
  ∀ w b n, J w → (w.failed = true → b = true) → J { w with failed := b, consecutiveErrors := n }

/-- `J` does not depend on where the worker takes the head to be. -/
def PlaceKeeps (J : Worker → Prop) : Prop :=
  ∀ w p b, J w → J { w with physical := p, positioned := b }

/-- `J` does not depend on what the worker's functions change, the generation apart. -/
structure Unaffected (J : Worker → Prop) : Prop where
  errors : ErrorsKeep J
  place : PlaceKeeps J
  wishes : ∀ w t u m, J w → J { w with target := t, wanted := u, motorStoppedAt := m }
  schedule : ∀ w t, J w → J { w with nextStatus := t }

/-- The frame that says nothing of the worker. -/
theorem unaffected_true : Unaffected fun _ => True :=
  ⟨fun _ _ _ h _ => h, fun _ _ _ h => h, fun _ _ _ _ h => h, fun _ _ h => h⟩

/-- No function takes back that the drive is lost. -/
theorem unaffected_failed : Unaffected fun w => w.failed = true :=
  ⟨fun _ _ _ h hb => hb h, fun _ _ _ h => h, fun _ _ _ _ h => h, fun _ _ h => h⟩

/-- Only a capture changes the generation. -/
theorem unaffected_generation (g : Nat) : Unaffected fun w => w.generation = g :=
  ⟨fun _ _ _ h _ => h, fun _ _ _ h => h, fun _ _ _ _ h => h, fun _ _ h => h⟩

open Code

/-- One step leaves the thread's own state alone. -/
theorem keeps_step {L : Type} {J : L → Prop} {o : Op} {ops : Op → Bool} (h : ops o = true) :
    (step o : Code controllerSig L o.Ret).Keeps J (ops ·) :=
  keeps_perform h

/-! ## The worker -/

section Worker

variable {J : Worker → Prop}

/-- `disconnect` marks the drive as lost and says so. -/
theorem disconnect_keeps (hJ : ErrorsKeep J) (e : Error) :
    (disconnect e).Keeps J (Op.ofErrors ·) := by
  refine (keeps_update fun w hw => hJ w true w.consecutiveErrors hw fun _ => rfl).bind
    fun _ => ?_
  refine (keeps_step rfl).bind fun _ => ?_
  exact (keeps_step rfl).bind fun _ => keeps_pure

/-- `note_error` changes the count of errors, and may disconnect. -/
theorem noteError_keeps (hJ : ErrorsKeep J) (e : Error) :
    (noteError e).Keeps J (Op.ofErrors ·) := by
  refine (keeps_update fun w hw => hJ w w.failed _ hw id).bind fun _ =>
    keeps_own.bind fun w => ?_
  split
  · exact disconnect_keeps hJ e
  · exact keeps_pure

/-- Clearing the count performs nothing. -/
theorem clearErrors_keeps {ops : Op → Prop} (hJ : ErrorsKeep J) : clearErrors.Keeps J ops :=
  keeps_update fun w hw => hJ w w.failed 0 hw id

/-- At most one seek, and then what the worker takes the cylinder to be. -/
theorem positionCylinder_keeps (hJ : PlaceKeeps J) (track : TrackAddress) :
    (positionCylinder track).Keeps J (Op.ofPosition ·) := by
  refine keeps_own.bind fun w => ?_
  split
  · refine (keeps_step rfl).bind fun r => ?_
    cases r with
    | error e => exact keeps_pure
    | ok _ =>
      exact (keeps_update fun w hw => hJ w _ w.positioned hw).bind fun _ => keeps_pure
  · exact keeps_pure

/-- At most one change of the side, in the same way. -/
theorem positionSide_keeps (hJ : PlaceKeeps J) (track : TrackAddress) :
    (positionSide track).Keeps J (Op.ofPosition ·) := by
  refine keeps_own.bind fun w => ?_
  split
  · refine (keeps_step rfl).bind fun r => ?_
    cases r with
    | error e => exact keeps_pure
    | ok _ =>
      exact (keeps_update fun w hw => hJ w _ w.positioned hw).bind fun _ => keeps_pure
  · exact keeps_pure

/-- `position` moves the head and confirms it in the status. -/
theorem position_keeps (hJ : PlaceKeeps J) (track : TrackAddress) :
    (position track).Keeps J (Op.ofPosition ·) := by
  refine (positionCylinder_keeps hJ track).bind fun r => ?_
  cases r with
  | error e => exact keeps_pure
  | ok _ =>
    refine (positionSide_keeps hJ track).bind fun r => ?_
    cases r with
    | error e => exact keeps_pure
    | ok _ =>
      refine (keeps_update fun w hw => hJ w w.physical true hw).bind fun _ => ?_
      exact keeps_own.bind fun w => (keeps_step rfl).bind fun _ => keeps_pure

theorem noClick_keeps (side : Side) : (noClick side).Keeps J (Op.ofNoClick ·) := by
  refine (keeps_step rfl).bind fun r => ?_
  cases r with
  | error e => exact keeps_pure
  | ok _ => exact keeps_step rfl

theorem failedFlow_keeps {ops : Op → Prop} : failedFlow.Keeps J ops :=
  keeps_own.bind fun _ => keeps_pure

/-- `note_error` within what another function may do. -/
theorem noteError_keeps_of {ops : Op → Bool} (hJ : ErrorsKeep J)
    (hops : ∀ o, Op.ofErrors o = true → ops o = true) (e : Error) :
    (noteError e).Keeps J (ops ·) :=
  (noteError_keeps hJ e).mono hops

/-- The no-click command selects a side and steps; the worker's place stays as it was. -/
theorem processNoClick_keeps (hJ : ErrorsKeep J) (checks : Bool) (side : Side) :
    (process checks (.noClick side)).Keeps J (Op.ofNoClick ·) := by
  refine (noClick_keeps side).bind fun r => ?_
  cases r with
  | error e =>
    exact (noteError_keeps_of hJ (fun _ => Op.ofNoClick_of_errors) e).bind fun _ =>
      failedFlow_keeps
  | ok _ => exact failedFlow_keeps

/-- `position` within what another function may do. -/
theorem position_keeps_of {ops : Op → Bool} (hJ : PlaceKeeps J)
    (hops : ∀ o, Op.ofPosition o = true → ops o = true) (track : TrackAddress) :
    (position track).Keeps J (ops ·) :=
  (position_keeps hJ track).mono hops

/-- A write positions, looks the length up and calls the device. -/
theorem attemptWrite_keeps (hJ : PlaceKeeps J) (checks : Bool) (request : WriteRequest) :
    (attemptWrite checks request).Keeps J (Op.ofWriting ·) := by
  refine (position_keeps_of hJ (fun _ => Op.ofWriting_of_position) request.track).bind fun r => ?_
  cases r with
  | error e => exact keeps_pure
  | ok _ =>
    refine (keeps_step rfl).bind fun trackBits => ?_
    dsimp only
    split
    · exact keeps_pure
    split
    · exact keeps_pure
    · exact keeps_own.bind fun w => (keeps_step rfl).bind fun _ => keeps_pure

/-- `position`, then `set_motor` of the device and its confirmation. -/
theorem applyMotor_keeps (hJ : Unaffected J) (side : Side) (enabled quick : Bool) :
    (applyMotor side enabled quick).Keeps J (Op.ofWishes ·) := by
  refine keeps_own.bind fun w => ?_
  refine (position_keeps_of hJ.place (fun _ => Op.ofWishes_of_position) _).bind fun r => ?_
  cases r with
  | error e => exact keeps_pure
  | ok _ =>
    refine (keeps_step rfl).bind fun r => ?_
    cases r with
    | error e => exact keeps_pure
    | ok _ => exact (keeps_step rfl).bind fun _ => keeps_pure

/-- Whether the start is a quick one takes at most a look at the clock. -/
theorem quickStart_keeps (enabled : Bool) : (quickStart enabled).Keeps J (Op.ofWishes ·) := by
  unfold quickStart
  split
  · exact keeps_pure
  · refine keeps_own.bind fun w => ?_
    split
    · exact keeps_pure
    · exact (keeps_step rfl).bind fun _ => keeps_pure

/-- The motor half of `apply_desired`. -/
theorem applyMotorWish_keeps (hJ : Unaffected J) (side : Side) (enabled : Bool) :
    (applyMotorWish side enabled).Keeps J (Op.ofWishes ·) := by
  refine (quickStart_keeps enabled).bind fun quick => ?_
  refine (applyMotor_keeps hJ side enabled quick).bind fun r => ?_
  cases r with
  | error e => exact noteError_keeps_of hJ.errors (fun _ => Op.ofWishes_of_errors) e
  | ok _ =>
    refine (clearErrors_keeps hJ.errors).bind fun _ => ?_
    split
    · refine (keeps_step rfl).bind fun now => keeps_update fun w hw => ?_
      exact hJ.wishes w w.target w.wanted (some now) hw
    · exact keeps_pure

theorem recordWanted_keeps {ops : Op → Prop}
    (hJ : ∀ w t u m, J w → J { w with target := t, wanted := u, motorStoppedAt := m })
    (wanted : Option TrackAddress) : (recordWanted wanted).Keeps J ops := by
  cases wanted with
  | none => exact keeps_pure
  | some track =>
    exact keeps_update fun w hw => hJ w w.target (some track) w.motorStoppedAt hw

/-- The head half of `apply_desired`. -/
theorem applyTarget_keeps (hJ : Unaffected J) (target : Option TrackAddress) :
    (applyTarget target).Keeps J (Op.ofWishes ·) := by
  cases target with
  | none => exact keeps_pure
  | some track =>
    refine (keeps_update fun w hw => hJ.wishes w track w.wanted w.motorStoppedAt hw).bind
      fun _ => ?_
    refine (position_keeps_of hJ.place (fun _ => Op.ofWishes_of_position) track).bind fun r => ?_
    cases r with
    | error e =>
      exact (noteError_keeps_of hJ.errors (fun _ => Op.ofWishes_of_errors) e).bind
        fun _ => keeps_pure
    | ok _ => exact (clearErrors_keeps hJ.errors).bind fun _ => keeps_pure

/-- `apply_desired` takes the wishes, moves, and switches the motor. -/
theorem applyDesired_keeps (hJ : Unaffected J) : applyDesired.Keeps J (Op.ofWishes ·) := by
  refine (keeps_step rfl).bind fun wish => ?_
  refine (recordWanted_keeps hJ.wishes wish.wanted).bind fun _ => ?_
  refine (applyTarget_keeps hJ wish.target).bind fun positioned => ?_
  split
  · split
    · exact keeps_pure
    · exact applyMotorWish_keeps hJ _ _
  · exact keeps_pure

/-- A disk that came or went clears the cache and is reported. -/
theorem reportDisk_keeps (changed present : Bool) :
    (reportDisk changed present).Keeps J (Op.ofStatus ·) := by
  unfold reportDisk
  split
  · exact (keeps_step rfl).bind fun _ => (keeps_step rfl).bind fun _ => keeps_pure
  · exact keeps_pure

/-- One reading of the status, and when the next one is due. -/
theorem refreshStatus_keeps (hJ : ErrorsKeep J)
    (hdue : ∀ w t, J w → J { w with nextStatus := t }) :
    refreshStatus.Keeps J (Op.ofStatus ·) := by
  refine (keeps_step rfl).bind fun now => ?_
  refine (keeps_update fun w hw => hdue w _ hw).bind fun _ => ?_
  refine (keeps_step rfl).bind fun old => (keeps_step rfl).bind fun r => ?_
  cases r with
  | error e => exact noteError_keeps_of hJ (fun _ => Op.ofStatus_of_errors) e
  | ok new =>
    refine keeps_own.bind fun w => (reportDisk_keeps _ _).bind fun _ => ?_
    exact (keeps_step rfl).bind fun _ => clearErrors_keeps hJ

theorem refreshStatusIfDue_keeps (hJ : ErrorsKeep J)
    (hdue : ∀ w t, J w → J { w with nextStatus := t }) :
    refreshStatusIfDue.Keeps J (Op.ofStatus ·) := by
  refine keeps_own.bind fun w => (keeps_step rfl).bind fun now => ?_
  split
  · exact keeps_pure
  · exact refreshStatus_keeps hJ hdue

/-- The look for a track worth a capture only reads. -/
theorem captureTarget_keeps : captureTarget.Keeps J (Op.ofTarget ·) := by
  refine (keeps_step rfl).bind fun status => ?_
  split
  · exact keeps_pure
  refine keeps_own.bind fun w => ?_
  split
  · exact keeps_pure
  split
  · exact keeps_pure
  · exact (keeps_step rfl).bind fun full => keeps_pure

/-- A read publishes what it has on the way. -/
theorem awaitCapture_keeps (wanted : TrackAddress) (reports : Nat) :
    (awaitCapture wanted reports).Keeps J (Op.ofAwaiting ·) :=
  (keeps_times (keeps_step rfl) reports).bind fun _ => keeps_step rfl

theorem readTrack_keeps (wanted : TrackAddress) :
    (readTrack wanted).Keeps J (Op.ofCapture ·) := by
  refine keeps_own.bind fun w => (keeps_step rfl).bind fun reports => ?_
  exact (awaitCapture_keeps wanted reports).mono fun _ => Op.ofCapture_of_awaiting

/-- A kept capture clears the count of errors and takes the next generation. -/
theorem keepCapture_keeps (hJ : ErrorsKeep J)
    (hgen : ∀ w g, J w → J { w with generation := g }) (wanted : TrackAddress)
    (capture : RawCapture) : (keepCapture wanted capture).Keeps J (Op.ofCapture ·) := by
  refine (keeps_step rfl).bind fun _ => (clearErrors_keeps hJ).bind fun _ => ?_
  refine (keeps_update fun w hw => hgen w _ hw).bind fun _ => keeps_own.bind fun w => ?_
  exact (keeps_step rfl).bind fun _ => keeps_pure

/-- `capture_if_needed` changes the generation too, which `J` has to allow. -/
theorem captureIfNeeded_keeps (hJ : Unaffected J)
    (hgen : ∀ w g, J w → J { w with generation := g }) :
    captureIfNeeded.Keeps J (Op.ofCapture ·) := by
  have hnote : ∀ e, (noteError e).Keeps J (Op.ofCapture ·) :=
    noteError_keeps_of hJ.errors fun _ => Op.ofCapture_of_errors
  refine (captureTarget_keeps.mono fun _ => Op.ofCapture_of_target).bind fun target => ?_
  cases target with
  | none => exact keeps_pure
  | some wanted =>
    refine (position_keeps_of hJ.place (fun _ => Op.ofCapture_of_position) wanted).bind fun r => ?_
    cases r with
    | error e => exact (hnote e).bind fun _ => keeps_pure
    | ok _ =>
      refine (readTrack_keeps wanted).bind fun r => ?_
      split
      · exact keeps_pure
      · exact (hnote _).bind fun _ => keeps_pure
      split
      · exact (hnote _).bind fun _ => keeps_pure
      · exact (keepCapture_keeps hJ.errors hgen wanted _).bind fun _ => keeps_pure

/-- The end of the thread changes nothing of the worker. -/
theorem stopRound_keeps : stopRound.Keeps J (Op.ofEnding ·) :=
  (keeps_step rfl).bind fun _ => (keeps_step rfl).bind fun _ => (keeps_step rfl).bind fun _ =>
    keeps_pure

theorem unwindRound_keeps : unwindRound.Keeps J (Op.ofEnding ·) :=
  (keeps_step rfl).bind fun _ => keeps_pure

end Worker

/-! ## The caller -/

section Caller

variable {J : Bridge → Prop}

theorem clamp_keeps {ops : Op → Prop} (track : TrackAddress) :
    (Bridge.clamp track).Keeps J ops :=
  keeps_own.bind fun _ => keeps_pure

/-- A stalling read looks at the front and at the status, again and again. -/
theorem stall_keeps (track : TrackAddress) :
    ∀ polls, (Bridge.stall track polls).Keeps J (Op.ofPlain ·)
  | 0 => keeps_pure
  | polls + 1 => by
    refine (keeps_step rfl).bind fun front => ?_
    cases front with
    | some capture => exact keeps_pure
    | none =>
      refine (keeps_step rfl).bind fun status => ?_
      split
      · exact keeps_pure
      · exact stall_keeps track polls

theorem bridgeReadTrack_keeps (track : TrackAddress) :
    (Bridge.readTrack track).Keeps J (Op.ofPlain ·) := by
  refine (clamp_keeps track).bind fun track => (keeps_step rfl).bind fun _ => ?_
  refine (keeps_step rfl).bind fun front => ?_
  cases front with
  | some capture => exact keeps_pure
  | none =>
    refine (keeps_step rfl).bind fun _ => keeps_own.bind fun b => ?_
    cases b.stallTimeout with
    | none => exact keeps_pure
    | some timeout =>
      refine (keeps_step rfl).bind fun polls => ?_
      exact (stall_keeps track polls).bind fun _ => keeps_pure

theorem enqueueWrite_keeps (hJ : ∀ b n, J b → J { b with nextWrite := n })
    (request : WriteRequest) : (Bridge.enqueueWrite request).Keeps J (Op.ofCall ·) := by
  refine keeps_own.bind fun b => (keeps_update fun b hb => hJ b _ hb).bind fun _ => ?_
  refine (keeps_step rfl).bind fun r => ?_
  cases r with
  | error e => exact keeps_pure
  | ok _ => exact keeps_pure

theorem submitWrite_keeps (hJ : ∀ b n, J b → J { b with nextWrite := n }) (checks : Bool)
    (request : WriteRequest) : (Bridge.submitWrite checks request).Keeps J (Op.ofCall ·) := by
  refine (clamp_keeps request.track).bind fun track => ?_
  dsimp only
  split
  · exact keeps_pure
  refine (keeps_step rfl).bind fun status => ?_
  split
  · exact keeps_pure
  refine (keeps_step rfl).bind fun front => ?_
  split
  · exact keeps_pure
  · exact keeps_pure
  · exact enqueueWrite_keeps hJ _

/-- The calls other than `submit_write` and `drop`. -/
theorem perform_keeps_plain {checks : Bool} {call : Call}
    (hcall : ∀ request, call ≠ .submitWrite request) (hdrop : call ≠ .drop) :
    (Bridge.perform checks call).Keeps J (Op.ofPlain ·) := by
  cases call with
  | setMotor side enabled =>
    exact (keeps_step rfl).bind fun _ => (keeps_step rfl).bind fun _ => keeps_pure
  | seek track =>
    refine (clamp_keeps track).bind fun _ => ?_
    exact (keeps_step rfl).bind fun _ => (keeps_step rfl).bind fun _ => keeps_pure
  | noClickStep side => exact (keeps_step rfl).bind fun _ => keeps_pure
  | readTrack track => exact bridgeReadTrack_keeps track
  | partialTrack track =>
    exact (clamp_keeps track).bind fun _ => (keeps_step rfl).bind fun _ => keeps_pure
  | advanceRevolution track =>
    refine (clamp_keeps track).bind fun _ => (keeps_step rfl).bind fun _ => ?_
    exact (keeps_step rfl).bind fun _ => (keeps_step rfl).bind fun _ => keeps_pure
  | submitWrite request => exact absurd rfl (hcall request)
  | pollEvent => exact (keeps_step rfl).bind fun _ => keeps_pure
  | drop => exact absurd rfl hdrop

/-- The calls other than `submit_write` change no field of the bridge. -/
theorem perform_keeps_other {checks : Bool} {call : Call}
    (hcall : ∀ request, call ≠ .submitWrite request) :
    (Bridge.perform checks call).Keeps J (Op.ofOther ·) := by
  by_cases hdrop : call = .drop
  · subst hdrop
    exact (keeps_step rfl).bind fun _ => (keeps_step rfl).bind fun _ => keeps_pure
  · exact (perform_keeps_plain hcall hdrop).mono fun _ => Op.ofOther_of_plain

theorem perform_keeps (hJ : ∀ b n, J b → J { b with nextWrite := n }) (checks : Bool)
    (call : Call) : (Bridge.perform checks call).Keeps J (Op.ofCall ·) := by
  by_cases hcall : ∃ request, call = .submitWrite request
  · obtain ⟨request, rfl⟩ := hcall
    exact submitWrite_keeps hJ checks request
  · refine (perform_keeps_other fun request h => hcall ⟨request, h⟩).mono ?_
    exact fun _ => Op.ofCall_of_other

theorem callRound_keeps (hJ : ∀ b n, J b → J { b with nextWrite := n }) (checks : Bool)
    (call : Call) : (callRound checks call).Keeps J (Op.ofCaller ·) := by
  refine (keeps_step rfl).bind fun _ => Keeps.bind ?_ fun answer => ?_
  · exact (perform_keeps hJ checks call).mono fun _ => Op.ofCaller_of_call
  · exact (keeps_step rfl).bind fun _ => keeps_pure

end Caller

end FluxBridge
