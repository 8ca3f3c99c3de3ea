import FluxBridge.Transport.Polls
import FluxBridge.Device.DrawBridge
import FluxBridge.Device.SuperCardPro

/-!
# Stopping a stream

Once its start command is accepted an interface streams until it is told to stop. `captureStream`
is `read_stream` from there on. It returns early where the stream is not complete before the
deadline or the size ceiling, and then nothing tells the interface. Nor does it hear of the stop
command where the port does not take all its bytes before the deadline of that command.

* `streamStops_iff` — a stream is stopped where it is complete in time and the port takes the stop
  command in time, and nowhere else
* `drawBridge_leaves_streaming` — a stream that is not
-/

namespace FluxBridge

open Atomic

/-- The port has taken the stop command: nothing else is written before it. -/
def StopSent (stop : List Byte) (h : History wireSig) : Prop := stop <+: bytesTaken h

/-- The stream was told to stop, or the port failed. -/
def StopsStream (stop : List Byte) (h : History wireSig) : Prop := PortFailed h ∨ StopSent stop h

/-- Everything a run of `read_stream` did behind its accepted start command. -/
def Captured {D : Type} (captureStream : ReadMode → Host D RawCapture) (mode : ReadMode) (self : D)
    (h : History wireSig) : Prop :=
  ∃ next result, Walk (.any wireSig) (.ret next result) h (captureStream mode self) []

/-- How a run ends: with the stream complete and stopped, with a failed port, or with neither. -/
def StreamEnded (stop : List Byte) (complete : History wireSig → Prop)
    (h : History wireSig) : Prop :=
  (StopSent stop h ∧ complete h) ∨ PortFailed h ∨ (¬ StopSent stop h ∧ ¬ complete h)

theorem StreamEnded.stops_iff {stop : List Byte} {complete : History wireSig → Prop}
    {h : History wireSig} (hended : StreamEnded stop complete h) :
    StopsStream stop h ↔ PortFailed h ∨ complete h := by
  rcases hended with ⟨hsent, hcomplete⟩ | hfailed | ⟨hnot, hincomplete⟩
  · exact ⟨fun _ => Or.inr hcomplete, fun _ => Or.inr hsent⟩
  · exact ⟨fun _ => Or.inl hfailed, fun _ => Or.inl hfailed⟩
  · exact ⟨Or.imp_right fun hsent => absurd hsent hnot,
      Or.imp_right fun hcomplete => absurd hcomplete hincomplete⟩

theorem StopSent.cons {stop : List Byte} {h : History wireSig} (hsent : StopSent stop h)
    (event : Event wireSig) : StopSent stop (event :: h) :=
  hsent.trans (List.prefix_append _ _)

/-- Where nothing was written before, the stop command is what a write hands over. -/
theorem stopSent_of_taken {stop : List Byte} {more old : History wireSig}
    (hold : bytesTaken old = []) (took : bytesTaken more = stop) : StopSent stop (more ++ old) := by
  have htaken : bytesTaken (more ++ old) = stop := by
    rw [bytesTaken_append, hold, took, List.nil_append]
  exact ⟨[], by rw [htaken, List.append_nil]⟩

theorem not_stopSent_of_fewer {stop : List Byte} {more old : History wireSig}
    (hold : bytesTaken old = []) (took : (bytesTaken more).length < stop.length) :
    ¬ StopSent stop (more ++ old) := by
  intro hsent
  rw [StopSent, bytesTaken_append, hold, List.nil_append] at hsent
  exact absurd hsent.length_le (Nat.not_le.mpr took)

theorem bytesTaken_deadline (polls : Nat) (h : History wireSig) :
    bytesTaken (⟨.deadline, polls⟩ :: h) = bytesTaken h :=
  List.append_nil _

theorem offers_deadline (polls : Nat) (h : History wireSig) :
    offers (⟨.deadline, polls⟩ :: h) = offers h :=
  List.append_nil _

/-! ## The history up to the stop command -/

/-- The polls of the stream are all that has happened. -/
structure Streamed (new : History wireSig) (deadline : Nat) (h : History wireSig) : Prop where
  deadlines : deadlines h = [deadline]
  polls : polls h = polls new
  taken : bytesTaken h = []
  offers : offers h = []

theorem OnlyPolls.streamed {new : History wireSig} (only : OnlyPolls new) (deadline : Nat) :
    Streamed new deadline (new ++ [⟨.deadline, deadline⟩]) where
  deadlines := by
    rw [deadlines_append, only.deadlines]
    rfl
  polls := by
    rw [polls_append]
    rfl
  taken := by
    rw [bytesTaken_append, only.bytesTaken]
    rfl
  offers := by
    rw [offers_append, only.offers]
    rfl

/-- A stream is read byte by byte, and what follows is in charge of the stop command: where the
stream does not come to its end there is none. -/
theorem eachByte_ended {D σ α β : Type} {operation : String}
    {feed : σ → Byte → Except Error (σ ⊕ α)} {state : σ} {deadline : Nat} {self : D}
    {f : α × Nat → Host D β} {stop : List Byte} {complete : History wireSig → Prop}
    (hstopless : stop ≠ []) (hlate : ∀ new, OnlyPolls new →
      arrives feed state deadline (polls new) = none → ¬ complete (new ++ [⟨.deadline, deadline⟩]))
    (hstop : ∀ new result left, OnlyPolls new →
      (∀ later, arrives feed state deadline (polls new ++ later) = some (result, left)) →
      (f (result, left)).wlp (.any wireSig) (fun _ _ _ => True)
        (fun _ _ h => StreamEnded stop complete h) self (new ++ [⟨.deadline, deadline⟩])) :
    (eachByte operation feed deadline state deadline >>= f).wlp (.any wireSig) (fun _ _ _ => True)
      (fun _ _ h => StreamEnded stop complete h) self [⟨.deadline, deadline⟩] := by
  refine Fallible.wlp_seq (eachByte_spec operation (Nat.le_refl deadline) state self _) ?_ ?_
  · rintro e next h ⟨rfl, new, rfl, hlooped⟩
    cases hlooped with
    | stopped only came =>
      refine Or.inr (Or.inr ⟨fun hsent => hstopless ?_, hlate new only came⟩)
      rwa [StopSent, (only.streamed deadline).taken, List.prefix_nil] at hsent
    | broken only failed => exact Or.inr (Or.inl (failed.new _))
  · rintro ⟨result, left⟩ next h ⟨rfl, new, rfl, hlooped⟩
    cases hlooped with
    | completed only came => exact hstop new result left only came

/-! ## DrawBridge -/

namespace DrawBridge

def STOP : List Byte := [ascii 'x']

/-- The stream was complete before the deadline and the ceiling, and the port took the stop command
before the deadline that was set for it. -/
def CompleteInTime (mode : ReadMode) (highDensity : Bool) (h : History wireSig) : Prop :=
  ∃ deadline stop rest state, deadlines h = deadline :: stop :: rest ∧
    arrives (Stream.next mode highDensity) Stream.start deadline (polls h) = some state ∧
    takesAll STOP.length stop (offers h) = true

/-- A completed stream that was stopped stays so. -/
theorem stopped_lasting (mode : ReadMode) (highDensity : Bool) (event : Event wireSig)
    (h : History wireSig) (hstopped : StopSent STOP h ∧ CompleteInTime mode highDensity h) :
    StopSent STOP (event :: h) ∧ CompleteInTime mode highDensity (event :: h) := by
  obtain ⟨hsent, deadline, stop, rest, state, hdeadlines, harrives, htakes⟩ := hstopped
  refine ⟨hsent.cons event, deadline, stop, ?_⟩
  have happend := deadlines_append [event] h
  rw [hdeadlines, List.cons_append, List.cons_append] at happend
  exact ⟨_, state, happend, arrives_append harrives _, takesAll_append htakes _⟩

/-- A command is written behind a deadline of its own. -/
theorem send_spec (bytes : List Byte) (operation : String) (self : DrawBridge)
    (old : History wireSig) :
    (send bytes operation).wlp (.any wireSig) (fun _ _ _ => True)
      (fun result next h => next = self ∧ ∃ stop new, h = new ++ ⟨.deadline, stop⟩ :: old ∧
        Written bytes stop result new) self old := by
  refine ⟨trivial, fun stop _ => ?_⟩
  refine Fallible.wlp_seq (writeAllUntil_spec operation bytes stop self _) ?_ ?_
  · rintro e next h ⟨rfl, new, rfl, hwritten⟩
    refine ⟨rfl, stop, new, rfl, ?_⟩
    cases hwritten with
    | taken only took came => exact .taken only took came
    | expired only took came => exact .expired only took came
    | broken failed => exact .broken failed
  · rintro left next h ⟨rfl, new, rfl, hwritten⟩
    cases hwritten with
    | taken only took came => exact ⟨rfl, stop, new, rfl, .taken only took came⟩

/-- The stop command, once the stream is complete. -/
theorem stopStream_ended {mode : ReadMode} {highDensity : Bool} {deadline left : Nat}
    {state : Stream} {new : History wireSig} (only : OnlyPolls new)
    (came : ∀ later, arrives (Stream.next mode highDensity) Stream.start deadline
      (polls new ++ later) = some (state, left)) (self : DrawBridge) :
    (stopStream mode state left).wlp (.any wireSig) (fun _ _ _ => True)
      (fun _ _ h => StreamEnded STOP (CompleteInTime mode highDensity) h) self
        (new ++ [⟨.deadline, deadline⟩]) := by
  have hstreamed := only.streamed deadline
  have hstopped : ∀ {stop more}, OnlyWrites more → bytesTaken more = STOP →
      (∀ later, takesAll STOP.length stop (offers more ++ later) = true) →
      StopSent STOP (more ++ ⟨.deadline, stop⟩ :: (new ++ [⟨.deadline, deadline⟩])) ∧
        CompleteInTime mode highDensity
          (more ++ ⟨.deadline, stop⟩ :: (new ++ [⟨.deadline, deadline⟩])) := by
    intro stop more writes took taken
    refine ⟨stopSent_of_taken ((bytesTaken_deadline _ _).trans hstreamed.taken) took,
      deadline, stop, [], (state, left), ?_, ?_, ?_⟩
    · rw [deadlines_append, writes.deadlines, deadlines, hstreamed.deadlines]
      rfl
    · rw [polls_append, writes.polls, List.append_nil]
      show arrives _ _ _ (polls (new ++ [⟨.deadline, deadline⟩]) ++ []) = _
      rw [hstreamed.polls]
      exact came _
    · rw [offers_append, offers_deadline, hstreamed.offers, List.nil_append,
        ← List.append_nil (offers more)]
      exact taken []
  refine Fallible.wlp_seq (send_spec STOP "DrawBridge stop stream" self _) ?_ ?_
  · rintro e next h ⟨rfl, stop, more, rfl, hwritten⟩
    cases hwritten with
    | taken writes took taken => exact Or.inl (hstopped writes took taken)
    | expired writes took taken =>
      -- the port has not taken it all before the deadline of the stop command
      have hnothing := (bytesTaken_deadline stop _).trans hstreamed.taken
      refine Or.inr (Or.inr ⟨not_stopSent_of_fewer hnothing took, ?_⟩)
      rintro ⟨first, again, rest, _, hwanted, -, htakes⟩
      rw [deadlines_append, writes.deadlines, deadlines, hstreamed.deadlines] at hwanted
      injection hwanted with _ htail
      injection htail with hstop _
      rw [offers_append, offers_deadline, hstreamed.offers, List.nil_append, ← hstop, taken]
        at htakes
      cases htakes
    | broken failed => exact Or.inr (Or.inl (failed.new _))
  · rintro _ next h ⟨rfl, stop, more, rfl, hwritten⟩
    cases hwritten with
    | taken writes took taken =>
      exact Prog.wlp_mono (Prog.wlp_of_lasting (stopped_lasting mode highDensity) _
        (hstopped writes took taken)) fun _ _ _ hstopped => Or.inl hstopped

/-- Every run ends in one of the three ways. -/
theorem captureStream_ended (mode : ReadMode) (self : DrawBridge) :
    (captureStream mode).wlp (.any wireSig) (fun _ _ _ => True)
      (fun _ _ h => StreamEnded STOP (CompleteInTime mode self.highDensity) h) self [] := by
  refine ⟨trivial, fun deadline _ => ?_⟩
  show Fallible.wlp _ _ _ (eachByte "DrawBridge track stream" (Stream.next mode self.highDensity)
    deadline Stream.start deadline >>= fun read => stopStream mode read.1 read.2) _ _
  refine eachByte_ended (List.cons_ne_nil _ _) ?_
    fun new state left only came => stopStream_ended only came self
  -- no deadline was set for the stop command
  rintro new only - ⟨first, left, rest, _, hwanted, -⟩
  rw [(only.streamed deadline).deadlines] at hwanted
  injection hwanted with _ htail
  cases htail

end DrawBridge

/-! ## SuperCard Pro -/

namespace SuperCardPro

/-- The stop packet. -/
def STOP : List Byte := [0xaf, 0x00, 0xf9]

theorem packet_stopStream : packet .stopStream [] = .ok STOP := by decide

/-- The stream was complete before the ceiling and before the deadline, and the port took the stop
packet in what was left of that deadline. -/
def CompleteInTime (mode : ReadMode) (highDensity : Bool) (h : History wireSig) : Prop :=
  ∃ deadline rest state left, deadlines h = deadline :: rest ∧
    arrives (Stream.next mode highDensity) Stream.start deadline (polls h) = some (state, left) ∧
    takesAll STOP.length left (offers h) = true

theorem stopped_lasting (mode : ReadMode) (highDensity : Bool) (event : Event wireSig)
    (h : History wireSig) (hstopped : StopSent STOP h ∧ CompleteInTime mode highDensity h) :
    StopSent STOP (event :: h) ∧ CompleteInTime mode highDensity (event :: h) := by
  obtain ⟨hsent, deadline, rest, state, left, hdeadlines, harrives, htakes⟩ := hstopped
  refine ⟨hsent.cons event, deadline, ?_⟩
  have happend := deadlines_append [event] h
  rw [hdeadlines, List.cons_append] at happend
  exact ⟨_, state, left, happend, arrives_append harrives _, takesAll_append htakes _⟩

/-- The stop command, once the stream is complete. -/
theorem stopStream_ended {mode : ReadMode} {highDensity : Bool} {deadline left : Nat}
    {state : Stream} {new : History wireSig} (only : OnlyPolls new)
    (came : ∀ later, arrives (Stream.next mode highDensity) Stream.start deadline
      (polls new ++ later) = some (state, left)) (self : SuperCardPro) :
    (stopStream mode state left).wlp (.any wireSig) (fun _ _ _ => True)
      (fun _ _ h => StreamEnded STOP (CompleteInTime mode highDensity) h) self
        (new ++ [⟨.deadline, deadline⟩]) := by
  have hstreamed := only.streamed deadline
  have hstopped : ∀ {more}, OnlyWrites more → bytesTaken more = STOP →
      (∀ later, takesAll STOP.length left (offers more ++ later) = true) →
      StopSent STOP (more ++ (new ++ [⟨.deadline, deadline⟩])) ∧
        CompleteInTime mode highDensity (more ++ (new ++ [⟨.deadline, deadline⟩])) := by
    intro more writes took taken
    refine ⟨stopSent_of_taken hstreamed.taken took, deadline, [], state, left, ?_, ?_, ?_⟩
    · rw [deadlines_append, writes.deadlines, hstreamed.deadlines]
      rfl
    · rw [polls_append, writes.polls, hstreamed.polls]
      exact came _
    · rw [offers_append, hstreamed.offers, List.nil_append, ← List.append_nil (offers more)]
      exact taken []
  unfold stopStream
  rw [packet_stopStream]
  show Fallible.wlp _ _ _ (writeAllUntil "SuperCard Pro stop stream" STOP left >>= _) _ _
  refine Fallible.wlp_seq
    (writeAllUntil_spec "SuperCard Pro stop stream" STOP left self _) ?_ ?_
  · rintro e next h ⟨rfl, more, rfl, hwritten⟩
    cases hwritten with
    | taken writes took taken => exact Or.inl (hstopped writes took taken)
    | expired writes took taken =>
      -- the port has not taken it all before the deadline, which the stop command shares
      refine Or.inr (Or.inr ⟨not_stopSent_of_fewer hstreamed.taken took, ?_⟩)
      rintro ⟨first, rest, _, again, hwanted, harrives, htakes⟩
      rw [deadlines_append, writes.deadlines, hstreamed.deadlines] at hwanted
      injection hwanted with hfirst _
      rw [polls_append, writes.polls, hstreamed.polls, ← hfirst, came []] at harrives
      injection harrives with hequal
      injection hequal with _ hleft
      rw [offers_append, hstreamed.offers, List.nil_append, ← hleft, taken] at htakes
      cases htakes
    | broken failed => exact Or.inr (Or.inl (failed.new _))
  · rintro _ next h ⟨rfl, more, rfl, hwritten⟩
    cases hwritten with
    | taken writes took taken =>
      exact Prog.wlp_mono (Prog.wlp_of_lasting (stopped_lasting mode highDensity) _
        (hstopped writes took taken)) fun _ _ _ hstopped => Or.inl hstopped

/-- Every run ends in one of the three ways. -/
theorem captureStream_ended (mode : ReadMode) (self : SuperCardPro) :
    (captureStream mode).wlp (.any wireSig) (fun _ _ _ => True)
      (fun _ _ h => StreamEnded STOP (CompleteInTime mode self.highDensity) h) self [] := by
  refine ⟨trivial, fun deadline _ => ?_⟩
  show Fallible.wlp _ _ _ (eachByte "SuperCard Pro flux stream" (Stream.next mode self.highDensity)
    deadline Stream.start deadline >>= fun read => stopStream mode read.1 read.2) _ _
  refine eachByte_ended (List.cons_ne_nil _ _) ?_
    fun new state left only came => stopStream_ended only came self
  rintro new only came ⟨first, rest, _, left, hwanted, harrives, -⟩
  rw [(only.streamed deadline).deadlines] at hwanted
  injection hwanted with hfirst _
  rw [(only.streamed deadline).polls, ← hfirst] at harrives
  cases came.symm.trans harrives

end SuperCardPro

/-! ## Both -/

/-- **Stopping.** A run of either backend tells the interface to stop, unless the port fails, for
exactly those streams that are complete in time. -/
theorem streamStops_iff (mode : ReadMode) :
    (∀ self h, Captured DrawBridge.captureStream mode self h →
      (StopsStream DrawBridge.STOP h ↔
        PortFailed h ∨ DrawBridge.CompleteInTime mode self.highDensity h)) ∧
    ∀ self h, Captured SuperCardPro.captureStream mode self h →
      (StopsStream SuperCardPro.STOP h ↔
        PortFailed h ∨ SuperCardPro.CompleteInTime mode self.highDensity h) := by
  constructor
  · rintro self h ⟨next, result, hwalk⟩
    exact StreamEnded.stops_iff (hwalk.wlp (DrawBridge.captureStream_ended mode self))
  · rintro self h ⟨next, result, hwalk⟩
    exact StreamEnded.stops_iff (hwalk.wlp (SuperCardPro.captureStream_ended mode self))

/-- A double density device at rest. -/
def doubleDensity : DrawBridge := ⟨DriveStatus.initial, (1, 8, 0), 0, false, false⟩

/-- A stream whose two index marks come at once. -/
def indexedStream : List Byte :=
  [0x80, 0x80, ascii 'X', ascii 'Y', ascii 'Z', ascii 'x', ascii '1']

/-- The history of a run with the given bytes. -/
def streamed (bytes : List Byte) : History wireSig :=
  ((DrawBridge.captureStream .compatible doubleDensity).runWith (answering bytes []) []).2

theorem captured_streamed {bytes : List Byte}
    (h : (((DrawBridge.captureStream .compatible doubleDensity).runWith
      (answering bytes []) []).1.result?).isSome = true) :
    Captured DrawBridge.captureStream .compatible doubleDensity (streamed bytes) := by
  obtain ⟨result, hresult⟩ := Option.isSome_iff_exists.mp h
  have hwalk : Walk (.any wireSig) _ (streamed bytes)
      (DrawBridge.captureStream .compatible doubleDensity) [] :=
    Prog.walk_runWith (fun _ _ _ _ => trivial) _ _
  rw [Prog.eq_ret hresult] at hwalk
  exact ⟨_, result, hwalk⟩

theorem streamStops_indexed : StopsStream DrawBridge.STOP (streamed indexedStream) ↔
    PortFailed (streamed indexedStream) ∨
      DrawBridge.CompleteInTime .compatible false (streamed indexedStream) :=
  (streamStops_iff .compatible).1 doubleDensity _ (captured_streamed (by decide +kernel))

/-- A disk without an index: the deadline passes, and the interface streams on. -/
theorem drawBridge_leaves_streaming :
    ¬ ∀ mode self h, Captured DrawBridge.captureStream mode self h →
      StopsStream DrawBridge.STOP h := by
  intro hstops
  have hquiet : (streamed (List.replicate 100 0x2a)).any failed = false := by decide +kernel
  have hnothing : bytesTaken (streamed (List.replicate 100 0x2a)) = [] := by decide +kernel
  rw [List.any_eq_false] at hquiet
  rcases hstops _ _ _ (@captured_streamed (List.replicate 100 0x2a) (by decide +kernel)) with
    ⟨event, hevent, hfailed⟩ | hsent
  · exact hquiet event hevent hfailed
  · rw [StopSent, hnothing] at hsent
    cases List.prefix_nil.mp hsent

end FluxBridge
