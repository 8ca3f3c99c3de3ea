import FluxBridge.Controller.CaptureCache

/-!
# Floors: what the caller has seen of a track

What the caller has seen of a track rules out older captures of it: a capture that was returned,
a capture that was retired, an event that says that the track was written or the disk changed.
Each of these is a `Floor` under what may be read later.

* `Fresh` — the captures in the cache stand on every floor, and so did every capture at the
  time it was returned
* `Respects` — what a step has to respect to keep that so
* `fresh_of_act` — it is enough
-/

namespace FluxBridge

open Atomic Atomic.Side

/-! ## Floors -/

/-- Whether an event speaks of a track. -/
def BridgeEvent.concerns (event : BridgeEvent) (track : TrackAddress) : Bool :=
  match event with
  | .diskChanged _ => true
  | .writeCompleted _ written _ | .writeFailed _ written _ => written = track
  | .disconnected _ => false

/-- A later capture has at least this device call and this generation. -/
structure Floor where
  readAt : Nat
  generation : Nat
  deriving DecidableEq, Repr

def Floor.none : Floor := ⟨0, 0⟩

/-- The capture stands on the floor. Generations count only as long as they do not wrap. -/
def Floor.Admits (floor : Floor) (taken : Nat) (c : Cached) : Prop :=
  floor.readAt ≤ c.readAt ∧
    (taken < USIZE_RANGE → floor.generation ≤ c.capture.generation)

/-- An event bars the captures taken before it was sent. -/
def Sent.floor (sent : Sent) (track : TrackAddress) : Floor :=
  if sent.event.concerns track then ⟨sent.sentAt + 1, sent.taken + 1⟩ else .none

/-- What one step shows the caller of a track; `maxCylinders` is the bridge's. -/
def floorOf (maxCylinders : Nat) (track : TrackAddress) : Event controllerSig → Floor
  | ⟨.tryRecvEvent, some sent⟩ => sent.floor track
  | ⟨.returned (.readTrack asked) (.capture (.ok (some c))), _⟩ =>
    if clampTrack asked maxCylinders = track then ⟨0, c.capture.generation⟩ else .none
  | ⟨.retireFront retired, some c⟩ =>
    if retired = track then ⟨0, c.capture.generation + 1⟩ else .none
  | _ => .none

/-- All floors under a track: what the caller has seen, and what it may still poll. -/
def floors (maxCylinders : Nat) (track : TrackAddress) (s : Snap controller) : List Floor :=
  s.trace.map (floorOf maxCylinders track) ++ s.world.events.map (·.floor track)

/-- The captures completed so far; each is stored before the next begins. -/
def completed : List (Event controllerSig) → Nat
  | [] => 0
  | ⟨.withdraw, _⟩ :: rest => completed rest + 1
  | _ :: rest => completed rest

/--
Every capture stood on what the caller had seen before, when it was returned, and every event
that a poll returned had come out of the channel.
-/
def Honest (maxCylinders taken : Nat) : List (Event controllerSig) → Prop
  | [] => True
  | e :: older =>
    (match e with
      | ⟨.returned (.readTrack asked) (.capture (.ok (some c))), _⟩ =>
        ∀ e' ∈ older, (floorOf maxCylinders (clampTrack asked maxCylinders) e').Admits taken c
      | ⟨.returned .pollEvent (.event (some sent)), _⟩ => ⟨.tryRecvEvent, some sent⟩ ∈ older
      | _ => True) ∧ Honest maxCylinders taken older

/-- The invariant. -/
structure Fresh (maxCylinders : Nat) (s : Snap controller) : Prop where
  bounded : s.world.Bounded
  ordered : s.world.taken < USIZE_RANGE → ∀ track,
    (s.world.queue track).Pairwise fun a b => a.capture.generation < b.capture.generation
  numbered : s.world.taken < USIZE_RANGE → ∀ track, ∀ c ∈ s.world.queue track,
    c.capture.generation ≤ s.world.taken
  admitted : ∀ track, ∀ f ∈ floors maxCylinders track s, ∀ c ∈ s.world.queue track,
    f.Admits s.world.taken c
  reached : ∀ track, ∀ f ∈ floors maxCylinders track s,
    f.readAt ≤ s.world.deviceCalls + 1 ∧
      (s.world.taken < USIZE_RANGE → f.generation ≤ s.world.taken + 1)
  /-- a capture just stored has the number of the last one taken -/
  stored : ∀ track capture r rest, s.trace = ⟨.storeCapture track capture, r⟩ :: rest →
    capture.generation = s.world.taken % USIZE_RANGE
  honest : Honest maxCylinders s.world.taken s.trace

theorem Floor.Admits.mono {f : Floor} {n n' : Nat} {c : Cached} (h : f.Admits n c)
    (hn : n ≤ n') : f.Admits n' c :=
  ⟨h.1, fun hlt => h.2 (Nat.lt_of_le_of_lt hn hlt)⟩

theorem Floor.none_admits {n : Nat} {c : Cached} : Floor.none.Admits n c :=
  ⟨Nat.zero_le _, fun _ => Nat.zero_le _⟩

theorem Honest.mono {maxCylinders n n' : Nat} (hn : n ≤ n') :
    ∀ {trace : List (Event controllerSig)}, Honest maxCylinders n trace →
      Honest maxCylinders n' trace
  | [], _ => trivial
  | e :: older, h => by
    refine ⟨?_, Honest.mono hn h.2⟩
    have h1 := h.1
    revert h1
    split
    · exact fun h1 e' he' => (h1 e' he').mono hn
    · exact fun h1 => h1
    · exact fun h1 => h1

namespace Freshness

variable {maxCylinders : Nat} {s s' : Snap controller} {o : Op} {i : Outside} {r : o.Ret}

/-! ## New floors -/

/-- The floor a step brings, apart from those that were there before. -/
inductive NewFloor (maxCylinders : Nat) (track : TrackAddress) (s : Snap controller) :
    (o : Op) → o.Ret → Floor → Prop
  | none {o : Op} {r : o.Ret} : NewFloor maxCylinders track s o r .none
  | sent {event : BridgeEvent} {r : Bool} : NewFloor maxCylinders track s (.trySendEvent event) r
      (Sent.floor ⟨event, s.world.deviceCalls, s.world.taken⟩ track)
  | retired {c : Cached} : NewFloor maxCylinders track s (.retireFront track) (some c)
      ⟨0, c.capture.generation + 1⟩
  | read {asked : TrackAddress} {c : Cached} {r : Unit}
      (htrack : clampTrack asked maxCylinders = track) :
      NewFloor maxCylinders track s (.returned (.readTrack asked) (.capture (.ok (some c)))) r
        ⟨0, c.capture.generation⟩

theorem floorOf_new {track : TrackAddress} (h : exec o i s.world = some (r, s'.world)) :
    floorOf maxCylinders track ⟨o, r⟩ ∈ floors maxCylinders track s ∨
      NewFloor maxCylinders track s o r (floorOf maxCylinders track ⟨o, r⟩) := by
  cases o
  case tryRecvEvent =>
    cases r with
    | none => exact Or.inr .none
    | some sent =>
      -- a polled event was in the channel before
      refine Or.inl (List.mem_append_right _ (List.mem_map.mpr ⟨sent, ?_, rfl⟩))
      rw [exec_tryRecvEvent h]
      exact List.mem_cons_self
  case retireFront retired =>
    refine Or.inr ?_
    cases r with
    | none => exact .none
    | some c =>
      show NewFloor _ _ _ _ _ (if retired = track then _ else _)
      split
      · next htrack => exact htrack ▸ .retired
      · exact .none
  case returned call answer =>
    refine Or.inr ?_
    unfold floorOf
    split
    · next heq => cases heq
    · next heq =>
      cases heq
      split
      · next htrack => exact .read htrack
      · exact .none
    · next heq => cases heq
    · exact .none
  all_goals exact Or.inr .none

theorem floors_of_act {track : TrackAddress} {f : Floor}
    (h : controller.act o i s = some (r, s')) (hf : f ∈ floors maxCylinders track s') :
    f ∈ floors maxCylinders track s ∨ NewFloor maxCylinders track s o r f := by
  obtain ⟨hexec, htrace⟩ := Machine.act_eq_some.mp h
  unfold floors at hf
  rw [htrace, List.map_cons, List.cons_append, List.mem_cons, List.mem_append] at hf
  rcases hf with rfl | hf | hf
  · exact floorOf_new hexec
  · exact Or.inl (List.mem_append_left _ hf)
  · rw [List.mem_map] at hf
    obtain ⟨sent, hsent, rfl⟩ := hf
    rcases event_of_exec hexec hsent with hold | ⟨event, rfl, rfl⟩
    · exact Or.inl (List.mem_append_right _ (List.mem_map_of_mem hold))
    · exact Or.inr .sent

/-! ## What a step has to respect -/

/-- What a call may return. -/
def Returns (maxCylinders : Nat) (call : Call) (answer : Answer) (s : Snap controller) : Prop :=
  match call, answer with
  | .readTrack asked, .capture (.ok (some c)) =>
    (∀ e ∈ s.trace,
      (floorOf maxCylinders (clampTrack asked maxCylinders) e).Admits s.world.taken c) ∧
    (s.world.taken < USIZE_RANGE → c.capture.generation ≤ s.world.taken ∧
      ∀ c' ∈ s.world.queue (clampTrack asked maxCylinders),
        c.capture.generation ≤ c'.capture.generation)
  | .pollEvent, .event (some sent) => ⟨.tryRecvEvent, some sent⟩ ∈ s.trace
  | _, _ => True

/-- What a step has to respect. -/
structure Respects (maxCylinders : Nat) (o : Op) (s : Snap controller) : Prop where
  store : ∀ track capture, o = .storeCapture track capture →
    capture.generation = (s.world.taken + 1) % USIZE_RANGE ∧
      ∀ f ∈ floors maxCylinders track s, f.readAt ≤ s.world.lastRead
  send : ∀ event, o = .trySendEvent event →
    ∀ track, event.concerns track = true → s.world.queue track = []
  answer : ∀ call answer, o = .returned call answer → Returns maxCylinders call answer s

theorem taken_le (h : exec o i s.world = some (r, s'.world)) :
    s.world.taken ≤ s'.world.taken := by
  by_cases ho : o.stores = true
  · cases o <;> simp only [Op.stores, Bool.false_eq_true] at ho
    rw [(exec_storeCapture h).2]
    exact Nat.le_succ _
  · rw [exec_taken h (by simpa using ho)]

theorem deviceCalls_le (h : exec o i s.world = some (r, s'.world)) :
    s.world.deviceCalls ≤ s'.world.deviceCalls := by
  rw [exec_deviceCalls h]
  omega

/-- A stored capture is numbered right behind the captures taken before. -/
theorem stored_number {track : TrackAddress} {capture : TrackCapture} {r : Option TrackAddress}
    (h : exec (.storeCapture track capture) i s.world = some (r, s'.world))
    (hok : Respects maxCylinders (.storeCapture track capture) s)
    (hlt : s'.world.taken < USIZE_RANGE) :
    s'.world.taken = s.world.taken + 1 ∧ capture.generation = s.world.taken + 1 := by
  have htaken : s'.world.taken = s.world.taken + 1 := by
    rw [(exec_storeCapture h).2]
    rfl
  refine ⟨htaken, ?_⟩
  rw [(hok.store track capture rfl).1, Nat.mod_eq_of_lt (by omega)]

section Preserved

variable (hfresh : Fresh maxCylinders s) (hok : Respects maxCylinders o s)
  (h : controller.act o i s = some (r, s'))

include hfresh hok h

theorem ordered_of_act (hlt : s'.world.taken < USIZE_RANGE) (track : TrackAddress) :
    (s'.world.queue track).Pairwise fun a b =>
      a.capture.generation < b.capture.generation := by
  have hexec := exec_of_act h
  have hlt₀ : s.world.taken < USIZE_RANGE := Nat.lt_of_le_of_lt (taken_le hexec) hlt
  refine List.Pairwise.sublist (exec_queue hexec track) ?_
  rw [List.pairwise_append]
  refine ⟨hfresh.ordered hlt₀ track, ?_, ?_⟩
  · unfold Op.stored
    split
    · split
      · exact List.pairwise_singleton _ _
      · exact List.Pairwise.nil
    · exact List.Pairwise.nil
  · intro a ha b hb
    unfold Op.stored at hb
    split at hb
    · next key capture =>
      split at hb
      · obtain ⟨-, hnumber⟩ := stored_number hexec hok hlt
        rw [List.mem_singleton] at hb
        have hle := hfresh.numbered hlt₀ track a ha
        rw [hb]
        show _ < capture.generation
        omega
      · simp at hb
    · simp at hb

theorem numbered_of_act (hlt : s'.world.taken < USIZE_RANGE) (track : TrackAddress) :
    ∀ c ∈ s'.world.queue track, c.capture.generation ≤ s'.world.taken := by
  intro c hc
  have hexec := exec_of_act h
  have hle := taken_le hexec
  rcases mem_of_exec hexec hc with hold | ⟨capture, rfl, rfl⟩
  · have := hfresh.numbered (by omega) track c hold
    omega
  · obtain ⟨htaken, hnumber⟩ := stored_number hexec hok hlt
    show capture.generation ≤ _
    omega

/-- An old floor admits what is in the cache after the step. -/
theorem admitted_old {track : TrackAddress} {f : Floor} {c : Cached}
    (hf : f ∈ floors maxCylinders track s) (hc : c ∈ s'.world.queue track) :
    f.Admits s'.world.taken c := by
  have hexec := exec_of_act h
  rcases mem_of_exec hexec hc with hold | ⟨capture, rfl, rfl⟩
  · exact (hfresh.admitted track f hf c hold).mono (taken_le hexec)
  · refine ⟨(hok.store track capture rfl).2 f hf, fun hlt => ?_⟩
    obtain ⟨htaken, hnumber⟩ := stored_number hexec hok hlt
    have hreached := (hfresh.reached track f hf).2 (by omega)
    show _ ≤ capture.generation
    omega

theorem admitted_new {track : TrackAddress} {f : Floor} {c : Cached}
    (hf : NewFloor maxCylinders track s o r f) (hc : c ∈ s'.world.queue track) :
    f.Admits s'.world.taken c := by
  have hexec := exec_of_act h
  cases hf with
  | none => exact Floor.none_admits
  | @sent event =>
    unfold Sent.floor
    split
    · next hconcerns =>
      -- the track was emptied before the event is sent
      have hempty : s.world.queue track = [] := hok.send event rfl track hconcerns
      rw [World.queue_eq_of_captures (exec_captures hexec rfl), hempty] at hc
      simp at hc
    · exact Floor.none_admits
  | @retired front =>
    obtain ⟨hfront, hworld⟩ := exec_retireFront hexec
    rw [hworld, World.queue_retire, if_pos rfl] at hc
    refine ⟨Nat.zero_le _, fun hlt => ?_⟩
    -- what is left in the queue is newer than the front that was retired
    have hlt₀ : s.world.taken < USIZE_RANGE := Nat.lt_of_le_of_lt (taken_le hexec) hlt
    have hordered := hfresh.ordered hlt₀ track
    cases hq : s.world.queue track with
    | nil => simp [World.front, hq] at hfront
    | cons a rest =>
      rw [hq] at hordered hc
      simp only [World.front, hq, List.head?_cons, Option.some.injEq] at hfront
      rw [hfront]
      exact (List.pairwise_cons.mp hordered).1 c hc
  | @read asked front _ htrack =>
    have hreturns := (hok.answer _ _ rfl).2
    rw [World.queue_eq_of_captures (exec_captures hexec rfl)] at hc
    refine ⟨Nat.zero_le _, fun hlt => ?_⟩
    exact (hreturns (Nat.lt_of_le_of_lt (taken_le hexec) hlt)).2 c (htrack ▸ hc)

theorem reached_of_act {track : TrackAddress} {f : Floor}
    (hf : f ∈ floors maxCylinders track s') : f.readAt ≤ s'.world.deviceCalls + 1 ∧
      (s'.world.taken < USIZE_RANGE → f.generation ≤ s'.world.taken + 1) := by
  have hexec := exec_of_act h
  have hcalls := deviceCalls_le hexec
  have htaken := taken_le hexec
  -- the counts only grow, so an older floor stays within reach
  have hold : ∀ f ∈ floors maxCylinders track s, f.readAt ≤ s'.world.deviceCalls + 1 ∧
      (s'.world.taken < USIZE_RANGE → f.generation ≤ s'.world.taken + 1) := by
    intro f hf
    obtain ⟨hread, hgen⟩ := hfresh.reached track f hf
    refine ⟨by omega, fun hlt => ?_⟩
    have := hgen (by omega)
    omega
  rcases floors_of_act h hf with hf | hf
  · exact hold f hf
  · cases hf with
    | none => exact ⟨Nat.zero_le _, fun _ => Nat.zero_le _⟩
    | sent =>
      unfold Sent.floor
      split
      · exact ⟨Nat.succ_le_succ hcalls, fun _ => Nat.succ_le_succ htaken⟩
      · exact ⟨Nat.zero_le _, fun _ => Nat.zero_le _⟩
    | @retired front =>
      refine ⟨Nat.zero_le _, fun hlt => ?_⟩
      have hfront : front ∈ s.world.queue track := by
        have := (exec_retireFront hexec).1
        exact List.mem_of_head? this.symm
      have hle := hfresh.numbered (by omega) track front hfront
      show front.capture.generation + 1 ≤ _
      omega
    | @read asked front _ _ =>
      refine ⟨Nat.zero_le _, fun hlt => ?_⟩
      have hle := ((hok.answer _ _ rfl).2 (by omega)).1
      show front.capture.generation ≤ _
      omega

theorem honest_of_act : Honest maxCylinders s'.world.taken s'.trace := by
  have hexec := exec_of_act h
  have htrace := (Machine.act_eq_some.mp h).2
  rw [htrace]
  refine ⟨?_, hfresh.honest.mono (taken_le hexec)⟩
  split
  · next asked c _ heq =>
    cases heq
    exact fun e' he' => ((hok.answer _ _ rfl).1 e' he').mono (taken_le hexec)
  · next heq =>
    cases heq
    exact hok.answer _ _ rfl
  · trivial

/-- **A step that respects what the caller has seen keeps the cache fresh.** -/
theorem fresh_of_act : Fresh maxCylinders s' where
  bounded := exec_bounded (Machine.act_eq_some.mp h).1 hfresh.bounded
  ordered := ordered_of_act hfresh hok h
  numbered := numbered_of_act hfresh hok h
  admitted track f hf c hc := by
    rcases floors_of_act h hf with hf | hf
    · exact admitted_old hfresh hok h hf hc
    · exact admitted_new hfresh hok h hf hc
  reached track f hf := reached_of_act hfresh hok h hf
  stored track capture r rest htrace := by
    obtain ⟨hexec, htrace'⟩ := Machine.act_eq_some.mp h
    rw [htrace] at htrace'
    cases htrace'
    rw [(hok.store track capture rfl).1, (exec_storeCapture hexec).2]
    rfl
  honest := honest_of_act hfresh hok h

end Preserved

end Freshness

end FluxBridge
