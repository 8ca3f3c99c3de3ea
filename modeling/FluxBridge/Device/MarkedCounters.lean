import FluxBridge.Device.WriteTranscripts
import FluxBridge.Device.StreamStop
import FluxBridge.Flux.IndexCut
import FluxBridge.Flux.Marks
import Mathlib.Data.List.Induction

/-!
# A SuperCard Pro read, from mark to mark

The interface counts the ticks between transitions in bytes: a zero stands for 256 ticks more, and
0xff announces an index mark, or a count that would be taken for something else.

* `Stream.ends_of_fed` — the loop reads the tokens of a stream, and no count saturates on the way
* `readStream_counted` — what a read that succeeds has heard, and what it is made of
-/

namespace FluxBridge

open Atomic Marks

namespace SuperCardPro

/-- What a stream is made of. -/
inductive Token where
  | mark
  | carry
  | interval (ticks : Byte) (plain : ticks ≠ 0 ∧ ticks ≠ 0xff)
  | escaped (ticks : Byte) (nonzero : ticks ≠ 0)

namespace Token

def bytes : Token → List Byte
  | .mark => [0xff, 0]
  | .carry => [0]
  | .interval ticks _ => [ticks]
  | .escaped ticks _ => [0xff, ticks]

def isMark : Token → Bool
  | .mark => true
  | _ => false

end Token

/-- Nanoseconds of so many ticks, in a field of 32 bits. -/
def nanoseconds (highDensity : Bool) (ticks : Nat) : Nat :=
  saturateU32 (ticks * readResolution highDensity)

/-- The transitions so far, the ticks since the last one, and whether a mark came by since. -/
structure Reel where
  events : List FluxEvent
  ticks : Nat
  index : Bool

namespace Reel

variable {highDensity : Bool}

/-- A transition after so many ticks more. -/
def transition (highDensity : Bool) (reel : Reel) (ticks : Nat) : Reel where
  events := reel.events ++ [⟨nanoseconds highDensity (reel.ticks + ticks), reel.index⟩]
  ticks := 0
  index := false

def wind (highDensity : Bool) (reel : Reel) : Token → Reel
  | .mark => { reel with index := true }
  | .carry => { reel with ticks := reel.ticks + 256 }
  | .interval ticks _ => reel.transition highDensity ticks.toNat
  | .escaped ticks _ => reel.transition highDensity ticks.toNat

/-- The reel of a stream. -/
def of (highDensity : Bool) (tokens : List Token) : Reel :=
  tokens.foldl (wind highDensity) ⟨[], 0, false⟩

theorem of_snoc (tokens : List Token) (token : Token) :
    of highDensity (tokens ++ [token]) = (of highDensity tokens).wind highDensity token := by
  unfold of
  rw [List.foldl_append]
  rfl

/-- The bytes of a stream. -/
def length (tokens : List Token) : Nat := (tokens.flatMap Token.bytes).length

theorem length_snoc (tokens : List Token) (token : Token) :
    length (tokens ++ [token]) = length tokens + token.bytes.length := by
  unfold length
  rw [List.flatMap_append, List.flatMap_singleton, List.length_append]

/-- The time that has passed up to the last transition. -/
def duration (reel : Reel) : Nat := (reel.events.map FluxEvent.nanoseconds).sum

theorem ticks_wind (reel : Reel) (token : Token) :
    (reel.wind highDensity token).ticks ≤ reel.ticks + 256 := by
  cases token with
  | mark => exact Nat.le_add_right _ _
  | carry => exact Nat.le_refl _
  | interval => exact Nat.zero_le _
  | escaped => exact Nat.zero_le _

theorem duration_transition (reel : Reel) (ticks : Nat) :
    (reel.transition highDensity ticks).duration =
      reel.duration + nanoseconds highDensity (reel.ticks + ticks) := by
  unfold duration transition
  rw [List.map_append, List.sum_append]
  rfl

theorem duration_wind (reel : Reel) (token : Token) :
    (reel.wind highDensity token).duration ≤ reel.duration + (U32_RANGE - 1) := by
  have hlongest : ∀ ticks, nanoseconds highDensity ticks ≤ U32_RANGE - 1 :=
    fun _ => Nat.min_le_right _ _
  cases token with
  | mark => exact Nat.le_add_right _ _
  | carry => exact Nat.le_add_right _ _
  | interval ticks =>
    exact (duration_transition reel _).le.trans (Nat.add_le_add_left (hlongest _) _)
  | escaped ticks =>
    exact (duration_transition reel _).le.trans (Nat.add_le_add_left (hlongest _) _)

theorem bytes_pos (token : Token) : 1 ≤ token.bytes.length := by
  cases token with
  | mark => decide
  | carry => decide
  | interval => exact Nat.le_refl 1
  | escaped => exact Nat.le_succ 1

/-- No byte counts for more than 256 ticks, or for more than the longest interval. -/
theorem bounds (tokens : List Token) :
    (of highDensity tokens).ticks ≤ 256 * length tokens ∧
      (of highDensity tokens).duration ≤ (U32_RANGE - 1) * length tokens := by
  induction tokens using List.reverseRecOn with
  | nil => exact ⟨Nat.zero_le _, Nat.zero_le _⟩
  | append_singleton tokens token ih =>
    rw [of_snoc, length_snoc, Nat.mul_add, Nat.mul_add]
    have hticks := @ticks_wind highDensity (of highDensity tokens) token
    have hduration := @duration_wind highDensity (of highDensity tokens) token
    have hpos := bytes_pos token
    have hlongest := Nat.mul_le_mul_left (U32_RANGE - 1) hpos
    omega

/-- Below the ceiling nothing saturates but a single interval. -/
theorem fits {tokens : List Token} (hroom : length tokens < MAX_STREAM_BYTES) :
    (of highDensity tokens).ticks + 256 < U32_RANGE ∧
      (of highDensity tokens).duration + (U32_RANGE - 1) < U64_MAX := by
  obtain ⟨hticks, hduration⟩ := @bounds highDensity tokens
  have hceiling : MAX_STREAM_BYTES = 2 ^ 20 := by decide
  have hrange : U32_RANGE = 2 ^ 32 := rfl
  have hmax : U64_MAX = 2 ^ 64 - 1 := rfl
  rw [hceiling] at hroom
  rw [hrange] at hduration ⊢
  rw [hmax]
  omega

end Reel

/-! ## The loop -/

namespace Stream

variable {mode : ReadMode} {highDensity : Bool} {state last : Stream} {tokens : List Token}

/-- What was read of a token that is not complete. -/
def trail (state : Stream) : List Byte := if state.sawFf then [0xff] else []

/-- What was read. -/
def heard (tokens : List Token) (state : Stream) : List Byte :=
  tokens.flatMap Token.bytes ++ state.trail

/-- The time an immediate read takes. -/
def TARGET : Nat := 260000000

/-- The variables of the loop while it goes on behind these tokens. -/
structure Follows (mode : ReadMode) (highDensity : Bool) (tokens : List Token) (state : Stream) :
    Prop where
  events : state.events = (Reel.of highDensity tokens).events
  ticks : state.pendingTicks = (Reel.of highDensity tokens).ticks
  index : state.pendingIndex = (Reel.of highDensity tokens).index
  duration : state.duration = (Reel.of highDensity tokens).duration
  marks : state.indices = min (tokens.countP Token.isMark) 255
  seen : state.bytesSeen = (heard tokens state).length
  early : mode = .normal → (Reel.of highDensity tokens).duration < TARGET
  one : mode ≠ .normal → tokens.countP Token.isMark ≤ 1

/-- Where the loop ends: an immediate read with the first transition that is late enough, and a read
from index to index with the second mark. -/
def Ends (mode : ReadMode) (highDensity : Bool) (tokens : List Token) (events : List FluxEvent) :
    Prop :=
  ∃ front last, tokens = front ++ [last] ∧
    if mode = .normal then (Reel.of highDensity front).duration < TARGET ∧
      TARGET ≤ (Reel.of highDensity tokens).duration ∧ events = (Reel.of highDensity tokens).events
    else last = .mark ∧ front.countP Token.isMark = 1 ∧ events = (Reel.of highDensity front).events

theorem length_heard (tokens : List Token) (state : Stream) :
    Reel.length tokens ≤ (heard tokens state).length := by
  unfold heard Reel.length
  rw [List.length_append]
  exact Nat.le_add_right _ _

/-- What one byte does. -/
def Steps (mode : ReadMode) (highDensity : Bool) (read : List Byte) (fed : Stream × Bool) : Prop :=
  ∃ tokens, (fed.2 = false ∧ Follows mode highDensity tokens fed.1 ∧ heard tokens fed.1 = read) ∨
    (fed.2 = true ∧ tokens.flatMap Token.bytes = read ∧
      Ends mode highDensity tokens fed.1.events)

/-- A transition. -/
theorem Follows.emit (hfollows : Follows mode highDensity tokens state)
    (hroom : state.bytesSeen < MAX_STREAM_BYTES) (token : Token) {byte : Byte}
    (hwind : (Reel.of highDensity tokens).wind highDensity token =
      (Reel.of highDensity tokens).transition highDensity byte.toNat)
    (hbytes : token.bytes = state.trail ++ [byte]) (hmark : token.isMark = false) :
    let ended := Stream.emit highDensity
      { state with
        bytesSeen := state.bytesSeen + 1
        sawFf := false
        pendingTicks := saturateU32 (state.pendingTicks + byte.toNat) }
    Steps mode highDensity (heard tokens state ++ [byte])
      (ended, decide (targetDuration mode ≤ ended.duration)) := by
  intro ended
  have hlength : Reel.length tokens < MAX_STREAM_BYTES :=
    (length_heard tokens state).trans_lt (hfollows.seen ▸ hroom)
  obtain ⟨hticks, hduration⟩ := @Reel.fits highDensity _ hlength
  have hreel : Reel.of highDensity (tokens ++ [token]) =
      (Reel.of highDensity tokens).transition highDensity byte.toNat :=
    (Reel.of_snoc tokens token).trans hwind
  have hread : (tokens ++ [token]).flatMap Token.bytes = heard tokens state ++ [byte] := by
    unfold heard
    rw [List.flatMap_append, List.flatMap_singleton, hbytes, List.append_assoc]
  have hmarks : (tokens ++ [token]).countP Token.isMark = tokens.countP Token.isMark := by
    rw [List.countP_append, List.countP_singleton, hmark]
    rfl
  have hcounted : nanoseconds highDensity ((Reel.of highDensity tokens).ticks + byte.toNat) =
      saturateU32 (saturateU32 (state.pendingTicks + byte.toNat) * readResolution highDensity) := by
    have hfit : saturateU32 (state.pendingTicks + byte.toNat) =
        (Reel.of highDensity tokens).ticks + byte.toNat := by
      have hbyte := byte.isLt
      rw [hfollows.ticks]
      unfold saturateU32
      omega
    rw [hfit]
    rfl
  have hevents : ended.events = (Reel.of highDensity (tokens ++ [token])).events := by
    rw [hreel]
    show state.events ++ [⟨saturateU32 _, state.pendingIndex⟩] = _ ++ [⟨_, _⟩]
    rw [hcounted, hfollows.events, hfollows.index]
  have hended : ended.duration = (Reel.of highDensity (tokens ++ [token])).duration := by
    rw [hreel, Reel.duration_transition]
    show saturateU64 (state.duration + saturateU32 _) = _
    rw [← hcounted, hfollows.duration]
    have hlongest : nanoseconds highDensity ((Reel.of highDensity tokens).ticks + byte.toNat) ≤
        U32_RANGE - 1 := Nat.min_le_right _ _
    unfold saturateU64
    omega
  have hgoes : (mode = .normal → ended.duration < TARGET) →
      Follows mode highDensity (tokens ++ [token]) ended := fun hearly =>
    { events := hevents
      ticks := by
        rw [hreel]
        rfl
      index := by
        rw [hreel]
        rfl
      duration := hended
      marks := by
        rw [hmarks]
        exact hfollows.marks
      seen := by
        show state.bytesSeen + 1 = ((tokens ++ [token]).flatMap Token.bytes ++ []).length
        rw [hread, List.append_nil, List.length_append, ← hfollows.seen]
        rfl
      early := fun hmode => hended ▸ hearly hmode
      one := fun hmode => by
        rw [hmarks]
        exact hfollows.one hmode }
  refine ⟨tokens ++ [token], ?_⟩
  by_cases hlate : targetDuration mode ≤ ended.duration
  · refine .inr ⟨decide_eq_true hlate, hread, tokens, token, rfl, ?_⟩
    unfold targetDuration at hlate
    split at hlate
    · next hmode =>
      rw [if_pos hmode]
      exact ⟨hfollows.early hmode, hended ▸ hlate, hevents⟩
    · have hbound := @Reel.duration_wind highDensity (Reel.of highDensity tokens) token
      rw [← Reel.of_snoc, ← hended] at hbound
      omega
  · refine .inl ⟨decide_eq_false hlate, hgoes fun hmode => ?_, ?_⟩
    · rw [targetDuration, if_pos hmode] at hlate
      exact Nat.not_le.mp hlate
    · show (tokens ++ [token]).flatMap Token.bytes ++ [] = _
      rw [List.append_nil, hread]

/-- An index mark. -/
theorem Follows.mark (hfollows : Follows mode highDensity tokens state)
    (hff : state.trail = [0xff]) :
    let marked : Stream :=
      { state with
        bytesSeen := state.bytesSeen + 1
        sawFf := false
        indices := min (state.indices + 1) 255 }
    Steps mode highDensity (heard tokens state ++ [0])
      (if 2 ≤ marked.indices ∧ mode ≠ .normal then (marked, true)
        else ({ marked with pendingIndex := true }, false)) := by
  intro marked
  have hread : (tokens ++ [Token.mark]).flatMap Token.bytes = heard tokens state ++ [0] := by
    unfold heard
    rw [List.flatMap_append, List.flatMap_singleton, hff, List.append_assoc]
    rfl
  have hmarks : (tokens ++ [Token.mark]).countP Token.isMark = tokens.countP Token.isMark + 1 := by
    rw [List.countP_append]
    rfl
  have hcount : marked.indices = min (tokens.countP Token.isMark + 1) 255 := by
    show min (state.indices + 1) 255 = _
    rw [hfollows.marks]
    omega
  refine ⟨tokens ++ [.mark], ?_⟩
  split
  · next hsecond =>
    obtain ⟨htwo, hmode⟩ := hsecond
    refine .inr ⟨rfl, hread, tokens, .mark, rfl, ?_⟩
    rw [if_neg hmode]
    have hone := hfollows.one hmode
    exact ⟨rfl, by omega, hfollows.events⟩
  · next hfirst =>
    refine .inl ⟨rfl, ?_, ?_⟩
    · constructor
      · rw [Reel.of_snoc]
        exact hfollows.events
      · rw [Reel.of_snoc]
        exact hfollows.ticks
      · rw [Reel.of_snoc]
        rfl
      · rw [Reel.of_snoc]
        exact hfollows.duration
      · rw [hmarks]
        exact hcount
      · show state.bytesSeen + 1 = ((tokens ++ [Token.mark]).flatMap Token.bytes ++ []).length
        rw [hread, List.append_nil, List.length_append, ← hfollows.seen]
        rfl
      · intro hmode
        rw [Reel.of_snoc]
        exact hfollows.early hmode
      · intro hmode
        have hless : ¬ 2 ≤ marked.indices := fun htwo => hfirst ⟨htwo, hmode⟩
        omega
    · show (tokens ++ [Token.mark]).flatMap Token.bytes ++ [] = _
      rw [List.append_nil, hread]

/-- A count that goes on. -/
theorem Follows.carry (hfollows : Follows mode highDensity tokens state)
    (hroom : state.bytesSeen < MAX_STREAM_BYTES) (htrail : state.trail = []) :
    Steps mode highDensity (heard tokens state ++ [0])
      ({ state with
        bytesSeen := state.bytesSeen + 1
        sawFf := false
        pendingTicks := saturateU32 (state.pendingTicks + 256) }, false) := by
  have hlength : Reel.length tokens < MAX_STREAM_BYTES :=
    (length_heard tokens state).trans_lt (hfollows.seen ▸ hroom)
  obtain ⟨hticks, -⟩ := @Reel.fits highDensity _ hlength
  have hread : heard (tokens ++ [Token.carry]) { state with
      bytesSeen := state.bytesSeen + 1
      sawFf := false
      pendingTicks := saturateU32 (state.pendingTicks + 256) } = heard tokens state ++ [0] := by
    show (tokens ++ [Token.carry]).flatMap Token.bytes ++ [] = _ ++ state.trail ++ _
    rw [htrail, List.flatMap_append, List.append_nil, List.append_nil]
    rfl
  have hmarks : (tokens ++ [Token.carry]).countP Token.isMark = tokens.countP Token.isMark := by
    rw [List.countP_append]
    rfl
  refine ⟨tokens ++ [.carry], .inl ⟨rfl, ?_, hread⟩⟩
  constructor
  · rw [Reel.of_snoc]
    exact hfollows.events
  · rw [Reel.of_snoc]
    show saturateU32 (state.pendingTicks + 256) = (Reel.of highDensity tokens).ticks + 256
    rw [hfollows.ticks]
    unfold saturateU32
    omega
  · rw [Reel.of_snoc]
    exact hfollows.index
  · rw [Reel.of_snoc]
    exact hfollows.duration
  · rw [hmarks]
    exact hfollows.marks
  · rw [hread, List.length_append, ← hfollows.seen]
    rfl
  · intro hmode
    rw [Reel.of_snoc]
    exact hfollows.early hmode
  · intro hmode
    rw [hmarks]
    exact hfollows.one hmode

/-- What may be a mark, or a count. -/
theorem Follows.escape (hfollows : Follows mode highDensity tokens state)
    (htrail : state.trail = []) :
    Steps mode highDensity (heard tokens state ++ [0xff])
      ({ state with bytesSeen := state.bytesSeen + 1, sawFf := true }, false) := by
  have hread : heard tokens { state with bytesSeen := state.bytesSeen + 1, sawFf := true } =
      heard tokens state ++ [0xff] := by
    show _ ++ [0xff] = _ ++ state.trail ++ _
    rw [htrail, List.append_nil]
  refine ⟨tokens, .inl ⟨rfl, ?_, hread⟩⟩
  exact { hfollows with
    seen := by
      rw [hread, List.length_append, ← hfollows.seen]
      rfl }

/-- One byte of a stream. -/
theorem Follows.feed (hfollows : Follows mode highDensity tokens state)
    (hroom : state.bytesSeen < MAX_STREAM_BYTES) (byte : Byte) :
    Steps mode highDensity (heard tokens state ++ [byte]) (state.feed mode highDensity byte) := by
  unfold Stream.feed
  dsimp only
  cases hff : state.sawFf with
  | true =>
    have htrail : state.trail = [0xff] := by
      unfold trail
      rw [hff]
      rfl
    rw [if_pos rfl]
    split
    · next hzero =>
      rw [hzero]
      exact hfollows.mark htrail
    · next hzero =>
      exact hfollows.emit hroom (.escaped byte hzero) rfl (by rw [htrail]; rfl) rfl
  | false =>
    have htrail : state.trail = [] := by
      unfold trail
      rw [hff]
      rfl
    rw [if_neg Bool.false_ne_true]
    split
    · next hbyte =>
      rw [hbyte]
      exact hfollows.escape htrail
    split
    · next hbyte =>
      rw [hbyte]
      exact hfollows.carry hroom htrail
    · next hff hzero =>
      exact hfollows.emit hroom (.interval byte ⟨hzero, hff⟩) rfl (by rw [htrail]; rfl) rfl

theorem follows_start (mode : ReadMode) (highDensity : Bool) :
    Follows mode highDensity [] start :=
  ⟨rfl, rfl, rfl, rfl, rfl, rfl, fun _ => (by decide : 0 < TARGET), fun _ => Nat.zero_le _⟩

/-- The loop reads tokens, and ends with one. -/
theorem ends_of_fed {bytes : List Byte} (hfed : Fed (next mode highDensity) state bytes last)
    (hroom : state.bytesSeen < MAX_STREAM_BYTES)
    (hfollows : Follows mode highDensity tokens state) :
    ∃ tokens', tokens'.flatMap Token.bytes = heard tokens state ++ bytes ∧
      (heard tokens state ++ bytes).length ≤ MAX_STREAM_BYTES ∧
        Ends mode highDensity tokens' last.events := by
  -- on the bytes: all but the last leave the loop going on
  induction hfed generalizing tokens with
  | @last state byte last ends =>
    obtain ⟨tokens', hsteps⟩ := hfollows.feed hroom byte
    unfold next at ends
    generalize state.feed mode highDensity byte = fed at ends hsteps
    obtain ⟨state', ended⟩ := fed
    rcases hsteps with ⟨hgoes, -, -⟩ | ⟨hended, hread, hends⟩
    · obtain rfl : ended = false := hgoes
      dsimp only at ends
      rw [if_neg Bool.false_ne_true] at ends
      split at ends
      · cases ends
      · cases ends
    · obtain rfl : ended = true := hended
      cases ends
      refine ⟨tokens', hread, ?_, hends⟩
      rw [List.length_append, ← hfollows.seen]
      exact hroom
  | @more state state' byte bytes last goes rest ih =>
    obtain ⟨tokens', hsteps⟩ := hfollows.feed hroom byte
    unfold next at goes
    generalize state.feed mode highDensity byte = fed at goes hsteps
    obtain ⟨fed, ended⟩ := fed
    rcases hsteps with ⟨hgoes, hfollows', hread⟩ | ⟨hended, -, -⟩
    · obtain rfl : ended = false := hgoes
      dsimp only at goes
      rw [if_neg Bool.false_ne_true] at goes
      split at goes
      · cases goes
      · next hmore =>
        cases goes
        obtain ⟨tokens'', hread', hlength, hends⟩ := ih (Nat.not_le.mp hmore) hfollows'
        rw [show heard tokens' state' = _ from hread, List.append_assoc,
          List.singleton_append] at hread' hlength
        exact ⟨tokens'', hread', hlength, hends⟩
    · obtain rfl : ended = true := hended
      cases goes

end Stream

/-! ## Between the marks -/

/-- The ticks between the transitions, when so many are pending. -/
def intervals (pending : Nat) : List Token → List Nat
  | [] => []
  | .mark :: tokens => intervals pending tokens
  | .carry :: tokens => intervals (pending + 256) tokens
  | .interval ticks _ :: tokens => (pending + ticks.toNat) :: intervals 0 tokens
  | .escaped ticks _ :: tokens => (pending + ticks.toNat) :: intervals 0 tokens

/-- The ticks that are pending behind the last transition. -/
def pendingBehind (pending : Nat) : List Token → Nat
  | [] => pending
  | .mark :: tokens => pendingBehind pending tokens
  | .carry :: tokens => pendingBehind (pending + 256) tokens
  | .interval _ _ :: tokens => pendingBehind 0 tokens
  | .escaped _ _ :: tokens => pendingBehind 0 tokens

/-- Transitions after these ticks, the first of them behind a mark or not. -/
def transitions (highDensity index : Bool) : List Nat → List FluxEvent
  | [] => []
  | ticks :: rest =>
    ⟨nanoseconds highDensity ticks, index⟩ ::
      rest.map fun ticks => ⟨nanoseconds highDensity ticks, false⟩

theorem transitions_cons (highDensity index : Bool) (ticks : Nat) (rest : List Nat) :
    transitions highDensity index (ticks :: rest) =
      ⟨nanoseconds highDensity ticks, index⟩ :: transitions highDensity false rest := by
  cases rest with
  | nil => rfl
  | cons => rfl

theorem plain_transitions (highDensity : Bool) (ticks : List Nat) :
    Plain (transitions highDensity false ticks) := by
  induction ticks with
  | nil => exact nofun
  | cons ticks rest ih =>
    rw [transitions_cons]
    exact plain_cons.mpr ⟨rfl, ih⟩

theorem foldl_markless {highDensity : Bool} {tokens : List Token}
    (hmarkless : Markless Token.isMark tokens) (reel : Reel) :
    (tokens.foldl (Reel.wind highDensity) reel).events = reel.events ++
        transitions highDensity reel.index (intervals reel.ticks tokens) ∧
      (tokens.foldl (Reel.wind highDensity) reel).ticks = pendingBehind reel.ticks tokens := by
  induction tokens generalizing reel with
  | nil => exact ⟨(List.append_nil _).symm, rfl⟩
  | cons token tokens ih =>
    obtain ⟨htoken, hrest⟩ := markless_cons.mp hmarkless
    have htransition : ∀ ticks : Byte,
        (tokens.foldl (Reel.wind highDensity) (reel.transition highDensity ticks.toNat)).events =
            reel.events ++ transitions highDensity reel.index
              ((reel.ticks + ticks.toNat) :: intervals 0 tokens) ∧
          (tokens.foldl (Reel.wind highDensity) (reel.transition highDensity ticks.toNat)).ticks =
            pendingBehind 0 tokens := by
      intro ticks
      obtain ⟨hevents, hticks⟩ := ih hrest (reel.transition highDensity ticks.toNat)
      refine ⟨?_, hticks⟩
      rw [hevents, transitions_cons]
      show reel.events ++ [_] ++ _ = _
      rw [List.append_assoc]
      rfl
    cases token with
    | mark => cases htoken
    | carry => exact ih hrest { reel with ticks := reel.ticks + 256 }
    | interval ticks _ => exact htransition ticks
    | escaped ticks _ => exact htransition ticks

/-- The transitions in front of the first mark, and those behind it. -/
theorem events_marked {highDensity : Bool} {front segment : List Token}
    (hfront : Markless Token.isMark front) (hsegment : Markless Token.isMark segment) :
    (Reel.of highDensity (front ++ .mark :: segment)).events =
      transitions highDensity false (intervals 0 front) ++
        transitions highDensity true (intervals (pendingBehind 0 front) segment) := by
  obtain ⟨hevents, hticks⟩ := @foldl_markless highDensity _ hfront ⟨[], 0, false⟩
  unfold Reel.of
  rw [List.foldl_append, List.foldl_cons]
  rw [(foldl_markless hsegment _).1]
  show (front.foldl (Reel.wind highDensity) ⟨[], 0, false⟩).events ++ transitions highDensity true
    (intervals (front.foldl (Reel.wind highDensity) ⟨[], 0, false⟩).ticks segment) = _
  rw [hevents, hticks]
  rfl

/-! ## The stop -/

/-- What acknowledges the stop. -/
def STOPPED : List Byte := [0xde, 0xad, Command.stopStream.code, RESPONSE_OK]

theorem suffix_of_stopWindow {window bytes : List Byte} {a : Unit} (hwindow : window.length = 4)
    (h : Fed stopWindow window bytes a) : STOPPED <:+ window ++ bytes := by
  induction h with
  | @last window byte _ ends =>
    have htail : window.tail.length = 3 := by
      rw [List.length_tail, hwindow]
    unfold stopWindow at ends
    dsimp only at ends
    rw [List.take_left' htail] at ends
    split at ends
    · next hthree =>
      split at ends
      · next hok =>
        have hsuffix := shift_suffix window [] byte
        rw [List.append_nil, hthree] at hsuffix
        rw [hok] at hsuffix ⊢
        exact hsuffix
      split at ends
      · cases ends
      · cases hmapped : mapResponse byte with
        | error e =>
          rw [hmapped] at ends
          cases ends
        | ok a =>
          rw [hmapped] at ends
          cases ends
    · cases ends
  | @more window window' byte bytes _ goes rest ih =>
    have hnext : window' = window.tail ++ [byte] := by
      unfold stopWindow at goes
      dsimp only at goes
      split at goes
      · next hok =>
        split at goes
        · cases goes
        split at goes
        · cases goes
        · next hresponse _ =>
          cases hmapped : mapResponse byte with
          | error e =>
            rw [hmapped] at goes
            cases goes
          | ok a => exact absurd (response_of_mapResponse hmapped) hresponse
      · cases goes
        rfl
    subst hnext
    refine (ih ?_).trans (shift_suffix window bytes byte)
    rw [List.length_append, List.length_tail, hwindow]
    rfl

/-! ## The read -/

variable {self : SuperCardPro}

/-- What letting go of an idle drive takes. -/
def releasing (self : SuperCardPro) : List Passage :=
  if self.status.motorRunning then []
  else [answered (if self.driveA then .deselectA else .deselectB) [] RESPONSE_OK]

theorem adds_deselectIdle (hselected : self.selected = true) : Adds deselectIdle self
    fun _ next new => next.highDensity = self.highDensity ∧ new = releasing self := by
  refine (adds_self (P := fun host next new => host = self ∧ next = self ∧ new = [])
    ⟨rfl, rfl, rfl⟩).bind ?_
  rintro _ self _ ⟨rfl, rfl, rfl⟩
  unfold releasing
  cases hmotor : self.status.motorRunning with
  | true => exact adds_pure ⟨rfl, rfl⟩
  | false =>
    refine (adds_self (P := fun host next new => host = self ∧ next = self ∧ new = [])
      ⟨rfl, rfl, rfl⟩).bind ?_
    rintro _ self _ ⟨rfl, rfl, rfl⟩
    show Adds (if false = self.selected then _ else _) _ _
    rw [hselected, if_neg Bool.false_ne_true]
    refine Adds.bind (adds_expectOk (if self.driveA then .deselectA else .deselectB) []) ?_
    rintro _ self _ ⟨rfl, rfl⟩
    exact adds_modify ⟨rfl, rfl⟩

/-- What `read_stream` makes of the events. -/
def Extracts (highDensity : Bool) (mode : ReadMode) (events : List FluxEvent)
    (capture : RawCapture) : Prop :=
  if mode = .normal then
    ∃ words bitLen, fluxToUnalignedRevolution events highDensity = some (.ok (words, bitLen)) ∧
      capture = ⟨words, bitLen, false⟩
  else ∃ words bitLen flag, fluxToRevolution events = .ok (words, bitLen, flag) ∧
    capture = ⟨words, bitLen, flag⟩

theorem adds_extractCapture (mode : ReadMode) (events : List FluxEvent) :
    Adds (extractCapture mode events) self fun capture _ new => new = [] ∧
      Extracts self.highDensity mode events capture := by
  refine (adds_self (P := fun host next new => host = self ∧ next = self ∧ new = [])
    ⟨rfl, rfl, rfl⟩).bind ?_
  rintro _ self _ ⟨rfl, rfl, rfl⟩
  have hclose : ∀ {capture : RawCapture}, Extracts self.highDensity mode events capture →
      Adds (do Fallible.ofExcept (validateCapture capture); pure capture) self fun capture _ new =>
        new = [] ∧ Extracts self.highDensity mode events capture := by
    intro capture hextracts
    refine (adds_ofExcept (P := fun _ next new => next = self ∧ new = []) fun _ _ =>
      ⟨rfl, rfl⟩).bind ?_
    rintro _ self _ ⟨rfl, rfl⟩
    exact adds_pure ⟨rfl, hextracts⟩
  unfold Extracts at hclose ⊢
  by_cases hmode : mode = .normal
  · subst hmode
    rw [if_pos rfl]
    refine (adds_orPanic (P := fun result next new => next = self ∧ new = [] ∧
      fluxToUnalignedRevolution events self.highDensity = some result) fun result hresult =>
      ⟨rfl, rfl, hresult⟩).bind ?_
    rintro result self _ ⟨rfl, rfl, hresult⟩
    refine (adds_ofExcept (P := fun (extracted : List (BitVec 16) × Nat × Bool) next new =>
      next = self ∧ new = [] ∧ result = .ok (extracted.1, extracted.2.1)) fun extracted h =>
      ⟨rfl, rfl, ?_⟩).bind ?_
    · cases result with
      | error e => cases h
      | ok revolution =>
        cases h
        rfl
    rintro ⟨words, bitLen, aligned⟩ self _ ⟨rfl, rfl, rfl⟩
    refine Adds.mono (@hclose ⟨words, bitLen, _⟩ ⟨words, bitLen, hresult, rfl⟩) ?_
    rintro capture _ _ ⟨rfl, hextracts⟩
    exact ⟨rfl, hextracts⟩
  · simp only [if_neg hmode] at hclose ⊢
    refine (adds_ofExcept (P := fun extracted next new => next = self ∧ new = [] ∧
      fluxToRevolution events = .ok extracted) fun extracted h => ⟨rfl, rfl, h⟩).bind ?_
    rintro ⟨words, bitLen, aligned⟩ self _ ⟨rfl, rfl, hextracted⟩
    refine Adds.mono (@hclose ⟨words, bitLen, decide (mode ≠ .normal) && aligned⟩
      ⟨words, bitLen, aligned, hextracted, by simp [hmode]⟩) ?_
    rintro capture _ _ ⟨rfl, hextracts⟩
    exact ⟨rfl, hextracts⟩

/-- A capture of what stands in front of the first mark, and between the marks. -/
def Cuts (highDensity : Bool) (front segment : List Token) (capture : RawCapture) : Prop :=
  let before := transitions highDensity false (intervals 0 front)
  let between := transitions highDensity true (intervals (pendingBehind 0 front) segment)
  let cells := if between = [] then (PllDecoder.new.run before).2 else cellsBehind before between
  capture = ⟨packBits cells, cells.length, between ≠ []⟩

theorem cuts_of_revolution {highDensity : Bool} {front segment : List Token}
    {words : List (BitVec 16)} {bitLen : Nat} {flag : Bool}
    (h : fluxToRevolution (transitions highDensity false (intervals 0 front) ++
      transitions highDensity true (intervals (pendingBehind 0 front) segment)) =
        .ok (words, bitLen, flag)) : Cuts highDensity front segment ⟨words, bitLen, flag⟩ := by
  unfold Cuts
  have hbefore := plain_transitions highDensity (intervals 0 front)
  cases hbetween : intervals (pendingBehind 0 front) segment with
  | nil =>
    rw [hbetween, show transitions highDensity true [] = [] from rfl, List.append_nil] at h
    obtain ⟨-, rfl, rfl, rfl⟩ := (fluxToRevolution_whole hbefore words bitLen flag).mp h
    rfl
  | cons ticks rest =>
    rw [hbetween, transitions_cons, ← List.append_nil (transitions highDensity false rest)] at h
    obtain ⟨-, rfl, rfl, rfl⟩ := (fluxToRevolution_cut hbefore rfl
      (plain_transitions highDensity rest) (by simp [AtPulse]) words bitLen flag).mp h
    simp only [transitions_cons, reduceCtorEq, if_false, ne_eq, not_false_eq_true, decide_true]

/-- What became of the tokens of a stream. -/
def Captures (highDensity : Bool) (mode : ReadMode) (tokens : List Token) (capture : RawCapture) :
    Prop :=
  if mode = .normal then
    ∃ front last words bitLen, tokens = front ++ [last] ∧
      (Reel.of highDensity front).duration < Stream.TARGET ∧
      Stream.TARGET ≤ (Reel.of highDensity tokens).duration ∧
      fluxToUnalignedRevolution (Reel.of highDensity tokens).events highDensity =
        some (.ok (words, bitLen)) ∧ capture = ⟨words, bitLen, false⟩
  else ∃ front segment, tokens = front ++ .mark :: (segment ++ [.mark]) ∧
    Markless Token.isMark front ∧ Markless Token.isMark segment ∧
      Cuts highDensity front segment capture

theorem captures_of_ends {highDensity : Bool} {mode : ReadMode} {tokens : List Token}
    {events : List FluxEvent} {capture : RawCapture}
    (hends : Stream.Ends mode highDensity tokens events)
    (hextracts : Extracts highDensity mode events capture) :
    Captures highDensity mode tokens capture := by
  obtain ⟨front, last, rfl, hends⟩ := hends
  unfold Extracts at hextracts
  unfold Captures
  split at hends
  · next hmode =>
    obtain ⟨hearly, hlate, rfl⟩ := hends
    rw [if_pos hmode] at hextracts ⊢
    obtain ⟨words, bitLen, hrevolution, rfl⟩ := hextracts
    exact ⟨front, last, words, bitLen, rfl, hearly, hlate, hrevolution, rfl⟩
  · next hmode =>
    obtain ⟨rfl, hone, rfl⟩ := hends
    rw [if_neg hmode] at hextracts ⊢
    obtain ⟨words, bitLen, flag, hrevolution, rfl⟩ := hextracts
    obtain ⟨_, before, first, segment, rfl, -, hbefore, hfirst, hsegment⟩ := opened_of_count hone
    cases first with
    | mark =>
      rw [events_marked hbefore hsegment] at hrevolution
      refine ⟨before, segment, ?_, hbefore, hsegment, cuts_of_revolution hrevolution⟩
      rw [List.append_assoc, List.cons_append]
    | carry => cases hfirst
    | interval => cases hfirst
    | escaped => cases hfirst

/-- The parameter of a `StartStream`: flux, counters of 8 bits, and whether from the index on. -/
def flags (mode : ReadMode) : Byte := 0x04 ||| 0x02 ||| (if mode ≠ .normal then 1 else 0)

/-- A whole read, the last passage first. -/
def readPassages (self : SuperCardPro) (mode : ReadMode) (bytes late : List Byte) : List Passage :=
  releasing self ++ ⟨packetOf .stopStream [], bytes ++ (late ++ STOPPED)⟩ ::
    answered .startStream [flags mode] RESPONSE_OK :: selecting self

theorem adds_captureStream (mode : ReadMode) (hselected : self.selected = true) :
    Adds (captureStream mode) self fun capture _ new => ∃ tokens late,
      new = releasing self ++ [⟨packetOf .stopStream [],
        tokens.flatMap Token.bytes ++ (late ++ STOPPED)⟩] ∧
      (tokens.flatMap Token.bytes).length ≤ MAX_STREAM_BYTES ∧
        Captures self.highDensity mode tokens capture := by
  refine adds_deadline fun deadline => ?_
  refine (adds_self (P := fun host next new => new = [] ∧ host = self ∧ next = self)
    ⟨rfl, rfl, rfl⟩).speaks.ends ?_
  rintro _ self _ ⟨rfl, rfl, rfl⟩
  refine (speaks_eachByte deadline Stream.start deadline .empty).ends ?_
  rintro ⟨state, left⟩ self _ ⟨rfl, bytes, hfed, rfl⟩
  obtain ⟨tokens, hread, hlength, hends⟩ :=
    Stream.ends_of_fed hfed (by decide) (Stream.follows_start mode self.highDensity)
  rw [show Stream.heard [] Stream.start ++ bytes = bytes from rfl] at hread hlength
  subst hread
  refine (adds_ofExcept (P := fun stop next new => new = [] ∧ stop = packetOf .stopStream [] ∧
    next = self) fun stop hstop => ⟨rfl, packet_of_ok hstop, rfl⟩).speaks.ends ?_
  rintro _ self _ ⟨rfl, rfl, rfl⟩
  refine (speaks_writeAllUntil fun left => ⟨rfl, rfl⟩ : Speaks _ _ _ fun _ next passage =>
    next = self ∧ passage = Passage.send _ (packetOf .stopStream [])).ends ?_
  rintro left self _ ⟨rfl, rfl⟩
  refine (speaks_eachByte left (List.replicate 4 0) left _).ends ?_
  rintro ⟨a, left⟩ self _ ⟨rfl, stop, hstop, rfl⟩
  obtain ⟨late, rfl⟩ :=
    suffix_of_zeros (by decide) (by decide) 4 (suffix_of_stopWindow (by rfl) hstop)
  refine Adds.ends ?_
  refine (adds_purge (P := fun _ next new => next = self ∧ new = []) ⟨rfl, rfl⟩).bind ?_
  rintro _ self _ ⟨rfl, rfl⟩
  refine (adds_modify (P := fun _ next new => next.selected = true ∧ releasing next =
    releasing self ∧ next.highDensity = self.highDensity ∧ new = []) ⟨hselected, rfl, rfl,
      rfl⟩).bind ?_
  rintro _ next _ ⟨hnext, hreleasing, hdensity, rfl⟩
  refine (adds_deselectIdle hnext).bind ?_
  rintro _ last _ ⟨hlast, rfl⟩
  refine (adds_extractCapture mode state.events).mono ?_
  rintro capture _ _ ⟨rfl, hextracts⟩
  rw [hlast, hdensity] at hextracts
  refine ⟨tokens, late, ?_, hlength, captures_of_ends hends hextracts⟩
  rw [hreleasing]
  simp only [List.nil_append, List.append_nil]
  rfl

theorem adds_readStream (mode : ReadMode) : Adds (readStream mode) self fun capture _ new =>
    ∃ tokens late, new = readPassages self mode (tokens.flatMap Token.bytes) late ∧
      (tokens.flatMap Token.bytes).length ≤ MAX_STREAM_BYTES ∧
        Captures self.highDensity mode tokens capture := by
  refine adds_selectTrue.bind ?_
  rintro _ _ _ ⟨rfl, rfl⟩
  refine (adds_rawCommand .startStream [flags mode]).bind ?_
  rintro response _ _ ⟨rfl, rfl⟩
  have hcapture := @adds_captureStream { self with selected := true } mode rfl
  split
  · next hok =>
    refine hcapture.mono ?_
    rintro capture _ _ ⟨tokens, late, rfl, hlength, hcaptures⟩
    refine ⟨tokens, late, ?_, hlength, hcaptures⟩
    rw [hok]
    simp only [readPassages, List.append_assoc, List.singleton_append]
    rfl
  · next hother =>
    split
    · exact (adds_modify (P := fun _ _ _ => True) trivial).bind fun _ _ _ _ => adds_fail _
    · refine (adds_ofExcept (P := fun _ _ _ => False) fun _ h =>
        hother (response_of_mapResponse h)).bind ?_
      exact fun _ _ _ h => h.elim

/--
**A SuperCard Pro read.** When `read_stream` succeeds, the interface was selected, has accepted the
stream command and has streamed tokens, no more than the ceiling, and behind the stop packet it has
sent the four bytes that acknowledge it. From index to index the stream ends with its second mark:
the capture is made of exactly the transitions behind the first mark, decoded behind those in front
of it, and is aligned if there are any. An immediate read ends with the first transition that is
late enough, and is a revolution of all of them. No count of ticks has saturated on the way.
-/
theorem readStream_counted (self next : SuperCardPro) (mode : ReadMode) (capture : RawCapture)
    (h h' : History wireSig)
    (hwalk : Walk (.any wireSig) (.ret next (.ok capture)) h' (readStream mode self) h) :
    ∃ tokens late, passages h' =
        readPassages self mode (tokens.flatMap Token.bytes) late ++ passages h ∧
      (tokens.flatMap Token.bytes).length ≤ MAX_STREAM_BYTES ∧
        Captures self.highDensity mode tokens capture := by
  obtain ⟨new, hnew, tokens, late, rfl, hlength, hcaptures⟩ := (adds_readStream mode).of_walk hwalk
  exact ⟨tokens, late, hnew, hlength, hcaptures⟩

/-- Thirty-two transitions between two marks, of which the first spans one. -/
def readCounted : Prog wireSig SuperCardPro (Except Error RawCapture) × History wireSig :=
  (readStream .compatible idleDrive).runWith
    (answering ([0x80, 0x4f, 0xae, 0x4f, 80, 0, 0xff, 0, 64] ++ List.replicate 31 80 ++
      [0, 0xff, 0] ++ STOPPED ++ [0x82, 0x4f]) []) []

theorem readStream_counted_spanning : ∃ tokens late,
    passages readCounted.2 =
      readPassages idleDrive .compatible (tokens.flatMap Token.bytes) late ++ [] ∧
    Captures false .compatible tokens
      ⟨[0x0155, 0x5555, 0x5555, 0x5555, 0x5400], 70, true⟩ := by
  have hresult : readCounted.1.result? =
      some (.ok ⟨[0x0155, 0x5555, 0x5555, 0x5555, 0x5400], 70, true⟩) := by decide +kernel
  have hwalk : Walk (.any wireSig) readCounted.1 readCounted.2
      (readStream .compatible idleDrive) [] :=
    Prog.walk_runWith (fun _ _ _ _ => trivial) _ _
  rw [Prog.eq_ret hresult] at hwalk
  obtain ⟨tokens, late, hpassages, -, hcaptures⟩ := readStream_counted _ _ _ _ _ _ hwalk
  exact ⟨tokens, late, hpassages, hcaptures⟩

end SuperCardPro

end FluxBridge
