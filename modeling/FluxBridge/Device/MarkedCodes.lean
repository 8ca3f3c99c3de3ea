import FluxBridge.Device.WriteTranscripts
import FluxBridge.Device.StreamStop
import FluxBridge.Flux.Marks

/-!
# A DrawBridge read, from mark to mark

The interface tells a few cells at a time, and flags those at which the index came by: a byte has a
flag and two codes at double density, and four codes at high density, one of which is the flag.

* `heard_of_fed` — what the loop keeps of the codes it is fed
* `readStream_marked` — what a read that succeeds has heard, and what it is made of
-/

namespace FluxBridge

open Atomic Marks

namespace DrawBridge

/-- What the interface says of a few cells. -/
structure Code where
  atIndex : Bool
  cells : List Bool
  deriving DecidableEq, Repr

namespace Code

def double (byte : Byte) : Code where
  atIndex := byte &&& 0x80 ≠ 0
  cells := sequence ((byte.toNat >>> 5) &&& 3) ++ sequence ((byte.toNat >>> 3) &&& 3)

def high (code : Nat) : Code where
  atIndex := code = 3
  cells := sequence (if code = 3 then 1 else code + 1)

end Code

/-- The codes of a byte. -/
def codes (highDensity : Bool) (byte : Byte) : List Code :=
  if highDensity then [6, 4, 2, 0].map fun shift => .high ((byte.toNat >>> shift) &&& 3)
  else [.double byte]

/-- The cells that are told. -/
def told (codes : List Code) : List Bool := codes.flatMap Code.cells

theorem told_snoc (items : List Code) (code : Code) : told (items ++ [code]) =
    told items ++ code.cells := by
  unfold told
  rw [List.flatMap_append, List.flatMap_singleton]

/-! ## The loop -/

namespace Stream

variable {mode : ReadMode} {highDensity : Bool} {state last : Stream} {items : List Code}

/-- The body of the loop for one code. -/
def take (mode : ReadMode) (state : Stream) (code : Code) : Stream :=
  if state.complete then state
  else
    let state := if code.atIndex ∧ mode ≠ .normal then state.mark else state
    if state.complete then state else { state with bits := state.bits ++ code.cells }

theorem feedCode_eq (mode : ReadMode) (state : Stream) (code : Nat) :
    state.feedCode mode code = state.take mode (.high code) := by
  unfold feedCode take Code.high
  simp only [decide_eq_true_eq]

theorem feedDouble_eq (mode : ReadMode) (hcomplete : state.complete = false) (byte : Byte) :
    state.feedDouble mode byte = state.take mode (.double byte) := by
  unfold feedDouble take Code.double
  simp only [hcomplete, Bool.false_eq_true, if_false, decide_eq_true_eq, List.append_assoc]

/-- The cells an immediate read ends with. -/
def target (highDensity : Bool) : Nat := if highDensity then 240000 else 120000

/-- An immediate read ends with enough cells. -/
def settle (mode : ReadMode) (highDensity : Bool) (state : Stream) : Stream :=
  if mode = .normal ∧ target highDensity ≤ state.bits.length then
    { state with bits := state.bits.take (target highDensity), complete := true }
  else state

/-- A byte is its codes. -/
theorem feed_eq (mode : ReadMode) (highDensity : Bool) (hcomplete : state.complete = false)
    (byte : Byte) : state.feed mode highDensity byte = settle mode highDensity
      ((codes highDensity byte).foldl (take mode)
        { state with bytesSeen := state.bytesSeen + 1 }) := by
  unfold feed settle target codes
  cases highDensity with
  | true =>
    simp only [if_true, List.foldl_map, ← feedCode_eq]
  | false =>
    simp only [Bool.false_eq_true, if_false, List.foldl_cons, List.foldl_nil]
    rw [feedDouble_eq mode (by exact hcomplete)]

/-- The loop goes on, or it ends, with what it makes of a byte. -/
theorem next_cases {byte : Byte} :
    (∀ more, next mode highDensity state byte = .ok (.inl more) →
      more = state.feed mode highDensity byte ∧ more.complete = false ∧
        more.bytesSeen < MAX_STREAM_BYTES) ∧
    (∀ ended, next mode highDensity state byte = .ok (.inr ended) →
      ended = state.feed mode highDensity byte ∧ ended.complete = true) := by
  unfold next
  dsimp only
  split
  · next hcomplete =>
    refine ⟨nofun, fun ended h => ?_⟩
    cases h
    exact ⟨rfl, hcomplete⟩
  · next hcomplete =>
    split
    · exact ⟨nofun, nofun⟩
    · next hroom =>
      refine ⟨fun more h => ?_, nofun⟩
      cases h
      exact ⟨rfl, by simpa using hcomplete, Nat.not_le.mp hroom⟩

/-! ## From mark to mark -/

/-- What is kept of the codes: all up to the first mark, and from there up to the second. -/
inductive Holds (items : List Code) (bits : List Bool) : Bool → Bool → Prop
  | before (plain : Markless Code.atIndex items) (cells : bits = told items) :
    Holds items bits false false
  | within (kept : List Code) (opened : Opened Code.atIndex items kept)
    (cells : bits = told kept) : Holds items bits true false
  | behind (read unread kept : List Code) (split : items = read ++ unread)
    (closed : Closed Code.atIndex read kept) (cells : bits = told kept) : Holds items bits true true

/-- Where the loop stands behind these codes. -/
def Heard (items : List Code) (state : Stream) : Prop :=
  Holds items state.bits state.firstIndex state.complete

theorem heard_start : Heard [] start := .before markless_nil rfl

theorem Heard.count (hheard : Heard items state) (hcomplete : state.complete = false) :
    items.countP Code.atIndex ≤ 1 := by
  obtain ⟨bits, firstIndex, complete, seen⟩ := state
  cases hheard with
  | before hplain _ =>
    rw [hplain.count]
    exact Nat.zero_le 1
  | within kept hopened _ => exact Nat.le_of_eq hopened.count
  | behind => cases hcomplete

/-- One more code. -/
theorem Heard.take (hmode : mode ≠ .normal) (hheard : Heard items state) (code : Code) :
    Heard (items ++ [code]) (state.take mode code) := by
  obtain ⟨bits, firstIndex, complete, seen⟩ := state
  unfold Stream.take
  cases hheard with
  | behind read unread kept hsplit hclosed hcells =>
    refine .behind read (unread ++ [code]) kept ?_ hclosed hcells
    rw [hsplit, List.append_assoc]
  | before hplain hcells =>
    cases hindex : code.atIndex with
    | true =>
      simp only [hmode, ne_eq, not_false_eq_true, and_self, if_true, Bool.false_eq_true, if_false,
        mark]
      exact .within [code] (hplain.opens hindex) (by simp [told])
    | false =>
      simp only [Bool.false_eq_true, false_and, if_false]
      refine .before (hplain.snoc hindex) ?_
      rw [told_snoc, ← hcells]
  | within kept hopened hcells =>
    cases hindex : code.atIndex with
    | true =>
      simp only [hmode, ne_eq, not_false_eq_true, and_self, if_true, Bool.false_eq_true, if_false,
        mark]
      exact .behind (items ++ [code]) [] kept (List.append_nil _).symm (hopened.closes hindex)
        hcells
    | false =>
      simp only [Bool.false_eq_true, false_and, if_false]
      refine .within (kept ++ [code]) (hopened.snoc hindex) ?_
      rw [told_snoc, ← hcells]

theorem Heard.foldl (hmode : mode ≠ .normal) (hheard : Heard items state) (more : List Code) :
    Heard (items ++ more) (more.foldl (Stream.take mode) state) := by
  induction more generalizing items state with
  | nil =>
    rw [List.append_nil]
    exact hheard
  | cons code more ih =>
    rw [List.append_cons, List.foldl_cons]
    exact ih (hheard.take hmode code)

theorem Heard.feed (hmode : mode ≠ .normal) (hheard : Heard items state)
    (hcomplete : state.complete = false) (byte : Byte) :
    Heard (items ++ codes highDensity byte) (state.feed mode highDensity byte) := by
  rw [feed_eq mode highDensity hcomplete, settle, if_neg fun h => hmode h.1]
  have hbegun : Heard items { state with bytesSeen := state.bytesSeen + 1 } := hheard
  exact hbegun.foldl hmode _

theorem heard_of_fed (hmode : mode ≠ .normal) {bytes : List Byte}
    (hfed : Fed (next mode highDensity) state bytes last) (hcomplete : state.complete = false)
    (hheard : Heard items state) :
    last.complete = true ∧ Heard (items ++ bytes.flatMap (codes highDensity)) last ∧
      ∃ front byte, bytes = front ++ [byte] ∧
        (items ++ front.flatMap (codes highDensity)).countP Code.atIndex ≤ 1 := by
  -- on the bytes: all but the last leave the loop going on
  induction hfed generalizing items with
  | last ends =>
    obtain ⟨rfl, hended⟩ := next_cases.2 _ ends
    refine ⟨hended, ?_, [], _, rfl, ?_⟩
    · rw [List.flatMap_singleton]
      exact hheard.feed hmode hcomplete _
    · rw [List.flatMap_nil, List.append_nil]
      exact hheard.count hcomplete
  | more goes rest ih =>
    obtain ⟨rfl, hmore, -⟩ := next_cases.1 _ goes
    obtain ⟨hended, hlast, front, byte, rfl, hcount⟩ :=
      ih hmore (hheard.feed hmode hcomplete _)
    refine ⟨hended, ?_, _ :: front, byte, rfl, ?_⟩
    · rw [List.flatMap_cons, ← List.append_assoc]
      exact hlast
    · rw [List.flatMap_cons, ← List.append_assoc]
      exact hcount

/-! ## Without marks -/

/-- In an immediate read a code is its cells. -/
theorem take_normal (hcomplete : state.complete = false) (code : Code) :
    state.take .normal code = { state with bits := state.bits ++ code.cells } := by
  unfold Stream.take
  simp only [hcomplete, Bool.false_eq_true, if_false, ne_eq, not_true_eq_false, and_false]

theorem foldl_normal (hcomplete : state.complete = false) (items : List Code) :
    items.foldl (Stream.take .normal) state = { state with bits := state.bits ++ told items } := by
  induction items generalizing state with
  | nil =>
    rw [show told [] = [] from rfl, List.append_nil]
    rfl
  | cons code items ih =>
    rw [List.foldl_cons, take_normal hcomplete, ih (by exact hcomplete)]
    unfold told
    rw [List.flatMap_cons, List.append_assoc]

/-- An immediate read ends with the first byte that brings enough cells. -/
theorem told_of_fed {bytes : List Byte} (hfed : Fed (next .normal highDensity) state bytes last)
    (hcomplete : state.complete = false) (hfirst : state.firstIndex = false)
    (hbits : state.bits = told items) :
    last.firstIndex = false ∧
      last.bits = (told (items ++ bytes.flatMap (codes highDensity))).take (target highDensity) ∧
      target highDensity ≤ (told (items ++ bytes.flatMap (codes highDensity))).length := by
  have hfeed : ∀ {state : Stream} {items : List Code} (byte : Byte), state.complete = false →
      state.bits = told items → state.feed .normal highDensity byte = settle .normal highDensity
        ⟨told (items ++ codes highDensity byte), state.firstIndex, false, state.bytesSeen + 1⟩ := by
    intro state items byte hcomplete hbits
    rw [feed_eq .normal highDensity hcomplete, foldl_normal (by exact hcomplete)]
    unfold told
    rw [List.flatMap_append]
    simp only [hbits, hcomplete, told]
  induction hfed generalizing items with
  | last ends =>
    obtain ⟨rfl, hended⟩ := next_cases.2 _ ends
    rw [hfeed _ hcomplete hbits] at hended ⊢
    rw [List.flatMap_singleton]
    unfold settle at hended ⊢
    split at hended
    · next henough =>
      rw [if_pos henough]
      exact ⟨hfirst, rfl, henough.2⟩
    · cases hended
  | more goes rest ih =>
    obtain ⟨rfl, hmore, -⟩ := next_cases.1 _ goes
    rw [List.flatMap_cons, ← List.append_assoc]
    refine ih hmore ?_ ?_
    · rw [hfeed _ hcomplete hbits, settle]
      split
      · exact hfirst
      · exact hfirst
    · rw [hfeed _ hcomplete hbits, settle] at hmore ⊢
      split at hmore
      · cases hmore
      · next hless =>
        rw [if_neg hless]

theorem bytesSeen_take (mode : ReadMode) (state : Stream) (code : Code) :
    (state.take mode code).bytesSeen = state.bytesSeen := by
  have hmark : state.mark.bytesSeen = state.bytesSeen := by
    unfold Stream.mark
    split
    · rfl
    · rfl
  unfold Stream.take
  split
  · rfl
  · split
    · dsimp only
      split
      · exact hmark
      · exact hmark
    · dsimp only
      split
      · rfl
      · rfl

theorem bytesSeen_feed (hcomplete : state.complete = false) (byte : Byte) :
    (state.feed mode highDensity byte).bytesSeen = state.bytesSeen + 1 := by
  have hfold : ∀ (items : List Code) (state : Stream),
      (items.foldl (Stream.take mode) state).bytesSeen = state.bytesSeen := by
    intro items
    induction items with
    | nil => exact fun _ => rfl
    | cons code items ih => exact fun state => (ih _).trans (bytesSeen_take mode state code)
  rw [feed_eq mode highDensity hcomplete, settle]
  split
  · exact hfold _ _
  · exact hfold _ _

/-- No more is read than the ceiling. -/
theorem length_of_fed {bytes : List Byte} (hfed : Fed (next mode highDensity) state bytes last)
    (hroom : state.bytesSeen < MAX_STREAM_BYTES) (hcomplete : state.complete = false) :
    state.bytesSeen + bytes.length ≤ MAX_STREAM_BYTES := by
  induction hfed with
  | last ends => exact hroom
  | more goes rest ih =>
    obtain ⟨rfl, hmore, hless⟩ := next_cases.1 _ goes
    have hrest := ih hless hmore
    rw [bytesSeen_feed hcomplete] at hrest
    rw [List.length_cons]
    omega

end Stream

/-! ## The stop -/

/-- What acknowledges the stop. -/
def STOPPED : List Byte := [ascii 'X', ascii 'Y', ascii 'Z', ascii 'x', ascii '1']

theorem suffix_of_stopWindow {window bytes : List Byte} {a : Unit}
    (h : Fed stopWindow window bytes a) : STOPPED <:+ window ++ bytes := by
  induction h with
  | @last window byte _ ends =>
    unfold stopWindow at ends
    dsimp only at ends
    split at ends
    · next hstopped =>
      have hsuffix := shift_suffix window [] byte
      rw [List.append_nil, hstopped] at hsuffix
      exact hsuffix
    · cases ends
  | @more window _ byte bytes _ goes rest ih =>
    unfold stopWindow at goes
    dsimp only at goes
    split at goes
    · cases goes
    · cases goes
      exact ih.trans (shift_suffix window bytes byte)

/-! ## The read -/

variable {self : DrawBridge}

/-- What became of the bytes of a stream. From index to index these are the cells from the first
mark up to the second, which came with the last byte. -/
def Captures (highDensity : Bool) (mode : ReadMode) (bytes : List Byte) (capture : RawCapture) :
    Prop :=
  if mode = .normal then
    ∃ joined, Stream.target highDensity ≤ (told (bytes.flatMap (codes highDensity))).length ∧
      bitsToUnalignedRevolution ((told (bytes.flatMap (codes highDensity))).take
        (Stream.target highDensity)) highDensity = some (.ok joined) ∧
      capture = ⟨packBits joined, joined.length, false⟩
  else
    ∃ read unread kept, bytes.flatMap (codes highDensity) = read ++ unread ∧
      unread.length < (if highDensity then 4 else 1) ∧ Closed Code.atIndex read kept ∧
      capture = ⟨packBits (told kept), (told kept).length, true⟩

theorem length_codes (highDensity : Bool) (byte : Byte) :
    (codes highDensity byte).length = if highDensity then 4 else 1 := by
  cases highDensity with
  | true => rfl
  | false => rfl

theorem adds_extractCapture {mode : ReadMode} {bytes : List Byte} {state : Stream}
    (hfed : Fed (Stream.next mode self.highDensity) .start bytes state) :
    Adds (extractCapture mode state) self fun capture _ new => new = [] ∧
      Captures self.highDensity mode bytes capture := by
  unfold extractCapture Captures
  split
  · exact adds_fail _
  refine Adds.bind (P := fun bits next new => next = self ∧ new = [] ∧
    (mode = .normal → bitsToUnalignedRevolution state.bits self.highDensity = some (.ok bits)) ∧
    (mode ≠ .normal → bits = state.bits)) ?_ ?_
  · unfold revolution
    split
    · next hnormal =>
      refine (adds_self (P := fun host next new => host = self ∧ next = self ∧ new = [])
        ⟨rfl, rfl, rfl⟩).bind ?_
      rintro _ self _ ⟨rfl, rfl, rfl⟩
      refine (adds_orPanic (P := fun result next new => next = self ∧ new = [] ∧
        bitsToUnalignedRevolution state.bits self.highDensity = some result) fun result hresult =>
        ⟨rfl, rfl, hresult⟩).bind ?_
      rintro result self _ ⟨rfl, rfl, hresult⟩
      refine adds_ofExcept fun bits hbits => ⟨rfl, rfl, fun _ => ?_, absurd hnormal⟩
      rw [hresult, hbits]
    · next hindexed => exact adds_pure ⟨rfl, rfl, fun h => absurd h hindexed, fun _ => rfl⟩
  rintro bits self _ ⟨rfl, rfl, hjoined, hkept⟩
  refine (adds_ofExcept (P := fun _ next new => next = self ∧ new = []) fun _ _ =>
    ⟨rfl, rfl⟩).bind ?_
  rintro _ self _ ⟨rfl, rfl⟩
  refine (adds_modify (P := fun _ _ new => new = []) rfl).bind ?_
  rintro _ _ _ rfl
  refine adds_pure ⟨rfl, ?_⟩
  by_cases hmode : mode = .normal
  · subst hmode
    obtain ⟨-, hbits, henough⟩ := Stream.told_of_fed hfed rfl rfl (show _ = told [] from rfl)
    rw [if_pos rfl]
    refine ⟨bits, henough, ?_, rfl⟩
    rw [← hjoined rfl, hbits]
    rfl
  · rw [if_neg hmode]
    obtain ⟨hended, hheard, front, byte, rfl, hcount⟩ :=
      Stream.heard_of_fed hmode hfed rfl Stream.heard_start
    rw [hkept hmode]
    obtain ⟨bits', firstIndex, complete, seen⟩ := state
    cases hheard with
    | before => cases hended
    | within => cases hended
    | behind read unread kept hsplit hclosed hcells =>
      obtain rfl : bits' = told kept := hcells
      refine ⟨read, unread, kept, hsplit, ?_, hclosed, ?_⟩
      · rw [List.nil_append, List.flatMap_append, List.flatMap_singleton] at hsplit
        have hlength := hclosed.length_lt hcount hsplit
        rwa [length_codes] at hlength
      · simp [hmode]

theorem adds_stopStream {mode : ReadMode} {bytes : List Byte} {state : Stream} (deadline : Nat)
    (hfed : Fed (Stream.next mode self.highDensity) .start bytes state) :
    Adds (stopStream mode state deadline) self fun capture _ new =>
      (∃ late, new = [⟨[ascii 'x'], late ++ STOPPED⟩]) ∧
        Captures self.highDensity mode bytes capture := by
  refine (adds_send [ascii 'x'] "DrawBridge stop stream").speak ?_
  rintro _ self _ ⟨rfl, rfl⟩
  refine ⟨_, rfl, ?_⟩
  refine (speaks_eachByte deadline (List.replicate 5 0) deadline _).bind ?_
  rintro ⟨a, left⟩ self _ ⟨rfl, stop, hstop, rfl⟩
  obtain ⟨late, rfl⟩ :=
    suffix_of_zeros (by decide) (by decide) 5 (suffix_of_stopWindow hstop)
  refine (adds_purge (P := fun _ next new => new = [] ∧ next = self) ⟨rfl, rfl⟩).speaks.bind ?_
  rintro _ self _ ⟨rfl, rfl⟩
  refine (adds_extractCapture hfed).speaks.mono ?_
  rintro capture _ _ ⟨rfl, hcaptures⟩
  exact ⟨⟨late, rfl⟩, hcaptures⟩

/-- A whole read, the last passage first. -/
def readPassages (bytes late : List Byte) : List Passage :=
  ⟨[ascii 'x'], late ++ STOPPED⟩ :: ⟨[], bytes⟩ :: accepting READ_STREAM

theorem adds_readStream (mode : ReadMode) : Adds (readStream mode) self fun capture _ new =>
    ∃ bytes late, new = readPassages bytes late ∧ bytes.length ≤ MAX_STREAM_BYTES ∧
      Captures self.highDensity mode bytes capture := by
  refine (adds_expectCommand READ_STREAM).bind ?_
  rintro _ self _ ⟨rfl, rfl⟩
  refine adds_deadline fun deadline => ?_
  refine (adds_self (P := fun host next new => new = [] ∧ host = self ∧ next = self)
    ⟨rfl, rfl, rfl⟩).speaks.ends ?_
  rintro _ self _ ⟨rfl, rfl, rfl⟩
  refine (speaks_eachByte deadline Stream.start deadline .empty).ends ?_
  rintro ⟨state, left⟩ self _ ⟨rfl, bytes, hfed, rfl⟩
  have hlength := Stream.length_of_fed hfed (by decide) rfl
  rw [show Stream.start.bytesSeen = 0 from rfl, Nat.zero_add] at hlength
  refine ((adds_stopStream left hfed).mono ?_).ends
  rintro capture _ _ ⟨⟨late, rfl⟩, hcaptures⟩
  exact ⟨bytes, late, rfl, hlength, hcaptures⟩

/--
**A DrawBridge read.** When `read_stream` succeeds, the interface has accepted the command and has
streamed no more bytes than the ceiling, and behind the stop it has sent the five bytes that
acknowledge it. Read from index to index, the capture is made of exactly the cells from the first
flagged code up to the second, which came with the last byte, and is always aligned; an immediate
one is a revolution of the first cells of the stream, whose last byte brought enough of them.
-/
theorem readStream_marked (self next : DrawBridge) (mode : ReadMode) (capture : RawCapture)
    (h h' : History wireSig)
    (hwalk : Walk (.any wireSig) (.ret next (.ok capture)) h' (readStream mode self) h) :
    ∃ bytes late, passages h' = readPassages bytes late ++ passages h ∧
      bytes.length ≤ MAX_STREAM_BYTES ∧ Captures self.highDensity mode bytes capture := by
  obtain ⟨new, hnew, bytes, late, rfl, hlength, hcaptures⟩ := (adds_readStream mode).of_walk hwalk
  exact ⟨bytes, late, hnew, hlength, hcaptures⟩

/-- Sixty-four cells between two marks, with some before and behind them. -/
def readMarked : Prog wireSig DrawBridge (Except Error RawCapture) × History wireSig :=
  (readStream .compatible doubleDensity).runWith
    (answering ([ascii '1', 0x28, 0xa8] ++ List.replicate 15 0x28 ++ [0x80, 0x28] ++ STOPPED) []) []

theorem readStream_marked_between : ∃ bytes late,
    passages readMarked.2 = readPassages bytes late ++ [] ∧
      Captures false .compatible bytes ⟨List.replicate 4 0x5555, 64, true⟩ := by
  have hresult : readMarked.1.result? = some (.ok ⟨List.replicate 4 0x5555, 64, true⟩) := by
    decide +kernel
  have hwalk : Walk (.any wireSig) readMarked.1 readMarked.2
      (readStream .compatible doubleDensity) [] :=
    Prog.walk_runWith (fun _ _ _ _ => trivial) _ _
  rw [Prog.eq_ret hresult] at hwalk
  obtain ⟨bytes, late, hpassages, -, hcaptures⟩ := readStream_marked _ _ _ _ _ _ hwalk
  exact ⟨bytes, late, hpassages, hcaptures⟩

end DrawBridge

end FluxBridge
