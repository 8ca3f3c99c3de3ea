import FluxBridge.Flux.Rotation

/-!
# The cut at the index

`flux_to_revolution` keeps the cells from the first index pulse up to the second, or up to the end
when there is no second one. The PLL runs through all of it from the beginning.

* `exists_cut` — every list of events has no pulse, or is cut at its first one
* `fluxToRevolution_cut`, `fluxToRevolution_plain` — what is kept, and the flag that goes with it
-/

namespace FluxBridge

/-- No index pulse occurs. -/
def Plain (events : List FluxEvent) : Prop := ∀ event ∈ events, event.index = false

/-- The next revolution begins here, or the stream ends. -/
def AtPulse (rest : List FluxEvent) : Prop := ∀ event ∈ rest.head?, event.index = true

/-- The cells of a part of a stream, decoded behind what comes before it. -/
def cellsBehind (before part : List FluxEvent) : List Bool :=
  ((PllDecoder.new.run before).1.run part).2

theorem plain_cons {event : FluxEvent} {events : List FluxEvent} :
    Plain (event :: events) ↔ event.index = false ∧ Plain events := List.forall_mem_cons

/-- Up to the next pulse, and from there on. -/
theorem exists_pulse (events : List FluxEvent) :
    ∃ front rest, events = front ++ rest ∧ Plain front ∧ AtPulse rest := by
  induction events with
  | nil => exact ⟨[], [], rfl, by simp [Plain], by simp [AtPulse]⟩
  | cons event events ih =>
    obtain ⟨front, rest, rfl, hfront, hrest⟩ := ih
    cases hindex : event.index with
    | true => exact ⟨[], _, rfl, by simp [Plain], by simpa [AtPulse] using hindex⟩
    | false => exact ⟨event :: front, rest, rfl, plain_cons.mpr ⟨hindex, hfront⟩, hrest⟩

/-- A list of events has no pulse, or is cut at its first one. -/
theorem exists_cut (events : List FluxEvent) :
    Plain events ∨ ∃ before first segment rest, events = before ++ first :: (segment ++ rest) ∧
      Plain before ∧ first.index = true ∧ Plain segment ∧ AtPulse rest := by
  obtain ⟨before, rest, rfl, hbefore, hrest⟩ := exists_pulse events
  cases rest with
  | nil =>
    rw [List.append_nil]
    exact Or.inl hbefore
  | cons first tail =>
    obtain ⟨segment, rest, rfl, hsegment, hpulse⟩ := exists_pulse tail
    exact Or.inr ⟨before, first, segment, rest, rfl, hbefore, hrest first rfl, hsegment, hpulse⟩

/-! ## The loop -/

namespace Extraction

variable {pll : PllDecoder} {bits : List Bool} {sawStart : Bool}

/-- Before the first pulse nothing is kept. -/
theorem loop_warmup {before : List FluxEvent} (hbefore : Plain before) (rest : List FluxEvent) :
    loop ⟨pll, [], false, false⟩ (before ++ rest) =
      loop ⟨(pll.run before).1, [], false, false⟩ rest := by
  induction before generalizing pll with
  | nil => rfl
  | cons event before ih =>
    obtain ⟨hindex, hbefore⟩ := plain_cons.mp hbefore
    rw [List.cons_append, loop, if_neg (by simp)]
    simp only [start, submit, hindex, Bool.false_eq_true, if_false]
    rw [if_neg (by simp), ih hbefore]
    rfl

/-- One event of the revolution, while there is room. -/
theorem loop_cons {event : FluxEvent} (hindex : event.index = false) (rest : List FluxEvent) :
    loop ⟨pll, bits, true, sawStart⟩ (event :: rest) =
      if MAX_TRACK_BITS < (bits ++ (pll.submit event.nanoseconds).2).length then
        .error (.trackTooLarge (bits ++ (pll.submit event.nanoseconds).2).length MAX_TRACK_BITS)
      else
        loop ⟨(pll.submit event.nanoseconds).1, bits ++ (pll.submit event.nanoseconds).2, true,
          sawStart⟩ rest := by
  rw [loop, if_neg (by simp [hindex])]
  simp only [start, submit, hindex, Bool.false_eq_true, if_false, if_true]

/-- The revolution is kept, while there is room. -/
theorem loop_capture {segment : List FluxEvent} (hsegment : Plain segment) (rest : List FluxEvent)
    (hroom : (bits ++ (pll.run segment).2).length ≤ MAX_TRACK_BITS) :
    loop ⟨pll, bits, true, sawStart⟩ (segment ++ rest) =
      loop ⟨(pll.run segment).1, bits ++ (pll.run segment).2, true, sawStart⟩ rest := by
  induction segment generalizing pll bits with
  | nil =>
    rw [show (pll.run []).2 = [] from rfl, List.append_nil]
    rfl
  | cons event segment ih =>
    obtain ⟨hindex, hsegment⟩ := plain_cons.mp hsegment
    rw [PllDecoder.run_cons] at hroom ⊢
    rw [← List.append_assoc] at hroom ⊢
    rw [List.cons_append, loop_cons hindex, if_neg, ih hsegment hroom]
    rw [List.length_append] at hroom
    omega

/-- Too many cells are refused. -/
theorem loop_overflow {segment : List FluxEvent} (hsegment : Plain segment)
    (rest : List FluxEvent) (hbits : bits.length ≤ MAX_TRACK_BITS)
    (hroom : MAX_TRACK_BITS < (bits ++ (pll.run segment).2).length) :
    ∃ length, loop ⟨pll, bits, true, sawStart⟩ (segment ++ rest) =
      .error (.trackTooLarge length MAX_TRACK_BITS) := by
  induction segment generalizing pll bits with
  | nil =>
    rw [show (pll.run []).2 = [] from rfl, List.append_nil] at hroom
    omega
  | cons event segment ih =>
    obtain ⟨hindex, hsegment⟩ := plain_cons.mp hsegment
    rw [PllDecoder.run_cons, ← List.append_assoc] at hroom
    rw [List.cons_append, loop_cons hindex]
    split
    · exact ⟨_, rfl⟩
    · next hmore => exact ih hsegment (by omega) hroom

/-- At a pulse, or at the end, a revolution is complete. -/
theorem loop_atPulse {state : Extraction} (hstart : state.sawStart = true) {rest : List FluxEvent}
    (hrest : AtPulse rest) : loop state rest = .ok state := by
  cases rest with
  | nil => rfl
  | cons second after => rw [loop, if_pos (by rw [hrest second rfl, hstart]; rfl)]

/-- The first pulse begins the revolution with its own cells. -/
theorem loop_first {capturing : Bool} {first : FluxEvent} (hfirst : first.index = true)
    (rest : List FluxEvent) :
    loop ⟨pll, bits, capturing, false⟩ (first :: rest) =
      if MAX_TRACK_BITS < (pll.submit first.nanoseconds).2.length then
        .error (.trackTooLarge (pll.submit first.nanoseconds).2.length MAX_TRACK_BITS)
      else
        loop ⟨(pll.submit first.nanoseconds).1, (pll.submit first.nanoseconds).2, true, true⟩
          rest := by
  rw [loop, if_neg (by simp)]
  simp only [start, submit, hfirst, if_true, List.nil_append]

/-- What the loop makes of a stream that is cut at its first pulse. -/
theorem loop_cut {before segment rest : List FluxEvent} {first : FluxEvent} (hbefore : Plain before)
    (hfirst : first.index = true) (hsegment : Plain segment) (hrest : AtPulse rest) :
    (∃ length, MAX_TRACK_BITS < (cellsBehind before (first :: segment)).length ∧
        loop ⟨PllDecoder.new, [], false, false⟩ (before ++ first :: (segment ++ rest)) =
          .error (.trackTooLarge length MAX_TRACK_BITS)) ∨
      ∃ final, (cellsBehind before (first :: segment)).length ≤ MAX_TRACK_BITS ∧
        final.sawStart = true ∧ final.bits = cellsBehind before (first :: segment) ∧
        loop ⟨PllDecoder.new, [], false, false⟩ (before ++ first :: (segment ++ rest)) =
          .ok final := by
  have hcells : cellsBehind before (first :: segment) =
      ((PllDecoder.new.run before).1.submit first.nanoseconds).2 ++
        (((PllDecoder.new.run before).1.submit first.nanoseconds).1.run segment).2 := by
    rw [cellsBehind, PllDecoder.run_cons]
  rw [loop_warmup hbefore, loop_first hfirst, hcells]
  split
  · next hlarge =>
    refine Or.inl ⟨_, ?_, rfl⟩
    rw [List.length_append]
    omega
  -- the ceiling is looked at behind each event, and the cells of the whole segment decide
  · next hsmall =>
    rcases Nat.lt_or_ge MAX_TRACK_BITS
      (((PllDecoder.new.run before).1.submit first.nanoseconds).2 ++
        (((PllDecoder.new.run before).1.submit first.nanoseconds).1.run segment).2).length
      with h | h
    · obtain ⟨length, hloop⟩ := loop_overflow hsegment rest (Nat.not_lt.mp hsmall) h
      exact Or.inl ⟨length, h, hloop⟩
    · refine Or.inr ⟨_, h, ?_, ?_,
        (loop_capture hsegment rest h).trans (loop_atPulse ?_ hrest)⟩
      all_goals rfl

end Extraction

/-! ## The revolution -/

theorem any_index_cut {before rest : List FluxEvent} {first : FluxEvent}
    (hfirst : first.index = true) :
    ((before ++ first :: rest).any fun event => event.index) = true := by
  simp [hfirst]

/-- **The cut.** What is kept of a stream with a pulse are the cells from the first pulse on, up to
the second one or to the end, and the flag is set either way. -/
theorem fluxToRevolution_cut {before segment rest : List FluxEvent} {first : FluxEvent}
    (hbefore : Plain before) (hfirst : first.index = true) (hsegment : Plain segment)
    (hrest : AtPulse rest) (words : List (BitVec 16)) (bitLen : Nat) (flag : Bool) :
    fluxToRevolution (before ++ first :: (segment ++ rest)) = .ok (words, bitLen, flag) ↔
      (64 ≤ bitLen ∧ bitLen ≤ MAX_TRACK_BITS) ∧ flag = true ∧
        words = packBits (cellsBehind before (first :: segment)) ∧
        bitLen = (cellsBehind before (first :: segment)).length := by
  unfold fluxToRevolution
  rw [any_index_cut hfirst]
  simp only [Bool.not_true]
  rcases Extraction.loop_cut hbefore hfirst hsegment hrest with
    ⟨length, hlarge, hloop⟩ | ⟨final, hsmall, hsaw, hbits, hloop⟩
  · rw [hloop]
    constructor
    · intro h
      cases h
    · rintro ⟨hroom, -, -, rfl⟩
      omega
  · rw [hloop]
    dsimp only
    rw [hbits, hsaw]
    split
    · constructor
      · intro h
        cases h
      · rintro ⟨hroom, -, -, rfl⟩
        omega
    · next hmany =>
      constructor
      · intro h
        cases h
        exact ⟨⟨Nat.not_lt.mp hmany, hsmall⟩, rfl, rfl, rfl⟩
      · rintro ⟨-, rfl, rfl, rfl⟩
        rfl

theorem any_index_plain {events : List FluxEvent} (hplain : Plain events) :
    (events.any fun event => event.index) = false := by
  simpa [Plain] using hplain

/-- **Without a pulse** everything is kept, and the flag is not set. -/
theorem fluxToRevolution_whole {events : List FluxEvent} (hplain : Plain events)
    (words : List (BitVec 16)) (bitLen : Nat) (flag : Bool) :
    fluxToRevolution events = .ok (words, bitLen, flag) ↔
      (64 ≤ bitLen ∧ bitLen ≤ MAX_TRACK_BITS) ∧ flag = false ∧
        words = packBits (PllDecoder.new.run events).2 ∧
        bitLen = (PllDecoder.new.run events).2.length := by
  unfold fluxToRevolution
  rw [any_index_plain hplain]
  simp only [Bool.not_false]
  rcases Nat.lt_or_ge MAX_TRACK_BITS (PllDecoder.new.run events).2.length with hlarge | hroom
  · obtain ⟨length, hloop⟩ := @Extraction.loop_overflow .new [] false events hplain []
      (Nat.zero_le _) hlarge
    rw [List.append_nil] at hloop
    rw [hloop]
    constructor
    · intro h
      cases h
    · rintro ⟨hroom, -, -, rfl⟩
      omega
  · have hloop := @Extraction.loop_capture .new [] false events hplain [] hroom
    rw [List.append_nil, List.nil_append] at hloop
    rw [hloop, Extraction.loop]
    dsimp only
    split
    · constructor
      · intro h
        cases h
      · rintro ⟨hmany, -, -, rfl⟩
        omega
    · next hmany =>
      constructor
      · intro h
        cases h
        exact ⟨⟨Nat.not_lt.mp hmany, hroom⟩, rfl, rfl, rfl⟩
      · rintro ⟨-, rfl, rfl, rfl⟩
        rfl

/-- A stream without a pulse is never flagged. -/
theorem fluxToRevolution_plain {events : List FluxEvent} (hplain : Plain events)
    {words : List (BitVec 16)} {bitLen : Nat} {flag : Bool}
    (h : fluxToRevolution events = .ok (words, bitLen, flag)) : flag = false :=
  ((fluxToRevolution_whole hplain words bitLen flag).mp h).2.1

/-! ## The slice -/

/-- The first two pulses of a list of events are at the positions `i` and `j`. -/
structure FirstPulses (events : List FluxEvent) (i j : Nat) : Prop where
  lt : i < j
  first : events[i]?.map FluxEvent.index = some true
  second : events[j]?.map FluxEvent.index = some true
  others : ∀ k < j, k ≠ i → events[k]?.map FluxEvent.index = some false

theorem take_append_drop_take {events : List FluxEvent} {i j : Nat} (h : i ≤ j) :
    events.take i ++ (events.take j).drop i = events.take j := by
  have htake : (events.take j).take i = events.take i := by
    rw [List.take_take, Nat.min_eq_left h]
  rw [← htake, List.take_append_drop]

/-- The list is cut before, at and behind its first pulse, and at the second one. -/
theorem FirstPulses.cut {events : List FluxEvent} {i j : Nat} (h : FirstPulses events i j) :
    ∃ first segment, (events.take j).drop i = first :: segment ∧
      events = events.take i ++ first :: (segment ++ events.drop j) ∧
      Plain (events.take i) ∧ first.index = true ∧ Plain segment ∧ AtPulse (events.drop j) := by
  obtain ⟨hlt, hfirst, hsecond, hothers⟩ := h
  obtain ⟨first, hget, hindex⟩ := Option.map_eq_some_iff.mp hfirst
  have hplain : ∀ k < j, k ≠ i → ∀ event, events[k]? = some event → event.index = false := by
    intro k hk hne event hevent
    have hother := hothers k hk hne
    rw [hevent] at hother
    exact Option.some.inj hother
  have hpart : (events.take j).drop i = first :: (events.take j).drop (i + 1) := by
    obtain ⟨hlength, hget⟩ := List.getElem?_eq_some_iff.mp
      ((List.getElem?_take_of_lt hlt).trans hget)
    rw [List.drop_eq_getElem_cons hlength, hget]
  refine ⟨first, (events.take j).drop (i + 1), hpart, ?_, ?_, hindex, ?_, ?_⟩
  · rw [← List.cons_append, ← hpart, ← List.append_assoc, take_append_drop_take (Nat.le_of_lt hlt),
      List.take_append_drop]
  · intro event hmem
    obtain ⟨k, hk⟩ := List.mem_iff_getElem?.mp hmem
    rw [List.getElem?_take] at hk
    split at hk
    · next hki => exact hplain k (by omega) (by omega) event hk
    · cases hk
  · intro event hmem
    obtain ⟨k, hk⟩ := List.mem_iff_getElem?.mp hmem
    rw [List.getElem?_drop, List.getElem?_take] at hk
    split at hk
    · next hkj => exact hplain (i + 1 + k) hkj (by omega) event hk
    · cases hk
  · intro event hmem
    rw [List.head?_drop] at hmem
    rw [hmem] at hsecond
    exact Option.some.inj hsecond

/--
**The slice.** Where the first two pulses of a stream are at `i` and `j`, what is kept are the
cells that one continuous decode up to `j` makes of the events from `i` on: behind the cells up to
`i` they give those up to `j`, with none lost and none twice. Without a pulse it is the whole
decode, and the flag is not set.
-/
theorem fluxToRevolution_slice (events : List FluxEvent) (words : List (BitVec 16)) (bitLen : Nat)
    (flag : Bool) (h : fluxToRevolution events = .ok (words, bitLen, flag)) :
    (∀ i j, FirstPulses events i j → flag = true ∧
      ∃ bits, words = packBits bits ∧ bitLen = bits.length ∧
        bits = ((PllDecoder.new.run (events.take i)).1.run ((events.take j).drop i)).2 ∧
        (PllDecoder.new.run (events.take i)).2 ++ bits = (PllDecoder.new.run (events.take j)).2) ∧
      ((∀ event ∈ events, event.index = false) → flag = false ∧
        words = packBits (PllDecoder.new.run events).2 ∧
        bitLen = (PllDecoder.new.run events).2.length) := by
  constructor
  · intro i j hpulses
    obtain ⟨first, segment, hpart, hevents, hbefore, hfirst, hsegment, hrest⟩ := hpulses.cut
    rw [hevents] at h
    obtain ⟨-, hflag, hwords, hlength⟩ :=
      (fluxToRevolution_cut hbefore hfirst hsegment hrest words bitLen flag).mp h
    refine ⟨hflag, cellsBehind (events.take i) (first :: segment), hwords, hlength, ?_, ?_⟩
    · rw [hpart]
      rfl
    · have hjoin : events.take i ++ first :: segment = events.take j := by
        rw [← hpart, take_append_drop_take (Nat.le_of_lt hpulses.lt)]
      rw [← hjoin, PllDecoder.run_append]
      rfl
  · intro hplain
    exact ((fluxToRevolution_whole hplain words bitLen flag).mp h).2

theorem fluxToRevolution_slice_one :
    let events := ⟨4100, false⟩ :: ⟨4000, true⟩ :: (List.replicate 32 ⟨4000, false⟩ ++
      [⟨4000, true⟩])
    true = true ∧ ∃ bits, [0x5555, 0x5555, 0x5555, 0x5555, 0x4000] = packBits bits ∧
      66 = bits.length ∧
      bits = ((PllDecoder.new.run (events.take 1)).1.run ((events.take 34).drop 1)).2 ∧
      (PllDecoder.new.run (events.take 1)).2 ++ bits = (PllDecoder.new.run (events.take 34)).2 :=
  (fluxToRevolution_slice _ [0x5555, 0x5555, 0x5555, 0x5555, 0x4000] 66 true (by decide +kernel)).1
    1 34 ⟨by decide, rfl, rfl, by decide⟩

end FluxBridge
