import FluxBridge.Device.TickCodec

/-!
# The front of a stream

The stream is a string of codes, and the loop of `decode_stream` takes one after the other: it
carries the ticks and the index pulse from a code to the next, and an interval leaves neither.
Wherever a stream is cut, its front ends between two codes or inside one.

* `decodeLoop_code` — what one code does, whatever follows it
* `decodeLoop_cut` — a front decodes, ends inside a code, or fails with whatever follows it
* `decodeStream_prefix` — a cut either is reported or decodes to the front of the events
* `decodeStream_compose` — behind an interval the decoder starts afresh
* `decodeStream_cut` — both, for any two parts of a stream
-/

namespace FluxBridge

/-- A code of the stream. -/
inductive FluxCode where
  /-- an interval of less than 250 ticks -/
  | short (byte : Byte) (hbyte : byte.toNat < 250)
  /-- an interval of two bytes -/
  | long (byte low : Byte) (hbyte : 250 ≤ byte.toNat) (hopcode : byte ≠ 255#8)
  /-- the index pulse, and where in the interval it was -/
  | mark (b₀ b₁ b₂ b₃ : Byte)
  /-- ticks of the interval that follows -/
  | space (b₀ b₁ b₂ b₃ : Byte)
  | astable (period : Byte)

/-- The errors of a stream that ends inside a code. -/
inductive Truncated : Error → Prop where
  | opcode : Truncated (.protocol "truncated Greaseweazle opcode")
  | value : Truncated (.protocol "truncated Greaseweazle 28-bit value")
  | astable : Truncated (.protocol "truncated Greaseweazle astable opcode")
  | interval : Truncated (.protocol "truncated Greaseweazle flux interval")

namespace FluxCode

/-- The bytes of a code. -/
def bytes : FluxCode → List Byte
  | short byte _ => [byte]
  | long byte low _ _ => [byte, low]
  | mark b₀ b₁ b₂ b₃ => [255#8, 1#8, b₀, b₁, b₂, b₃]
  | space b₀ b₁ b₂ b₃ => [255#8, 2#8, b₀, b₁, b₂, b₃]
  | astable period => [255#8, 3#8, period]

/-- The code is a flux interval. -/
def IsInterval : FluxCode → Prop
  | short _ _ | long _ _ _ _ => True
  | mark _ _ _ _ | space _ _ _ _ | astable _ => False

/-- The event of an interval of `ticks` ticks: neither ticks nor index are carried on. -/
def closing (frequency ticks : Nat) (index : Bool) : Except Error (List FluxEvent × Nat × Bool) :=
  (ticksToNanoseconds ticks frequency).map fun nanoseconds => ([⟨nanoseconds, index⟩], 0, false)

/-- What a code does: its events, and the ticks and the index pulse that are carried on. -/
def step (frequency ticks : Nat) (index : Bool) :
    FluxCode → Except Error (List FluxEvent × Nat × Bool)
  | short byte _ => closing frequency (saturatingAddU32 ticks byte.toNat) index
  | long byte low _ _ =>
    closing frequency
      (saturatingAddU32 ticks (250 + (byte.toNat - 250) * 255 + (low.toNat - 1))) index
  | mark _ _ _ _ => .ok ([], ticks, true)
  | space b₀ b₁ b₂ b₃ =>
    (read28bit [b₀, b₁, b₂, b₃]).map fun read => ([], saturatingAddU32 ticks read.1, index)
  | astable _ => .ok ([], ticks, index)

/-- The codes before an interval leave it their ticks; behind it there are none. -/
theorem step_interval {code : FluxCode} (hinterval : code.IsInterval) {frequency ticks : Nat}
    {index : Bool} {events : List FluxEvent} {ticks' : Nat} {index' : Bool}
    (h : code.step frequency ticks index = .ok (events, ticks', index')) :
    ticks' = 0 ∧ index' = false := by
  have hclosing : ∀ total, closing frequency total index = .ok (events, ticks', index') →
      ticks' = 0 ∧ index' = false := by
    intro total h
    unfold closing at h
    cases hns : ticksToNanoseconds total frequency with
    | error e =>
      rw [hns] at h
      cases h
    | ok nanoseconds =>
      rw [hns] at h
      cases h
      exact ⟨rfl, rfl⟩
  cases code with
  | short byte hbyte => exact hclosing _ h
  | long byte low hbyte hopcode => exact hclosing _ h
  | mark | space | astable => cases hinterval

end FluxCode

/-! ## One code -/

section Codes

variable {frequency : Nat}

/-- What follows a code. -/
def goOn (frequency : Nat) (rest : List Byte) (done : Except Error (List FluxEvent × Nat × Bool)) :
    Except Error (List FluxEvent) :=
  match done with
  | .error e => .error e
  | .ok (events, ticks, index) =>
    (decodeLoop frequency rest ticks index).map fun later => events ++ later

/-- An interval, whatever follows it. -/
theorem goOn_closing (ticks : Nat) (index : Bool) (rest : List Byte) :
    goOn frequency rest (FluxCode.closing frequency ticks index) =
      (do
        let nanoseconds ← ticksToNanoseconds ticks frequency
        let events ← decodeLoop frequency rest 0 false
        pure (⟨nanoseconds, index⟩ :: events)) := by
  unfold FluxCode.closing
  cases ticksToNanoseconds ticks frequency with
  | error e => rfl
  | ok nanoseconds =>
    show (decodeLoop frequency rest 0 false).map _ = _
    cases decodeLoop frequency rest 0 false <;> rfl

theorem map_nil_append (rest : Except Error (List FluxEvent)) :
    rest.map (fun later => [] ++ later) = rest := by
  cases rest <;> rfl

/-- **One code.** The loop does what the code says, and goes on with what follows. -/
theorem decodeLoop_code (code : FluxCode) (rest : List Byte) (ticks : Nat) (index : Bool) :
    decodeLoop frequency (code.bytes ++ rest) ticks index =
      goOn frequency rest (code.step frequency ticks index) := by
  cases code with
  | short byte hbyte =>
    have hopcode : byte ≠ 255#8 := by
      rintro rfl
      exact absurd hbyte (by decide)
    show decodeLoop frequency (byte :: rest) ticks index = goOn _ _ (FluxCode.closing _ _ _)
    rw [goOn_closing, decodeLoop.eq_def]
    dsimp only
    rw [if_neg hopcode, if_pos hbyte]
  | long byte low hbyte hopcode =>
    show decodeLoop frequency (byte :: low :: rest) ticks index = goOn _ _ (FluxCode.closing _ _ _)
    rw [goOn_closing, decodeLoop.eq_def]
    dsimp only
    rw [if_neg hopcode, if_neg (by omega)]
  | mark b₀ b₁ b₂ b₃ => exact (decodeLoop_mark rfl).trans (map_nil_append _).symm
  | space b₀ b₁ b₂ b₃ => exact (decodeLoop_space rfl).trans (map_nil_append _).symm
  | astable period => exact decodeLoop_astable.trans (map_nil_append _).symm

/-! ## A cut -/

/-- The stream ends inside its first code. -/
def EndsInside (queue : List Byte) : Prop :=
  ∃ e, Truncated e ∧ ∀ frequency ticks index, decodeLoop frequency queue ticks index = .error e

theorem read28bit_cases (queue : List Byte) :
    (∃ b₀ b₁ b₂ b₃ rest, queue = b₀ :: b₁ :: b₂ :: b₃ :: rest) ∨
      read28bit queue = .error (.protocol "truncated Greaseweazle 28-bit value") := by
  unfold read28bit
  split
  · exact Or.inl ⟨_, _, _, _, _, rfl⟩
  · exact Or.inr rfl

/-- A stream begins with a code, or inside one, or with an opcode that is none. -/
theorem exists_code (queue : List Byte) :
    queue = [] ∨ (∃ code rest, queue = FluxCode.bytes code ++ rest) ∨ EndsInside queue ∨
      ∃ e, ∀ frequency rest ticks index,
        decodeLoop frequency (queue ++ rest) ticks index = .error e := by
  match queue with
  | [] => exact Or.inl rfl
  | byte :: queue =>
    right
    by_cases hbyte : byte = 255#8
    · subst hbyte
      match queue with
      | [] =>
        refine Or.inr (Or.inl ⟨_, .opcode, fun frequency ticks index => ?_⟩)
        rw [decodeLoop.eq_def]
        rfl
      | opcode :: queue =>
        by_cases hmark : opcode = 1#8
        · subst hmark
          rcases read28bit_cases queue with ⟨b₀, b₁, b₂, b₃, rest, rfl⟩ | hread
          · exact Or.inl ⟨.mark b₀ b₁ b₂ b₃, rest, rfl⟩
          · exact Or.inr (Or.inl ⟨_, .value, fun _ _ _ => decodeLoop_unread (Or.inl rfl) hread⟩)
        by_cases hspace : opcode = 2#8
        · subst hspace
          rcases read28bit_cases queue with ⟨b₀, b₁, b₂, b₃, rest, rfl⟩ | hread
          · exact Or.inl ⟨.space b₀ b₁ b₂ b₃, rest, rfl⟩
          · exact Or.inr (Or.inl ⟨_, .value, fun _ _ _ => decodeLoop_unread (Or.inr rfl) hread⟩)
        by_cases hastable : opcode = 3#8
        · subst hastable
          match queue with
          | [] =>
            refine Or.inr (Or.inl ⟨_, .astable, fun frequency ticks index => ?_⟩)
            rw [decodeLoop.eq_def]
            rfl
          | period :: rest => exact Or.inl ⟨.astable period, rest, rfl⟩
        · refine Or.inr (Or.inr ⟨.protocol ("unknown Greaseweazle flux opcode " ++
            toString opcode.toNat), fun frequency rest ticks index => ?_⟩)
          rw [List.cons_append, List.cons_append, decodeLoop.eq_def]
          dsimp only
          rw [if_pos rfl, if_neg hmark, if_neg hspace, if_neg hastable]
    · by_cases hshort : byte.toNat < 250
      · exact Or.inl ⟨.short byte hshort, queue, rfl⟩
      · match queue with
        | [] =>
          refine Or.inr (Or.inl ⟨_, .interval, fun frequency ticks index => ?_⟩)
          rw [decodeLoop.eq_def]
          dsimp only
          rw [if_neg hbyte, if_neg hshort]
        | low :: rest => exact Or.inl ⟨.long byte low (Nat.le_of_not_lt hshort) hbyte, rest, rfl⟩

theorem FluxCode.bytes_ne_nil (code : FluxCode) : 0 < code.bytes.length := by
  cases code <;> exact Nat.succ_pos _

/-- Events in front of what follows, and more events in front of those. -/
theorem map_append_append (front events : List FluxEvent) (rest : Except Error (List FluxEvent)) :
    (rest.map fun later => events ++ later).map (fun later => front ++ later) =
      rest.map fun later => (front ++ events) ++ later := by
  cases rest with
  | error e => rfl
  | ok later => exact congrArg Except.ok (List.append_assoc front events later).symm

/-- **A cut.** The front of a stream decodes, and what follows only adds events; or it ends inside a
code; or it fails with whatever follows it. -/
theorem decodeLoop_cut (queue : List Byte) (ticks : Nat) (index : Bool) :
    (∃ events ticks' index', ∀ rest, decodeLoop frequency (queue ++ rest) ticks index =
      (decodeLoop frequency rest ticks' index').map fun later => events ++ later) ∨
    (∃ e, Truncated e ∧ decodeLoop frequency queue ticks index = .error e) ∨
    ∃ e, ∀ rest, decodeLoop frequency (queue ++ rest) ticks index = .error e := by
  -- on the length: each code is shorter than what it stands in front of
  induction hlength : queue.length using Nat.strongRecOn generalizing queue ticks index with
  | ind length ih =>
    rcases exists_code queue with rfl | ⟨code, rest, rfl⟩ | ⟨e, htruncated, hcut⟩ | ⟨e, hunknown⟩
    · exact Or.inl ⟨[], ticks, index, fun rest => (map_nil_append _).symm⟩
    · have hpos := code.bytes_ne_nil
      rw [List.length_append] at hlength
      simp only [List.append_assoc, decodeLoop_code]
      cases hstep : code.step frequency ticks index with
      | error e => exact Or.inr (Or.inr ⟨e, fun more => rfl⟩)
      | ok done =>
        obtain ⟨front, ticks', index'⟩ := done
        rcases ih rest.length (by omega) rest ticks' index' rfl with
          ⟨events, ticks'', index'', hgo⟩ | ⟨e, htruncated, hcut⟩ | ⟨e, hfail⟩
        · refine Or.inl ⟨front ++ events, ticks'', index'', fun more => ?_⟩
          unfold goOn
          dsimp only
          rw [hgo, map_append_append]
        · refine Or.inr (Or.inl ⟨e, htruncated, ?_⟩)
          unfold goOn
          dsimp only
          rw [hcut]
          rfl
        · refine Or.inr (Or.inr ⟨e, fun more => ?_⟩)
          unfold goOn
          dsimp only
          rw [hfail]
          rfl
    · exact Or.inr (Or.inl ⟨e, htruncated, hcut frequency ticks index⟩)
    · exact Or.inr (Or.inr ⟨e, fun rest => hunknown frequency rest ticks index⟩)

/-- Where the loop goes on behind a front, the front alone gives its events. -/
theorem decodeLoop_of_goesOn {queue : List Byte} {ticks ticks' : Nat} {index index' : Bool}
    {events : List FluxEvent}
    (hgo : ∀ rest, decodeLoop frequency (queue ++ rest) ticks index =
      (decodeLoop frequency rest ticks' index').map fun later => events ++ later) :
    decodeLoop frequency queue ticks index = .ok events := by
  have hall := hgo []
  rw [List.append_nil, decodeLoop] at hall
  rw [hall]
  exact congrArg Except.ok (List.append_nil events)

/-- A stream that decodes leaves the loop between two codes: what follows only adds events. -/
theorem decodeLoop_append {queue : List Byte} {ticks : Nat} {index : Bool}
    {events : List FluxEvent} (h : decodeLoop frequency queue ticks index = .ok events) :
    ∃ ticks' index', ∀ rest, decodeLoop frequency (queue ++ rest) ticks index =
      (decodeLoop frequency rest ticks' index').map fun later => events ++ later := by
  rcases decodeLoop_cut queue ticks index with
    ⟨front, ticks', index', hgo⟩ | ⟨e, -, hcut⟩ | ⟨e, hfail⟩
  · cases h.symm.trans (decodeLoop_of_goesOn hgo)
    exact ⟨ticks', index', hgo⟩
  · rw [h] at hcut
    cases hcut
  · have hall := hfail []
    rw [List.append_nil, h] at hall
    cases hall

/-- Complete codes with an interval behind them: they fail with whatever follows, or decode, and
the loop starts afresh behind them. -/
theorem decodeLoop_codes (codes : List FluxCode) {last : FluxCode} (hlast : last.IsInterval)
    (ticks : Nat) (index : Bool) :
    (∃ events, ∀ rest,
      decodeLoop frequency (codes.flatMap FluxCode.bytes ++ (last.bytes ++ rest)) ticks index =
        (decodeLoop frequency rest 0 false).map fun later => events ++ later) ∨
    ∃ e, ∀ rest,
      decodeLoop frequency (codes.flatMap FluxCode.bytes ++ (last.bytes ++ rest)) ticks index =
        .error e := by
  induction codes generalizing ticks index with
  | nil =>
    simp only [List.flatMap_nil, List.nil_append, decodeLoop_code]
    cases hstep : last.step frequency ticks index with
    | error e => exact Or.inr ⟨e, fun rest => rfl⟩
    | ok done =>
      obtain ⟨events, ticks', index'⟩ := done
      obtain ⟨rfl, rfl⟩ := FluxCode.step_interval hlast hstep
      exact Or.inl ⟨events, fun rest => rfl⟩
  | cons code codes ih =>
    simp only [List.flatMap_cons, List.append_assoc, decodeLoop_code]
    cases hstep : code.step frequency ticks index with
    | error e => exact Or.inr ⟨e, fun rest => rfl⟩
    | ok done =>
      obtain ⟨front, ticks', index'⟩ := done
      rcases ih ticks' index' with ⟨events, hgo⟩ | ⟨e, hfail⟩
      · refine Or.inl ⟨front ++ events, fun rest => ?_⟩
        unfold goOn
        dsimp only
        rw [hgo, map_append_append]
      · refine Or.inr ⟨e, fun rest => ?_⟩
        unfold goOn
        dsimp only
        rw [hfail]
        rfl

end Codes

/-! ## The stream -/

/-- The front of a stream, cut wherever it decodes, has the front of its events. -/
theorem decodeStream_grows {frequency : Nat} {front raw : List Byte} (hfront : front <+: raw)
    {events whole : List FluxEvent} (h : decodeStream front frequency = .ok events)
    (hwhole : decodeStream raw frequency = .ok whole) : events <+: whole := by
  obtain ⟨rest, rfl⟩ := hfront
  obtain ⟨ticks, index, happend⟩ := decodeLoop_append h
  have hboth := (happend rest).symm.trans hwhole
  cases hlater : decodeLoop frequency rest ticks index with
  | error e =>
    rw [hlater] at hboth
    cases hboth
  | ok later =>
    rw [hlater] at hboth
    cases hboth
    exact List.prefix_append events later

/-- **The front.** Wherever a stream that decodes is cut, its front ends inside a code, or decodes
to the front of the events. -/
theorem decodeStream_prefix {frequency : Nat} {front rest : List Byte} {whole : List FluxEvent}
    (h : decodeStream (front ++ rest) frequency = .ok whole) :
    (∃ e, Truncated e ∧ decodeStream front frequency = .error e) ∨
      ∃ events, decodeStream front frequency = .ok events ∧ events <+: whole := by
  rcases @decodeLoop_cut frequency front 0 false with
    ⟨events, ticks, index, hgo⟩ | hcut | ⟨e, hfail⟩
  · have hfront : decodeStream front frequency = .ok events := decodeLoop_of_goesOn hgo
    exact Or.inr ⟨events, hfront, decodeStream_grows (List.prefix_append front rest) hfront h⟩
  · exact Or.inl hcut
  · rw [decodeStream, hfail] at h
    cases h

/-- **Composition.** Behind complete codes that end in an interval the decoder starts afresh. -/
theorem decodeStream_compose {frequency : Nat} (codes : List FluxCode) {last : FluxCode}
    (hlast : last.IsInterval) {events : List FluxEvent}
    (h : decodeStream (codes.flatMap FluxCode.bytes ++ last.bytes) frequency = .ok events)
    (rest : List Byte) :
    decodeStream (codes.flatMap FluxCode.bytes ++ last.bytes ++ rest) frequency =
      (decodeStream rest frequency).map fun later => events ++ later := by
  rcases @decodeLoop_codes frequency codes last hlast 0 false with ⟨front, hgo⟩ | ⟨e, hfail⟩
  · simp only [← List.append_assoc] at hgo
    cases h.symm.trans (decodeLoop_of_goesOn hgo)
    exact hgo rest
  · have hall := hfail []
    rw [List.append_nil] at hall
    cases h.symm.trans hall

/--
**Cuts of a stream.** Wherever a stream that decodes is cut, its front ends inside a code or decodes
to the front of the events; and behind a front of complete codes that ends in an interval, what
follows succeeds just when it does alone, and adds the events it has alone.
-/
theorem decodeStream_cut (frequency : Nat) (front rest : List Byte) :
    (∀ whole, decodeStream (front ++ rest) frequency = .ok whole →
      (∃ e, Truncated e ∧ decodeStream front frequency = .error e) ∨
        ∃ events, decodeStream front frequency = .ok events ∧ events <+: whole) ∧
    ∀ (codes : List FluxCode) last events,
      front = codes.flatMap FluxCode.bytes ++ FluxCode.bytes last →
      last.IsInterval → decodeStream front frequency = .ok events →
      decodeStream (front ++ rest) frequency =
        (decodeStream rest frequency).map fun later => events ++ later := by
  refine ⟨fun whole h => decodeStream_prefix h, ?_⟩
  rintro codes last events rfl hlast h
  exact decodeStream_compose codes hlast h rest

theorem decodeStream_cut_marked :
    ((∃ e, Truncated e ∧ decodeStream [80, 250, 6, 255, 1, 21] 40000000 = .error e) ∨
      ∃ events, decodeStream [80, 250, 6, 255, 1, 21] 40000000 = .ok events ∧
        events <+: [⟨2000, false⟩, ⟨6375, false⟩, ⟨1250, true⟩]) ∧
    decodeStream ([80, 250, 6] ++ [255, 1, 21, 1, 1, 1, 50]) 40000000 =
      (decodeStream [255, 1, 21, 1, 1, 1, 50] 40000000).map fun later =>
        [⟨2000, false⟩, ⟨6375, false⟩] ++ later :=
  ⟨(decodeStream_cut 40000000 [80, 250, 6, 255, 1, 21] [1, 1, 1, 50]).1
      [⟨2000, false⟩, ⟨6375, false⟩, ⟨1250, true⟩] (by decide +kernel),
    (decodeStream_cut 40000000 [80, 250, 6] [255, 1, 21, 1, 1, 1, 50]).2
      [.short 80 (by decide)] (.long 250 6 (by decide) (by decide))
      [⟨2000, false⟩, ⟨6375, false⟩] rfl trivial (by decide +kernel)⟩

end FluxBridge
