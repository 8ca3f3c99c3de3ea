import FluxBridge.Flux.IndexCut
import FluxBridge.Device.Loopback

/-!
# Captures from index to index

A capture flagged `index_aligned` is replayed as a ring. The flag only says that a pulse was seen;
`flux_to_revolution` does not look whether the cut ended at a second one or at the end of the
stream.

* `alignedIsRevolution_iff` — the flag is right unless the stream ends behind its only pulse
* `truncated_aligned` — a stream that does
-/

namespace FluxBridge

/-- The cells from the first index mark, inclusive, to the second one, exclusive. -/
def IndexToIndex (events : List FluxEvent) (words : List (BitVec 16)) (bitLen : Nat) : Prop :=
  ∃ before first segment second rest,
    events = before ++ first :: (segment ++ second :: rest) ∧
    Plain before ∧ first.index = true ∧ Plain segment ∧ second.index = true ∧
    words = packBits (cellsBehind before (first :: segment)) ∧
    bitLen = (cellsBehind before (first :: segment)).length

/-- There is a single index mark, and as many cells behind it as a capture may have. -/
def EndsBehindMark (events : List FluxEvent) : Prop :=
  ∃ before first segment, events = before ++ first :: segment ∧
    Plain before ∧ first.index = true ∧ Plain segment ∧
    64 ≤ (cellsBehind before (first :: segment)).length ∧
    (cellsBehind before (first :: segment)).length ≤ MAX_TRACK_BITS

namespace Greaseweazle

/-- A capture of this stream that is flagged as aligned goes from one index to the next. -/
def AlignedIsRevolution (self : Greaseweazle) (stream : List Byte) (mode : ReadMode)
    (density : DensityMode) : Prop :=
  ∀ decoded events next capture,
    self.decodeAtDensity stream density = .ok (decoded, events) →
    self.extractCapture stream mode density = some (.ok (next, capture)) →
    capture.indexAligned = true → IndexToIndex events capture.words capture.bitLen

/-- A packed revolution of a permitted length is a valid capture. -/
theorem validateCapture_packBits {bits : List Bool} (hmin : 64 ≤ bits.length)
    (hmax : bits.length ≤ MAX_TRACK_BITS) (flag : Bool) :
    validateCapture ⟨packBits bits, bits.length, flag⟩ = .ok () := by
  have hwords : bits.length ≤ (packBits bits).length * 16 := by
    rw [length_packBits]
    unfold wordCount
    omega
  unfold validateCapture
  rw [if_neg (by simp; omega), if_neg (by simp; omega)]

variable {self : Greaseweazle} {stream : List Byte} {mode : ReadMode} {density : DensityMode}

/-- In the index modes the capture is what `flux_to_revolution` makes of the events. -/
theorem extractCapture_eq (hmode : mode ≠ .normal) {decoded : Greaseweazle}
    {events : List FluxEvent}
    (hdecode : self.decodeAtDensity stream density = .ok (decoded, events)) :
    self.extractCapture stream mode density = some (do
      let (words, bitLen, flag) ← fluxToRevolution events
      validateCapture ⟨words, bitLen, flag⟩
      pure (decoded, ⟨words, bitLen, flag⟩)) := by
  unfold extractCapture
  rw [hdecode]
  simp [hmode]

/-- Where there is no mark there is no flag, and where there is one, the capture runs from it to
the next or to the end. -/
theorem aligned_cases (hmode : mode ≠ .normal) {decoded next : Greaseweazle}
    {events : List FluxEvent} {capture : RawCapture}
    (hdecode : self.decodeAtDensity stream density = .ok (decoded, events))
    (h : self.extractCapture stream mode density = some (.ok (next, capture)))
    (hflag : capture.indexAligned = true) :
    IndexToIndex events capture.words capture.bitLen ∨ EndsBehindMark events := by
  rw [extractCapture_eq hmode hdecode] at h
  rcases hextract : fluxToRevolution events with error | ⟨words, bitLen, flag⟩
  · rw [hextract] at h
    cases h
  · rw [hextract] at h
    rcases hvalid : validateCapture ⟨words, bitLen, flag⟩ with error | _
    · simp [hvalid, bind, Except.bind] at h
    · simp only [hvalid, bind, Except.bind, pure, Except.pure, Option.some.injEq,
        Except.ok.injEq, Prod.mk.injEq] at h
      obtain ⟨-, rfl⟩ := h
      -- the events are cut at their first pulse and, where there is one, at the second
      rcases exists_cut events with hplain |
        ⟨before, first, segment, rest, rfl, hbefore, hfirst, hsegment, hrest⟩
      · cases hflag.symm.trans (fluxToRevolution_plain hplain hextract)
      · obtain ⟨⟨hmin, hmax⟩, -, hwords, hlength⟩ :=
          (fluxToRevolution_cut hbefore hfirst hsegment hrest words bitLen flag).mp hextract
        cases rest with
        | nil =>
          rw [hlength] at hmin hmax
          rw [List.append_nil]
          exact Or.inr ⟨before, first, segment, rfl, hbefore, hfirst, hsegment, hmin, hmax⟩
        | cons second rest =>
          exact Or.inl ⟨before, first, segment, second, rest, rfl, hbefore, hfirst, hsegment,
            hrest second rfl, hwords, hlength⟩

/-- Plain events have no mark. -/
theorem countP_plain {events : List FluxEvent} (hplain : Plain events) :
    events.countP (fun event => event.index) = 0 := by
  rw [List.countP_eq_zero]
  intro event hevent
  rw [hplain event hevent]
  exact Bool.false_ne_true

theorem indexToIndex_count {events : List FluxEvent} {words : List (BitVec 16)} {bitLen : Nat}
    (h : IndexToIndex events words bitLen) : 2 ≤ events.countP (fun event => event.index) := by
  obtain ⟨before, first, segment, second, rest, rfl, -, hfirst, -, hsecond, -⟩ := h
  simp only [List.countP_append, List.countP_cons, hfirst, hsecond, if_true]
  omega

theorem endsBehindMark_count {events : List FluxEvent} (h : EndsBehindMark events) :
    events.countP (fun event => event.index) = 1 := by
  obtain ⟨before, first, segment, rfl, hbefore, hfirst, hsegment, -⟩ := h
  simp only [List.countP_append, List.countP_cons, hfirst, countP_plain hbefore,
    countP_plain hsegment, if_true]

/-- **Aligned captures.** The flag of `read_stream` means index to index for exactly those streams
that do not end behind their only index mark with cells enough for a capture. -/
theorem alignedIsRevolution_iff (self : Greaseweazle) (stream : List Byte) (mode : ReadMode)
    (density : DensityMode) (hmode : mode ≠ .normal) :
    self.AlignedIsRevolution stream mode density ↔
      ∀ decoded events, self.decodeAtDensity stream density = .ok (decoded, events) →
        ¬ EndsBehindMark events := by
  constructor
  · intro haligned decoded events hdecode hends
    obtain ⟨before, first, segment, rfl, hbefore, hfirst, hsegment, hmin, hmax⟩ := id hends
    have hrest : AtPulse [] := by simp [AtPulse]
    have hextract := (fluxToRevolution_cut hbefore hfirst hsegment hrest _ _ _).mpr
      ⟨⟨hmin, hmax⟩, rfl, rfl, rfl⟩
    rw [List.append_nil] at hextract
    have hcapture := @extractCapture_eq self stream mode density hmode decoded _ hdecode
    rw [hextract] at hcapture
    simp only [validateCapture_packBits hmin hmax, bind, Except.bind, pure, Except.pure]
      at hcapture
    have htwo := indexToIndex_count (haligned decoded _ decoded _ hdecode hcapture rfl)
    have hone := endsBehindMark_count hends
    omega
  · intro hends decoded events next capture hdecode hcapture hflag
    rcases aligned_cases hmode hdecode hcapture hflag with hcut | htruncated
    · exact hcut
    · exact absurd htruncated (hends decoded events hdecode)

/-- An index mark and 80 cells. -/
def markedCells : List Byte := [255, 1, 1, 1, 1, 1] ++ List.replicate 40 160

theorem alignedIsRevolution_twoMarks :
    at40MHz.AlignedIsRevolution (markedCells ++ markedCells) .compatible .double := by
  refine (alignedIsRevolution_iff at40MHz _ .compatible .double (by decide)).mpr ?_
  intro decoded events hdecode hends
  have hcount : (at40MHz.decodeAtDensity (markedCells ++ markedCells) .double).toOption.map
      (fun result => result.2.countP fun event => event.index) = some 2 := by decide +kernel
  rw [hdecode] at hcount
  have hone := endsBehindMark_count hends
  cases hcount.symm.trans (congrArg some hone)

/-- The platter stopped behind the first mark, and its 80 cells are taken for a revolution. -/
theorem truncated_aligned :
    ¬ at40MHz.AlignedIsRevolution markedCells .compatible .double := by
  intro haligned
  have hdecode : at40MHz.decodeAtDensity markedCells .double =
      .ok (at40MHz, ⟨4000, true⟩ :: List.replicate 39 ⟨4000, false⟩) := by decide +kernel
  have hcapture : at40MHz.extractCapture markedCells .compatible .double =
      some (.ok (at40MHz, ⟨[0x5555, 0x5555, 0x5555, 0x5555, 0x5555], 80, true⟩)) := by
    decide +kernel
  have htwo := indexToIndex_count (haligned _ _ _ _ hdecode hcapture rfl)
  revert htwo
  decide

end Greaseweazle

end FluxBridge
