import FluxBridge.Flux.IndexCut
import FluxBridge.Flux.PllLock
import FluxBridge.Flux.TurnedScan
import FluxBridge.Flux.RotationAction

/-!
# A disk that turns under the head

What a drive reports of a track that repeats: the distance from each transition to the next one, at
a speed of its own and with jitter, and the index pulse at one place of the ring.

* `Follows`, `played` — the intervals of a ring from a transition on, and the events they become
* `Follows.span_eq` — from one pulse to the next it is one revolution
* `fluxToRevolution_turning` — what is captured is the ring, cut at the pulse
-/

namespace FluxBridge

/-! ## The intervals of a ring -/

section Ring

variable (words : List (BitVec 16)) (bitLen : Nat)

/-- The cells of a ring from `position` on, `count` of them. -/
def ringCells (position count : Nat) : List Bool :=
  (List.range count).map fun k => bitAt words bitLen (position + k)

/-- From behind `position` on, the transitions of the ring are as far apart as the intervals. -/
def Follows : Nat → List NoisyInterval → Prop
  | _, [] => True
  | position, interval :: intervals =>
    interval.decoded = ringCells words bitLen (position + 1) interval.cells ∧
      Follows (position + interval.cells) intervals

instance decidableFollows : (position : Nat) → (intervals : List NoisyInterval) →
    Decidable (Follows words bitLen position intervals)
  | _, [] => isTrue trivial
  | position, interval :: intervals =>
    @instDecidableAnd (_ = _) _ inferInstance
      (decidableFollows (position + interval.cells) intervals)

end Ring

/-- The pulse comes behind `position`, within so many cells. -/
def passes (bitLen pulse position cells : Nat) : Bool :=
  (List.range cells).any fun k => (position + 1 + k) % bitLen == pulse

/-- The events of a drive whose head has just passed `position`. -/
def played (bitLen pulse : Nat) (cellTime : Int) : Nat → List NoisyInterval → List FluxEvent
  | _, [] => []
  | position, interval :: intervals =>
    ⟨(interval.delay cellTime).toNat, passes bitLen pulse position interval.cells⟩ ::
      played bitLen pulse cellTime (position + interval.cells) intervals

/-- How many cells the intervals last. -/
def span (intervals : List NoisyInterval) : Nat :=
  (intervals.map NoisyInterval.cells).sum

@[simp] theorem span_nil : span [] = 0 := rfl

@[simp] theorem span_cons (interval : NoisyInterval) (intervals : List NoisyInterval) :
    span (interval :: intervals) = interval.cells + span intervals := by
  unfold span
  rw [List.map_cons, List.sum_cons]

theorem passes_iff {bitLen pulse position cells : Nat} :
    passes bitLen pulse position cells = true ↔
      ∃ k, 1 ≤ k ∧ k ≤ cells ∧ (position + k) % bitLen = pulse := by
  unfold passes
  simp only [List.any_eq_true, List.mem_range, beq_iff_eq]
  constructor
  · rintro ⟨k, hk, hpulse⟩
    exact ⟨k + 1, by omega, by omega, by rw [← hpulse]; congr 1; omega⟩
  · rintro ⟨k, hone, hk, hpulse⟩
    exact ⟨k - 1, by omega, by rw [← hpulse]; congr 1; omega⟩

/-! ## Parts of a reading -/

section Parts

variable {words : List (BitVec 16)} {bitLen pulse : Nat} {cellTime : Int}

theorem ringCells_add (position left right : Nat) :
    ringCells words bitLen position (left + right) =
      ringCells words bitLen position left ++ ringCells words bitLen (position + left) right := by
  unfold ringCells
  rw [List.range_add, List.map_append, List.map_map]
  congr 1
  refine List.map_congr_left fun k _ => ?_
  rw [Function.comp_apply, Nat.add_assoc]

theorem played_append (left right : List NoisyInterval) (position : Nat) :
    played bitLen pulse cellTime position (left ++ right) =
      played bitLen pulse cellTime position left ++
        played bitLen pulse cellTime (position + span left) right := by
  induction left generalizing position with
  | nil => rfl
  | cons interval left ih =>
    rw [List.cons_append, played, played, ih, span_cons, Nat.add_assoc, List.cons_append]

theorem Follows.append {left right : List NoisyInterval} {position : Nat}
    (h : Follows words bitLen position (left ++ right)) :
    Follows words bitLen position left ∧ Follows words bitLen (position + span left) right := by
  induction left generalizing position with
  | nil => exact ⟨trivial, h⟩
  | cons interval left ih =>
    obtain ⟨hcells, hrest⟩ := h
    obtain ⟨hleft, hright⟩ := ih hrest
    rw [span_cons, ← Nat.add_assoc]
    exact ⟨⟨hcells, hleft⟩, hright⟩

/-- The cells the intervals stand for are those of the ring. -/
theorem Follows.decoded {intervals : List NoisyInterval} {position : Nat}
    (h : Follows words bitLen position intervals) :
    intervals.flatMap NoisyInterval.decoded =
      ringCells words bitLen (position + 1) (span intervals) := by
  induction intervals generalizing position with
  | nil => rfl
  | cons interval intervals ih =>
    obtain ⟨hcells, hrest⟩ := h
    rw [List.flatMap_cons, span_cons, ringCells_add, ← hcells, ih hrest]
    congr 2
    omega

theorem map_nanoseconds_played (intervals : List NoisyInterval) (position : Nat) :
    (played bitLen pulse cellTime position intervals).map (fun event => event.nanoseconds) =
      intervals.map fun interval => (interval.delay cellTime).toNat := by
  induction intervals generalizing position with
  | nil => rfl
  | cons interval intervals ih => rw [played, List.map_cons, List.map_cons, ih]

/-- A front of the events is what a front of the intervals becomes. -/
theorem exists_played {intervals : List NoisyInterval} {position : Nat}
    {front rest : List FluxEvent}
    (h : played bitLen pulse cellTime position intervals = front ++ rest) :
    ∃ left right, intervals = left ++ right ∧
      front = played bitLen pulse cellTime position left ∧
      rest = played bitLen pulse cellTime (position + span left) right := by
  induction front generalizing intervals position with
  | nil => exact ⟨[], intervals, rfl, rfl, h.symm⟩
  | cons event front ih =>
    cases intervals with
    | nil => cases h
    | cons interval intervals =>
      obtain ⟨hevent, htail⟩ := List.cons.inj h
      obtain ⟨left, right, rfl, hfront, hrest⟩ := ih htail
      refine ⟨interval :: left, right, rfl, ?_, ?_⟩
      · rw [played, ← hfront, hevent]
      · rw [hrest, span_cons, Nat.add_assoc]

end Parts

/-! ## The transitions -/

section Transitions

variable {words : List (BitVec 16)} {bitLen pulse : Nat} {cellTime : Int}

theorem getElem?_ringCells {position count k : Nat} (hk : k < count) :
    (ringCells words bitLen position count)[k]? = some (bitAt words bitLen (position + k)) := by
  unfold ringCells
  rw [List.getElem?_map, List.getElem?_range hk, Option.map_some]

/-- Behind a transition comes nothing for the length of an interval, and then the next one. -/
theorem bitAt_of_decoded {interval : NoisyInterval} {position : Nat}
    (h : interval.decoded = ringCells words bitLen (position + 1) interval.cells) {k : Nat}
    (hone : 1 ≤ k) (hk : k ≤ interval.cells) :
    bitAt words bitLen (position + k) = decide (k = interval.cells) := by
  have htwo := interval.two_le
  have hcell := @getElem?_ringCells words bitLen (position + 1) interval.cells (k - 1) (by omega)
  rw [← h, show position + 1 + (k - 1) = position + k by omega] at hcell
  unfold NoisyInterval.decoded at hcell
  rw [List.getElem?_append, List.length_replicate] at hcell
  split at hcell
  · next hlt =>
    rw [List.getElem?_replicate_of_lt hlt] at hcell
    rw [← Option.some.inj hcell]
    exact (decide_eq_false (by omega)).symm
  · next hge =>
    rw [show k - 1 - (interval.cells - 1) = 0 by omega] at hcell
    rw [← Option.some.inj hcell]
    exact (decide_eq_true (by omega)).symm

/-- Where the intervals end there is a transition, if there was one where they begin. -/
theorem Follows.bitAt_span {intervals : List NoisyInterval} {position : Nat}
    (h : Follows words bitLen position intervals) (hstart : bitAt words bitLen position = true) :
    bitAt words bitLen (position + span intervals) = true := by
  induction intervals generalizing position with
  | nil => exact hstart
  | cons interval intervals ih =>
    obtain ⟨hcells, hrest⟩ := h
    have htwo := interval.two_le
    have hnext : bitAt words bitLen (position + interval.cells) = true := by
      rw [bitAt_of_decoded hcells (by omega) (Nat.le_refl _)]
      exact decide_eq_true rfl
    rw [span_cons, ← Nat.add_assoc]
    exact ih hrest hnext

theorem bitAt_add_bitLen (position : Nat) :
    bitAt words bitLen (position + bitLen) = bitAt words bitLen position := by
  unfold bitAt
  rw [Nat.add_mod_right]

/-- Where no event has the pulse, it is not at any cell they last. -/
theorem pulse_notMem_of_plain {intervals : List NoisyInterval} {position : Nat}
    (hplain : Plain (played bitLen pulse cellTime position intervals)) {k : Nat} (hone : 1 ≤ k)
    (hk : k ≤ span intervals) : (position + k) % bitLen ≠ pulse := by
  induction intervals generalizing position k with
  | nil =>
    rw [span_nil] at hk
    omega
  | cons interval intervals ih =>
    obtain ⟨hfirst, hrest⟩ := plain_cons.mp hplain
    rw [span_cons] at hk
    rcases Nat.lt_or_ge interval.cells k with hlate | hearly
    · have hlater :=
        @ih (position + interval.cells) hrest (k - interval.cells) (by omega) (by omega)
      rwa [show position + interval.cells + (k - interval.cells) = position + k by omega] at hlater
    · intro hpulse
      have hpasses : passes bitLen pulse position interval.cells = true :=
        passes_iff.mpr ⟨k, hone, hearly, hpulse⟩
      exact Bool.false_ne_true (hfirst.symm.trans hpasses)

/-- **One revolution.** From the event with one pulse to the event with the next it is the length
of the ring. -/
theorem Follows.span_eq {interval next : NoisyInterval} {intervals : List NoisyInterval}
    {position : Nat} (hlong : 64 ≤ bitLen)
    (h : Follows words bitLen position (interval :: intervals))
    (hnext : next.decoded =
      ringCells words bitLen (position + span (interval :: intervals) + 1) next.cells)
    (hstart : bitAt words bitLen position = true)
    (hpulse : passes bitLen pulse position interval.cells = true)
    (hplain : Plain (played bitLen pulse cellTime (position + interval.cells) intervals))
    (hagain : passes bitLen pulse (position + span (interval :: intervals)) next.cells = true) :
    span (interval :: intervals) = bitLen := by
  have hend := h.bitAt_span hstart
  obtain ⟨k, hone, hk, hmod⟩ := passes_iff.mp hpulse
  obtain ⟨k', hone', hk', hmod'⟩ := passes_iff.mp hagain
  have hfour := interval.le_four
  have hfour' := next.le_four
  have htwo := interval.two_le
  have hnone := fun j => @pulse_notMem_of_plain bitLen pulse cellTime intervals
    (position + interval.cells) hplain j
  obtain ⟨hcells, hrest⟩ := h
  rw [span_cons] at hnext hmod' hend ⊢
  -- the two places of the pulse are one length apart, as none lies between them
  have hapart : interval.cells + span intervals + k' = k + bitLen := by
    obtain ⟨turns, hturns⟩ : ∃ turns,
        interval.cells + span intervals + k' = k + bitLen * turns := by
      have hle : position + k ≤ position + (interval.cells + span intervals) + k' := by omega
      have hdvd := (Nat.modEq_iff_dvd' hle).mp (hmod.trans hmod'.symm)
      obtain ⟨turns, hturns⟩ := hdvd
      exact ⟨turns, by omega⟩
    rcases turns with _ | _ | turns
    · exfalso
      rw [Nat.mul_zero] at hturns
      omega
    · omega
    · exfalso
      have hmore : bitLen * (turns + 1 + 1) = bitLen * turns + bitLen + bitLen := rfl
      have hzero : 0 ≤ bitLen * turns := Nat.zero_le _
      refine hnone (k + bitLen - interval.cells) (by omega) (by omega) ?_
      rw [show position + interval.cells + (k + bitLen - interval.cells) = position + k + bitLen by
        omega, Nat.add_mod_right]
      exact hmod
  -- a transition before the pulse is one a length later
  rcases Nat.lt_trichotomy k k' with hlt | heq | hgt
  · exfalso
    have hbit := bitAt_of_decoded hnext (k := k' - k) (by omega) (by omega)
    rw [show position + (interval.cells + span intervals) + (k' - k) = position + bitLen by omega,
      bitAt_add_bitLen, hstart] at hbit
    exact absurd hbit.symm (by simp only [decide_eq_true_eq]; omega)
  · omega
  · exfalso
    have hbit := bitAt_of_decoded hcells (k := k - k') (by omega) (by omega)
    rw [show position + (interval.cells + span intervals) = position + (k - k') + bitLen by omega,
      bitAt_add_bitLen, hbit] at hend
    exact absurd hend (by simp only [decide_eq_true_eq]; omega)

end Transitions

/-! ## The capture -/

section Capture

variable {words : List (BitVec 16)} {bitLen pulse : Nat} {cellTime : Int}

theorem countP_index_plain {events : List FluxEvent} (hplain : Plain events) :
    events.countP FluxEvent.index = 0 :=
  List.countP_eq_zero.mpr fun event hevent => by simp [hplain event hevent]

/-- A reading with two pulses is cut at both. -/
theorem exists_revolution {intervals : List NoisyInterval} {start : Nat}
    (hpulses : 2 ≤ (played bitLen pulse cellTime start intervals).countP FluxEvent.index) :
    ∃ before interval revolution next after,
      intervals = before ++ interval :: (revolution ++ next :: after) ∧
      Plain (played bitLen pulse cellTime start before) ∧
      passes bitLen pulse (start + span before) interval.cells = true ∧
      Plain (played bitLen pulse cellTime (start + span before + interval.cells) revolution) ∧
      passes bitLen pulse (start + span before + span (interval :: revolution))
        next.cells = true := by
  rcases exists_cut (played bitLen pulse cellTime start intervals) with
    hplain | ⟨before, first, segment, rest, hcut, hbefore, hfirst, hsegment, hrest⟩
  · rw [countP_index_plain hplain] at hpulses
    omega
  · rw [hcut, List.countP_append, List.countP_cons, List.countP_append, countP_index_plain hbefore,
      countP_index_plain hsegment, if_pos hfirst] at hpulses
    obtain ⟨left, right, rfl, rfl, hright⟩ := exists_played hcut
    cases right with
    | nil => cases hright
    | cons interval right =>
      obtain ⟨hevent, htail⟩ := List.cons.inj hright
      obtain ⟨revolution, after, rfl, rfl, hafter⟩ := exists_played htail.symm
      cases after with
      | nil =>
        rw [hafter, played, List.countP_nil] at hpulses
        omega
      | cons next after =>
        refine ⟨left, interval, revolution, next, after, rfl, hbefore, ?_, hsegment, ?_⟩
        · rw [hevent] at hfirst
          exact hfirst
        · have hagain := hrest _ (by rw [hafter]; rfl)
          rw [span_cons, ← Nat.add_assoc]
          exact hagain

/-- The verdict on a turned ring is that on the ring. -/
theorem Turned.scanRevolution {turned : List (BitVec 16)} {shift : Nat}
    (hturned : Turned words turned bitLen shift) (hlong : 64 ≤ bitLen)
    (hfits : bitLen ≤ 16 * words.length) (hroom : bitLen ≤ 16 * turned.length) :
    FluxBridge.scanRevolution turned bitLen = FluxBridge.scanRevolution words bitLen := by
  have hinOrder : ∀ ring : List (BitVec 16), bitLen ≤ 16 * ring.length →
      FluxBridge.scanRevolution ring bitLen = scanInOrder ring bitLen (findSyncs ring bitLen) := by
    intro ring hring
    refine if_neg ?_
    rintro (hshort | rfl | hwide)
    · omega
    · rw [List.length_nil] at hring
      omega
    · omega
  rw [hinOrder words hfits, hinOrder turned hroom]
  unfold scanInOrder
  rw [hturned.foldl_scanSync hlong (.refl _)]

/-- The cells of one revolution are the words of the ring, turned. -/
theorem packBits_ringCells (hpos : 1 ≤ bitLen) (hfits : bitLen ≤ 16 * words.length)
    (position : Nat) :
    rotateRevolution words bitLen position = .ok (packBits (ringCells words bitLen position bitLen))
    := by
  unfold rotateRevolution ringCells bitAt
  rw [if_neg (by omega)]
  simp only [Nat.mod_add_mod]

/--
**The ring comes back.** Whatever the speed of the drive within 3 % and the jitter of each interval,
a reading with two index pulses is captured as one revolution of the ring, cut in front of the
interval with the pulse: no cell is lost or gained, and the scan of it says what it says of the
ring.
-/
theorem fluxToRevolution_turning {start : Nat} {intervals : List NoisyInterval}
    (hlow : 1940 ≤ cellTime) (hhigh : cellTime ≤ 2060) (hlong : 64 ≤ bitLen)
    (hmax : bitLen ≤ MAX_TRACK_BITS) (hfits : bitLen ≤ 16 * words.length)
    (hstart : bitAt words bitLen start = true) (hfollows : Follows words bitLen start intervals)
    (hpulses : 2 ≤ (played bitLen pulse cellTime start intervals).countP FluxEvent.index) :
    ∃ startBit rotated, rotateRevolution words bitLen startBit = .ok rotated ∧
      fluxToRevolution (played bitLen pulse cellTime start intervals) =
        .ok (rotated, bitLen, true) ∧
      (∃ k < 4, (startBit + k) % bitLen = pulse) ∧
      scanRevolution rotated bitLen = scanRevolution words bitLen := by
  obtain ⟨before, interval, revolution, next, after, rfl, hbefore, hpulse, hplain, hagain⟩ :=
    exists_revolution hpulses
  obtain ⟨hfront, hback⟩ := hfollows.append
  rw [← List.cons_append] at hback
  obtain ⟨hrevolution, hnext, -⟩ := hback.append
  have hspan := hrevolution.span_eq hlong hnext (hfront.bitAt_span hstart) hpulse hplain hagain
  -- the decoder is locked where the revolution begins
  have hlocked := (locked_new hlow hhigh).run hlow hhigh before
    (@map_nanoseconds_played bitLen pulse cellTime before start)
  have hcells := (hlocked.2.run hlow hhigh (interval :: revolution)
    (@map_nanoseconds_played bitLen pulse cellTime _ (start + span before))).1
  rw [hrevolution.decoded, hspan] at hcells
  have hlength : (ringCells words bitLen (start + span before + 1) bitLen).length = bitLen := by
    unfold ringCells
    rw [List.length_map, List.length_range]
  refine ⟨start + span before + 1, _, packBits_ringCells (by omega) hfits _, ?_, ?_, ?_⟩
  · rw [played_append, ← List.cons_append, played_append]
    refine (fluxToRevolution_cut hbefore hpulse hplain ?_ _ _ _).mpr
      ⟨⟨hlong, hmax⟩, rfl, ?_, ?_⟩
    · rintro event hevent
      cases hevent
      exact hagain
    · rw [cellsBehind]
      exact congrArg packBits hcells.symm
    · rw [cellsBehind]
      exact (congrArg List.length hcells).symm ▸ hlength.symm
  · obtain ⟨k, hone, hk, hmod⟩ := passes_iff.mp hpulse
    have hfour := interval.le_four
    exact ⟨k - 1, by omega, by rw [← hmod]; congr 1; omega⟩
  · have hturned := bitAt_rotateRevolution (packBits_ringCells (by omega) hfits
      (start + span before + 1))
    refine hturned.scanRevolution hlong hfits ?_
    rw [length_packBits, hlength]
    unfold wordCount
    omega

/-- A slow drive with jitter, on a ring of distances of two cells. -/
theorem fluxToRevolution_turning_two :
    ∃ startBit rotated, rotateRevolution (List.replicate 4 0x5555) 64 startBit = .ok rotated ∧
      fluxToRevolution (played 64 10 2041 1
        (List.replicate 70 ⟨2, -50, by decide, by decide, by decide, by decide⟩)) =
        .ok (rotated, 64, true) ∧
      (∃ k < 4, (startBit + k) % 64 = 10) ∧
      scanRevolution rotated 64 = scanRevolution (List.replicate 4 0x5555) 64 :=
  fluxToRevolution_turning (by decide) (by decide) (by decide) (by decide) (by decide) (by decide)
    (by decide +kernel) (by decide +kernel)

end Capture

end FluxBridge
