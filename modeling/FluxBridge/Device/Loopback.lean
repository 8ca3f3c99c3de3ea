import Mathlib.Tactic.Ring
import FluxBridge.Flux.Gaps
import FluxBridge.Device.TickCodec

/-!
# Writing and reading back

The stream that `write_stream` builds, read by the same device. At a whole number of ticks per
microsecond no rounding of either direction loses anything, so that every distance between two
transitions comes back as the same number of cells.

* `writeTicks_eq`, `ticksToNanoseconds_eq` — the two roundings are exact
* `fluxStream_eq` — the stream as a list of intervals
* `loopback` — the cells that come back
-/

namespace FluxBridge

namespace Greaseweazle

/-- The density a device writes at, as an order to read at. -/
def density (self : Greaseweazle) : DensityMode := if self.highDensity then .high else .double

/-- Microseconds a cell lasts at the density a device writes at. -/
def cellMicros (self : Greaseweazle) : Nat := if self.highDensity then 1 else 2

theorem cellMicros_pos (self : Greaseweazle) : 1 ≤ self.cellMicros := by
  unfold cellMicros
  split <;> omega

theorem cellMicros_le (self : Greaseweazle) : self.cellMicros ≤ 2 := by
  unfold cellMicros
  split <;> omega

section Exact

variable {self : Greaseweazle} {perMicro distance : Nat}

/-- Ticks of a distance in whole cells. -/
theorem writeTicks_eq (hfrequency : self.sampleFrequency = perMicro * 1000000)
    (hdistance : 1 ≤ distance) :
    self.writeTicks (distance * (1000 * self.cellMicros)) =
      distance * self.cellMicros * perMicro := by
  have hmicro : 1 ≤ perMicro := by
    have hpos := self.frequency_pos
    rw [hfrequency] at hpos
    omega
  have hticks : 1 ≤ distance * self.cellMicros * perMicro :=
    Nat.mul_pos (Nat.mul_pos hdistance self.cellMicros_pos) hmicro
  have hproduct : distance * (1000 * self.cellMicros) * (perMicro * 1000000) =
      distance * self.cellMicros * perMicro * 1000000000 := by ring
  unfold writeTicks
  rw [hfrequency, hproduct]
  omega

/-- Nanoseconds of the ticks of a distance. -/
theorem ticksToNanoseconds_eq (hfrequency : self.sampleFrequency = perMicro * 1000000)
    (hmax : distance ≤ MAX_TRACK_BITS) :
    ticksToNanoseconds (distance * self.cellMicros * perMicro) self.sampleFrequency =
      .ok (distance * (1000 * self.cellMicros)) := by
  have hpos := self.frequency_pos
  have hmicros := self.cellMicros_le
  have hproduct : distance * self.cellMicros * perMicro * 1000000000 =
      distance * (1000 * self.cellMicros) * self.sampleFrequency := by
    rw [hfrequency]
    ring
  have hround : (distance * self.cellMicros * perMicro * 1000000000 + self.sampleFrequency / 2) /
      self.sampleFrequency = distance * (1000 * self.cellMicros) := by
    rw [hproduct, Nat.add_comm, Nat.add_mul_div_right _ _ hpos,
      Nat.div_eq_of_lt (by omega), Nat.zero_add]
  have hfits : distance * (1000 * self.cellMicros) < U32_RANGE := by
    have hbound : distance * (1000 * self.cellMicros) ≤ MAX_TRACK_BITS * 2000 :=
      Nat.mul_le_mul hmax (by omega)
    have hroom : MAX_TRACK_BITS * 2000 < U32_RANGE := by decide
    omega
  unfold ticksToNanoseconds
  rw [hround]
  exact if_pos hfits

/-- Every interval fits the 28-bit form. -/
theorem ticks_lt (hfrequency : self.sampleFrequency = perMicro * 1000000)
    (hlimit : self.sampleFrequency ≤ 500000000) (hmax : distance ≤ MAX_TRACK_BITS) :
    distance * self.cellMicros * perMicro < 2 ^ 28 := by
  have hmicro : perMicro ≤ 500 := by omega
  have hbound : distance * self.cellMicros * perMicro ≤ MAX_TRACK_BITS * 2 * 500 :=
    Nat.mul_le_mul (Nat.mul_le_mul hmax self.cellMicros_le) hmicro
  have hroom : MAX_TRACK_BITS * 2 * 500 < 2 ^ 28 := by decide
  omega

end Exact

/-! ## The stream -/

/-- The loop of `write_stream`. -/
theorem foldlM_pushDelay {self : Greaseweazle} (timings : List Nat) (stream : List Byte)
    (h : ∀ nanoseconds ∈ timings, self.writeTicks nanoseconds < U32_RANGE) :
    timings.foldlM self.pushDelay stream =
      .ok (stream ++ (timings.map self.writeTicks).flatMap encodeTicks) := by
  induction timings generalizing stream with
  | nil =>
    rw [List.map_nil, List.flatMap_nil, List.append_nil]
    rfl
  | cons nanoseconds timings ih =>
    have hpush : self.pushDelay stream nanoseconds =
        .ok (stream ++ encodeTicks (self.writeTicks nanoseconds)) :=
      if_pos (h nanoseconds List.mem_cons_self)
    rw [List.foldlM_cons, hpush, List.map_cons, List.flatMap_cons, ← List.append_assoc]
    exact ih _ fun n hn => h n (List.mem_cons_of_mem _ hn)

section Stream

variable {self : Greaseweazle} {perMicro : Nat} {words : List (BitVec 16)} {bitLen : Nat}

theorem cell_fits (self : Greaseweazle) :
    MAX_TRACK_BITS * (1000 * self.cellMicros) < U32_RANGE := by
  have hmicros := self.cellMicros_le
  have hbound : MAX_TRACK_BITS * (1000 * self.cellMicros) ≤ MAX_TRACK_BITS * 2000 :=
    Nat.mul_le_mul_left _ (by omega)
  have hroom : MAX_TRACK_BITS * 2000 < U32_RANGE := by decide
  omega

/-- The delays of a track, in ticks. -/
theorem map_writeTicks (hfrequency : self.sampleFrequency = perMicro * 1000000)
    (hmax : bitLen ≤ MAX_TRACK_BITS) :
    ((trackGaps words bitLen).map (· * (1000 * self.cellMicros))).map self.writeTicks =
      (trackGaps words bitLen).map fun distance => distance * self.cellMicros * perMicro := by
  rw [List.map_map]
  refine List.map_congr_left fun distance hd => ?_
  have hdistance := (trackGaps_bounds hmax hd).1
  rw [Function.comp_apply, writeTicks_eq hfrequency hdistance]

/-- What `write_stream` sends: the distances in ticks. -/
theorem fluxStream_eq (hfrequency : self.sampleFrequency = perMicro * 1000000)
    (hlimit : self.sampleFrequency ≤ 500000000) (hpos : 1 ≤ bitLen)
    (hwords : bitLen ≤ words.length * 16) (hmax : bitLen ≤ MAX_TRACK_BITS) :
    self.fluxStream words bitLen =
      .ok (((trackGaps words bitLen).map fun distance =>
        distance * self.cellMicros * perMicro).flatMap encodeTicks) := by
  have hcell : (if self.highDensity then 1000 else 2000) = 1000 * self.cellMicros := by
    unfold cellMicros
    cases self.highDensity <;> rfl
  have hmap := @map_writeTicks self perMicro words bitLen hfrequency hmax
  have hfits : ∀ nanoseconds ∈ (trackGaps words bitLen).map (· * (1000 * self.cellMicros)),
      self.writeTicks nanoseconds < U32_RANGE := by
    intro nanoseconds hn
    have hmem : self.writeTicks nanoseconds ∈
        ((trackGaps words bitLen).map (· * (1000 * self.cellMicros))).map self.writeTicks :=
      List.mem_map_of_mem hn
    rw [hmap] at hmem
    obtain ⟨distance, hd, heq⟩ := List.mem_map.mp hmem
    have hlt := ticks_lt hfrequency hlimit (trackGaps_bounds hmax hd).2
    have hrange : 2 ^ 28 < U32_RANGE := by decide
    rw [← heq]
    omega
  have hmfm : mfmToFlux words bitLen (1000 * self.cellMicros) =
      .ok ((trackGaps words bitLen).map (· * (1000 * self.cellMicros))) :=
    mfmToFlux_eq self.cell_fits hpos hwords hmax
  unfold fluxStream
  rw [hcell]
  show (mfmToFlux words bitLen (1000 * self.cellMicros) >>= fun timings =>
    timings.foldlM self.pushDelay []) = _
  rw [hmfm, ← hmap]
  exact foldlM_pushDelay _ [] hfits

/-- What `decode_stream` makes of that stream: the distances in cells of the device. -/
theorem decodeStream_fluxStream (hfrequency : self.sampleFrequency = perMicro * 1000000)
    (hlimit : self.sampleFrequency ≤ 500000000) (hmax : bitLen ≤ MAX_TRACK_BITS) :
    decodeStream (((trackGaps words bitLen).map fun distance =>
        distance * self.cellMicros * perMicro).flatMap encodeTicks) self.sampleFrequency =
      .ok ((trackGaps words bitLen).map fun distance =>
        ⟨distance * (1000 * self.cellMicros), false⟩) := by
  refine decodeStream_encodeTicks _ _ _ fun distance hd => ?_
  have hbounds := trackGaps_bounds hmax hd
  refine ⟨?_, ticksToNanoseconds_eq hfrequency hbounds.2⟩
  have hlt := ticks_lt hfrequency hlimit hbounds.2
  omega

/-- At high density the cells are presented at twice their length. -/
theorem doubled_eq {distance : Nat} (hmax : distance ≤ MAX_TRACK_BITS) :
    FluxEvent.doubled ⟨distance * 1000, false⟩ = ⟨distance * 2000, false⟩ := by
  have hmax : distance ≤ 237568 := hmax
  have hmin : min (distance * 1000 * 2) (U32_RANGE - 1) = distance * 2000 := by
    unfold U32_RANGE
    omega
  unfold FluxEvent.doubled
  rw [hmin]

/-- What `decode_at_density` makes of that stream: the distances at two microseconds a cell. -/
theorem decodeAtDensity_fluxStream (hfrequency : self.sampleFrequency = perMicro * 1000000)
    (hlimit : self.sampleFrequency ≤ 500000000) (hmax : bitLen ≤ MAX_TRACK_BITS) :
    self.decodeAtDensity (((trackGaps words bitLen).map fun distance =>
        distance * self.cellMicros * perMicro).flatMap encodeTicks) self.density =
      .ok (self, (trackGaps words bitLen).map fun distance => ⟨distance * 2000, false⟩) := by
  have hstream := @decodeStream_fluxStream self perMicro words bitLen hfrequency hlimit hmax
  obtain ⟨frequency, high, hpositive, hfits⟩ := self
  unfold decodeAtDensity
  rw [hstream]
  cases high with
  | false => rfl
  | true =>
    have hdoubled : ((trackGaps words bitLen).map fun distance =>
        (⟨distance * 1000, false⟩ : FluxEvent)).map FluxEvent.doubled =
        (trackGaps words bitLen).map fun distance => ⟨distance * 2000, false⟩ := by
      rw [List.map_map]
      refine List.map_congr_left fun distance hd => ?_
      rw [Function.comp_apply, doubled_eq (trackGaps_bounds hmax hd).2]
    rw [← hdoubled]
    rfl

end Stream

/--
**Loopback.** What a device writes it reads back, cell by cell, but for a transition in the last
cell.
-/
theorem loopback (self : Greaseweazle) (hfrequency : 1000000 ∣ self.sampleFrequency)
    (hlimit : self.sampleFrequency ≤ 500000000) (words : List (BitVec 16)) (bitLen : Nat)
    (hpos : 1 ≤ bitLen) (hlen : bitLen ≤ min (16 * words.length) MAX_TRACK_BITS) :
    ∃ stream events, self.fluxStream words bitLen = .ok stream ∧
      self.decodeAtDensity stream self.density = .ok (self, events) ∧
      (PllDecoder.new.run events).2 = (List.range bitLen).map fun position =>
        wordBit words position || decide (position + 1 = bitLen) := by
  obtain ⟨perMicro, hper⟩ := hfrequency
  rw [Nat.mul_comm] at hper
  have hmax : bitLen ≤ MAX_TRACK_BITS := by omega
  refine ⟨_, _, fluxStream_eq hper hlimit hpos (by omega) hmax,
    decodeAtDensity_fluxStream hper hlimit hmax, ?_⟩
  rw [PllDecoder.run_centred _ (fun _ hd => trackGaps_bounds hmax hd), cellsOf_trackGaps]

/-- A device at 40 MHz and double density. -/
def at40MHz : Greaseweazle :=
  { sampleFrequency := 40000000, highDensity := false, frequency_pos := by decide,
    frequency_lt := by decide }

theorem loopback_oneWord : ∃ stream events, at40MHz.fluxStream [0x9000] 4 = .ok stream ∧
    at40MHz.decodeAtDensity stream .double = .ok (at40MHz, events) ∧
    (PllDecoder.new.run events).2 = [true, false, false, true] := by
  obtain ⟨stream, events, hwrite, hread, hcells⟩ :=
    loopback at40MHz (by decide) (by decide) [0x9000] 4 (by decide) (by decide)
  exact ⟨stream, events, hwrite, hread, hcells.trans (by decide)⟩

end Greaseweazle

end FluxBridge
