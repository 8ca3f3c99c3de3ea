import FluxBridge.Device.Greaseweazle

/-!
# The tick code

An interval of the flux stream takes one byte, two bytes, or a 28-bit value with one byte behind
it. Whatever `encode_ticks` writes, `decode_stream` reads back.

* `read28bit_encode28bit` — the low 28 bits of a value
* `decodeLoop_encodeTicks` — one interval, in front of any other codes
* `decodeStream_wireTicks`, `decodeStream_encodeTicks` — a list of intervals
* `encodeTicks_ne_zero` — no byte of an interval can be taken for the end of the stream
-/

namespace FluxBridge

/-! ## The 28-bit value -/

/-- Seven bits of the value, above the set bit of their byte. -/
theorem shiftRight_payload (value : Nat) :
    (1#8 ||| BitVec.ofNat 8 (value &&& 0xff)).toNat >>> 1 = value / 2 % 128 := by
  rw [BitVec.toNat_or, BitVec.toNat_ofNat, BitVec.toNat_ofNat, Nat.shiftRight_or_distrib,
    show 0xff = 2 ^ 8 - 1 from rfl, Nat.and_two_pow_sub_one_eq_mod, Nat.mod_mod]
  show 0 ||| (value % 2 ^ 8) >>> 1 = _
  rw [Nat.zero_or, Nat.shiftRight_eq_div_pow]
  omega

/-- Putting bits above a value is adding. -/
theorem or_shiftLeft {low shift : Nat} (h : low < 2 ^ shift) (high : Nat) :
    low ||| high <<< shift = low + high * 2 ^ shift := by
  rw [Nat.or_comm, ← Nat.shiftLeft_add_eq_or_of_lt h, Nat.shiftLeft_eq, Nat.add_comm]

theorem or_septets {a b c d : Nat} (ha : a < 128) (hb : b < 128) (hc : c < 128) :
    a <<< 1 ||| b <<< 8 ||| c <<< 15 ||| d <<< 22 =
      a * 2 + b * 2 ^ 8 + c * 2 ^ 15 + d * 2 ^ 22 := by
  have hfirst : a <<< 1 = a * 2 := Nat.shiftLeft_eq a 1
  have hsecond : a * 2 ||| b <<< 8 = a * 2 + b * 2 ^ 8 := or_shiftLeft (by omega) b
  have hthird : a * 2 + b * 2 ^ 8 ||| c <<< 15 = a * 2 + b * 2 ^ 8 + c * 2 ^ 15 :=
    or_shiftLeft (by omega) c
  rw [hfirst, hsecond, hthird, or_shiftLeft (by omega)]

/-- Writing and reading keeps the low 28 bits. -/
theorem read28bit_encode28bit (value : Nat) (rest : List Byte) :
    read28bit (encode28bit value ++ rest) = .ok (value % 2 ^ 28, rest) := by
  unfold encode28bit
  show Except.ok (_, rest) = _
  simp only [List.foldl_cons, List.foldl_nil, shiftRight_payload, Nat.zero_or]
  rw [or_septets (by omega) (by omega) (by omega)]
  simp only [Nat.shiftLeft_eq, Nat.shiftRight_eq_div_pow]
  congr 2
  omega

/-- The ticks that an interval has on the wire: the field of the longest form has 28 bits. -/
def wireTicks (ticks : Nat) : Nat :=
  if ticks < 2 ^ 28 + 249 then ticks else (ticks - 249) % 2 ^ 28 + 249

theorem wireTicks_eq_iff (ticks : Nat) : wireTicks ticks = ticks ↔ ticks < 2 ^ 28 + 249 := by
  unfold wireTicks
  split <;> omega

/-! ## One code -/

section Codes

variable {frequency : Nat} {rest : List Byte} {ticks nanoseconds : Nat} {index : Bool}

/-- The event of an interval, in front of what follows. -/
def eventThen (nanoseconds : Nat) (index : Bool) (rest : Except Error (List FluxEvent)) :
    Except Error (List FluxEvent) :=
  rest.map fun events => ⟨nanoseconds, index⟩ :: events

theorem decodeLoop_short {byte : Byte} (hbyte : byte.toNat < 250)
    (hns : ticksToNanoseconds (saturatingAddU32 ticks byte.toNat) frequency = .ok nanoseconds) :
    decodeLoop frequency (byte :: rest) ticks index =
      eventThen nanoseconds index (decodeLoop frequency rest 0 false) := by
  have hopcode : byte ≠ 255#8 := by
    rintro rfl
    exact absurd hbyte (by decide)
  rw [decodeLoop.eq_def]
  dsimp only
  rw [if_neg hopcode, if_pos hbyte, hns]
  unfold eventThen
  cases decodeLoop frequency rest 0 false <;> rfl

theorem decodeLoop_long {byte low : Byte} (hbyte : 250 ≤ byte.toNat) (hopcode : byte ≠ 255#8)
    (hns : ticksToNanoseconds
      (saturatingAddU32 ticks (250 + (byte.toNat - 250) * 255 + (low.toNat - 1))) frequency =
        .ok nanoseconds) :
    decodeLoop frequency (byte :: low :: rest) ticks index =
      eventThen nanoseconds index (decodeLoop frequency rest 0 false) := by
  rw [decodeLoop.eq_def]
  dsimp only
  rw [if_neg hopcode, if_neg (by omega), hns]
  unfold eventThen
  cases decodeLoop frequency rest 0 false <;> rfl

theorem decodeLoop_space {value : Nat} {queue : List Byte}
    (hread : read28bit queue = .ok (value, rest)) :
    decodeLoop frequency (255#8 :: 2#8 :: queue) ticks index =
      decodeLoop frequency rest (saturatingAddU32 ticks value) index := by
  rw [decodeLoop.eq_def]
  dsimp only
  rw [if_pos rfl, if_neg (by decide), if_pos rfl]
  split
  · next e h => rw [hread] at h; cases h
  · next v r h =>
    rw [hread] at h
    cases h
    rfl

theorem decodeLoop_mark {value : Nat} {queue : List Byte}
    (hread : read28bit queue = .ok (value, rest)) :
    decodeLoop frequency (255#8 :: 1#8 :: queue) ticks index =
      decodeLoop frequency rest ticks true := by
  rw [decodeLoop.eq_def]
  dsimp only
  rw [if_pos rfl, if_pos rfl]
  split
  · next e h => rw [hread] at h; cases h
  · next v r h =>
    rw [hread] at h
    cases h
    rfl

/-- An opcode whose value of 28 bits is not there. -/
theorem decodeLoop_unread {opcode : Byte} (hopcode : opcode = 1#8 ∨ opcode = 2#8)
    {queue : List Byte} {e : Error} (hread : read28bit queue = .error e) :
    decodeLoop frequency (255#8 :: opcode :: queue) ticks index = .error e := by
  rw [decodeLoop.eq_def]
  dsimp only
  rcases hopcode with rfl | rfl
  · rw [if_pos rfl, if_pos rfl]
    split
    · next e' h => exact congrArg Except.error (Except.error.inj (h.symm.trans hread))
    · next h => cases h.symm.trans hread
  · rw [if_pos rfl, if_neg (by decide), if_pos rfl]
    split
    · next e' h => exact congrArg Except.error (Except.error.inj (h.symm.trans hread))
    · next h => cases h.symm.trans hread

theorem decodeLoop_astable {period : Byte} :
    decodeLoop frequency (255#8 :: 3#8 :: period :: rest) ticks index =
      decodeLoop frequency rest ticks index := by
  rw [decodeLoop.eq_def]
  dsimp only
  rw [if_pos rfl, if_neg (by decide), if_neg (by decide), if_pos rfl]

/-- An interval that was encoded, in front of any other codes. -/
theorem decodeLoop_encodeTicks
    (hns : ticksToNanoseconds (wireTicks ticks) frequency = .ok nanoseconds) :
    decodeLoop frequency (encodeTicks ticks ++ rest) 0 index =
      eventThen nanoseconds index (decodeLoop frequency rest 0 false) := by
  have hsum : ∀ a b, a + b < 2 ^ 29 → saturatingAddU32 a b = a + b := by
    intro a b hab
    unfold saturatingAddU32 U32_RANGE
    omega
  -- the three forms of an interval: one byte, two bytes, and a space with 249 ticks behind it
  unfold encodeTicks
  split
  · next hshort =>
    have hbyte : (BitVec.ofNat 8 ticks).toNat = ticks := by
      rw [BitVec.toNat_ofNat]
      omega
    rw [(wireTicks_eq_iff ticks).mpr (by omega)] at hns
    refine decodeLoop_short (by rw [hbyte]; exact hshort) ?_
    rw [hbyte, hsum 0 ticks (by omega), Nat.zero_add]
    exact hns
  · next hshort =>
    dsimp only
    split
    · next hhigh =>
      have hfirst : (BitVec.ofNat 8 (250 + (ticks - 250) / 255)).toNat =
          250 + (ticks - 250) / 255 := by
        rw [BitVec.toNat_ofNat]
        omega
      have hlow : (BitVec.ofNat 8 (1 + (ticks - 250) % 255)).toNat = 1 + (ticks - 250) % 255 := by
        rw [BitVec.toNat_ofNat]
        omega
      have hwhole : 250 + (250 + (ticks - 250) / 255 - 250) * 255 +
          (1 + (ticks - 250) % 255 - 1) = ticks := by omega
      rw [(wireTicks_eq_iff ticks).mpr (by omega)] at hns
      refine decodeLoop_long (by rw [hfirst]; omega) ?_ ?_
      · intro hopcode
        rw [hopcode] at hfirst
        have : (255#8).toNat = 255 := rfl
        omega
      · rw [hfirst, hlow, hwhole, hsum 0 ticks (by omega), Nat.zero_add]
        exact hns
    · next hhigh =>
      have hwire : wireTicks ticks = (ticks - 249) % 2 ^ 28 + 249 := by
        unfold wireTicks
        split <;> omega
      have hread := read28bit_encode28bit (ticks - 249) ([249#8] ++ rest)
      rw [hwire] at hns
      rw [List.append_assoc, List.append_assoc]
      refine (decodeLoop_space hread).trans (decodeLoop_short (by decide) ?_)
      rw [hsum 0 _ (by omega), Nat.zero_add, show (249#8).toNat = 249 from rfl,
        hsum _ _ (by omega)]
      exact hns

end Codes

/-- A list of intervals is read back as it is on the wire. -/
theorem decodeStream_wireTicks {ι : Type*} {frequency : Nat} (intervals : List ι)
    (ticks nanoseconds : ι → Nat)
    (h : ∀ x ∈ intervals, ticksToNanoseconds (wireTicks (ticks x)) frequency =
      .ok (nanoseconds x)) :
    decodeStream ((intervals.map ticks).flatMap encodeTicks) frequency =
      .ok (intervals.map fun x => ⟨nanoseconds x, false⟩) := by
  unfold decodeStream
  induction intervals with
  | nil =>
    rw [List.map_nil, List.flatMap_nil, decodeLoop]
    rfl
  | cons x intervals ih =>
    rw [List.map_cons, List.flatMap_cons, decodeLoop_encodeTicks (h x List.mem_cons_self),
      ih fun y hy => h y (List.mem_cons_of_mem _ hy)]
    rfl

/-- **The tick code.** A list of intervals is read back as it was written. -/
theorem decodeStream_encodeTicks {ι : Type*} {frequency : Nat} (intervals : List ι)
    (ticks nanoseconds : ι → Nat)
    (h : ∀ x ∈ intervals, ticks x < 2 ^ 28 + 249 ∧
      ticksToNanoseconds (ticks x) frequency = .ok (nanoseconds x)) :
    decodeStream ((intervals.map ticks).flatMap encodeTicks) frequency =
      .ok (intervals.map fun x => ⟨nanoseconds x, false⟩) := by
  refine decodeStream_wireTicks intervals ticks nanoseconds fun x hx => ?_
  obtain ⟨hticks, hns⟩ := h x hx
  rw [(wireTicks_eq_iff _).mpr hticks]
  exact hns

/-! ## The terminator -/

theorem set_ne_zero (payload : Byte) : 1#8 ||| payload ≠ 0#8 := by
  intro hzero
  have hbit := congrArg (fun byte => byte.getLsbD 0) hzero
  simp at hbit

/-- No byte of an interval is zero. -/
theorem encodeTicks_ne_zero {ticks : Nat} (hpos : 1 ≤ ticks) {byte : Byte}
    (h : byte ∈ encodeTicks ticks) : byte ≠ 0#8 := by
  have hofNat : ∀ value, 1 ≤ value → value < 256 → BitVec.ofNat 8 value ≠ 0#8 := by
    intro value hvalue hlt hzero
    have htoNat := congrArg BitVec.toNat hzero
    rw [BitVec.toNat_ofNat, BitVec.toNat_ofNat] at htoNat
    omega
  unfold encodeTicks at h
  split at h
  · next hshort =>
    rw [List.mem_singleton] at h
    rw [h]
    exact hofNat ticks hpos (by omega)
  · next hshort =>
    dsimp only at h
    split at h
    · next hhigh =>
      simp only [List.mem_cons, List.not_mem_nil, or_false] at h
      rcases h with rfl | rfl
      · exact hofNat _ (by omega) (by omega)
      · exact hofNat _ (by omega) (by omega)
    · unfold encode28bit at h
      simp only [List.mem_append, List.mem_cons, List.not_mem_nil, or_false] at h
      rcases h with ((rfl | rfl) | (rfl | rfl | rfl | rfl)) | rfl
      · decide
      · decide
      · exact set_ne_zero _
      · exact set_ne_zero _
      · exact set_ne_zero _
      · exact set_ne_zero _
      · decide

/--
**Round trip.** Any list of tick counts within the range of the code is read back in nanoseconds,
and its stream has no zero byte.
-/
theorem tickCodec_roundTrip (frequency : Nat) (_ : 0 < frequency) (intervals : List Nat)
    (h : ∀ ticks ∈ intervals, 1 ≤ ticks ∧ ticks ≤ 2 ^ 28 + 248 ∧
      (ticks * 1000000000 + frequency / 2) / frequency < U32_RANGE) :
    (∀ byte ∈ intervals.flatMap encodeTicks, byte ≠ 0#8) ∧
      decodeStream (intervals.flatMap encodeTicks) frequency =
        .ok (intervals.map fun ticks =>
          ⟨(ticks * 1000000000 + frequency / 2) / frequency, false⟩) := by
  constructor
  · intro byte hbyte
    obtain ⟨ticks, hticks, hmem⟩ := List.mem_flatMap.mp hbyte
    exact encodeTicks_ne_zero (h ticks hticks).1 hmem
  · have hread := @decodeStream_encodeTicks Nat frequency intervals id
      (fun ticks => (ticks * 1000000000 + frequency / 2) / frequency) ?_
    · rwa [List.map_id] at hread
    intro ticks hticks
    obtain ⟨-, hmax, hfits⟩ := h ticks hticks
    refine ⟨?_, if_pos hfits⟩
    show ticks < 2 ^ 28 + 249
    omega

theorem tickCodec_roundTrip_forms :
    (∀ byte ∈ [80, 700, 2000].flatMap encodeTicks, byte ≠ 0#8) ∧
      decodeStream ([80, 700, 2000].flatMap encodeTicks) 40000000 =
        .ok [⟨2000, false⟩, ⟨17500, false⟩, ⟨50000, false⟩] :=
  tickCodec_roundTrip 40000000 (by decide) [80, 700, 2000] (by decide)

end FluxBridge
