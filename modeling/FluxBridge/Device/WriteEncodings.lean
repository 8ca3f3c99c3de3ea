import FluxBridge.Device.DrawBridge

/-!
# The write encodings of a DrawBridge

A track is written as the distances between its transitions. The encoders send them as codes of
two bits, in two different orders, with three more transitions behind the end of the track.

* `transitionCounts_eq` — what is counted on a track whose distances are within the limit
* `hdCodes_packCounts`, `ddCodes_packNibbles` — the codes are read back from the bytes
* `encodings_lossless` — both streams contain every transition of the track
-/

namespace FluxBridge.DrawBridge

/-! ## Distances -/

/-- The distances between the transitions of a stream, the first one from `cells` cells before. -/
def transitionGaps : Nat → List Bool → List Nat
  | _, [] => []
  | cells, true :: bits => (cells + 1) :: transitionGaps 0 bits
  | cells, false :: bits => transitionGaps (cells + 1) bits

/-- The cells behind the last transition of a stream. -/
def cellsBehind : Nat → List Bool → Nat
  | cells, [] => cells
  | _, true :: bits => cellsBehind 0 bits
  | cells, false :: bits => cellsBehind (cells + 1) bits

theorem transitionGaps_append (cells : Nat) (front rest : List Bool) :
    transitionGaps cells (front ++ rest) =
      transitionGaps cells front ++ transitionGaps (cellsBehind cells front) rest := by
  induction front generalizing cells with
  | nil => rfl
  | cons bit front ih =>
    cases bit with
    | false => exact ih (cells + 1)
    | true => exact congrArg (List.cons (cells + 1)) (ih 0)

/-- The cells of a track. -/
def trackBits (words : List (BitVec 16)) (bitLen : Nat) : List Bool :=
  (List.range bitLen).map (wordBit words)

/-- No distance on the track is shorter than 2 cells or longer than the limit. -/
def Legal (words : List (BitVec 16)) (bitLen limit : Nat) : Prop :=
  ∀ gap ∈ transitionGaps 0 (trackBits words bitLen), 2 ≤ gap ∧ gap ≤ limit

instance (words : List (BitVec 16)) (bitLen limit : Nat) : Decidable (Legal words bitLen limit) :=
  inferInstanceAs (Decidable (∀ gap ∈ transitionGaps 0 (trackBits words bitLen),
    2 ≤ gap ∧ gap ≤ limit))

/-- The distances of the track, that to the run-out within the limit, and those of the run-out. -/
def writtenGaps (words : List (BitVec 16)) (bitLen limit : Nat) : List Nat :=
  transitionGaps 0 (trackBits words bitLen) ++
    [max 2 (min (cellsBehind 0 (trackBits words bitLen) + 1) limit), 2, 2, 2]

/-! ## Counting -/

/-- The loop of `transition_counts`: each transition gives its distance, within the limit. -/
theorem foldl_countStep (words : List (BitVec 16)) (bitLen limit : Nat) (hlimit : limit ≤ 255)
    (positions : List Nat) (cells : Nat) (out : List Nat) :
    (positions.foldl (countStep words bitLen limit) (min cells 255, out)).2 =
      out ++ (transitionGaps cells (positions.map (bitAt words bitLen))).map
        fun gap => max 2 (min gap limit) := by
  induction positions generalizing cells out with
  | nil => exact (List.append_nil out).symm
  | cons position positions ih =>
    have hcount : min (min cells 255 + 1) 255 = min (cells + 1) 255 := by omega
    have hclamp : max 2 (min (min (cells + 1) 255) limit) = max 2 (min (cells + 1) limit) := by
      omega
    rw [List.foldl_cons, List.map_cons]
    unfold countStep
    dsimp only
    rw [hcount, hclamp]
    cases hbit : bitAt words bitLen position with
    | false =>
      rw [if_neg Bool.false_ne_true]
      exact ih (cells + 1) out
    | true =>
      rw [if_pos rfl]
      refine (ih 0 _).trans ?_
      rw [List.append_assoc]
      rfl

/-- What the loop reads: the track, and the run-out behind it. -/
theorem map_bitAt (words : List (BitVec 16)) (bitLen : Nat) :
    (List.range (bitLen + 8)).map (bitAt words bitLen) =
      trackBits words bitLen ++ [true, false, true, false, true, false, true, false] := by
  rw [List.range_add, List.map_append, List.map_map]
  congr 1
  · refine List.map_congr_left fun position hposition => ?_
    have hlt := List.mem_range.mp hposition
    exact if_neg (by omega)
  · have hrunOut : ∀ i, bitAt words bitLen (bitLen + i) = (i % 2 == 0) := by
      intro i
      unfold bitAt
      rw [if_pos (by omega), Nat.add_sub_cancel_left]
    simp only [Function.comp_def, hrunOut]
    rfl

/-- **Counting.** On a track whose distances are within the limit they are counted as they are. -/
theorem transitionCounts_eq {words : List (BitVec 16)} {bitLen limit : Nat} (hpos : 1 ≤ bitLen)
    (hfits : bitLen ≤ words.length * 16) (hlimit : 2 ≤ limit ∧ limit ≤ 255)
    (hlegal : Legal words bitLen limit) :
    transitionCounts words bitLen limit = .ok (writtenGaps words bitLen limit) := by
  have hloop := foldl_countStep words bitLen limit hlimit.2 (List.range (bitLen + 8)) 0 []
  have hkept : (transitionGaps 0 (trackBits words bitLen)).map (fun gap => max 2 (min gap limit)) =
      transitionGaps 0 (trackBits words bitLen) := by
    conv => rhs; rw [← List.map_id (transitionGaps 0 (trackBits words bitLen))]
    refine List.map_congr_left fun gap hgap => ?_
    obtain ⟨htwo, hle⟩ := hlegal gap hgap
    rw [Nat.min_eq_left hle, Nat.max_eq_right htwo, id]
  have htwo : max 2 (min 2 limit) = 2 := by omega
  unfold transitionCounts
  rw [if_neg (by omega)]
  congr 1
  refine hloop.trans ?_
  rw [List.nil_append, map_bitAt, transitionGaps_append, List.map_append, hkept]
  -- behind the track the run-out has a transition in every second cell
  simp only [transitionGaps, List.map_cons, List.map_nil, Nat.zero_add, Nat.reduceAdd, htwo]
  rfl

/-- Every count is between 2 and the limit. -/
theorem writtenGaps_bounds {words : List (BitVec 16)} {bitLen limit : Nat} (hlimit : 2 ≤ limit)
    (hlegal : Legal words bitLen limit) {gap : Nat} (h : gap ∈ writtenGaps words bitLen limit) :
    2 ≤ gap ∧ gap ≤ limit := by
  unfold writtenGaps at h
  rcases List.mem_append.mp h with h | h
  · exact hlegal gap h
  · simp only [List.mem_cons, List.not_mem_nil, or_false] at h
    omega

/-! ## High density -/

/-- The codes of a byte, two bits each, at the shifts 4, 2, 0 and 6. -/
def byteCodes (byte : Byte) : List Nat := [4, 2, 0, 6].map fun shift => byte.toNat >>> shift % 4

/-- The codes of a high-density track. -/
def hdCodes (bytes : List Byte) : List Nat := bytes.flatMap byteCodes

theorem byteCodes_packed : ∀ a < 4, ∀ b < 4, ∀ c < 4, ∀ d < 4,
    byteCodes (BitVec.ofNat 8 ((a <<< 4) ||| (b <<< 2) ||| c ||| (d <<< 6))) = [a, b, c, d] := by
  decide +kernel

/-- A byte with a code in front is not zero. -/
theorem ne_zero_of_codes {byte : Byte} {code : Nat} {codes : List Nat}
    (h : byteCodes byte = code :: codes) (hcode : 0 < code) : byte ≠ 0 := by
  rintro rfl
  have hzero : byteCodes 0 = [0, 0, 0, 0] := by decide
  rw [hzero] at h
  obtain ⟨rfl, -⟩ := List.cons.inj h
  exact Nat.lt_irrefl 0 hcode

/-- One byte and the bytes behind it. -/
theorem hdCodes_cons {byte : Byte} {bytes : List Byte} {codes rest : List Nat}
    (hbyte : byteCodes byte = codes) (hbytes : hdCodes bytes = rest) :
    hdCodes (byte :: bytes) = codes ++ rest := by
  rw [hdCodes, List.flatMap_cons, hbyte]
  exact congrArg (codes ++ ·) hbytes

/-- **High density.** The codes come back, with zeros behind them in the last byte, and no byte is
zero. -/
theorem hdCodes_packCounts (counts : List Nat) (h : ∀ count ∈ counts, 2 ≤ count ∧ count ≤ 4) :
    (∀ byte ∈ packCounts counts, byte ≠ 0) ∧
      ∃ zeros, hdCodes (packCounts counts) = counts.map (· - 1) ++ List.replicate zeros 0 := by
  have hcode : ∀ count ∈ counts, count - 1 < 4 ∧ 0 < count - 1 := by
    intro count hcount
    have hbounds := h count hcount
    omega
  -- on the chunks of four, the last of which may be shorter
  induction counts using packCounts.induct with
  | case1 => exact ⟨nofun, 0, rfl⟩
  | case2 a =>
    obtain ⟨ha, ha'⟩ := hcode a (by simp)
    have hcodes := byteCodes_packed (a - 1) ha 0 (by decide) 0 (by decide) 0 (by decide)
    simp only [Nat.zero_shiftLeft, Nat.or_zero] at hcodes
    refine ⟨?_, 3, (hdCodes_cons hcodes rfl).trans rfl⟩
    intro byte hbyte
    obtain rfl := List.mem_singleton.mp hbyte
    exact ne_zero_of_codes hcodes ha'
  | case3 a b =>
    obtain ⟨ha, ha'⟩ := hcode a (by simp)
    have hcodes := byteCodes_packed (a - 1) ha (b - 1) (hcode b (by simp)).1 0 (by decide) 0
      (by decide)
    simp only [Nat.zero_shiftLeft, Nat.or_zero] at hcodes
    refine ⟨?_, 2, (hdCodes_cons hcodes rfl).trans rfl⟩
    intro byte hbyte
    obtain rfl := List.mem_singleton.mp hbyte
    exact ne_zero_of_codes hcodes ha'
  | case4 a b c =>
    obtain ⟨ha, ha'⟩ := hcode a (by simp)
    have hcodes := byteCodes_packed (a - 1) ha (b - 1) (hcode b (by simp)).1 (c - 1)
      (hcode c (by simp)).1 0 (by decide)
    simp only [Nat.zero_shiftLeft, Nat.or_zero] at hcodes
    refine ⟨?_, 1, (hdCodes_cons hcodes rfl).trans rfl⟩
    intro byte hbyte
    obtain rfl := List.mem_singleton.mp hbyte
    exact ne_zero_of_codes hcodes ha'
  | case5 a b c d rest ih =>
    obtain ⟨ha, ha'⟩ := hcode a (by simp)
    have hcodes := byteCodes_packed (a - 1) ha (b - 1) (hcode b (by simp)).1 (c - 1)
      (hcode c (by simp)).1 (d - 1) (hcode d (by simp)).1
    obtain ⟨hnonzero, zeros, hrest⟩ := ih (fun count hcount => h count (by simp [hcount]))
      fun count hcount => hcode count (by simp [hcount])
    refine ⟨?_, zeros, (hdCodes_cons hcodes hrest).trans rfl⟩
    intro byte hbyte
    rcases List.mem_cons.mp hbyte with rfl | hbyte
    · exact ne_zero_of_codes hcodes ha'
    · exact hnonzero byte hbyte

/-! ## Double density -/

/-- The low two bits of the nibbles, the low nibble first. -/
def ddCodes (bytes : List Byte) : List Nat :=
  bytes.flatMap fun byte => [byte.toNat % 16 % 4, byte.toNat / 16 % 4]

theorem nibbleCodes_packed : ∀ low < 16, ∀ high < 16,
    (BitVec.ofNat 8 (low ||| (high <<< 4))).toNat % 16 = low ∧
      (BitVec.ofNat 8 (low ||| (high <<< 4))).toNat / 16 = high := by
  decide +kernel

/-- **Double density.** The nibbles come back, and a zero behind an odd number of them. -/
theorem ddCodes_packNibbles (nibbles : List Nat) (h : ∀ nibble ∈ nibbles, nibble < 16) :
    ddCodes (packNibbles nibbles) =
      nibbles.map (· % 4) ++ (if nibbles.length % 2 = 1 then [0] else []) := by
  induction nibbles using packNibbles.induct with
  | case1 => rfl
  | case2 low =>
    obtain ⟨hlow, hhigh⟩ := nibbleCodes_packed low (h low (by simp)) 0 (by decide)
    rw [Nat.zero_shiftLeft, Nat.or_zero] at hlow hhigh
    simp only [packNibbles, ddCodes, List.flatMap_cons, List.flatMap_nil, hlow, hhigh]
    rfl
  | case3 low high rest ih =>
    obtain ⟨hlow, hhigh⟩ := nibbleCodes_packed low (h low (by simp)) high (h high (by simp))
    have hrest := ih fun nibble hnibble => h nibble (by simp [hnibble])
    have hodd : (low :: high :: rest).length % 2 = rest.length % 2 := by
      simp only [List.length_cons]
      omega
    rw [hodd, packNibbles, ddCodes, List.flatMap_cons, hlow, hhigh]
    exact congrArg ([low % 4, high % 4] ++ ·) hrest

/-- The flags of the precompensation are not in the low two bits. -/
theorem flagged_code (precomp : Bool) {previous : Nat} (h : previous - 2 < 4) (count : Nat) :
    ((previous - 2) ||| adjustment precomp previous count) < 16 ∧
      ((previous - 2) ||| adjustment precomp previous count) % 4 = previous - 2 := by
  have hflags : ∀ code < 4, ∀ flag ∈ [0, 4, 8],
      (code ||| flag) < 16 ∧ (code ||| flag) % 4 = code := by decide
  refine hflags _ h _ ?_
  unfold adjustment
  split
  · split
    · simp
    · split <;> simp
  · simp

/-- The codes of the nibbles: that of each count one later. -/
theorem ddNibbles_codes (precomp : Bool) (previous : Nat) (counts : List Nat)
    (h : ∀ count ∈ previous :: counts, count - 2 < 4) :
    (∀ nibble ∈ ddNibbles precomp previous counts, nibble < 16) ∧
      (ddNibbles precomp previous counts).map (· % 4) =
        (previous :: counts).dropLast.map (· - 2) := by
  induction counts generalizing previous with
  | nil => exact ⟨nofun, rfl⟩
  | cons count counts ih =>
    obtain ⟨hlt, hmod⟩ := flagged_code precomp (h previous List.mem_cons_self) count
    obtain ⟨hrest, hcodes⟩ := ih count fun c hc => h c (List.mem_cons_of_mem _ hc)
    rw [ddNibbles]
    constructor
    · intro nibble hnibble
      rcases List.mem_cons.mp hnibble with rfl | hnibble
      · exact hlt
      · exact hrest nibble hnibble
    · rw [List.map_cons, hmod, hcodes, List.dropLast_cons_cons, List.map_cons]

theorem length_ddNibbles (precomp : Bool) (previous : Nat) (counts : List Nat) :
    (ddNibbles precomp previous counts).length = counts.length := by
  induction counts generalizing previous with
  | nil => rfl
  | cons count counts ih => exact congrArg (· + 1) (ih count)

/-! ## Both -/

section Track

variable {words : List (BitVec 16)} {bitLen : Nat}

theorem encodeHd_lossless (hpos : 1 ≤ bitLen) (hfits : bitLen ≤ words.length * 16)
    (hlegal : Legal words bitLen 4) :
    ∃ front zeros, encodeHd words bitLen = .ok (front ++ [0]) ∧ (∀ byte ∈ front, byte ≠ 0) ∧
      hdCodes (front ++ [0]) =
        (writtenGaps words bitLen 4).map (· - 1) ++ List.replicate zeros 0 := by
  have hcounts := transitionCounts_eq hpos hfits (by decide) hlegal
  obtain ⟨hnonzero, zeros, hcodes⟩ := hdCodes_packCounts (writtenGaps words bitLen 4)
    fun count hcount => writtenGaps_bounds (by decide) hlegal hcount
  refine ⟨packCounts (writtenGaps words bitLen 4), zeros + 4, ?_, hnonzero, ?_⟩
  · unfold encodeHd
    rw [hcounts]
    rfl
  · have hlast : hdCodes [0] = List.replicate 4 0 := by decide
    have happend : hdCodes (packCounts (writtenGaps words bitLen 4) ++ [0]) =
        hdCodes (packCounts (writtenGaps words bitLen 4)) ++ hdCodes [0] := List.flatMap_append
    rw [happend, hcodes, hlast, List.append_assoc, List.replicate_append_replicate]

theorem encodeDd_lossless (hpos : 1 ≤ bitLen) (hfits : bitLen ≤ words.length * 16)
    (hlegal : Legal words bitLen 5) (precomp : Bool) :
    ∃ bytes, encodeDd words bitLen precomp = .ok bytes ∧
      ddCodes bytes = (2 :: (writtenGaps words bitLen 5).dropLast).map (· - 2) ++
        (if (writtenGaps words bitLen 5).length % 2 = 1 then [0] else []) := by
  have hcounts := transitionCounts_eq hpos hfits (by decide) hlegal
  have hbounds : ∀ count ∈ 2 :: writtenGaps words bitLen 5, count - 2 < 4 := by
    intro count hcount
    rcases List.mem_cons.mp hcount with rfl | hcount
    · decide
    · have hgap := writtenGaps_bounds (by decide) hlegal hcount
      omega
  obtain ⟨hnibbles, hcodes⟩ := ddNibbles_codes precomp 2 _ hbounds
  have hnonempty : writtenGaps words bitLen 5 ≠ [] := List.append_ne_nil_of_right_ne_nil _ nofun
  refine ⟨packNibbles (ddNibbles precomp 2 (writtenGaps words bitLen 5)), ?_, ?_⟩
  · unfold encodeDd
    rw [hcounts]
    rfl
  · rw [ddCodes_packNibbles _ hnibbles, hcodes, length_ddNibbles,
      List.dropLast_cons_of_ne_nil hnonempty]

/--
**Write encodings.** On a track whose distances are within the limit of the encoder, the codes of
high density are those of its distances and of the run-out, and zeros only behind them, with no
zero byte before the terminator. Those of double density are the same one later, whatever the
precompensation adds.
-/
theorem encodings_lossless (hpos : 1 ≤ bitLen) (hfits : bitLen ≤ 16 * words.length) :
    (Legal words bitLen 4 → ∃ front zeros, encodeHd words bitLen = .ok (front ++ [0]) ∧
      (∀ byte ∈ front, byte ≠ 0) ∧
      hdCodes (front ++ [0]) =
        (writtenGaps words bitLen 4).map (· - 1) ++ List.replicate zeros 0) ∧
    (Legal words bitLen 5 → ∀ precomp, ∃ bytes, encodeDd words bitLen precomp = .ok bytes ∧
      ddCodes bytes = (2 :: (writtenGaps words bitLen 5).dropLast).map (· - 2) ++
        (if (writtenGaps words bitLen 5).length % 2 = 1 then [0] else [])) := by
  have hfits : bitLen ≤ words.length * 16 := by omega
  exact ⟨encodeHd_lossless hpos hfits, encodeDd_lossless hpos hfits⟩

end Track

/-- Distances of 2, 4, 3 and 4 cells, and 3 to the run-out. -/
theorem encodings_lossless_word :
    (∃ front zeros, encodeHd [0x4488] 15 = .ok (front ++ [0]) ∧ (∀ byte ∈ front, byte ≠ 0) ∧
      hdCodes (front ++ [0]) = [1, 3, 2, 3, 2, 1, 1, 1] ++ List.replicate zeros 0) ∧
    ∀ precomp, ∃ bytes, encodeDd [0x4488] 15 precomp = .ok bytes ∧
      ddCodes bytes = [0, 0, 2, 1, 2, 1, 0, 0] := by
  have hboth := @encodings_lossless [0x4488] 15 (by decide) (by decide)
  exact ⟨hboth.1 (by decide), hboth.2 (by decide)⟩

end FluxBridge.DrawBridge
