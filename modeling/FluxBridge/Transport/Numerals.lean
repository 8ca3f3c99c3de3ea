import Mathlib.Algebra.Order.Ring.Nat
import Mathlib.Data.List.TakeWhile

/-!
# Numerals and fields of a text

The text functions that identifiers are built and taken apart with: `str::splitn`,
`from_str_radix` of an unsigned type, and `{:04x}`. A text is the list of its characters.

* `splitn_append` — a field in front of its separator
* `fromStrRadix_hex4` — four hexadecimal digits read back
* `fromStrRadix_ten` — what is a decimal numeral, and of which value
-/

namespace FluxBridge

/-! ## Fields -/

/-- `str::splitn`: at most `count` fields, the last one with all the separators that are left. -/
def splitn : Nat → Char → List Char → List (List Char)
  | 0, _, _ => []
  | 1, _, text => [text]
  | count + 2, separator, text =>
    if separator ∈ text then
      text.takeWhile (· != separator) ::
        splitn (count + 1) separator ((text.dropWhile (· != separator)).drop 1)
    else [text]

/-- A field ends at the first separator. -/
theorem splitn_append {separator : Char} {field : List Char} (hfield : separator ∉ field)
    (count : Nat) (rest : List Char) :
    splitn (count + 2) separator (field ++ separator :: rest) =
      field :: splitn (count + 1) separator rest := by
  have hother : ∀ c ∈ field, (c != separator) = true := by
    intro c hc
    rw [bne_iff_ne]
    rintro rfl
    exact hfield hc
  rw [splitn, if_pos (by simp), List.takeWhile_append_of_pos hother,
    List.dropWhile_append_of_pos hother]
  simp

/-! ## Numerals -/

/-- `char::to_digit`. -/
def toDigit (radix : Nat) (c : Char) : Option Nat :=
  let digit :=
    if c.isDigit then c.toNat - '0'.toNat
    else if 'a' ≤ c ∧ c ≤ 'z' then c.toNat - 'a'.toNat + 10
    else if 'A' ≤ c ∧ c ≤ 'Z' then c.toNat - 'A'.toNat + 10
    else radix
  if digit < radix then some digit else none

/-- The digits of a numeral, each checked against the range of the type. -/
def readDigits (radix range : Nat) : List Char → Nat → Option Nat
  | [], value => some value
  | c :: digits, value => do
    let digit ← toDigit radix c
    if value * radix + digit < range then readDigits radix range digits (value * radix + digit)
    else none

/-- `from_str_radix` of an unsigned type: one plus sign is allowed, a minus sign is no digit. -/
def fromStrRadix (radix range : Nat) (text : List Char) : Option Nat :=
  match text with
  | [] => none
  | ['+'] | ['-'] => none
  | '+' :: digits => readDigits radix range digits 0
  | digits => readDigits radix range digits 0

example : fromStrRadix 10 256 ['+', '0', '4', '2'] = some 42 := by decide
example : fromStrRadix 10 256 ['2', '5', '6'] = none := by decide
example : fromStrRadix 10 256 ['-', '1'] = none := by decide

section Signs

variable {radix range : Nat}

theorem fromStrRadix_digits {c : Char} (hplus : c ≠ '+') (hminus : c ≠ '-') (digits : List Char) :
    fromStrRadix radix range (c :: digits) = readDigits radix range (c :: digits) 0 := by
  unfold fromStrRadix
  split
  · next heq => cases heq
  · next heq => exact absurd (List.cons.inj heq).1 hplus
  · next heq => exact absurd (List.cons.inj heq).1 hminus
  · next heq => exact absurd (List.cons.inj heq).1 hplus
  · rfl

theorem fromStrRadix_plus {digits : List Char} (h : digits ≠ []) :
    fromStrRadix radix range ('+' :: digits) = readDigits radix range digits 0 := by
  cases digits with
  | nil => exact absurd rfl h
  | cons c digits => rfl

end Signs

/-! ## Hexadecimal -/

/-- `{:04x}` of a `u16`. -/
def hex4 (value : Nat) : List Char :=
  [value / 4096, value / 256 % 16, value / 16 % 16, value % 16].map Nat.digitChar

theorem toDigit_digitChar : ∀ {digit : Nat}, digit < 16 →
    toDigit 16 digit.digitChar = some digit := by
  decide

theorem digitChar_ne : ∀ {digit : Nat}, digit < 16 →
    digit.digitChar ≠ '+' ∧ digit.digitChar ≠ '-' ∧ digit.digitChar ≠ ':' := by
  decide

theorem fromStrRadix_hex4 {value : Nat} (h : value < 2 ^ 16) :
    fromStrRadix 16 (2 ^ 16) (hex4 value) = some value := by
  have hfirst := toDigit_digitChar (show value / 4096 < 16 by omega)
  have hsecond := toDigit_digitChar (show value / 256 % 16 < 16 by omega)
  have hthird := toDigit_digitChar (show value / 16 % 16 < 16 by omega)
  have hfourth := toDigit_digitChar (show value % 16 < 16 by omega)
  obtain ⟨hplus, hminus, -⟩ := digitChar_ne (show value / 4096 < 16 by omega)
  unfold hex4
  simp only [List.map_cons, List.map_nil]
  rw [fromStrRadix_digits hplus hminus]
  simp only [readDigits, hfirst, hsecond, hthird, hfourth, Option.bind_eq_bind, Option.bind_some]
  rw [if_pos (by omega), if_pos (by omega), if_pos (by omega), if_pos (by omega)]
  congr 1
  omega

theorem colon_not_mem_hex4 {value : Nat} (h : value < 2 ^ 16) : ':' ∉ hex4 value := by
  have hne : ∀ digit < 16, ':' ≠ Nat.digitChar digit := fun digit hdigit =>
    (digitChar_ne hdigit).2.2.symm
  unfold hex4
  simp only [List.map_cons, List.map_nil, List.mem_cons, List.not_mem_nil, or_false, not_or]
  exact ⟨hne _ (by omega), hne _ (by omega), hne _ (by omega), hne _ (by omega)⟩

/-! ## Decimal -/

/-- The text is a decimal numeral of `value`: digits, and at most one plus sign in front. -/
def Decimal (text : List Char) (value : Nat) : Prop :=
  ∃ digits, (text = digits ∨ text = '+' :: digits) ∧ digits ≠ [] ∧
    (∀ c ∈ digits, c.isDigit = true) ∧ Nat.ofDigitChars 10 digits 0 = value

theorem isDigit_iff (c : Char) : c.isDigit = true ↔ '0'.toNat ≤ c.toNat ∧ c.toNat ≤ '9'.toNat := by
  simp only [Char.isDigit, Bool.and_eq_true, decide_eq_true_eq, UInt32.le_iff_toNat_le, ge_iff_le]
  rfl

theorem toDigit_ten (c : Char) :
    toDigit 10 c = if c.isDigit then some (c.toNat - '0'.toNat) else none := by
  unfold toDigit
  dsimp only
  by_cases hdigit : c.isDigit = true
  · rw [if_pos hdigit, if_pos hdigit, if_pos]
    obtain ⟨-, hle⟩ := (isDigit_iff c).mp hdigit
    have hnine : '9'.toNat = 57 := rfl
    have hzero : '0'.toNat = 48 := rfl
    omega
  · rw [if_neg hdigit, if_neg hdigit, if_neg]
    split
    · omega
    · split <;> omega

/-- Digits only make the value larger. -/
theorem le_ofDigitChars (digits : List Char) (value : Nat) :
    value ≤ Nat.ofDigitChars 10 digits value := by
  induction digits generalizing value with
  | nil => rw [Nat.ofDigitChars_nil]
  | cons c digits ih =>
    rw [Nat.ofDigitChars_cons]
    exact Nat.le_trans (by omega) (ih _)

theorem readDigits_ten {range : Nat} (digits : List Char) {value : Nat} (hvalue : value < range)
    (result : Nat) :
    readDigits 10 range digits value = some result ↔
      (∀ c ∈ digits, c.isDigit = true) ∧ Nat.ofDigitChars 10 digits value = result ∧
        result < range := by
  -- on the digits: a value that leaves the range never returns to it
  induction digits generalizing value with
  | nil =>
    simp only [readDigits, Nat.ofDigitChars_nil, Option.some.injEq]
    constructor
    · rintro rfl
      exact ⟨by simp, rfl, hvalue⟩
    · exact fun h => h.2.1
  | cons c digits ih =>
    have hle := le_ofDigitChars digits (10 * value + (c.toNat - '0'.toNat))
    rw [readDigits, toDigit_ten, Nat.ofDigitChars_cons, List.forall_mem_cons]
    by_cases hdigit : c.isDigit = true
    · rw [if_pos hdigit, Option.bind_eq_bind, Option.bind_some, Nat.mul_comm value 10]
      split
      · next hroom =>
        rw [ih hroom]
        simp only [hdigit, true_and]
      · next hroom =>
        constructor
        · intro h
          cases h
        · rintro ⟨-, hsum, hresult⟩
          omega
    · rw [if_neg hdigit]
      constructor
      · intro h
        cases h
      · rintro ⟨⟨hthis, -⟩, -⟩
        exact absurd hthis hdigit

/-- **Decimal.** What parses as an unsigned number. -/
theorem fromStrRadix_ten {range : Nat} (hrange : 0 < range) (text : List Char) (value : Nat) :
    fromStrRadix 10 range text = some value ↔ Decimal text value ∧ value < range := by
  constructor
  · intro h
    unfold fromStrRadix at h
    split at h
    · cases h
    · cases h
    · cases h
    · next digits hne =>
      obtain ⟨hdigits, hvalue, hlt⟩ := (readDigits_ten _ hrange _).mp h
      refine ⟨⟨digits, Or.inr rfl, ?_, hdigits, hvalue⟩, hlt⟩
      rintro rfl
      exact hne rfl
    · next hne _ _ _ =>
      obtain ⟨hdigits, hvalue, hlt⟩ := (readDigits_ten _ hrange _).mp h
      exact ⟨⟨text, Or.inl rfl, hne, hdigits, hvalue⟩, hlt⟩
  · rintro ⟨⟨digits, htext, hne, hdigits, hvalue⟩, hlt⟩
    have hread := (readDigits_ten digits hrange value).mpr ⟨hdigits, hvalue, hlt⟩
    rcases htext with rfl | rfl
    · cases text with
      | nil => exact absurd rfl hne
      | cons c digits =>
        have hc := hdigits c List.mem_cons_self
        rw [fromStrRadix_digits (by rintro rfl; cases hc) (by rintro rfl; cases hc), hread]
    · rw [fromStrRadix_plus hne, hread]

/-- An index as text is read back. -/
theorem fromStrRadix_toDigits {range index : Nat} (h : index < range) :
    fromStrRadix 10 range (Nat.toDigits 10 index) = some index :=
  (fromStrRadix_ten (by omega) _ _).mpr ⟨⟨_, Or.inl rfl, Nat.toDigits_ne_nil,
    fun _ hc => Nat.isDigit_of_mem_toDigits (by decide) (by decide) hc,
    Nat.ofDigitChars_ten_toDigits⟩, h⟩

end FluxBridge
