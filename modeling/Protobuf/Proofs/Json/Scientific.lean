import Protobuf.Proofs.Json.FloatText

/-! Floats in scientific notation, and what becomes of them in JSON documents.  There the same
digits are written, with the point moved behind the power of ten or, where that would take too many
zeros, with an exponent; the number stays the same.
-/

namespace Protobuf.Json

open Number Text

-----------------------------------------------------------------------------------------
-- Scientific notation
-----------------------------------------------------------------------------------------

/-- A number in scientific notation: the digit before the point, those behind it, and the power of
ten of the first digit.
-/
structure Scientific where
  negative : Bool
  first : Char
  fraction : List Char
  power : Int
  isDigit_first : first.isDigit
  isDigit_fraction : ∀ c ∈ fraction, c.isDigit
  /-- Only zero itself begins with a zero. -/
  normal : first = '0' → fraction = [] ∧ power = 0

namespace Scientific

/-- The number as it is spelled.  There is no point without digits behind it, and no plus sign. -/
def text (n : Scientific) : List Char :=
  (if n.negative then ['-'] else []) ++ [n.first]
    ++ (if n.fraction = [] then [] else '.' :: n.fraction) ++ 'e' :: (toString n.power).toList

/-- The digits without the point. -/
def digits (n : Scientific) : List Char :=
  n.first :: n.fraction

end Scientific

theorem isPower_toString (power : Int)
    : IsPower ('e' :: (toString power).toList) power := by
  have digits := isDigits_toDigits power.natAbs
  have value := decimalValue_toDigits power.natAbs
  rw [toList_toString_int]
  split
  · refine .inr ⟨'e', ['-'], _, rfl, by simp, digits, .inr ⟨rfl, ?_⟩⟩
    rw [value]
    omega
  · refine .inr ⟨'e', [], _, rfl, by simp, digits, .inl ⟨by simp, ?_⟩⟩
    rw [value]
    omega

namespace Scientific

theorem isDigit_digits (n : Scientific)
    : ∀ c ∈ n.digits, c.isDigit :=
  List.forall_mem_cons.mpr ⟨n.isDigit_first, n.isDigit_fraction⟩

/-- The decimal that is read from the text. -/
theorem decimalOfNumber_text (n : Scientific)
    : decimalOfNumber n.text = ⟨n.negative, decimalValue n.digits, n.power - n.fraction.length⟩ :=
  decimalOfNumber_parts ⟨by simp, List.forall_mem_singleton.mpr n.isDigit_first⟩ n.isDigit_fraction
    (isPower_toString n.power)

/-- The digits of the decimal are those of the text. -/
theorem digits_decimal (n : Scientific)
    : (decimalOfNumber n.text).digits = n.digits := by
  rw [decimalOfNumber_text, Decimal.digits]
  by_cases zero : n.first = '0'
  · rw [digits, zero, (n.normal zero).1]
    exact Nat.toDigits_zero 10
  · exact toDigits_decimalValue (by simp [digits]) n.isDigit_digits (by simpa [digits] using zero)

/-- The power is that of the first digit. -/
theorem leadingExponent_decimal (n : Scientific)
    : (decimalOfNumber n.text).leadingExponent = n.power := by
  rw [Decimal.leadingExponent, digits_decimal, decimalOfNumber_text, digits, List.length_cons]
  push_cast
  ring

/-- A zero has no power that would need zeros in front of the point. -/
theorem normal_decimal (n : Scientific)
    : (decimalOfNumber n.text).coefficient ≠ 0 ∨ (decimalOfNumber n.text).exponent = 0 := by
  by_cases zero : n.first = '0'
  · refine .inr ?_
    rw [decimalOfNumber_text, (n.normal zero).1, (n.normal zero).2]
    rfl
  · refine .inl fun none => ?_
    have same := n.digits_decimal
    rw [Decimal.digits, none] at same
    exact zero (List.cons.inj same).1.symm

/-- The text is that of the decimal that it denotes. -/
theorem text_eq (n : Scientific)
    : n.text = (decimalOfNumber n.text).scientific := by
  have sign : (decimalOfNumber n.text).sign = if n.negative then ['-'] else [] := by
    rw [n.decimalOfNumber_text, Decimal.sign]
  have mantissa : (decimalOfNumber n.text).mantissa
      = n.first :: (if n.fraction = [] then [] else '.' :: n.fraction) := by
    rw [Decimal.mantissa, n.digits_decimal, digits]
    cases n.fraction <;> rfl
  rw [Decimal.scientific, n.leadingExponent_decimal, sign, mantissa, text]
  simp only [List.append_assoc, List.cons_append, List.nil_append]

/-- A power of 32 bits is rewritten to the notation of documents. -/
theorem formatFloat_text (n : Scientific) (inside : -2 ^ 31 ≤ n.power ∧ n.power < 2 ^ 31)
    : formatFloat n.text = some (decimalOfNumber n.text).jsonNotation := by
  rw [← n.leadingExponent_decimal] at inside
  have written := formatFloat_scientific (decimalOfNumber n.text)
  rwa [if_pos inside, ← n.text_eq] at written

/-- A text in scientific notation denotes its number. -/
theorem denotes_text (n : Scientific)
    : Denotes n.text n.negative (decimalOfNumber n.text).size := by
  have denotes : Denotes n.text n.negative
      ((decimalValue [n.first] + decimalValue n.fraction / 10 ^ n.fraction.length)
        * 10 ^ n.power) :=
    ⟨[n.first], n.fraction, _, n.power, rfl,
      ⟨by simp, List.forall_mem_singleton.mpr n.isDigit_first⟩, n.isDigit_fraction,
        isPower_toString n.power, rfl⟩
  rwa [(decimalOfNumber_of_denotes denotes).2]

end Scientific

/-- Each decimal that floats are written from has a scientific notation. -/
theorem exists_scientific {d : Decimal} (normal : d.coefficient ≠ 0 ∨ d.exponent = 0)
    : ∃ n : Scientific, decimalOfNumber n.text = d := by
  have legal : IsDigits d.digits := isDigits_toDigits d.coefficient
  obtain ⟨first, fraction, same⟩ := List.exists_cons_of_ne_nil legal.1
  have digit := List.forall_mem_cons.mp (same ▸ legal.2)
  have length : (d.digits.length : Int) = fraction.length + 1 := by rw [same, List.length_cons]; rfl
  have zero (leading : first = '0') : fraction = [] ∧ d.leadingExponent = 0 := by
    have none : d.coefficient = 0 := by
      by_contra other
      refine head?_toDigits (Nat.pos_of_ne_zero other) ?_
      rw [← Decimal.digits, same, leading]
      rfl
    have single : fraction = [] := by
      have own : d.digits = ['0'] := by rw [Decimal.digits, none, Nat.toDigits_zero]
      exact (List.cons.inj (same.symm.trans own)).2
    refine ⟨single, ?_⟩
    rw [Decimal.leadingExponent, length, single, normal.resolve_left (fun other => other none)]
    rfl
  let n : Scientific := ⟨d.negative, first, fraction, d.leadingExponent, digit.1, digit.2, zero⟩
  refine ⟨n, ?_⟩
  have spelled : decimalValue n.digits = d.coefficient :=
    (congrArg decimalValue same.symm).trans (decimalValue_toDigits d.coefficient)
  have power : n.power - n.fraction.length = d.exponent := by
    change d.leadingExponent - fraction.length = d.exponent
    rw [Decimal.leadingExponent, length]
    omega
  rw [n.decimalOfNumber_text, spelled, power]

-----------------------------------------------------------------------------------------
-- Exponents
-----------------------------------------------------------------------------------------

/-- The text has no exponent mark. -/
def IsUnmarked (text : List Char) : Prop :=
  ∀ c ∈ text, c ∉ ['e', 'E']

theorem isUnmarked_of_digits {text : List Char} (digits : ∀ c ∈ text, c.isDigit)
    : IsUnmarked text := by
  intro c listed marked
  have digit := digits c listed
  simp only [List.mem_cons, List.not_mem_nil, or_false] at marked
  rcases marked with rfl | rfl <;> cases digit

theorem IsUnmarked.append {a b : List Char} (first : IsUnmarked a) (others : IsUnmarked b)
    : IsUnmarked (a ++ b) :=
  List.forall_mem_append.mpr ⟨first, others⟩

theorem isUnmarked_positional (d : Decimal)
    : IsUnmarked d.positional := by
  have digits : ∀ c ∈ d.digits, c.isDigit := (isDigits_toDigits d.coefficient).2
  have zeros (n : Nat) : IsUnmarked (List.replicate n '0') :=
    isUnmarked_of_digits fun c listed => by
    rw [List.eq_of_mem_replicate listed]
    decide
  have sign : IsUnmarked d.sign := by
    unfold Decimal.sign
    split <;> simp [IsUnmarked]
  have point : IsUnmarked ['.'] := by simp [IsUnmarked]
  have leading : IsUnmarked ['0', '.'] := by simp [IsUnmarked]
  simp only [Decimal.positional]
  split
  · exact ((sign.append leading).append (zeros _)).append (isUnmarked_of_digits digits)
  · refine sign.append ?_
    unfold Decimal.pointAfter
    split
    · refine (isUnmarked_of_digits fun c listed => digits c (List.mem_of_mem_take listed)).append ?_
      exact point.append (isUnmarked_of_digits
        fun c listed => digits c (List.mem_of_mem_drop listed))
    · exact (isUnmarked_of_digits digits).append (zeros _)

/-- There is no exponent just for powers within the bounds. -/
theorem isUnmarked_jsonNotation_iff {d : Decimal}
    : IsUnmarked d.jsonNotation ↔ -7 < d.leadingExponent ∧ d.leadingExponent < 21 := by
  unfold Decimal.jsonNotation
  split
  · rename_i moderate
    exact iff_of_true (isUnmarked_positional d) moderate
  · rename_i extreme
    refine iff_of_false (fun unmarked => ?_) extreme
    exact unmarked 'e' (by simp [Decimal.exponential]) (by simp)

-----------------------------------------------------------------------------------------
-- The notation of documents
-----------------------------------------------------------------------------------------

/-- The notation of documents keeps the number.  Each text in scientific notation whose power has 32
bits is rewritten.  What comes out is a number of the grammar and denotes the same size with the
same sign; it has no exponent exactly if the power is between the minus sixth and the twentieth.
The text of each finite float is made in this way.
-/
theorem notation_keeps_number
    : (∀ n : Scientific, -2 ^ 31 ≤ n.power ∧ n.power < 2 ^ 31
        → ∃ out, formatFloat n.text = some out
          ∧ isNumber out
          ∧ (∃ size, Denotes n.text n.negative size ∧ Denotes out n.negative size)
          ∧ (IsUnmarked out ↔ -7 < n.power ∧ n.power < 21))
      ∧ ∀ f : Format, f.IsModerate → ∀ bits, bits < 2 * f.signBit
        → specialText (f.value bits) = none
        → ∃ (n : Scientific) (mantissa : Nat) (exponent : Int),
          (-2 ^ 31 ≤ n.power ∧ n.power < 2 ^ 31)
          ∧ f.value bits = .finite n.negative mantissa exponent
          ∧ n.text = (shortest f n.negative mantissa exponent).scientific
          ∧ formatFloat n.text = some (floatText f bits).toList := by
  refine ⟨fun n inside => ⟨_, n.formatFloat_text inside, ?_, ⟨_, n.denotes_text, ?_⟩, ?_⟩,
    fun f moderate bits small special => ?_⟩
  · exact isNumber_of_isNumeral (isNumeral_jsonNotation n.normal_decimal)
  · have denotes := denotes_jsonNotation (decimalOfNumber n.text)
    rwa [n.decimalOfNumber_text] at denotes ⊢
  · rw [isUnmarked_jsonNotation_iff, n.leadingExponent_decimal]
  · obtain ⟨negative, magnitude, rfl, finite⟩ := exists_signedBits small special
    have bounds := leadingExponent_textDecimal moderate negative finite
    have sign := (textDecimal_spec moderate negative finite).1
    obtain ⟨n, same⟩ := exists_scientific (normal_shortest f negative (f.magnitude magnitude).1
      (f.magnitude magnitude).2)
    change decimalOfNumber n.text = textDecimal f negative magnitude at same
    have own : n.negative = negative := by
      rw [← sign, ← same, n.decimalOfNumber_text]
    have text : n.text = (textDecimal f negative magnitude).scientific := by
      rw [← same, ← n.text_eq]
    refine ⟨n, (f.magnitude magnitude).1, (f.magnitude magnitude).2, ?_, ?_, ?_, ?_⟩
    · rw [← n.leadingExponent_decimal, same]
      omega
    · rw [value_signedBits negative finite, own]
    · rw [text, own, textDecimal]
    · rw [text, formatFloat_textDecimal moderate negative finite,
        floatText_signedBits moderate negative finite, String.toList_ofList]

/-- The least power without an exponent, and a tenth. -/
theorem notation_keeps_number_small
    : let n : Scientific := ⟨true, '2', ['5'], -6, rfl, List.forall_mem_singleton.mpr rfl, nofun⟩
      n.text = "-2.5e-6".toList
        ∧ formatFloat "-2.5e-6".toList = some "-0.0000025".toList
        ∧ isNumber "-0.0000025".toList
        ∧ (∃ size, Denotes "-2.5e-6".toList true size ∧ Denotes "-0.0000025".toList true size)
        ∧ (IsUnmarked "-0.0000025".toList ↔ (-7 : Int) < -6 ∧ (-6 : Int) < 21)
        ∧ ∃ n : Scientific, formatFloat n.text
          = some (floatText double 0x3fb999999999999a).toList := by
  intro n
  have spelled : n.text = "-2.5e-6".toList := by decide +kernel
  have written : formatFloat "-2.5e-6".toList = some "-0.0000025".toList := by decide +kernel
  obtain ⟨texts, floats⟩ := notation_keeps_number
  obtain ⟨out, made, legal, denoted, marks⟩ := texts n (by decide)
  rw [spelled] at made denoted
  obtain rfl : "-0.0000025".toList = out := Option.some.inj (written.symm.trans made)
  obtain ⟨m, -, -, -, -, -, tenth⟩ :=
    floats double isModerate_double 0x3fb999999999999a (by decide) (by decide)
  exact ⟨spelled, written, legal, denoted, marks, m, tenth⟩

end Protobuf.Json
