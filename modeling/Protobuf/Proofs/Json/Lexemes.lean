import Mathlib.Logic.Basic
import Protobuf.Proofs.Json.Text
import Protobuf.Proofs.Text.Base64
import Protobuf.Proofs.Text.Digits
import Protobuf.Proofs.Time.Fraction

/-! The lexemes that the writer puts together itself.  Integers and finite floats are numbers of the
grammar, and base64, times and the words for what is no finite number need no escapes.
-/

namespace Protobuf.Json

open Number Text

-----------------------------------------------------------------------------------------
-- Integers
-----------------------------------------------------------------------------------------

/-- The numeral of a natural number is made of digits. -/
theorem isDigits_toDigits (n : Nat)
    : IsDigits (Nat.toDigits 10 n) :=
  ⟨Nat.toDigits_ne_nil, fun _ listed => Nat.isDigit_of_mem_toDigits (by decide) (by decide) listed⟩

theorem head?_append_of_ne_nil {front behind : List Char} (h : front ≠ [])
    : (front ++ behind).head? = front.head? := by
  obtain ⟨c, others, rfl⟩ := List.exists_cons_of_ne_nil h
  rfl

/-- The digits of a positive number do not begin with a zero, by induction on the number. -/
theorem head?_toDigits {n : Nat} (positive : 0 < n)
    : (Nat.toDigits 10 n).head? ≠ some '0' := by
  induction n using Nat.strongRecOn with
  | _ n ih =>
      rw [Nat.toDigits_eq_if (by decide)]
      split
      · rename_i small
        have digits : ∀ n < 10, 0 < n → n.digitChar ≠ '0' := by decide
        simpa using digits n small positive
      · rename_i large
        rw [head?_append_of_ne_nil Nat.toDigits_ne_nil]
        exact ih (n / 10) (by omega) (by omega)

/-- The numeral of a natural number has no leading zero. -/
theorem isWhole_toDigits (n : Nat)
    : IsWhole (Nat.toDigits 10 n) := by
  cases n with
  | zero => exact .inl (by decide)
  | succ n => exact .inr ⟨isDigits_toDigits _, head?_toDigits n.succ_pos⟩

/-- The numeral of an integer is that of its size behind its sign. -/
theorem toList_toString_int (n : Int)
    : (toString n).toList = (if n < 0 then ['-'] else []) ++ Nat.toDigits 10 n.natAbs := by
  cases n with
  | ofNat n => exact toList_toString_nat n
  | negSucc n =>
      rw [if_pos (Int.negSucc_lt_zero n), ← toList_toString_nat]
      exact String.toList_append

/-- A sign and digits without a leading zero are a numeral. -/
theorem isNumeral_whole {sign whole : List Char} (signed : sign ∈ [[], ['-']])
    (digits : IsWhole whole)
    : IsNumeral (sign ++ whole) :=
  ⟨sign, whole, [], [], by simp, signed, digits, .inl rfl, .inl rfl⟩

/-- An integer is written as a numeral. -/
theorem isNumeral_int (n : Int)
    : IsNumeral (toString n).toList := by
  rw [toList_toString_int]
  exact isNumeral_whole (by split <;> simp) (isWhole_toDigits _)

theorem isNumeral_nat (n : Nat)
    : IsNumeral (toString n).toList := by
  rw [toList_toString_nat]
  exact isNumeral_whole (show [] ∈ [[], ['-']] by simp) (isWhole_toDigits n)

/-- A whole part begins with a digit. -/
theorem IsWhole.exists_cons {whole : List Char} (h : IsWhole whole)
    : ∃ c others, whole = c :: others ∧ c.isDigit := by
  rcases h with rfl | ⟨⟨written, digits⟩, -⟩
  · exact ⟨'0', [], rfl, rfl⟩
  · obtain ⟨c, others, rfl⟩ := List.exists_cons_of_ne_nil written
    exact ⟨c, others, rfl, digits c (by simp)⟩

theorem toDigits_cons (n : Nat)
    : ∃ c others, Nat.toDigits 10 n = c :: others ∧ c.isDigit :=
  (isWhole_toDigits n).exists_cons

/-- A sign and digits are read as an integer, or digits alone. -/
theorem integerText?_digits {text : String} (signed : Bool) (n : Nat)
    (same : text.toList = Nat.toDigits 10 n)
    : integerText? signed text = some (n : Int) := by
  obtain ⟨c, others, first, digit⟩ := toDigits_cons n
  have digits := List.all_eq_true.mpr (isDigits_toDigits n).2
  have written := (isDigits_toDigits n).1
  rw [integerText?, same]
  split
  · rename_i plus
    cases first.symm.trans plus
    cases digit
  · rename_i minus
    cases first.symm.trans minus
    cases digit
  · simp [digits, decimalValue_toDigits, written]

/-- The numeral of an integer is read as that integer. -/
theorem integerText?_int (n : Int)
    : integerText? true (toString n) = some n := by
  by_cases below : n < 0
  · have digits := List.all_eq_true.mpr (isDigits_toDigits n.natAbs).2
    have written := (isDigits_toDigits n.natAbs).1
    have value : -(n.natAbs : Int) = n := by omega
    have nonempty : (Nat.toDigits 10 n.natAbs).isEmpty = false := by simp [written]
    rw [integerText?, toList_toString_int, if_pos below]
    simp only [List.singleton_append, digits, decimalValue_toDigits, nonempty, if_true,
      Bool.not_false, Bool.and_self, Option.map_some, value]
  · have digits : (toString n).toList = Nat.toDigits 10 n.natAbs := by
      rw [toList_toString_int, if_neg below, List.nil_append]
    rw [integerText?_digits true n.natAbs digits, Int.natAbs_of_nonneg (Int.not_lt.mp below)]

/-- The numeral of a natural number is read as that number without a sign. -/
theorem integerText?_nat (n : Nat)
    : integerText? false (toString n) = some (n : Int) :=
  integerText?_digits false n (toList_toString_nat n)

-----------------------------------------------------------------------------------------
-- Floats
-----------------------------------------------------------------------------------------

/-- Digits behind digits are digits. -/
theorem IsDigits.append {a b : List Char} (first : IsDigits a) (others : ∀ c ∈ b, c.isDigit)
    : IsDigits (a ++ b) := by
  refine ⟨by simp [first.1], fun c listed => ?_⟩
  rcases List.mem_append.mp listed with listed | listed
  · exact first.2 c listed
  · exact others c listed

/-- Zeros in front of digits leave digits. -/
theorem isDigits_of_zeros {digits : List Char} (h : IsDigits digits) (n : Nat)
    : IsDigits (List.replicate n '0' ++ digits) := by
  refine ⟨by simp [h.1], fun c listed => ?_⟩
  rcases List.mem_append.mp listed with listed | listed
  · rw [List.eq_of_mem_replicate listed]
    decide
  · exact h.2 c listed

/-- A decimal has a minus sign or none. -/
theorem sign_of_decimal (d : Decimal)
    : d.sign ∈ [[], ['-']] := by
  unfold Decimal.sign
  split <;> simp

/-- A number begins with a minus sign or a digit. -/
theorem IsNumeral.exists_cons {text : List Char} (h : IsNumeral text)
    : ∃ c others, text = c :: others ∧ (c = '-' ∨ c.isDigit) := by
  obtain ⟨sign, whole, fraction, exponent, rfl, signed, digits, -, -⟩ := h
  obtain ⟨c, others, rfl, digit⟩ := digits.exists_cons
  simp only [List.mem_cons, List.not_mem_nil, or_false] at signed
  rcases signed with rfl | rfl
  · exact ⟨c, others ++ fraction ++ exponent, by simp, .inr digit⟩
  · exact ⟨'-', c :: others ++ fraction ++ exponent, by simp, .inl rfl⟩

/-- The digits of a number with the point behind the first of them, or with zeros up to it. -/
theorem isNumeral_pointAfter {sign digits : List Char} {places : Nat} (signed : sign ∈ [[], ['-']])
    (legal : IsDigits digits) (inside : 0 < places)
    (whole : digits.head? ≠ some '0' ∨ digits = ['0'] ∧ places = 1)
    : IsNumeral (sign ++ Decimal.pointAfter places digits) := by
  unfold Decimal.pointAfter
  split
  · rename_i short
    have first : digits.head? ≠ some '0' := by
      rcases whole with first | ⟨rfl, rfl⟩
      · exact first
      · simp at short
    refine ⟨sign, digits.take places, '.' :: digits.drop places, [], by simp, signed, ?_, ?_,
      .inl rfl⟩
    · refine .inr ⟨⟨?_, fun c listed => legal.2 c (List.mem_of_mem_take listed)⟩, ?_⟩
      · simp [legal.1, Nat.ne_of_gt inside]
      · rwa [List.head?_take, if_neg (Nat.ne_of_gt inside)]
    · refine .inr ⟨_, rfl, ?_, fun c listed => legal.2 c (List.mem_of_mem_drop listed)⟩
      simpa using short
  · refine isNumeral_whole signed ?_
    rcases whole with first | ⟨rfl, rfl⟩
    · refine .inr ⟨legal.append fun c listed => ?_, ?_⟩
      · rw [List.eq_of_mem_replicate listed]
        decide
      · rwa [head?_append_of_ne_nil legal.1]
    · exact .inl rfl

/-- The positional notation of a normal decimal is a numeral. -/
theorem isNumeral_positional {d : Decimal} (normal : d.coefficient ≠ 0 ∨ d.exponent = 0)
    : IsNumeral d.positional := by
  have digits : IsDigits d.digits := isDigits_toDigits d.coefficient
  simp only [Decimal.positional]
  split
  · refine ⟨d.sign, ['0'],
      '.' :: (List.replicate ((-d.leadingExponent).toNat - 1) '0' ++ d.digits), [], ?_,
      sign_of_decimal d, .inl rfl, .inr ⟨_, rfl, isDigits_of_zeros digits _⟩, .inl rfl⟩
    simp only [List.append_assoc, List.append_nil, List.cons_append, List.nil_append]
  · refine isNumeral_pointAfter (sign_of_decimal d) digits (by omega) ?_
    by_cases zero : d.coefficient = 0
    · have same : d.digits = ['0'] := by rw [Decimal.digits, zero, Nat.toDigits_zero]
      have power : d.exponent = 0 := normal.resolve_left (fun other => other zero)
      exact .inr ⟨same, by simp [Decimal.leadingExponent, same, power]⟩
    · exact .inl (head?_toDigits (Nat.pos_of_ne_zero zero))

/-- One digit is a whole part, whether it is a zero or not. -/
theorem isWhole_digit {c : Char} (digit : c.isDigit)
    : IsWhole [c] := by
  by_cases zero : c = '0'
  · exact .inl (by rw [zero])
  · exact .inr ⟨⟨by simp, by simpa using digit⟩, by simpa using zero⟩

/-- The digits with any power of ten behind them are a number. -/
theorem isNumeral_mantissa (d : Decimal) {exponent : List Char} (power : IsExponent exponent)
    : IsNumeral (d.sign ++ d.mantissa ++ exponent) := by
  have digits : IsDigits d.digits := isDigits_toDigits d.coefficient
  unfold Decimal.mantissa
  split
  · rename_i none
    exact absurd none digits.1
  · rename_i first one
    refine ⟨d.sign, [first], [], exponent, by simp, sign_of_decimal d, ?_, .inl rfl, power⟩
    exact isWhole_digit (digits.2 first (by simp [one]))
  · rename_i first others single more
    refine ⟨d.sign, [first], '.' :: others, exponent, by simp, sign_of_decimal d, ?_,
      .inr ⟨_, rfl, ?_, fun c listed => digits.2 c (by simp [more, listed])⟩, power⟩
    · exact isWhole_digit (digits.2 first (by simp [more]))
    · rintro rfl
      exact single rfl

/-- The notation with an exponent is a numeral. -/
theorem isNumeral_exponential (d : Decimal)
    : IsNumeral d.exponential := by
  refine isNumeral_mantissa d (.inr ⟨'e', [if d.leadingExponent < 0 then '-' else '+'],
    Nat.toDigits 10 d.leadingExponent.natAbs, ?_, by simp, ?_, isDigits_toDigits _⟩)
  · rw [toList_toString_nat]
    rfl
  · split <;> simp

/-- The notation that a number is first printed in is a numeral. -/
theorem isNumeral_scientific (d : Decimal)
    : IsNumeral d.scientific := by
  refine isNumeral_mantissa d (.inr ⟨'e', if d.leadingExponent < 0 then ['-'] else [],
    Nat.toDigits 10 d.leadingExponent.natAbs, ?_, by simp, ?_, isDigits_toDigits _⟩)
  · rw [toList_toString_int]
  · split <;> simp

/-- A decimal is written as a number.  A zero needs a power of zero, for it would be written with
leading zeros otherwise.
-/
theorem isNumeral_jsonNotation {d : Decimal} (normal : d.coefficient ≠ 0 ∨ d.exponent = 0)
    : IsNumeral d.jsonNotation := by
  unfold Decimal.jsonNotation
  split
  · exact isNumeral_positional normal
  · exact isNumeral_exponential d

/-- A multiple inside an interval of positive numbers is not zero. -/
theorem nearestMultiple_ne_zero {i : RoundingInterval} {power : Int} {multiple : Nat}
    (positive : 0 < i.low) (h : i.nearestMultiple? power = some multiple)
    : multiple ≠ 0 := by
  unfold RoundingInterval.nearestMultiple? at h
  extract_lets up unit below belowFits aboveFits at h
  have inside (fits : belowFits) : below ≠ 0 := by
    intro zero
    have larger : 0 < i.low * up := Nat.mul_pos positive (Nat.pow_pos (by decide))
    simp only [belowFits, zero, Nat.zero_mul] at fits
    split at fits <;> omega
  rw [ite_eq_iff] at h
  rcases h with ⟨⟨fits, -⟩, h⟩ | ⟨-, h⟩
  · exact Option.some.inj h ▸ inside fits
  rw [ite_eq_iff] at h
  rcases h with ⟨⟨fits, -⟩, h⟩ | ⟨-, h⟩
  · rw [ite_eq_iff] at h
    rcases h with ⟨-, h⟩ | ⟨-, h⟩
    · cases h
      exact Nat.succ_ne_zero _
    · exact Option.some.inj h ▸ inside fits
  rw [ite_eq_iff] at h
  rcases h with ⟨-, h⟩ | ⟨-, h⟩
  · cases h
    exact Nat.succ_ne_zero _
  · cases h

/-- The search ends at a multiple that is not zero, by induction on its steps. -/
theorem search_ne_zero {i : RoundingInterval} (positive : 0 < i.low) (middle : 0 < i.middle)
    (steps : Nat) (power : Int)
    : (i.search steps power).1 ≠ 0 := by
  induction steps generalizing power with
  | zero => exact Nat.ne_of_gt middle
  | succ steps ih =>
      simp only [RoundingInterval.search]
      split
      · rename_i found
        exact nearestMultiple_ne_zero positive found
      · exact ih _

/-- The shortest decimal of a number is normal: zero has no exponent. -/
theorem normal_shortest (f : Format) (negative : Bool) (mantissa : Nat) (exponent : Int)
    : (shortest f negative mantissa exponent).coefficient ≠ 0
      ∨ (shortest f negative mantissa exponent).exponent = 0 := by
  unfold shortest
  split
  · exact .inr rfl
  · rename_i written
    refine .inl (search_ne_zero ?_ ?_ _ _)
    · refine Nat.mul_pos ?_ (Nat.pow_pos (by decide))
      split <;> omega
    · exact Nat.mul_pos (by omega) (Nat.pow_pos (by decide))

-----------------------------------------------------------------------------------------
-- Texts without escapes
-----------------------------------------------------------------------------------------

/-- Plain text behind plain text is plain. -/
theorem IsPlain.append {a b : List Char} (first : IsPlain a) (second : IsPlain b)
    : IsPlain (a ++ b) := by
  intro c listed
  rcases List.mem_append.mp listed with listed | listed
  · exact first c listed
  · exact second c listed

theorem IsPlain.cons {c : Char} {text : List Char} (first : escapeChar c = [c])
    (others : IsPlain text)
    : IsPlain (c :: text) :=
  List.forall_mem_cons.mpr ⟨first, others⟩

/-- Digits need no escape. -/
theorem escapeChar_of_isDigit {c : Char} (digit : c.isDigit)
    : escapeChar c = [c] := by
  have codes : ∀ n < 58, 48 ≤ n → escapeChar (Char.ofNat n) = [Char.ofNat n] := by decide
  rw [Char.isDigit_iff_toNat] at digit
  rw [← Char.ofNat_toNat c]
  exact codes c.toNat (Nat.lt_succ_of_le digit.2) digit.1

/-- A text of digits needs no escapes. -/
theorem isPlain_of_digits {text : List Char} (digits : ∀ c ∈ text, c.isDigit)
    : IsPlain text :=
  fun c listed => escapeChar_of_isDigit (digits c listed)

theorem isPlain_nat (n : Nat)
    : IsPlain (toString n).toList := by
  rw [toList_toString_nat]
  exact isPlain_of_digits (isDigits_toDigits n).2

/-- The numeral of an integer needs no escapes. -/
theorem isPlain_int (n : Int)
    : IsPlain (toString n).toList := by
  rw [toList_toString_int]
  refine IsPlain.append ?_ (isPlain_of_digits (isDigits_toDigits _).2)
  split
  · exact .cons (by decide) (by simp [IsPlain])
  · simp [IsPlain]

/-- A few characters are tried one by one. -/
theorem isPlain_of_all {text : List Char} (h : text.all fun c => escapeChar c == [c])
    : IsPlain text :=
  fun c listed => eq_of_beq (List.all_eq_true.mp h c listed)

/-- The names of the numbers that are not finite need no escapes. -/
theorem isPlain_specialText {value : FloatValue} {text : String}
    (h : specialText value = some text)
    : IsPlain text.toList := by
  cases value with
  | notANumber =>
      cases h
      exact isPlain_of_all (by decide)
  | infinite negative =>
      cases negative <;> cases h <;> exact isPlain_of_all (by decide)
  | finite _ _ _ => cases h

/-- Text in base64 needs no escapes. -/
theorem isPlain_base64 (bytes : List UInt8)
    : IsPlain (Text.base64 bytes).toList := by
  have digit (n : Nat) : escapeChar (Text.base64Char n) = [Text.base64Char n] := by
    have alphabet : IsPlain Text.base64Alphabet := by
      rw [Text.base64Alphabet_eq]
      exact isPlain_of_all (by decide)
    by_cases small : n < Text.base64Alphabet.length
    · have listed : Text.base64Char n ∈ Text.base64Alphabet := by
        rw [Text.base64Char, List.getD_eq_getElem?_getD, List.getElem?_eq_getElem small]
        exact List.getElem_mem small
      exact alphabet _ listed
    · rw [Text.base64Char, List.getD_eq_getElem?_getD,
        List.getElem?_eq_none (Nat.le_of_not_lt small)]
      decide
  rw [Text.base64, String.toList_ofList]
  refine IsPlain.append (fun c listed => ?_) ?_
  · obtain ⟨n, -, rfl⟩ := List.mem_map.mp listed
    exact digit n
  · unfold Text.base64Padding
    split <;> exact isPlain_of_all (by decide)

-----------------------------------------------------------------------------------------
-- Times
-----------------------------------------------------------------------------------------

theorem isPlain_paddedDigits (width n : Nat)
    : IsPlain (Text.paddedDigits width n) := by
  exact isPlain_of_digits fun _ listed => isDigit_of_mem_paddedDigits listed

/-- A fraction of a second needs no escapes. -/
theorem isPlain_fractionText (nanos : Nat)
    : IsPlain (Time.fractionText nanos) := by
  unfold Time.fractionText
  split
  · simp [IsPlain]
  · refine .cons (by decide) (isPlain_of_digits fun c listed => ?_)
    have kept := (Time.dropZeros_suffix _).mem (List.mem_reverse.mp listed)
    exact isDigit_of_mem_paddedDigits (List.mem_reverse.mp kept)

/-- A point in time is written without escapes. -/
theorem isPlain_timestamp {t : Time.Timestamp} {text : String} (h : t.text = .ok text)
    : IsPlain text.toList := by
  have two (n : Nat) := isPlain_paddedDigits 2 n
  simp only [Time.Timestamp.text] at h
  split at h
  · cases h
  · split at h
    · cases h
    · obtain rfl := Except.ok.inj h
      rw [String.toList_ofList]
      have suffix : IsPlain ['Z'] := isPlain_of_all (by decide)
      have fraction := (isPlain_fractionText t.nanos.toInt.toNat).append suffix
      simp only [List.append_assoc, List.cons_append]
      exact (isPlain_paddedDigits 4 _).append (.cons (by decide) ((two _).append (.cons (by decide)
        ((two _).append (.cons (by decide) ((two _).append (.cons (by decide)
          ((two _).append (.cons (by decide) ((two _).append fraction))))))))))

/-- A span of time is written without escapes. -/
theorem isPlain_duration {d : Time.Duration} {text : String} (h : d.text = .ok text)
    : IsPlain text.toList := by
  simp only [Time.Duration.text] at h
  split at h
  · cases h
  · split at h
    · cases h
    · split at h
      · cases h
      · obtain rfl := Except.ok.inj h
        rw [String.toList_ofList]
        have suffix : IsPlain ['s'] := isPlain_of_all (by decide)
        refine (IsPlain.append (.append ?_ (isPlain_nat _)) (isPlain_fractionText _)).append suffix
        split <;> exact isPlain_of_all (by decide)

end Protobuf.Json
