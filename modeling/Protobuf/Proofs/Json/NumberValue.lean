import Protobuf.Proofs.Json.Scanning
import Protobuf.Proofs.Number.Decimal

/-! The value of a number text.  A text denotes what its whole part, its fraction and its exponent
add up to; the decimal that is read from it has this value, and a decimal is written as a text that
denotes it.
-/

namespace Protobuf.Json

open Number Text

-----------------------------------------------------------------------------------------
-- What a text denotes
-----------------------------------------------------------------------------------------

/-- An exponent, and the power of ten that it asks for. -/
def IsPower (exponent : List Char) (power : Int) : Prop :=
  exponent = [] ∧ power = 0
    ∨ ∃ mark sign digits, exponent = mark :: (sign ++ digits) ∧ mark ∈ ['e', 'E'] ∧ IsDigits digits
      ∧ (sign ∈ [[], ['+']] ∧ power = decimalValue digits
        ∨ sign = ['-'] ∧ power = -(decimalValue digits : Int))

/-- The text is a number with the size, behind a minus sign if it is negative.  The size is that of
the digits before the point and the decimal fraction behind it, times a power of ten.
-/
def Denotes (text : List Char) (negative : Bool) (size : ℚ) : Prop :=
  ∃ whole fraction exponent power,
    text = (if negative then ['-'] else []) ++ whole
        ++ (if fraction = [] then [] else '.' :: fraction) ++ exponent
      ∧ IsDigits whole ∧ (∀ c ∈ fraction, c.isDigit) ∧ IsPower exponent power
      ∧ size = (decimalValue whole + decimalValue fraction / 10 ^ fraction.length) * 10 ^ power

/-- A number with its sign. -/
def signed (negative : Bool) (size : ℚ) : ℚ :=
  if negative then -size else size

/-- Every exponent asks for a power. -/
theorem IsExponent.exists_power {exponent : List Char} (h : IsExponent exponent)
    : ∃ power, IsPower exponent power := by
  rcases h with rfl | ⟨mark, sign, digits, rfl, marked, signed, legal⟩
  · exact ⟨0, .inl ⟨rfl, rfl⟩⟩
  · simp only [List.mem_cons, List.not_mem_nil, or_false] at signed
    rcases signed with rfl | rfl | rfl
    · exact ⟨_, .inr ⟨mark, _, digits, rfl, marked, legal, .inl ⟨by simp, rfl⟩⟩⟩
    · exact ⟨_, .inr ⟨mark, _, digits, rfl, marked, legal, .inl ⟨by simp, rfl⟩⟩⟩
    · exact ⟨_, .inr ⟨mark, _, digits, rfl, marked, legal, .inr ⟨rfl, rfl⟩⟩⟩

theorem IsWhole.isDigits {whole : List Char} (h : IsWhole whole)
    : IsDigits whole := by
  rcases h with rfl | ⟨digits, -⟩
  · exact ⟨by simp, by simp⟩
  · exact digits

/-- Every number of the grammar denotes something. -/
theorem IsNumeral.exists_denotes {text : List Char} (h : IsNumeral text)
    : ∃ negative size, Denotes text negative size := by
  obtain ⟨sign, whole, fraction, exponent, rfl, signed, digits, point, legal⟩ := h
  obtain ⟨power, powered⟩ := legal.exists_power
  obtain ⟨negative, rfl⟩ : ∃ negative, sign = if negative = true then ['-'] else [] := by
    simp only [List.mem_cons, List.not_mem_nil, or_false] at signed
    rcases signed with rfl | rfl
    · exact ⟨false, rfl⟩
    · exact ⟨true, rfl⟩
  rcases point with rfl | ⟨behind, rfl, decimals⟩
  · exact ⟨negative, _, whole, [], exponent, power, rfl, digits.isDigits, by simp, powered, rfl⟩
  · refine ⟨negative, _, whole, behind, exponent, power, ?_, digits.isDigits, decimals.2, powered,
      rfl⟩
    rw [if_neg decimals.1]

instance (text : List Char) : Decidable (IsDigits text) :=
  decidable_of_iff (text ≠ [] ∧ text.all Char.isDigit) (and_congr_right' List.all_eq_true)

instance (text : List Char) : Decidable (IsWhole text) :=
  inferInstanceAs (Decidable (_ ∨ _))

/-- A number with a fraction. -/
theorem denotes_point {whole fraction : List Char} (front : IsWhole whole)
    (behind : IsDigits fraction)
    : IsNumeral (whole ++ '.' :: fraction)
      ∧ Denotes (whole ++ '.' :: fraction) false
        (decimalValue whole + decimalValue fraction / 10 ^ fraction.length) := by
  constructor
  · exact ⟨[], whole, '.' :: fraction, [], by simp, by simp, front, .inr ⟨fraction, rfl, behind⟩,
      .inl rfl⟩
  · refine ⟨whole, fraction, [], 0, ?_, front.isDigits, behind.2, .inl ⟨rfl, rfl⟩, ?_⟩
    · simp [behind.1]
    · rw [zpow_zero, mul_one]

-----------------------------------------------------------------------------------------
-- Reading
-----------------------------------------------------------------------------------------

/-- Digits behind digits move them up. -/
theorem decimalValue_append_digits (front behind : List Char)
    : decimalValue (front ++ behind)
      = decimalValue front * 10 ^ behind.length + decimalValue behind := by
  induction behind using List.reverseRecOn with
  | nil => simp [decimalValue]
  | append_singleton behind c ih =>
      rw [← List.append_assoc, decimalValue_append, ih, decimalValue_append, List.length_append,
        List.length_singleton, Nat.pow_succ]
      ring

theorem IsPower.isExponent {exponent : List Char} {power : Int} (h : IsPower exponent power)
    : IsExponent exponent := by
  rcases h with ⟨rfl, -⟩ | ⟨mark, sign, digits, rfl, marked, legal, signed⟩
  · exact .inl rfl
  · refine .inr ⟨mark, sign, digits, rfl, marked, ?_, legal⟩
    simp only [List.mem_cons, List.not_mem_nil, or_false] at signed ⊢
    rcases signed with ⟨plain | plus, -⟩ | ⟨minus, -⟩
    · exact .inl plain
    · exact .inr (.inl plus)
    · exact .inr (.inr minus)

/-- The power is read from the exponent. -/
theorem exponentValue_of_isPower {exponent : List Char} {power : Int} (h : IsPower exponent power)
    : exponentValue exponent = power := by
  rcases h with ⟨rfl, rfl⟩ | ⟨mark, sign, digits, rfl, -, legal, signed⟩
  · rfl
  · obtain ⟨c, others, rfl⟩ := List.exists_cons_of_ne_nil legal.1
    have digit := legal.2 c (by simp)
    rcases signed with ⟨signed, rfl⟩ | ⟨rfl, rfl⟩
    · simp only [List.mem_cons, List.not_mem_nil, or_false] at signed
      rcases signed with rfl | rfl
      · rw [List.nil_append, exponentValue]
        · rintro _ same
          cases same
          cases digit
        · rintro _ same
          cases same
          cases digit
      · rfl
    · rfl

theorem takeWhile_digits {digits more : List Char} (legal : ∀ c ∈ digits, c.isDigit)
    (stops : StopsDigits more)
    : (digits ++ more).takeWhile Char.isDigit = digits
      ∧ (digits ++ more).dropWhile Char.isDigit = more := by
  rw [List.takeWhile_append_of_pos legal, List.dropWhile_append_of_pos legal]
  cases more with
  | nil => exact ⟨List.append_nil _, rfl⟩
  | cons d more =>
      rw [List.takeWhile_cons_of_neg (stops d rfl), List.dropWhile_cons_of_neg (stops d rfl)]
      exact ⟨List.append_nil _, rfl⟩

/-- The decimal that is read from the parts of a text. -/
theorem decimalOfNumber_parts {negative : Bool} {whole fraction exponent : List Char} {power : Int}
    (digits : IsDigits whole) (decimals : ∀ c ∈ fraction, c.isDigit)
    (powered : IsPower exponent power)
    : decimalOfNumber ((if negative then ['-'] else []) ++ whole
        ++ (if fraction = [] then [] else '.' :: fraction) ++ exponent)
      = ⟨negative, decimalValue (whole ++ fraction), power - fraction.length⟩ := by
  obtain ⟨stops, pointless⟩ := powered.isExponent.stops
  have read := exponentValue_of_isPower powered
  obtain ⟨c, others, rfl⟩ := List.exists_cons_of_ne_nil digits.1
  have digit := digits.2 c (by simp)
  have sign (more : List Char)
      : dropMinus ((if negative then ['-'] else []) ++ (c :: others) ++ more)
          = (c :: others) ++ more
        ∧ (((if negative then ['-'] else []) ++ (c :: others) ++ more).head? == some '-')
          = negative := by
    cases negative with
    | true => exact ⟨rfl, rfl⟩
    | false =>
        have other : c ≠ '-' := by
          rintro rfl
          cases digit
        refine ⟨?_, by simpa using other⟩
        rw [if_neg (by decide), List.nil_append, List.cons_append, dropMinus]
        rintro _ same
        cases same
        exact other rfl
  generalize c :: others = whole at *
  by_cases none : fraction = []
  · subst none
    rw [if_pos rfl, List.append_nil]
    obtain ⟨unsigned, negated⟩ := sign exponent
    obtain ⟨front, behind⟩ := takeWhile_digits digits.2 stops
    simp only [decimalOfNumber, unsigned, negated, front, behind]
    split
    · exact absurd rfl pointless
    · rw [read]
  · rw [if_neg none, List.append_assoc, List.cons_append]
    obtain ⟨unsigned, negated⟩ := sign ('.' :: (fraction ++ exponent))
    have point : StopsDigits ('.' :: (fraction ++ exponent)) := by simp [StopsDigits]
    obtain ⟨front, behind⟩ := takeWhile_digits digits.2 point
    obtain ⟨inner, last⟩ := takeWhile_digits decimals stops
    simp only [decimalOfNumber, unsigned, negated, front, behind, inner, last, read]

/-- The decimal that is read from a text has the sign and the size that the text denotes. -/
theorem decimalOfNumber_of_denotes {text : List Char} {negative : Bool} {size : ℚ}
    (h : Denotes text negative size)
    : (decimalOfNumber text).negative = negative ∧ (decimalOfNumber text).size = size := by
  obtain ⟨whole, fraction, exponent, power, rfl, digits, decimals, powered, rfl⟩ := h
  rw [decimalOfNumber_parts digits decimals powered, Decimal.size]
  refine ⟨rfl, ?_⟩
  dsimp only
  rw [decimalValue_append_digits, zpow_sub₀ (by norm_num), zpow_natCast]
  push_cast
  field_simp

/-- A text denotes one number. -/
theorem Denotes.unique {text : List Char} {negative other : Bool} {size size' : ℚ}
    (first : Denotes text negative size) (second : Denotes text other size')
    : negative = other ∧ size = size' := by
  obtain ⟨sign, value⟩ := decimalOfNumber_of_denotes first
  obtain ⟨sign', value'⟩ := decimalOfNumber_of_denotes second
  exact ⟨sign.symm.trans sign', value.symm.trans value'⟩

-----------------------------------------------------------------------------------------
-- Writing
-----------------------------------------------------------------------------------------

theorem decimalValue_zeros (n : Nat)
    : decimalValue (List.replicate n '0') = 0 := by
  induction n with
  | zero => rfl
  | succ n ih =>
      rw [List.replicate_succ', decimalValue_append, ih]
      rfl

/-- The size of a decimal as that of its digits behind a point. -/
theorem size_of_digits {d : Decimal} {front behind : List Char} {power : Int} (value : Nat)
    (spelled : decimalValue (front ++ behind) = value)
    (scaled : (value : ℚ) * 10 ^ (power - behind.length) = d.size)
    : d.size = (decimalValue front + decimalValue behind / 10 ^ behind.length) * 10 ^ power := by
  rw [← scaled, ← spelled, decimalValue_append_digits, zpow_sub₀ (by norm_num), zpow_natCast]
  push_cast
  field_simp

theorem denotes_positional (d : Decimal)
    : Denotes d.positional d.negative d.size := by
  have digits : IsDigits d.digits := isDigits_toDigits d.coefficient
  have spelled : decimalValue d.digits = d.coefficient := decimalValue_toDigits _
  have lead : d.leadingExponent = d.exponent + d.digits.length - 1 := rfl
  have length : 0 < d.digits.length := List.length_pos_of_ne_nil digits.1
  have zeros (n : Nat) : ∀ c ∈ List.replicate n '0', c.isDigit := fun c listed => by
    rw [List.eq_of_mem_replicate listed]
    decide
  simp only [Decimal.positional]
  split
  · refine ⟨['0'], List.replicate ((-d.leadingExponent).toNat - 1) '0' ++ d.digits, [], 0, ?_,
      ⟨by simp, by simp⟩, ?_, .inl ⟨rfl, rfl⟩,
      size_of_digits d.coefficient ?_ ?_⟩
    · have written : List.replicate ((-d.leadingExponent).toNat - 1) '0' ++ d.digits ≠ [] := by
        simp [digits.1]
      rw [Decimal.sign, if_neg written]
      simp
    · intro c listed
      exact (List.mem_append.mp listed).elim (zeros _ c) (digits.2 c)
    · rw [← List.append_assoc, decimalValue_append_digits, spelled]
      have front : ['0'] ++ List.replicate ((-d.leadingExponent).toNat - 1) '0'
          = List.replicate ((-d.leadingExponent).toNat - 1 + 1) '0' := List.replicate_succ.symm
      rw [front, decimalValue_zeros, Nat.zero_mul, Nat.zero_add]
    · rw [Decimal.size]
      congr 2
      rw [List.length_append, List.length_replicate]
      omega
  · unfold Decimal.pointAfter
    split
    · rename_i inside
      refine ⟨d.digits.take (d.leadingExponent.toNat + 1),
        d.digits.drop (d.leadingExponent.toNat + 1), [], 0, ?_, ⟨?_, ?_⟩, ?_, .inl ⟨rfl, rfl⟩,
        size_of_digits d.coefficient ?_ ?_⟩
      · have written : d.digits.drop (d.leadingExponent.toNat + 1) ≠ [] := by simpa using inside
        rw [Decimal.sign, if_neg written]
        simp
      · simp [digits.1]
      · exact fun c listed => digits.2 c (List.mem_of_mem_take listed)
      · exact fun c listed => digits.2 c (List.mem_of_mem_drop listed)
      · rw [List.take_append_drop, spelled]
      · rw [Decimal.size]
        congr 2
        rw [List.length_drop]
        omega
    · rename_i outside
      refine ⟨d.digits ++ List.replicate (d.leadingExponent.toNat + 1 - d.digits.length) '0', [],
        [], 0, ?_, digits.append (zeros _), by simp, .inl ⟨rfl, rfl⟩,
        size_of_digits (d.coefficient * 10 ^ d.exponent.toNat) ?_ ?_⟩
      · simp [Decimal.sign]
      · rw [List.append_nil, decimalValue_append_digits, decimalValue_zeros, spelled,
          List.length_replicate, Nat.add_zero]
        congr 2
        omega
      · have power : d.exponent = d.exponent.toNat := by omega
        rw [Decimal.size, List.length_nil, Nat.cast_zero, sub_zero, zpow_zero, mul_one]
        conv_rhs => rw [power, zpow_natCast]
        push_cast
        rfl

theorem denotes_exponential (d : Decimal)
    : Denotes d.exponential d.negative d.size := by
  have digits : IsDigits d.digits := isDigits_toDigits d.coefficient
  have spelled : decimalValue d.digits = d.coefficient := decimalValue_toDigits _
  have lead : d.leadingExponent = d.exponent + d.digits.length - 1 := rfl
  have power : IsPower ('e' :: (if d.leadingExponent < 0 then '-' else '+')
      :: (toString d.leadingExponent.natAbs).toList) d.leadingExponent := by
    rw [toList_toString_nat]
    refine .inr ⟨'e', [if d.leadingExponent < 0 then '-' else '+'],
      Nat.toDigits 10 d.leadingExponent.natAbs, rfl, by simp, isDigits_toDigits _, ?_⟩
    rw [decimalValue_toDigits]
    split
    · exact .inr ⟨rfl, by omega⟩
    · exact .inl ⟨by simp, by omega⟩
  simp only [Decimal.exponential, Decimal.mantissa]
  split
  · rename_i none
    exact absurd none digits.1
  · rename_i first one
    refine ⟨[first], [], _, _, ?_, one ▸ digits, by simp, power,
      size_of_digits d.coefficient ?_ ?_⟩
    · simp [Decimal.sign]
    · rw [List.append_nil, ← one, spelled]
    · rw [Decimal.size, lead, one]
      simp
  · rename_i first others single more
    have written : others ≠ [] := by
      rintro rfl
      exact single rfl
    refine ⟨[first], others, _, _, ?_, ⟨by simp, ?_⟩, ?_, power,
      size_of_digits d.coefficient ?_ ?_⟩
    · rw [Decimal.sign, if_neg written]
      simp
    · simpa using digits.2 first (by simp [more])
    · exact fun c listed => digits.2 c (by simp [more, listed])
    · rw [List.singleton_append, ← more, spelled]
    · rw [Decimal.size, lead, more, List.length_cons]
      congr 2
      push_cast
      ring

/-- A decimal is written as a text that denotes it. -/
theorem denotes_jsonNotation (d : Decimal)
    : Denotes d.jsonNotation d.negative d.size := by
  unfold Decimal.jsonNotation
  split
  · exact denotes_positional d
  · exact denotes_exponential d

end Protobuf.Json
