import Protobuf.Proofs.Json.Lexemes

/-! The notation of floats in documents.  A text in scientific notation is taken apart at its
exponent mark and put together again with its point in another place.
-/

namespace Protobuf.Json

open Number Text

-----------------------------------------------------------------------------------------
-- Taking a text apart
-----------------------------------------------------------------------------------------

/-- A text is split at its first exponent mark, by induction on what stands in front of that. -/
theorem splitMark?_append {front : List Char} (unmarked : 'e' ∉ front) (behind : List Char)
    : splitMark? (front ++ 'e' :: behind) = some (front, behind) := by
  induction front with
  | nil => rfl
  | cons c front ih =>
      rw [List.mem_cons, not_or] at unmarked
      simp only [List.cons_append, splitMark?, if_neg (Ne.symm unmarked.1), ih unmarked.2]

/-- Only numbers of 32 bits are powers. -/
theorem int32OfNumeral?_int (n : Int)
    : int32OfNumeral? (toString n)
        = if -2 ^ 31 ≤ n ∧ n < 2 ^ 31 then some (Int32.ofInt n) else none := by
  rw [int32OfNumeral?, integerText?_int]

/-- The digits of a decimal, with a point behind the first of several. -/
structure DigitsOf (d : Decimal) (first : Char) (rest : List Char) : Prop where
  digits : d.digits = first :: rest
  mantissa : d.mantissa = first :: (if rest.isEmpty then [] else '.' :: rest)
  isDigit : ∀ c ∈ first :: rest, c.isDigit

theorem exists_digitsOf (d : Decimal)
    : ∃ first rest, DigitsOf d first rest := by
  have digits := isDigits_toDigits d.coefficient
  obtain ⟨first, rest, same⟩ := List.exists_cons_of_ne_nil digits.1
  refine ⟨first, rest, same, ?_, same ▸ digits.2⟩
  rw [Decimal.mantissa, show d.digits = first :: rest from same]
  cases rest <;> rfl

namespace DigitsOf

variable {d : Decimal} {first : Char} {rest : List Char}

theorem ne_of_mem (h : DigitsOf d first rest) {c other : Char} (listed : c ∈ d.mantissa)
    (letter : other.isDigit = false) (noPoint : other ≠ '.')
    : c ≠ other := by
  rintro rfl
  have digit (listed : c ∈ first :: rest) : False := by
    rw [h.isDigit c listed] at letter
    cases letter
  rw [h.mantissa, List.mem_cons] at listed
  rcases listed with rfl | listed
  · exact digit (List.mem_cons_self ..)
  · split at listed
    · cases listed
    · rcases List.mem_cons.mp listed with point | listed
      · exact noPoint point
      · exact digit (List.mem_cons_of_mem _ listed)

/-- Without the point there are the digits. -/
theorem filter_mantissa (h : DigitsOf d first rest)
    : d.mantissa.filter (· ≠ '.') = d.digits := by
  have kept : d.digits.filter (· ≠ '.') = d.digits := by
    refine List.filter_eq_self.mpr fun c listed => decide_eq_true ?_
    rintro rfl
    cases h.isDigit _ (h.digits ▸ listed)
  rw [← kept, h.digits, h.mantissa]
  cases rest with
  | nil => rfl
  | cons second rest =>
      -- The point is passed over by evaluation once the first digit is out of the way.
      change ([first] ++ '.' :: second :: rest).filter (· ≠ '.')
        = ([first] ++ second :: rest).filter (· ≠ '.')
      rw [List.filter_append, List.filter_append]
      rfl

theorem dropMinus_mantissa (h : DigitsOf d first rest)
    : dropMinus (d.sign ++ d.mantissa) = d.mantissa := by
  have digit : first ≠ '-' :=
    h.ne_of_mem (h.mantissa ▸ List.mem_cons_self ..) rfl (by decide)
  rw [Decimal.sign]
  split
  · rfl
  · rw [List.nil_append, h.mantissa, dropMinus]
    intro _ same
    exact digit (List.cons.inj same).1

theorem sign_eq (h : DigitsOf d first rest)
    : (if (d.sign ++ d.mantissa).head? = some '-' then ['-'] else []) = d.sign := by
  have digit : first ≠ '-' :=
    h.ne_of_mem (h.mantissa ▸ List.mem_cons_self ..) rfl (by decide)
  rw [Decimal.sign]
  split
  · rfl
  · rw [List.nil_append, h.mantissa, List.head?_cons, if_neg (by simpa using digit)]

/-- There is no exponent mark in the mantissa. -/
theorem unmarked (h : DigitsOf d first rest)
    : 'e' ∉ d.sign ++ d.mantissa := by
  intro marked
  rcases List.mem_append.mp marked with sign | mantissa
  · have minus := sign_of_decimal d
    simp only [List.mem_cons, List.not_mem_nil, or_false] at minus
    rcases minus with none | minus
    · rw [none] at sign
      cases sign
    · rw [minus] at sign
      cases List.mem_singleton.mp sign
  · exact h.ne_of_mem mantissa rfl (by decide) rfl

end DigitsOf

-----------------------------------------------------------------------------------------
-- Putting it together
-----------------------------------------------------------------------------------------

/-- A number in scientific notation is written in the notation of documents if its power has 32
bits, and stays as it is otherwise.
-/
theorem formatFloat_scientific (d : Decimal)
    : formatFloat d.scientific
        = some (if -2 ^ 31 ≤ d.leadingExponent ∧ d.leadingExponent < 2 ^ 31 then d.jsonNotation
          else d.scientific) := by
  obtain ⟨first, rest, parts⟩ := exists_digitsOf d
  rw [formatFloat, Decimal.scientific, splitMark?_append parts.unmarked]
  simp only [String.ofList_toList, int32OfNumeral?_int]
  by_cases inside : -2 ^ 31 ≤ d.leadingExponent ∧ d.leadingExponent < 2 ^ 31
  swap
  · rw [if_neg inside, if_neg inside]
  rw [if_pos inside, if_pos inside]
  simp only [Int32.toInt_ofInt_of_le inside.1 inside.2, parts.sign_eq, parts.dropMinus_mantissa,
    parts.filter_mantissa, Decimal.jsonNotation]
  by_cases moderate : -7 < d.leadingExponent ∧ d.leadingExponent < 21
  · rw [if_neg (not_not.mpr moderate), if_pos moderate, Decimal.positional, Decimal.pointAfter]
    split
    · have zeros : d.leadingExponent.natAbs = (-d.leadingExponent).toNat := by omega
      rw [zeros]
    · split
      · simp
      · simp
  · rw [if_pos moderate, if_neg moderate, Decimal.exponential, parts.digits, parts.mantissa]

/-- The text of a finite float is that of the decimal with the fewest digits. -/
theorem exists_shortest_of_finite {f : Format} {bits : Nat}
    (finite : specialText (f.value bits) = none)
    : ∃ negative mantissa exponent,
        formatFloat (shortest f negative mantissa exponent).scientific
          = some (floatText f bits).toList := by
  unfold floatText
  cases value : f.value bits with
  | finite negative mantissa exponent =>
      refine ⟨negative, mantissa, exponent, ?_⟩
      simp only [formatFloat_scientific, Option.getD_some, String.toList_ofList]
  | infinite negative =>
      rw [value] at finite
      cases negative <;> cases finite
  | notANumber =>
      rw [value] at finite
      cases finite

/-- The text of a finite float is a number of the grammar. -/
theorem isNumeral_floatText {f : Format} {bits : Nat} (finite : specialText (f.value bits) = none)
    : IsNumeral (floatText f bits).toList := by
  obtain ⟨negative, mantissa, exponent, text⟩ := exists_shortest_of_finite finite
  rw [formatFloat_scientific, Option.some.injEq] at text
  rw [← text]
  split
  · exact isNumeral_jsonNotation (normal_shortest f negative mantissa exponent)
  · exact isNumeral_scientific _

end Protobuf.Json
