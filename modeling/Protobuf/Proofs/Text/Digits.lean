import Mathlib.Data.List.Induction
import Protobuf.Text.Digits

/-! Decimal digits and the numbers that they spell: those of a width, and those of a number without
padding.
-/

namespace Protobuf.Text

theorem toList_toString_nat (n : Nat)
    : (toString n).toList = Nat.toDigits 10 n := by
  rw [Nat.toString_eq_ofList_toDigits, String.toList_ofList]

theorem decimalValue_toDigits (n : Nat)
    : decimalValue (Nat.toDigits 10 n) = n :=
  Nat.ofDigitChars_ten_toDigits

theorem digitChar_facts (n : Nat)
    : (digitChar n).isDigit ∧ (digitChar n).toNat = 48 + n % 10 := by
  have digits : ∀ n < 10, (Char.ofNat (48 + n)).isDigit ∧ (Char.ofNat (48 + n)).toNat = 48 + n := by
    decide
  exact digits (n % 10) (Nat.mod_lt _ (by decide))

theorem length_paddedDigits (width n : Nat)
    : (paddedDigits width n).length = width := by
  induction width generalizing n with
  | zero => rfl
  | succ width ih => simp [paddedDigits, ih]

theorem isDigit_of_mem_paddedDigits {width n : Nat} {c : Char} (listed : c ∈ paddedDigits width n)
    : c.isDigit := by
  induction width generalizing n with
  | zero => cases listed
  | succ width ih =>
      rcases List.mem_append.mp listed with front | last
      · exact ih front
      · rw [List.mem_singleton.mp last]
        exact (digitChar_facts n).1

theorem decimalValue_append (digits : List Char) (c : Char)
    : decimalValue (digits ++ [c]) = 10 * decimalValue digits + (c.toNat - 48) := by
  simp only [decimalValue, List.foldl_append, List.foldl_cons, List.foldl_nil]

/-- The lowest digits of a number spell it if there are enough of them. -/
theorem decimalValue_paddedDigits {width n : Nat} (small : n < 10 ^ width)
    : decimalValue (paddedDigits width n) = n := by
  induction width generalizing n with
  | zero =>
      rw [Nat.pow_zero, Nat.lt_one_iff] at small
      rw [small]
      rfl
  | succ width ih =>
      have front : n / 10 < 10 ^ width := by
        rw [Nat.pow_succ] at small
        omega
      rw [paddedDigits, decimalValue_append, ih front, (digitChar_facts n).2]
      omega

/-- Padded digits are taken off the front as their number. -/
theorem takeDigits_paddedDigits {width n : Nat} (small : n < 10 ^ width) (rest : List Char)
    : takeDigits width (paddedDigits width n ++ rest) = some (n, rest) := by
  have length := length_paddedDigits width n
  have digits : (paddedDigits width n).all Char.isDigit :=
    List.all_eq_true.mpr fun _ listed => isDigit_of_mem_paddedDigits listed
  simp only [takeDigits, List.take_left' length, List.drop_left' length, length, digits, true_and,
    if_true, decimalValue_paddedDigits small]

theorem expectChar_cons (c : Char) (rest : List Char)
    : expectChar c (c :: rest) = some rest :=
  if_pos rfl

theorem eq_of_expectChar {c : Char} {text rest : List Char} (h : expectChar c text = some rest)
    : text = c :: rest := by
  cases text with
  | nil => cases h
  | cons d others =>
      rw [expectChar] at h
      split at h
      · rename_i same
        cases h
        rw [same]
      · cases h

theorem toNat_le_of_isDigit {c : Char} (digit : c.isDigit)
    : 48 ≤ c.toNat ∧ c.toNat ≤ 57 :=
  Char.isDigit_iff_toNat.mp digit

/-- Digits spell a number of as many places, by induction from the last one. -/
theorem decimalValue_lt {digits : List Char} (legal : ∀ c ∈ digits, c.isDigit)
    : decimalValue digits < 10 ^ digits.length := by
  induction digits using List.reverseRecOn with
  | nil => exact Nat.one_pos
  | append_singleton digits c ih =>
      have front := ih fun d listed => legal d (List.mem_append_left _ listed)
      have last := toNat_le_of_isDigit (legal c (by simp))
      rw [decimalValue_append, List.length_append, List.length_singleton, Nat.pow_succ]
      omega

/-- Digits are those of the number that they spell, padded to their places. -/
theorem paddedDigits_decimalValue {digits : List Char} (legal : ∀ c ∈ digits, c.isDigit)
    : paddedDigits digits.length (decimalValue digits) = digits := by
  induction digits using List.reverseRecOn with
  | nil => rfl
  | append_singleton digits c ih =>
      have front := ih fun d listed => legal d (List.mem_append_left _ listed)
      have last := toNat_le_of_isDigit (legal c (by simp))
      have quotient : (10 * decimalValue digits + (c.toNat - 48)) / 10
        = decimalValue digits := by omega
      have rest : (10 * decimalValue digits + (c.toNat - 48)) % 10 = c.toNat - 48 := by omega
      rw [decimalValue_append, List.length_append, List.length_singleton, paddedDigits, quotient,
        front, digitChar, rest, Nat.add_sub_cancel' last.1, Char.ofNat_toNat]

theorem toDigits_of_isDigit {c : Char} (digit : c.isDigit)
    : Nat.toDigits 10 (c.toNat - 48) = [c] := by
  have range := toNat_le_of_isDigit digit
  rw [Nat.toDigits_of_lt_base (by omega), List.singleton_inj, ← Char.toNat_inj,
    Nat.toNat_digitChar_of_lt_ten (by omega)]
  omega

/-- Digits without a leading zero are those of the number that they spell, by induction from the
last one.
-/
theorem toDigits_decimalValue {digits : List Char} (written : digits ≠ [])
    (legal : ∀ c ∈ digits, c.isDigit) (first : digits.head? ≠ some '0')
    : Nat.toDigits 10 (decimalValue digits) = digits := by
  induction digits using List.reverseRecOn with
  | nil => exact absurd rfl written
  | append_singleton digits c ih =>
      have last := legal c (by simp)
      rw [decimalValue_append]
      cases digits with
      | nil => exact (congrArg _ (Nat.zero_add _)).trans (toDigits_of_isDigit last)
      | cons d digits =>
          have front := ih (by simp) (fun e listed => legal e (List.mem_append_left _ listed)) first
          have positive : 0 < decimalValue (d :: digits) := by
            rw [Nat.pos_iff_ne_zero]
            intro zero
            rw [zero] at front
            cases front
            exact first rfl
          have range := toNat_le_of_isDigit last
          rw [← Nat.toDigits_append_toDigits (by decide) positive (by omega), front,
            toDigits_of_isDigit last]

/-- What was taken off the front are the padded digits of the number. -/
theorem eq_of_takeDigits {width n : Nat} {text rest : List Char}
    (h : takeDigits width text = some (n, rest))
    : n < 10 ^ width ∧ text = paddedDigits width n ++ rest := by
  unfold takeDigits at h
  dsimp only at h
  split at h
  · rename_i legal
    obtain ⟨length, digits⟩ := legal
    cases h
    have legal := List.all_eq_true.mp digits
    have bound := decimalValue_lt legal
    have same := paddedDigits_decimalValue legal
    rw [length] at bound same
    exact ⟨bound, by rw [same, List.take_append_drop]⟩
  · cases h

end Protobuf.Text
