import Protobuf.Proofs.Json.FloatText

/-! Integers are read from number texts.  Digits alone count for what they denote; a text with a
fraction or an exponent counts for the nearest `double` to what it denotes, so that a text that
denotes an integer can be read as another, and one that denotes none as an integer.
-/

namespace Protobuf.Json

open Number Text

-----------------------------------------------------------------------------------------
-- Integers of a float
-----------------------------------------------------------------------------------------

theorem signed_intCast (negative : Bool) (n : Nat)
    : signed negative n = (((if negative then -(n : Int) else n) : Int) : ℚ) := by
  cases negative <;> simp [signed]

theorem signed_inj {negative : Bool} {a b : ℚ}
    : signed negative a = signed negative b ↔ a = b := by
  cases negative <;> simp [signed]

theorem natAbs_of_eq_signed {n : Int} {negative : Bool} {size : ℚ} (nonneg : 0 ≤ size)
    (same : (n : ℚ) = signed negative size)
    : (n.natAbs : ℚ) = size := by
  rw [Nat.cast_natAbs, Int.cast_abs, same]
  cases negative <;> simp [signed, nonneg]

/-- The integer that a float is, if its number is an integer. -/
theorem integerOfFloat?_eq_some (negative : Bool) (mantissa : Nat) (exponent : Int) (n : Int)
    : integerOfFloat? negative mantissa exponent = some n
      ↔ (n : ℚ) = signed negative (mantissa * 2 ^ exponent) := by
  rcases le_or_gt 0 exponent with above | below
  · obtain ⟨shift, rfl⟩ := Int.eq_ofNat_of_zero_le above
    have number : (mantissa * 2 ^ (shift : Int) : ℚ) = (mantissa * 2 ^ shift : Nat) := by
      rw [zpow_natCast]
      push_cast
      rfl
    rw [integerOfFloat?, if_pos above, number, signed_intCast, Int.cast_inj]
    exact Option.some_inj.trans eq_comm
  · obtain ⟨shift, rfl⟩ : ∃ shift : Nat, exponent = -(shift : Int) := ⟨(-exponent).toNat, by omega⟩
    have shifted : (-(-(shift : Int))).toNat = shift := by omega
    have power : (0 : ℚ) < 2 ^ shift := by positivity
    have number : (mantissa * 2 ^ (-(shift : Int)) : ℚ) = mantissa / 2 ^ shift := by
      rw [zpow_neg, zpow_natCast, div_eq_mul_inv]
    have whole := Nat.div_add_mod mantissa (2 ^ shift)
    rw [integerOfFloat?, if_neg (Int.not_le.mpr below), shifted, number]
    by_cases divides : mantissa % 2 ^ shift = 0
    · rw [if_pos divides]
      have quotient : (mantissa / 2 ^ shift : ℚ) = (mantissa / 2 ^ shift : Nat) := by
        rw [div_eq_iff power.ne']
        rw [divides, Nat.add_zero, Nat.mul_comm] at whole
        exact_mod_cast whole.symm
      rw [quotient, signed_intCast, Int.cast_inj]
      exact Option.some_inj.trans eq_comm
    · rw [if_neg divides]
      refine iff_of_false nofun fun same => divides ?_
      have size := natAbs_of_eq_signed (by positivity) same
      rw [eq_div_iff power.ne'] at size
      have size : n.natAbs * 2 ^ shift = mantissa := by exact_mod_cast size
      rw [← size, Nat.mul_mod_left]

-----------------------------------------------------------------------------------------
-- What a text counts for
-----------------------------------------------------------------------------------------

/-- The text has a point or an exponent mark. -/
def HasMark (text : List Char) : Prop :=
  text.any fun c => c == '.' || c == 'e' || c == 'E'

instance (text : List Char) : Decidable (HasMark text) :=
  inferInstanceAs (Decidable (_ = _))

/-- Digits alone are read exactly. -/
theorem integerOfText_digits {text : String} (legal : IsNumeral text.toList) {negative : Bool}
    {size : ℚ} (denotes : Denotes text.toList negative size) (plain : ¬ HasMark text.toList)
    : ∃ n : Int, Reader.integerOfText text = .ok n ∧ (n : ℚ) = signed negative size := by
  have number := isNumber_of_isNumeral legal
  obtain ⟨whole, fraction, exponent, power, spelled, digits, decimals, powered, rfl⟩ := denotes
  have unmarked : ∀ c ∈ text.toList, c ≠ '.' ∧ c ≠ 'e' ∧ c ≠ 'E' := by
    simpa [HasMark, and_assoc] using plain
  obtain rfl : fraction = [] := by
    by_contra written
    exact (unmarked '.' (by simp [spelled, written])).1 rfl
  obtain ⟨rfl, rfl⟩ : exponent = [] ∧ power = 0 := by
    rcases powered with none | ⟨mark, sign, places, rfl, marked, -⟩
    · exact none
    · have other := unmarked mark (by simp [spelled])
      simp only [List.mem_cons, List.not_mem_nil, or_false] at marked
      rcases marked with rfl | rfl
      · exact absurd rfl other.2.1
      · exact absurd rfl other.2.2
  have decimal : decimalOfNumber text.toList = ⟨negative, decimalValue (whole ++ []), 0 - 0⟩ := by
    rw [spelled]
    exact decimalOfNumber_parts digits decimals powered
  have unmarked : text.toList.any (fun c => c == '.' || c == 'e' || c == 'E') = false := by
    simpa [HasMark] using plain
  refine ⟨if negative then -(decimalValue whole : Int) else decimalValue whole, ?_, ?_⟩
  · simp only [Reader.integerOfText, number, decimal, unmarked, Bool.not_true, Bool.false_eq_true,
      if_false, List.append_nil]
  · rw [← signed_intCast]
    congr 1
    simp [decimalValue]

theorem two_pow_le_infinity
    : (2 : ℚ) ^ 64 ≤ double.real double.infinity := by
  have parts : double.magnitude double.infinity = (2 ^ 52, 972) := by decide
  have power : (2 : ℚ) ^ (12 : Int) ≤ 2 ^ (972 : Int) :=
    zpow_le_zpow_right₀ (by norm_num) (by norm_num)
  rw [double.real_eq_magnitude, parts]
  calc (2 : ℚ) ^ 64
      = (2 ^ 52 : Nat) * 2 ^ (12 : Int) := by norm_num
    _ ≤ (2 ^ 52 : Nat) * 2 ^ (972 : Int) := mul_le_mul_of_nonneg_left power (by positivity)

/-- A text with a fraction or an exponent is read as the nearest `double`, if it is an integer of
less than 64 bits.
-/
theorem integerOfText_marked {text : String} (legal : IsNumeral text.toList) {negative : Bool}
    {size : ℚ} (denotes : Denotes text.toList negative size) (marked : HasMark text.toList)
    {magnitude : Nat} (nearest : double.IsNearest size magnitude)
    : match Reader.integerOfText text with
      | .ok n => (n : ℚ) = signed negative (double.real magnitude)
      | .error _ => ∀ n : Int, (n : ℚ) = signed negative (double.real magnitude)
          → 2 ^ 64 ≤ n.natAbs := by
  have number := isNumber_of_isNumeral legal
  have marks : text.toList.any (fun c => c == '.' || c == 'e' || c == 'E') = true := marked
  obtain ⟨sign, value⟩ := decimalOfNumber_of_denotes denotes
  have read := Decimal.isNearest_toMagnitude isModerate_double (decimalOfNumber text.toList)
  rw [value] at read
  have bits : (decimalOfNumber text.toList).toBits double
    = signedBits double negative magnitude := by
    rw [Decimal.toBits, sign, read.unique nearest, signedBits]
  simp only [Reader.integerOfText, number, marks, bits, Bool.not_true, Bool.false_eq_true, if_false,
    if_true]
  rcases Nat.lt_or_eq_of_le nearest.bounded with finite | rfl
  · rw [value_signedBits negative finite]
    have integer := integerOfFloat?_eq_some negative (double.magnitude magnitude).1
      (double.magnitude magnitude).2
    rw [← double.real_eq_magnitude] at integer
    simp only
    cases found : integerOfFloat? negative (double.magnitude magnitude).1
      (double.magnitude magnitude).2 with
    | none =>
        intro n same
        cases found.symm.trans ((integer n).mpr same)
    | some n =>
        have same := (integer n).mp found
        by_cases large : 2 ^ 64 ≤ n.natAbs
        · simp only [if_pos large]
          intro m other
          rwa [Int.cast_injective (other.trans same.symm)]
        · simp only [if_neg large]
          exact same
  · have infinite : double.value (signedBits double negative double.infinity)
      = .infinite negative := by
      cases negative <;> decide
    rw [infinite]
    intro n same
    have large := two_pow_le_infinity
    rw [← natAbs_of_eq_signed (le_trans (by positivity) large) same] at large
    exact_mod_cast large

/-- The size that a text counts for where an integer is read: the one it denotes if it is digits
alone, and the nearest `double` to that otherwise.
-/
def countedSize (text : List Char) (size : ℚ) (magnitude : Nat) : ℚ :=
  if HasMark text then double.real magnitude else size

/-- A text is read as the integer it counts for, unless that has more than 64 bits. -/
theorem integerOfText_counted {text : String} (legal : IsNumeral text.toList) {negative : Bool}
    {size : ℚ} (denotes : Denotes text.toList negative size) {magnitude : Nat}
    (nearest : double.IsNearest size magnitude)
    : match Reader.integerOfText text with
      | .ok n => (n : ℚ) = signed negative (countedSize text.toList size magnitude)
      | .error _ => ∀ n : Int, (n : ℚ) = signed negative (countedSize text.toList size magnitude)
          → 2 ^ 64 ≤ n.natAbs := by
  by_cases marked : HasMark text.toList
  · simp only [countedSize, if_pos marked]
    exact integerOfText_marked legal denotes marked nearest
  · obtain ⟨n, read, same⟩ := integerOfText_digits legal denotes marked
    simp only [read, countedSize, if_neg marked]
    exact same

-----------------------------------------------------------------------------------------
-- Readers of integers
-----------------------------------------------------------------------------------------

/-- The types of integers. -/
inductive IntegerType where
  | int32
  | int64
  | uint32
  | uint64
deriving DecidableEq, Repr

namespace IntegerType

/-- The name of the type in errors. -/
def name : IntegerType → String
  | int32 => "int32"
  | int64 => "int64"
  | uint32 => "uint32"
  | uint64 => "uint64"

/-- The least integer of the type. -/
def low : IntegerType → Int
  | int32 => -2 ^ 31
  | int64 => -2 ^ 63
  | uint32 | uint64 => 0

/-- The greatest integer of the type. -/
def high : IntegerType → Int
  | int32 => 2 ^ 31 - 1
  | int64 => 2 ^ 63 - 1
  | uint32 => 2 ^ 32 - 1
  | uint64 => 2 ^ 64 - 1

/-- The reader of the type, with its results as integers. -/
def read : IntegerType → Reader → Int × Reader
  | int32, r => (r.int32.1.toInt, r.int32.2)
  | int64, r => (r.int64.1.toInt, r.int64.2)
  | uint32, r => (r.uint32.1.toNat, r.uint32.2)
  | uint64, r => (r.uint64.1.toNat, r.uint64.2)

/-- A number is an integer of the type. -/
def Holds (t : IntegerType) (q : ℚ) : Prop :=
  ∃ n : Int, (n : ℚ) = q ∧ t.low ≤ n ∧ n ≤ t.high

/-- A value that stands for a number is read as the integer that the number is, if it is one of the
type, and refused otherwise.
-/
def ReadsAs (t : IntegerType) (tree : Node) (q : ℚ) : Prop :=
  (∀ n : Int, (n : ℚ) = q → t.low ≤ n → n ≤ t.high → Reads t.read tree n)
    ∧ (¬ t.Holds q → ∃ refusal, Rejects t.read tree 0 (.invalidValue t.name refusal))

theorem integer_bounds (t : IntegerType) (r : Reader)
    : t.low ≤ (r.integer t.name t.low t.high).1 ∧ (r.integer t.name t.low t.high).1 ≤ t.high := by
  have zero : t.low ≤ 0 ∧ 0 ≤ t.high := by cases t <;> decide
  unfold Reader.integer
  split
  · exact zero
  · split
    · exact zero
    · split
      · assumption
      · exact zero

/-- All types are read in the same way. -/
theorem read_eq (t : IntegerType) (r : Reader)
    : t.read r = r.integer t.name t.low t.high := by
  obtain ⟨low, high⟩ := t.integer_bounds r
  cases t with
  | int32 => exact Prod.ext (Int32.toInt_ofInt_of_le low (Int.lt_of_le_sub_one high)) rfl
  | int64 => exact Prod.ext (Int64.toInt_ofInt_of_le low (Int.lt_of_le_sub_one high)) rfl
  | uint32 =>
      have bound := (Int.toNat_lt low).mpr (Int.lt_of_le_sub_one high)
      exact Prod.ext ((congrArg Int.ofNat (UInt32.toNat_ofNat_of_lt' bound)).trans
        (Int.toNat_of_nonneg low)) rfl
  | uint64 =>
      have bound := (Int.toNat_lt low).mpr (Int.lt_of_le_sub_one high)
      exact Prod.ext ((congrArg Int.ofNat (UInt64.toNat_ofNat_of_lt' bound)).trans
        (Int.toNat_of_nonneg low)) rfl

/-- What is read as two numbers at once is both, or neither of them is an integer of the type. -/
theorem ReadsAs.agree {t : IntegerType} {tree : Node} {p q : ℚ} (first : t.ReadsAs tree p)
    : t.ReadsAs tree q ↔ p = q ∨ ¬ t.Holds p ∧ ¬ t.Holds q := by
  constructor
  · intro second
    by_cases held : t.Holds p
    · obtain ⟨n, rfl, low, high⟩ := held
      have read := first.1 n rfl low high
      by_cases held' : t.Holds q
      · obtain ⟨m, rfl, low', high'⟩ := held'
        exact .inl (congrArg Int.cast (read.unique (second.1 m rfl low' high')))
      · obtain ⟨refusal, rejected⟩ := second.2 held'
        exact absurd read rejected.not_reads
    · obtain ⟨refusal, rejected⟩ := first.2 held
      refine .inr ⟨held, fun held' => ?_⟩
      obtain ⟨m, rfl, low', high'⟩ := held'
      exact rejected.not_reads (second.1 m rfl low' high')
  · rintro (rfl | ⟨none, none'⟩)
    · exact first
    · exact ⟨fun n same low high => absurd ⟨n, same, low, high⟩ none', fun _ => first.2 none⟩

/-- A numeral, bare or in quotes, is read as the integer it counts for. -/
theorem readsAs_counted (t : IntegerType) {v : Numeral} {tree : Node}
    (spelled : tree = .number v ∨ tree = .string (String.ofList v.text))
    {negative : Bool} {size : ℚ} (denotes : Denotes v.text negative size) {magnitude : Nat}
    (nearest : double.IsNearest size magnitude)
    : t.ReadsAs tree (signed negative (countedSize v.text size magnitude)) := by
  have text : Reads (fun r => r.numericText t.name) tree (some (String.ofList v.text)) := by
    rcases spelled with rfl | rfl
    · exact reads_numericText_number t.name v
    · exact reads_numericText_string t.name _
  have list : (String.ofList v.text).toList = v.text := String.toList_ofList
  have legal : IsNumeral (String.ofList v.text).toList := list.symm ▸ v.legal
  have counted := integerOfText_counted legal (list.symm ▸ denotes) nearest
  rw [list] at counted
  generalize signed negative (countedSize v.text size magnitude) = q at counted ⊢
  cases read : Reader.integerOfText (String.ofList v.text) with
  | error refusal =>
      rw [read] at counted
      refine ⟨fun n same low high => ?_, fun _ => ⟨refusal, fun r more faces => ?_⟩⟩
      · have large := counted n same
        cases t <;> simp only [IntegerType.low, IntegerType.high] at low high <;> omega
      · rw [read_eq]
        simp only [Reader.integer, text r more faces, read]
        rfl
  | ok m =>
      rw [read] at counted
      have integer (r : Reader) (more : List UInt8) (faces : r.Faces tree more)
          : t.read r = if t.low ≤ m ∧ m ≤ t.high then (m, r.behind more [])
            else (0, (r.behind more []).latch
              (.invalidValue t.name (.outOfRange (String.ofList v.text)))) := by
        rw [read_eq]
        simp only [Reader.integer, text r more faces, read]
        rfl
      refine ⟨fun n same low high r more faces => ?_,
        fun none => ⟨.outOfRange (String.ofList v.text), fun r more faces => ?_⟩⟩
      · obtain rfl : m = n := Int.cast_injective (counted.trans same.symm)
        rw [integer r more faces, if_pos ⟨low, high⟩]
      · rw [integer r more faces, if_neg fun inside => none ⟨m, counted, inside⟩]

end IntegerType

/-- An integer is read from a numeral, or the numeral refused, as its value asks for exactly if it
has no fraction or exponent, or its value is that of a `double`, or it is refused for both values.
-/
theorem integers_read_exactly_iff (t : IntegerType) {v : Numeral} {tree : Node}
    (spelled : tree = .number v ∨ tree = .string (String.ofList v.text))
    {negative : Bool} {size : ℚ} (denotes : Denotes v.text negative size) {magnitude : Nat}
    (nearest : double.IsNearest size magnitude)
    : t.ReadsAs tree (signed negative size)
      ↔ ¬ HasMark v.text ∨ double.real magnitude = size
        ∨ ¬ t.Holds (signed negative (double.real magnitude))
          ∧ ¬ t.Holds (signed negative size) := by
  rw [(t.readsAs_counted spelled denotes nearest).agree, countedSize]
  by_cases marked : HasMark v.text
  · rw [if_pos marked, signed_inj]
    simp [marked]
  · rw [if_neg marked]
    simp [marked]

theorem integers_read_fifteen
    : ∃ v : Numeral, v.text = "15.0".toList ∧ Denotes v.text false 15
      ∧ double.IsNearest 15 0x402e000000000000 ∧ IntegerType.int64.ReadsAs (.number v) 15 := by
  obtain ⟨legal, denotes⟩ := denotes_point (show IsWhole ['1', '5'] by decide)
    (show IsDigits ['0'] by decide)
  have size : (decimalValue ['1', '5'] + decimalValue ['0'] / 10 ^ ['0'].length : ℚ) = 15 := by
    norm_num [show decimalValue ['1', '5'] = 15 by decide, show decimalValue ['0'] = 0 by decide]
  rw [size] at denotes
  have number : double.real 0x402e000000000000 = 15 := by
    have parts : double.magnitude 0x402e000000000000 = (15 * 2 ^ 49, -49) := by decide
    rw [double.real_eq_magnitude, parts]
    norm_num
  have nearest : double.IsNearest 15 0x402e000000000000 :=
    number ▸ double.isNearest_real (by decide)
  have read : IntegerType.int64.ReadsAs (.number ⟨_, legal⟩) (signed false 15) :=
    (integers_read_exactly_iff .int64 (.inl rfl) denotes nearest).mpr (.inr (.inl number))
  exact ⟨⟨_, legal⟩, rfl, denotes, nearest, read⟩

/-- One integer is read as another, a fraction as an integer, and an integer of the type is refused.
-/
theorem integers_are_rounded
    : let read (t : IntegerType) (text : String) := t.read (Reader.ofBytes (utf8 text) none)
      (IsNumeral "9007199254740993.0".toList
        ∧ Denotes "9007199254740993.0".toList false 9007199254740993
        ∧ (read .int64 "9007199254740993.0").1 = 9007199254740992
        ∧ (read .int64 "9007199254740993.0").2.fault = none)
      ∧ (IsNumeral "1.00000000000000001".toList
        ∧ Denotes "1.00000000000000001".toList false (1 + 1 / 10 ^ 17)
        ∧ (read .int32 "1.00000000000000001").1 = 1
        ∧ (read .int32 "1.00000000000000001").2.fault = none)
      ∧ IsNumeral "18446744073709551615.0".toList
        ∧ Denotes "18446744073709551615.0".toList false 18446744073709551615
        ∧ (read .uint64 "18446744073709551615.0").2.fault.isSome := by
  have integer := denotes_point (show IsWhole "9007199254740993".toList by decide)
    (show IsDigits ['0'] by decide)
  have part := denotes_point (show IsWhole ['1'] by decide)
    (show IsDigits "00000000000000001".toList by decide)
  have greatest := denotes_point (show IsWhole "18446744073709551615".toList by decide)
    (show IsDigits ['0'] by decide)
  rw [show decimalValue "9007199254740993".toList = 9007199254740993 by decide] at integer
  rw [show decimalValue "18446744073709551615".toList = 18446744073709551615 by decide] at greatest
  rw [show decimalValue ['1'] = 1 by decide,
    show decimalValue "00000000000000001".toList = 1 by decide,
    show "00000000000000001".toList.length = 17 by decide] at part
  norm_num [show decimalValue ['0'] = 0 by decide] at integer greatest
  refine ⟨⟨integer.1, integer.2, by decide +kernel⟩, ⟨part.1, ?_, by decide +kernel⟩, greatest.1,
    greatest.2, by decide +kernel⟩
  exact_mod_cast part.2

end Protobuf.Json
