import Protobuf.Proofs.Json.Literals

/-! Scanning the tokens of the grammar.  A token is taken off the front of the bytes and what stands
behind it does not matter, apart from a number, which must not be followed by one of its own
characters.
-/

namespace Protobuf.Json

open Text

-----------------------------------------------------------------------------------------
-- Words
-----------------------------------------------------------------------------------------

theorem literal_utf8 (word : String) (more : List UInt8)
    : Scanner.literal word (utf8 word ++ more) = .ok () more := by
  simp [Scanner.literal]

-----------------------------------------------------------------------------------------
-- Numbers
-----------------------------------------------------------------------------------------

/-- The text does not go on with a digit. -/
def StopsDigits (more : List Char) : Prop :=
  ∀ c ∈ more.head?, ¬c.isDigit

theorem dropDigits?_append {digits more : List Char} (h : IsDigits digits)
    (stops : StopsDigits more)
    : dropDigits? (digits ++ more) = some more := by
  obtain ⟨c, others, rfl⟩ := List.exists_cons_of_ne_nil h.1
  obtain ⟨first, behind⟩ := List.forall_mem_cons.mp h.2
  rw [List.cons_append, dropDigits?, if_pos first, List.dropWhile_append_of_pos behind]
  cases more with
  | nil => rfl
  | cons d more => rw [List.dropWhile_cons_of_neg (stops d rfl)]

theorem dropWhole?_append {whole more : List Char} (h : IsWhole whole) (stops : StopsDigits more)
    : dropWhole? (whole ++ more) = some more := by
  rcases h with rfl | ⟨digits, first⟩
  · rfl
  · rw [← dropDigits?_append digits stops]
    obtain ⟨c, others, rfl⟩ := List.exists_cons_of_ne_nil digits.1
    rw [List.cons_append, dropWhole?]
    rintro _ same
    cases same
    exact first rfl

theorem IsExponent.stops {exponent : List Char} (h : IsExponent exponent)
    : StopsDigits exponent ∧ exponent.head? ≠ some '.' := by
  rcases h with rfl | ⟨mark, sign, digits, rfl, marked, -, -⟩
  · exact ⟨by simp [StopsDigits], by simp⟩
  · simp only [List.mem_cons, List.not_mem_nil, or_false] at marked
    rcases marked with rfl | rfl
    · exact ⟨by simp [StopsDigits], by simp⟩
    · exact ⟨by simp [StopsDigits], by simp⟩

theorem IsFraction.stops {fraction more : List Char} (h : IsFraction fraction)
    (stops : StopsDigits more)
    : StopsDigits (fraction ++ more) := by
  rcases h with rfl | ⟨digits, rfl, -⟩
  · exact stops
  · simp [StopsDigits]

theorem dropFraction?_append {fraction more : List Char} (h : IsFraction fraction)
    (stops : StopsDigits more) (pointless : more.head? ≠ some '.')
    : dropFraction? (fraction ++ more) = some more := by
  rcases h with rfl | ⟨digits, rfl, legal⟩
  · rw [List.nil_append, dropFraction?]
    rintro _ rfl
    exact pointless rfl
  · exact dropDigits?_append legal stops

theorem dropExponent?_of_isExponent {exponent : List Char} (h : IsExponent exponent)
    : dropExponent? exponent = some [] := by
  rcases h with rfl | ⟨mark, sign, digits, rfl, marked, signed, legal⟩
  · rfl
  · have dropped : dropDigits? (dropSign (sign ++ digits)) = some [] := by
      have unsigned : dropSign (sign ++ digits) = digits := by
        simp only [List.mem_cons, List.not_mem_nil, or_false] at signed
        rcases signed with rfl | rfl | rfl
        · obtain ⟨c, others, rfl⟩ := List.exists_cons_of_ne_nil legal.1
          have digit := legal.2 c (by simp)
          rw [List.nil_append, dropSign]
          · rintro _ same
            cases same
            cases digit
          · rintro _ same
            cases same
            cases digit
        · rfl
        · rfl
      rw [unsigned]
      have whole := dropDigits?_append legal (show StopsDigits [] by simp [StopsDigits])
      rwa [List.append_nil] at whole
    simp only [List.mem_cons, List.not_mem_nil, or_false] at marked
    rcases marked with rfl | rfl <;> exact dropped

theorem isNumber_of_isNumeral {text : List Char} (h : IsNumeral text)
    : isNumber text := by
  obtain ⟨sign, whole, fraction, exponent, rfl, signed, digits, point, power⟩ := h
  have unsigned : dropMinus (sign ++ whole ++ fraction ++ exponent)
      = whole ++ (fraction ++ exponent) := by
    obtain ⟨c, others, rfl, digit⟩ := digits.exists_cons
    simp only [List.mem_cons, List.not_mem_nil, or_false] at signed
    rcases signed with rfl | rfl
    · simp only [List.nil_append, List.cons_append, List.append_assoc]
      rw [dropMinus]
      rintro _ same
      cases same
      cases digit
    · simp [dropMinus]
  rw [isNumber, unsigned, dropWhole?_append digits (point.stops power.stops.1), Option.bind_some,
    dropFraction?_append point power.stops.1 power.stops.2, Option.bind_some,
    dropExponent?_of_isExponent power]

/-- The characters of numbers. -/
def IsNumberChar (c : Char) : Prop :=
  c.isDigit ∨ c ∈ ['-', '+', '.', 'e', 'E']

instance (c : Char) : Decidable (IsNumberChar c) :=
  inferInstanceAs (Decidable (_ ∨ _))

theorem IsDigits.isNumberChar {digits : List Char} (h : IsDigits digits)
    : ∀ c ∈ digits, IsNumberChar c :=
  fun c listed => .inl (h.2 c listed)

theorem IsNumeral.isNumberChar {text : List Char} (h : IsNumeral text)
    : ∀ c ∈ text, IsNumberChar c := by
  obtain ⟨sign, whole, fraction, exponent, rfl, signed, digits, point, power⟩ := h
  have signs : ∀ sign ∈ [[], ['+'], ['-']], ∀ c ∈ sign, IsNumberChar c := by
    simp [IsNumberChar]
  have marks : ∀ mark ∈ ['e', 'E'], IsNumberChar mark := by
    simp [IsNumberChar]
  have inSign : ∀ c ∈ sign, IsNumberChar c := by
    have listed : [[], ['-']] ⊆ [[], ['+'], ['-']] := by decide
    exact signs sign (listed signed)
  have inWhole : ∀ c ∈ whole, IsNumberChar c := by
    rcases digits with rfl | ⟨digits, -⟩
    · simp [IsNumberChar]
    · exact digits.isNumberChar
  have inFraction : ∀ c ∈ fraction, IsNumberChar c := by
    rcases point with rfl | ⟨digits, rfl, legal⟩
    · simp
    · exact List.forall_mem_cons.mpr ⟨.inr (by simp), legal.isNumberChar⟩
  have inExponent : ∀ c ∈ exponent, IsNumberChar c := by
    rcases power with rfl | ⟨mark, sign, digits, rfl, marked, signed, legal⟩
    · simp
    · refine List.forall_mem_cons.mpr ⟨marks mark marked, fun c listed => ?_⟩
      exact (List.mem_append.mp listed).elim (signs sign signed c) (legal.isNumberChar c)
  simp only [List.mem_append]
  rintro c (((listed | listed) | listed) | listed)
  · exact inSign c listed
  · exact inWhole c listed
  · exact inFraction c listed
  · exact inExponent c listed

/-- The byte of a character of numbers is a byte of numbers. -/
theorem IsNumberChar.isNumberByte {c : Char} (h : IsNumberChar c)
    : c.toNat < 128 ∧ Json.isNumberByte (UInt8.ofNat c.toNat) := by
  rcases h with digit | listed
  · have digits : ∀ n < 58, 48 ≤ n → Json.isNumberByte (UInt8.ofNat n) := by decide
    rw [Char.isDigit_iff_toNat] at digit
    exact ⟨Nat.lt_of_le_of_lt digit.2 (by decide),
      digits c.toNat (Nat.lt_succ_of_le digit.2) digit.1⟩
  · have others : ['-', '+', '.', 'e', 'E'].all fun c =>
        c.toNat < 128 ∧ Json.isNumberByte (UInt8.ofNat c.toNat) := by decide
    exact of_decide_eq_true (List.all_eq_true.mp others c listed)

/-- The bytes of characters of numbers are bytes of numbers, and they lead back to the characters.
-/
theorem utf8_numberChars {text : List Char} (chars : ∀ c ∈ text, IsNumberChar c)
    : (∀ b ∈ utf8 (String.ofList text), isNumberByte b)
      ∧ asciiChars (utf8 (String.ofList text)) = text := by
  have bytes : utf8 (String.ofList text) = text.map fun c => UInt8.ofNat c.toNat := by
    rw [utf8_ofList, utf8_of_ascii fun c listed => (chars c listed).isNumberByte.1]
  rw [bytes]
  constructor
  · intro b byte
    obtain ⟨c, listed, rfl⟩ := List.mem_map.mp byte
    exact (chars c listed).isNumberByte.2
  · rw [asciiChars, List.map_map]
    refine (List.map_congr_left fun c listed => ?_).trans (List.map_id _)
    have small := (chars c listed).isNumberByte.1
    have value : (UInt8.ofNat c.toNat).toNat = c.toNat := by
      rw [UInt8.toNat_ofNat']
      omega
    rw [Function.comp_apply, value, Char.ofNat_toNat, id]

/-- Nothing, or what can stand behind a value: a comma or the end of a container. -/
def Ends (more : List UInt8) : Prop :=
  ∀ b ∈ more.head?, b ∈ [44, 93, 125]

theorem takeWhile_of_stops {bytes more : List UInt8} {p : UInt8 → Bool}
    (inside : ∀ b ∈ bytes, p b) (stops : ∀ b ∈ more.head?, ¬p b)
    : (bytes ++ more).takeWhile p = bytes ∧ (bytes ++ more).dropWhile p = more := by
  rw [List.takeWhile_append_of_pos inside, List.dropWhile_append_of_pos inside]
  cases more with
  | nil => simp
  | cons b more =>
      rw [List.takeWhile_cons_of_neg (stops b rfl), List.dropWhile_cons_of_neg (stops b rfl)]
      simp

/-- A number is read as it is spelled if it does not go on. -/
theorem number_of_stops (v : Numeral) {more : List UInt8}
    (stops : ∀ b ∈ more.head?, ¬isNumberByte b)
    : Scanner.number (utf8 (String.ofList v.text) ++ more) = .ok (String.ofList v.text) more := by
  obtain ⟨inside, text⟩ := utf8_numberChars v.legal.isNumberChar
  obtain ⟨front, behind⟩ := takeWhile_of_stops inside stops
  simp only [Scanner.number, front, behind, text]
  rw [if_pos (isNumber_of_isNumeral v.legal)]

theorem number_text (v : Numeral) {more : List UInt8} (ends : Ends more)
    : Scanner.number (utf8 (String.ofList v.text) ++ more) = .ok (String.ofList v.text) more := by
  have codes : ∀ b ∈ [44, 93, 125], ¬isNumberByte b := by
    simp only [List.forall_mem_cons, List.not_mem_nil, false_implies, implies_true]
    decide
  exact number_of_stops v fun b first => codes b (ends b first)

end Protobuf.Json
