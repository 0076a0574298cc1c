import Protobuf.Json.Reader
import Protobuf.Proofs.Json.Scanning

/-! Number tokens.  A text passes for a number exactly if the grammar has it.  The longest run of
the characters of numbers is scanned as a whole or not at all, so a malformed token is never cut
into a number and a rest.
-/

namespace Protobuf.Json

open FieldMask Text

-----------------------------------------------------------------------------------------
-- The grammar
-----------------------------------------------------------------------------------------

theorem exists_isDigits_of_dropDigits? {text rest : List Char} (h : dropDigits? text = some rest)
    : ∃ digits, text = digits ++ rest ∧ IsDigits digits := by
  unfold dropDigits? at h
  split at h
  · cases h
  · rename_i c others
    split at h
    · rename_i digit
      cases h
      refine ⟨c :: others.takeWhile Char.isDigit, ?_, by simp, List.forall_mem_cons.mpr ⟨digit, ?_⟩⟩
      · rw [List.cons_append, List.takeWhile_append_dropWhile]
      · exact fun d listed => List.mem_takeWhile_imp listed
    · cases h

/-- Digits that begin with a zero are not dropped beyond it. -/
theorem exists_isWhole_of_dropWhole? {text rest : List Char} (h : dropWhole? text = some rest)
    : ∃ whole, text = whole ++ rest ∧ IsWhole whole := by
  unfold dropWhole? at h
  split at h
  · cases h
    exact ⟨['0'], rfl, .inl rfl⟩
  · rename_i text other
    obtain ⟨digits, rfl, legal⟩ := exists_isDigits_of_dropDigits? h
    refine ⟨digits, rfl, .inr ⟨legal, ?_⟩⟩
    obtain ⟨c, others, rfl⟩ := List.exists_cons_of_ne_nil legal.1
    rintro ⟨⟩
    exact other (others ++ rest) rfl

theorem exists_isFraction_of_dropFraction? {text rest : List Char}
    (h : dropFraction? text = some rest)
    : ∃ fraction, text = fraction ++ rest ∧ IsFraction fraction := by
  unfold dropFraction? at h
  split at h
  · obtain ⟨digits, rfl, legal⟩ := exists_isDigits_of_dropDigits? h
    exact ⟨'.' :: digits, rfl, .inr ⟨digits, rfl, legal⟩⟩
  · cases h
    exact ⟨[], rfl, .inl rfl⟩

theorem exists_sign_dropSign (text : List Char)
    : ∃ sign, text = sign ++ dropSign text ∧ sign ∈ [[], ['+'], ['-']] := by
  unfold dropSign
  split
  · exact ⟨['+'], rfl, by simp⟩
  · exact ⟨['-'], rfl, by simp⟩
  · exact ⟨[], rfl, by simp⟩

theorem exists_sign_dropMinus (text : List Char)
    : ∃ sign, text = sign ++ dropMinus text ∧ sign ∈ [[], ['-']] := by
  unfold dropMinus
  split
  · exact ⟨['-'], rfl, by simp⟩
  · exact ⟨[], rfl, by simp⟩

theorem exists_isExponent_of_dropExponent? {text rest : List Char}
    (h : dropExponent? text = some rest)
    : ∃ exponent, text = exponent ++ rest ∧ IsExponent exponent := by
  have marked {mark : Char} {behind : List Char} (listed : mark ∈ ['e', 'E'])
      (dropped : dropDigits? (dropSign behind) = some rest)
      : ∃ exponent, mark :: behind = exponent ++ rest ∧ IsExponent exponent := by
    obtain ⟨sign, signed, legalSign⟩ := exists_sign_dropSign behind
    obtain ⟨digits, same, legal⟩ := exists_isDigits_of_dropDigits? dropped
    refine ⟨mark :: (sign ++ digits), ?_, .inr ⟨mark, sign, digits, rfl, listed, legalSign, legal⟩⟩
    rw [signed, same, List.cons_append, List.append_assoc]
  unfold dropExponent? at h
  split at h
  · exact marked (by simp) h
  · exact marked (by simp) h
  · cases h
    exact ⟨[], rfl, .inl rfl⟩

/-- A text passes for a number if the grammar has it. -/
theorem isNumber_iff {text : List Char}
    : isNumber text ↔ IsNumeral text := by
  refine ⟨fun h => ?_, isNumber_of_isNumeral⟩
  unfold isNumber at h
  split at h
  · rename_i dropped
    simp only [Option.bind_eq_some_iff] at dropped
    obtain ⟨behindFraction, ⟨behindWhole, whole, fraction⟩, exponent⟩ := dropped
    obtain ⟨sign, signed, legalSign⟩ := exists_sign_dropMinus text
    obtain ⟨ws, wholes, legalWhole⟩ := exists_isWhole_of_dropWhole? whole
    obtain ⟨fs, fractions, legalFraction⟩ := exists_isFraction_of_dropFraction? fraction
    obtain ⟨es, exponents, legalExponent⟩ := exists_isExponent_of_dropExponent? exponent
    refine ⟨sign, ws, fs, es, ?_, legalSign, legalWhole, legalFraction, legalExponent⟩
    rw [signed, wholes, fractions, exponents]
    simp only [List.append_assoc, List.append_nil]
  · cases h

-----------------------------------------------------------------------------------------
-- Runs
-----------------------------------------------------------------------------------------

/-- The run is the longest text of characters of numbers in front of the bytes, and the others stand
behind.
-/
structure IsLongestRun (run : List Char) (bytes behind : List UInt8) : Prop where
  split : bytes = utf8 (String.ofList run) ++ behind
  inside : ∀ c ∈ run, IsNumberChar c
  longest : ∀ other more, bytes = utf8 (String.ofList other) ++ more → (∀ c ∈ other, IsNumberChar c)
    → other.length ≤ run.length

/-- A byte of numbers stands for a character of numbers. -/
theorem isNumberChar_of_byte {b : UInt8} (h : isNumberByte b)
    : IsNumberChar (Char.ofNat b.toNat) ∧ UInt8.ofNat (Char.ofNat b.toNat).toNat = b := by
  have code : (Char.ofNat b.toNat).toNat = b.toNat :=
    toNat_ofNat_of_lt (Nat.lt_trans b.toNat_lt (by decide))
  refine ⟨?_, by rw [code, UInt8.ofNat_toNat]⟩
  simp only [isNumberByte, Bool.or_eq_true, Bool.and_eq_true, decide_eq_true_eq, beq_iff_eq] at h
  rcases h with ((((digit | rfl) | rfl) | rfl) | rfl) | rfl
  · refine .inl (Char.isDigit_iff_toNat.mpr ?_)
    rw [code]
    exact digit
  all_goals exact .inr (by decide)

theorem utf8_of_bytes {bytes : List UInt8} (inside : ∀ b ∈ bytes, isNumberByte b)
    : utf8 (String.ofList (asciiChars bytes)) = bytes ∧ ∀ c ∈ asciiChars bytes, IsNumberChar c := by
  have chars : ∀ c ∈ asciiChars bytes, IsNumberChar c := by
    intro c listed
    obtain ⟨b, byte, rfl⟩ := List.mem_map.mp listed
    exact (isNumberChar_of_byte (inside b byte)).1
  refine ⟨?_, chars⟩
  rw [utf8_ofList, utf8_of_ascii fun c listed => (chars c listed).isNumberByte.1,
    asciiChars, List.map_map]
  exact (List.map_congr_left fun b byte => (isNumberChar_of_byte (inside b byte)).2).trans
    (List.map_id _)

theorem length_utf8_numberChars {text : List Char} (chars : ∀ c ∈ text, IsNumberChar c)
    : (utf8 (String.ofList text)).length = text.length := by
  have same := congrArg List.length (utf8_numberChars chars).2
  rwa [asciiChars, List.length_map] at same

/-- A run that does not go on is the longest. -/
theorem isLongestRun_append {run : List Char} {behind : List UInt8}
    (inside : ∀ c ∈ run, IsNumberChar c) (stops : ∀ b ∈ behind.head?, ¬isNumberByte b)
    : IsLongestRun run (utf8 (String.ofList run) ++ behind) behind := by
  refine ⟨rfl, inside, fun other more split legal => ?_⟩
  have front := (takeWhile_of_stops (utf8_numberChars inside).1 stops).1
  rw [split, List.takeWhile_append_of_pos (utf8_numberChars legal).1] at front
  rw [← length_utf8_numberChars inside, ← front, List.length_append, length_utf8_numberChars legal]
  exact Nat.le_add_right _ _

/-- Each document begins with a longest run, which may be empty. -/
theorem exists_longestRun (bytes : List UInt8)
    : ∃ run behind, IsLongestRun run bytes behind := by
  have inside : ∀ b ∈ bytes.takeWhile isNumberByte, isNumberByte b :=
    fun b listed => List.mem_takeWhile_imp listed
  obtain ⟨spelled, chars⟩ := utf8_of_bytes inside
  have stops : ∀ b ∈ (bytes.dropWhile isNumberByte).head?, ¬isNumberByte b := by
    intro b first
    have other := List.head?_dropWhile_not isNumberByte bytes
    rw [Option.mem_def.mp first] at other
    simpa using other
  have run := isLongestRun_append chars stops
  rw [spelled, List.takeWhile_append_dropWhile] at run
  exact ⟨_, _, run⟩

/-- A run that could go on is not the longest. -/
theorem IsLongestRun.stops {run : List Char} {bytes behind : List UInt8}
    (h : IsLongestRun run bytes behind)
    : ∀ b ∈ behind.head?, ¬isNumberByte b := by
  intro b first more
  obtain ⟨others, rfl⟩ := List.head?_eq_some_iff.mp first
  obtain ⟨spelled, char⟩ := utf8_of_bytes (List.forall_mem_singleton.mpr more)
  have longer := h.longest (run ++ asciiChars [b]) others ?_ ?_
  · rw [asciiChars, List.length_append, List.length_map, List.length_singleton] at longer
    exact Nat.not_succ_le_self _ longer
  · rw [h.split, String.ofList_append, utf8_append, spelled, List.append_assoc,
      List.singleton_append]
  · exact fun c listed => (List.mem_append.mp listed).elim (h.inside c) (char c)

/-- The longest run is scanned if it is a number, and otherwise nothing is. -/
theorem number_of_longestRun {run : List Char} {bytes behind : List UInt8}
    (h : IsLongestRun run bytes behind)
    : Scanner.number bytes
        = if isNumber run then .ok (String.ofList run) behind else .error .invalidNumber bytes := by
  obtain ⟨inside, text⟩ := utf8_numberChars h.inside
  obtain ⟨front, rest⟩ := takeWhile_of_stops inside h.stops
  rw [← h.split] at front rest
  simp only [Scanner.number, front, rest, text]

/-- Numbers are scanned as whole tokens.  A text passes for a number exactly if the grammar has it.
What stands in front of a reader is a longest run of characters of numbers and the rest behind it;
if the run is a number, it is returned and the reader stands behind it, and otherwise the reader
keeps a fault at its place and stays there.
-/
theorem numbers_are_whole_tokens
    : (∀ text, isNumber text ↔ IsNumeral text)
      ∧ (∀ bytes, ∃ run behind, IsLongestRun run bytes behind)
      ∧ ∀ (r : Reader) run behind, r.fault = none → IsLongestRun run r.rest behind
        → (IsNumeral run → r.scan Scanner.number
          = (some (String.ofList run), { r with rest := behind }))
          ∧ (¬IsNumeral run → r.scan Scanner.number
            = (none, { r with
                fault := some ⟨.unmarshal, r.path.dotted, .malformed r.position .invalidNumber⟩
                  })) := by
  refine ⟨fun text => isNumber_iff, exists_longestRun, fun r run behind sound h => ?_⟩
  rw [Reader.scan, number_of_longestRun h]
  refine ⟨fun legal => ?_, fun wrong => ?_⟩
  · rw [if_pos (isNumber_iff.mpr legal)]
  · rw [if_neg fun number => wrong (isNumber_iff.mp number)]
    simp only [Reader.malformed, Reader.latch, sound]
    rfl

/-- A number with all its parts is read up to the bracket behind it, and of two numbers that are
joined by a minus sign none is read.
-/
theorem numbers_are_whole_tokens_joined
    : let reader (text : String) := Reader.ofBytes (utf8 (text ++ "]")) none
      (IsLongestRun "-1.50e+3".toList (reader "-1.50e+3").rest (utf8 "]")
        ∧ IsNumeral "-1.50e+3".toList
        ∧ (reader "-1.50e+3").scan Scanner.number
          = (some "-1.50e+3", { reader "-1.50e+3" with rest := utf8 "]" }))
      ∧ IsLongestRun "1-2".toList (reader "1-2").rest (utf8 "]") ∧ ¬IsNumeral "1-2".toList
      ∧ (reader "1-2").scan Scanner.number
        = (none, { reader "1-2" with
            fault := some ⟨.unmarshal, Path.root.dotted,
              .malformed (reader "1-2").position .invalidNumber⟩ }) := by
  intro reader
  obtain ⟨grammar, -, tokens⟩ := numbers_are_whole_tokens
  have run (text : String) (chars : text.toList.all fun c => IsNumberChar c)
      : IsLongestRun text.toList (reader text).rest (utf8 "]") := by
    have inside : ∀ c ∈ text.toList, IsNumberChar c := by simpa using chars
    have longest := isLongestRun_append inside
      (show ∀ b ∈ (utf8 "]").head?, ¬isNumberByte b by decide +kernel)
    rwa [String.ofList_toList, ← utf8_append] at longest
  have legal : IsNumeral "-1.50e+3".toList := (grammar _).mp (by decide +kernel)
  have wrong : ¬IsNumeral "1-2".toList := (grammar _).not.mp (by decide +kernel)
  have number := run "-1.50e+3" (by decide +kernel)
  have joined := run "1-2" (by decide +kernel)
  have read := (tokens _ _ _ rfl number).1 legal
  rw [String.ofList_toList] at read
  exact ⟨⟨number, legal, read⟩, joined, wrong, (tokens _ _ _ rfl joined).2 wrong⟩

end Protobuf.Json
