import Protobuf.Proofs.Json.Extent
import Protobuf.Proofs.Json.Lexemes
import Protobuf.Proofs.Text.Utf8

/-! String literals and the code units that they denote.  A literal may hold a surrogate that
belongs to no pair.  Then it denotes no text, and it is refused for the first such surrogate; in
other cases it is read as its text, however the characters are spelled.
-/

namespace Protobuf.Json

open Text

-----------------------------------------------------------------------------------------
-- Characters and escapes
-----------------------------------------------------------------------------------------

/-- Bytes that stand for themselves are collected, by induction on them. -/
theorem stringBytes_plain {bytes : List UInt8} (plain : ∀ b ∈ bytes, b ≠ 34 ∧ b ≠ 92 ∧ ¬b < 32)
    (scanned more : List UInt8)
    : Scanner.stringBytes scanned (bytes ++ more)
        = Scanner.stringBytes (bytes.reverse ++ scanned) more := by
  induction bytes generalizing scanned with
  | nil => rfl
  | cons b bytes ih =>
      obtain ⟨⟨quote, backslash, printable⟩, others⟩ := List.forall_mem_cons.mp plain
      rw [List.cons_append, Scanner.stringBytes, if_neg quote, if_neg backslash, if_neg printable,
        ih others]
      simp

theorem stringBytes_escape {bytes decoded more : List UInt8}
    (h : Scanner.escape bytes = .ok decoded more) (scanned : List UInt8)
    : Scanner.stringBytes scanned (92 :: bytes)
        = Scanner.stringBytes (decoded.reverse ++ scanned) more := by
  rw [Scanner.stringBytes, if_neg (by decide), if_pos rfl, h]
  exact if_pos (Scanner.suffixes_escape.of_ok h).length_le

theorem plain_utf8EncodeChar {c : Char} (printable : 32 ≤ c.toNat) (quote : c ≠ '"')
    (backslash : c ≠ '\\')
    : ∀ b ∈ String.utf8EncodeChar c, b ≠ 34 ∧ b ≠ 92 ∧ ¬b < 32 := by
  intro b listed
  by_cases ascii : c.toNat < 128
  · rw [utf8EncodeChar_of_lt ascii, List.mem_singleton] at listed
    have value : b.toNat = c.toNat := by
      rw [listed, UInt8.toNat_ofNat']
      omega
    have other {d : Char} (different : c ≠ d) : c.toNat ≠ d.toNat :=
      fun same => different (Char.toNat_inj.mp same)
    have quote : c.toNat ≠ 34 := other quote
    have backslash : c.toNat ≠ 92 := other backslash
    refine ⟨?_, ?_, ?_⟩
    · rintro rfl
      exact quote value.symm
    · rintro rfl
      exact backslash value.symm
    · rw [UInt8.lt_iff_toNat_lt]
      exact Nat.not_lt.mpr (value ▸ printable)
  · have large := le_of_mem_utf8EncodeChar (Nat.le_of_not_lt ascii) listed
    refine ⟨?_, ?_, ?_⟩
    · rintro rfl
      exact absurd large (by decide)
    · rintro rfl
      exact absurd large (by decide)
    · rw [UInt8.lt_iff_toNat_lt]
      exact Nat.not_lt.mpr (Nat.le_trans (by decide) large)

/-- The letters behind a backslash are read as what they stand for. -/
theorem escape_short {letter c : Char} (listed : (letter, c) ∈ shortEscapes) (more : List UInt8)
    : Scanner.escape (String.utf8EncodeChar letter ++ more)
        = .ok (String.utf8EncodeChar c) more := by
  simp only [shortEscapes, List.mem_cons, Prod.mk.injEq, List.not_mem_nil, or_false] at listed
  rcases listed with ⟨rfl, rfl⟩ | ⟨rfl, rfl⟩ | ⟨rfl, rfl⟩ | ⟨rfl, rfl⟩ | ⟨rfl, rfl⟩ | ⟨rfl, rfl⟩
    | ⟨rfl, rfl⟩ | ⟨rfl, rfl⟩ <;> rfl

theorem hex4?_append {digits : List UInt8} {n : Nat} (length : digits.length = 4)
    (unsigned : digits.head? ≠ some 43) (value : hexValues? digits = some n) (more : List UInt8)
    : hex4? (digits ++ more) = some (n, more) := by
  have front : (digits ++ more).take 4 = digits := by rw [← length, List.take_left]
  have behind : (digits ++ more).drop 4 = more := by rw [← length, List.drop_left]
  simp only [hex4?, front, behind, length, ↓reduceIte]
  split
  · exact absurd rfl unsigned
  · rw [value, Option.map_some]

/-- A hexadecimal digit is the byte of a digit of the same value. -/
theorem hexValue?_of_digit {c : Char} {n : Nat} (h : hexDigitValue? c = some n)
    : String.utf8EncodeChar c = [UInt8.ofNat c.toNat] ∧ UInt8.ofNat c.toNat ≠ 43
      ∧ hexValue? (UInt8.ofNat c.toNat) = some n := by
  have codes : ∀ m < 128, (hexDigitValue? (Char.ofNat m)).isSome
      → UInt8.ofNat m ≠ 43 ∧ hexValue? (UInt8.ofNat m) = hexDigitValue? (Char.ofNat m) := by decide
  have small : c.toNat < 128 := by
    have le (d : Char) (most : c ≤ d) : c.toNat ≤ d.toNat := most
    unfold hexDigitValue? at h
    repeat' split at h
    · exact Nat.lt_of_le_of_lt (le '9' (And.right ‹_›)) (by decide)
    · exact Nat.lt_of_le_of_lt (le 'f' (And.right ‹_›)) (by decide)
    · exact Nat.lt_of_le_of_lt (le 'F' (And.right ‹_›)) (by decide)
    · cases h
  have digit := codes c.toNat small
  rw [Char.ofNat_toNat, h] at digit
  exact ⟨utf8EncodeChar_of_lt small, digit rfl⟩

/-- Four hexadecimal digits are read as the number that they spell. -/
theorem hex4?_codeUnit {digits : List Char} {n : Nat} (code : codeUnit? digits = some n)
    (more : List UInt8)
    : hex4? (digits.flatMap String.utf8EncodeChar ++ more) = some (n, more) := by
  match digits, code with
  | [a, b, c, d], code =>
      simp only [codeUnit?, Option.bind_eq_bind, Option.bind_eq_some_iff, Option.pure_def,
        Option.some.injEq] at code
      obtain ⟨x, first, y, second, z, third, w, fourth, rfl⟩ := code
      obtain ⟨a', unsigned, x'⟩ := hexValue?_of_digit first
      obtain ⟨b', -, y'⟩ := hexValue?_of_digit second
      obtain ⟨c', -, z'⟩ := hexValue?_of_digit third
      obtain ⟨d', -, w'⟩ := hexValue?_of_digit fourth
      simp only [List.flatMap_cons, List.flatMap_nil, a', b', c', d', List.append_nil,
        List.singleton_append]
      have first' : [UInt8.ofNat a.toNat, UInt8.ofNat b.toNat, UInt8.ofNat c.toNat,
          UInt8.ofNat d.toNat].head? ≠ some 43 :=
        fun sign => unsigned (Option.some.inj sign)
      refine hex4?_append rfl first' ?_ more
      simp only [hexValues?, List.mapM_cons, List.mapM_nil, x', y', z', w', Option.pure_def,
        Option.bind_eq_bind, Option.bind_some, Option.map_some, List.foldl_cons, List.foldl_nil,
        Option.some.injEq]
      omega

/-- The escape of a code goes by the letter that it begins with. -/
theorem escape_u (bytes : List UInt8)
    : Scanner.escape (117 :: bytes)
        = match Scanner.unicodeEscape bytes with
          | .ok c rest => .ok (utf8 (String.singleton c)) rest
          | .error fault rest => .error fault rest :=
  rfl

theorem escape_of_unicodeEscape {c : Char} {bytes more : List UInt8}
    (h : Scanner.unicodeEscape bytes = .ok c more)
    : Scanner.escape (117 :: bytes) = .ok (String.utf8EncodeChar c) more := by
  rw [escape_u, h]
  simp [utf8_eq_flatMap]

-----------------------------------------------------------------------------------------
-- Code units
-----------------------------------------------------------------------------------------

/-- The code units of a character. -/
def utf16 (c : Char) : List Nat :=
  if c.toNat < 0x10000 then [c.toNat]
  else [0xd800 + (c.toNat - 0x10000) / 0x400, 0xdc00 + (c.toNat - 0x10000) % 0x400]

/-- The text that code units spell, or why they spell none. -/
def textOfUnits : List Nat → Except SyntaxFault (List Char)
  | [] => .ok []
  | u :: units =>
      if 0xd800 ≤ u ∧ u < 0xdc00 then
        match units with
        | [] => .error .invalidSurrogatePair
        | v :: units =>
            if 0xdc00 ≤ v ∧ v < 0xe000 then
              (textOfUnits units).map
                (Char.ofNat (0x10000 + (u - 0xd800) * 1024 + (v - 0xdc00)) :: ·)
            else .error .invalidSurrogatePair
      else match charOfCode? u with
        | none => .error .invalidUnicodeEscape
        | some c => (textOfUnits units).map (c :: ·)

theorem charOfCode?_toNat (c : Char)
    : charOfCode? c.toNat = some c := by
  rw [charOfCode?, if_pos (show c.toNat.isValidChar from c.valid), Char.ofNat_toNat]

theorem toNat_ofNat_of_valid {n : Nat} (valid : n.isValidChar)
    : (Char.ofNat n).toNat = n := by
  rw [Char.ofNat, dif_pos valid]
  rfl

theorem toNat_of_charOfCode? {code : Nat} {c : Char} (h : charOfCode? code = some c)
    : c.toNat = code := by
  unfold charOfCode? at h
  split at h <;> cases h
  exact toNat_ofNat_of_valid ‹_›

/-- No character is a surrogate. -/
theorem not_surrogate (c : Char)
    : ¬(0xd800 ≤ c.toNat ∧ c.toNat < 0xe000) := by
  rcases c.valid with small | ⟨large, _⟩
  · exact fun half => absurd half.1 (Nat.not_le.mpr small)
  · exact fun half => absurd half.2 (Nat.not_lt.mpr large)

theorem textOfUnits_toNat (c : Char) (units : List Nat)
    : textOfUnits (c.toNat :: units) = (textOfUnits units).map (c :: ·) := by
  have other := not_surrogate c
  rw [textOfUnits.eq_def]
  simp only
  rw [if_neg (by omega), charOfCode?_toNat]

theorem textOfUnits_utf16 (c : Char) (units : List Nat)
    : textOfUnits (utf16 c ++ units) = (textOfUnits units).map (c :: ·) := by
  have bound : c.toNat < 0x110000 := by
    rcases c.valid with small | ⟨_, large⟩
    · exact Nat.lt_trans small (by decide)
    · exact large
  unfold utf16
  split
  · exact textOfUnits_toNat c units
  · have whole : 0x10000 + (0xd800 + (c.toNat - 0x10000) / 0x400 - 0xd800) * 1024
        + (0xdc00 + (c.toNat - 0x10000) % 0x400 - 0xdc00) = c.toNat := by omega
    simp only [List.cons_append, List.nil_append]
    rw [textOfUnits.eq_def]
    simp only
    rw [if_pos (by omega), if_pos (by omega), whole, Char.ofNat_toNat]

/-- The first code unit of a character is not the second half of a pair. -/
theorem head?_utf16 (c : Char)
    : ∃ u units, utf16 c = u :: units ∧ ¬(0xdc00 ≤ u ∧ u < 0xe000) := by
  have other := not_surrogate c
  have bound : c.toNat < 0x110000 := by
    rcases c.valid with small | ⟨_, large⟩
    · exact Nat.lt_trans small (by decide)
    · exact large
  unfold utf16
  split
  · exact ⟨_, _, rfl, by omega⟩
  · exact ⟨_, _, rfl, by omega⟩

theorem hexDigitValue?_lt {c : Char} {n : Nat} (h : hexDigitValue? c = some n)
    : n < 16 := by
  have le (d : Char) (most : c ≤ d) : c.toNat ≤ d.toNat := most
  unfold hexDigitValue? at h
  repeat' split at h
  · cases h
    exact Nat.lt_of_le_of_lt (Nat.sub_le_sub_right (le '9' (And.right ‹_›)) 48) (by decide)
  · cases h
    exact Nat.lt_of_le_of_lt (Nat.sub_le_sub_right (le 'f' (And.right ‹_›)) 87) (by decide)
  · cases h
    exact Nat.lt_of_le_of_lt (Nat.sub_le_sub_right (le 'F' (And.right ‹_›)) 55) (by decide)
  · cases h

theorem codeUnit?_lt {digits : List Char} {u : Nat} (code : codeUnit? digits = some u)
    : u < 0x10000 := by
  match digits, code with
  | [a, b, c, d], code =>
      simp only [codeUnit?, Option.bind_eq_bind, Option.bind_eq_some_iff, Option.pure_def,
        Option.some.injEq] at code
      obtain ⟨x, first, y, second, z, third, w, fourth, rfl⟩ := code
      have x' := hexDigitValue?_lt first
      have y' := hexDigitValue?_lt second
      have z' := hexDigitValue?_lt third
      have w' := hexDigitValue?_lt fourth
      omega

-----------------------------------------------------------------------------------------
-- Literals
-----------------------------------------------------------------------------------------

/-- What stands between the quotes of a string literal, for the code units that it denotes. -/
inductive WideQuoted : List Nat → List Char → Prop
  | nil : WideQuoted [] []
  /-- Quotes, backslashes and control characters do not stand for themselves. -/
  | plain {c : Char} {units : List Nat} {body : List Char} (printable : 0x20 ≤ c.toNat)
    (quote : c ≠ '"') (backslash : c ≠ '\\') (behind : WideQuoted units body)
    : WideQuoted (utf16 c ++ units) (c :: body)
  | short {letter c : Char} {units : List Nat} {body : List Char}
    (escape : (letter, c) ∈ shortEscapes) (behind : WideQuoted units body)
    : WideQuoted (c.toNat :: units) ('\\' :: letter :: body)
  | unit {u : Nat} {digits body : List Char} {units : List Nat} (code : codeUnit? digits = some u)
    (behind : WideQuoted units body)
    : WideQuoted (u :: units) ('\\' :: 'u' :: (digits ++ body))

/-- A string literal with its quotes. -/
def IsWideLiteral (units : List Nat) (spelling : List Char) : Prop :=
  ∃ body, WideQuoted units body ∧ spelling = '"' :: (body ++ ['"'])

/-- What denotes a text denotes its code units. -/
theorem Quoted.wide {text body : List Char} (h : Quoted text body)
    : WideQuoted (text.flatMap utf16) body := by
  induction h with
  | nil => exact .nil
  | plain printable quote backslash _ ih => exact .plain printable quote backslash ih
  | @short letter c text body escape _ ih =>
      have small : c.toNat < 0x10000 := by
        have codes : ∀ e ∈ shortEscapes, e.2.toNat < 0x10000 := by decide
        exact codes _ escape
      rw [List.flatMap_cons, utf16, if_pos small]
      exact .short escape ih
  | @unit c digits text body code _ ih =>
      rw [List.flatMap_cons, utf16, if_pos (codeUnit?_lt code)]
      exact .unit code ih
  | @pair c first second text body high low left leftHalf right rightHalf code _ ih =>
      have units : utf16 c = [0xd800 + high, 0xdc00 + low] := by
        have quotient : (c.toNat - 0x10000) / 0x400 = high := by omega
        have remainder : (c.toNat - 0x10000) % 0x400 = low := by omega
        rw [utf16, if_neg (by omega), quotient, remainder]
      rw [List.flatMap_cons, units]
      exact .unit left (.unit right ih)

theorem IsLiteral.wide {text : String} {spelling : List Char} (h : IsLiteral text spelling)
    : IsWideLiteral (text.toList.flatMap utf16) spelling := by
  obtain ⟨body, quoted, same⟩ := h
  exact ⟨body, quoted.wide, same⟩

-----------------------------------------------------------------------------------------
-- Scanning literals
-----------------------------------------------------------------------------------------

/-- A string was scanned to its text, or refused. -/
def Yields (text : Except SyntaxFault (List Char)) (scanned more : List UInt8)
    (result : EStateM.Result SyntaxFault (List UInt8) (List UInt8)) : Prop :=
  match text with
  | .ok text => result = .ok (scanned.reverse ++ text.flatMap String.utf8EncodeChar) more
  | .error fault => ∃ rest, result = .error fault rest

theorem Yields.cons {text : Except SyntaxFault (List Char)} {scanned more : List UInt8}
    {result : EStateM.Result SyntaxFault (List UInt8) (List UInt8)} {c : Char}
    (h : Yields text ((String.utf8EncodeChar c).reverse ++ scanned) more result)
    : Yields (text.map (c :: ·)) scanned more result := by
  cases text with
  | error fault => exact h
  | ok text =>
      refine Eq.trans (show result = _ from h) ?_
      simp

theorem lowSurrogate_of_head? {bytes : List UInt8} (other : bytes.head? ≠ some 92)
    : Scanner.lowSurrogate bytes = .error .invalidSurrogatePair bytes := by
  unfold Scanner.lowSurrogate
  split
  · exact absurd rfl other
  · rfl

/-- No other escape is taken for that of a second half. -/
theorem lowSurrogate_short {letter c : Char} (listed : (letter, c) ∈ shortEscapes)
    (more : List UInt8)
    : Scanner.lowSurrogate (92 :: (String.utf8EncodeChar letter ++ more))
        = .error .invalidSurrogatePair (92 :: (String.utf8EncodeChar letter ++ more)) := by
  simp only [shortEscapes, List.mem_cons, Prod.mk.injEq, List.not_mem_nil, or_false] at listed
  rcases listed with ⟨rfl, rfl⟩ | ⟨rfl, rfl⟩ | ⟨rfl, rfl⟩ | ⟨rfl, rfl⟩ | ⟨rfl, rfl⟩ | ⟨rfl, rfl⟩
    | ⟨rfl, rfl⟩ | ⟨rfl, rfl⟩ <;> rfl

theorem stringBytes_refused {bytes rest : List UInt8} {fault : SyntaxFault}
    (h : Scanner.unicodeEscape bytes = .error fault rest) (scanned : List UInt8)
    : Scanner.stringBytes scanned (92 :: 117 :: bytes) = .error fault rest := by
  have escape : Scanner.escape (117 :: bytes) = .error fault rest := by
    rw [escape_u, h]
  rw [Scanner.stringBytes, if_neg (by decide), if_pos rfl, escape]

theorem stringBytes_unicodeEscape {bytes rest : List UInt8} {c : Char}
    (h : Scanner.unicodeEscape bytes = .ok c rest) (scanned : List UInt8)
    : Scanner.stringBytes scanned (92 :: 117 :: bytes)
        = Scanner.stringBytes ((String.utf8EncodeChar c).reverse ++ scanned) rest :=
  stringBytes_escape (escape_of_unicodeEscape h) scanned

/-- The second half of a pair is looked for behind the first one. -/
theorem unicodeEscape_half {u : Nat} {digits : List Char} (code : codeUnit? digits = some u)
    (high : 0xd800 ≤ u ∧ u < 0xdc00) {bytes rest : List UInt8}
    (missing : Scanner.lowSurrogate bytes = .error .invalidSurrogatePair rest)
    : Scanner.unicodeEscape (digits.flatMap String.utf8EncodeChar ++ bytes)
        = .error .invalidSurrogatePair rest := by
  rw [Scanner.unicodeEscape, hex4?_codeUnit code]
  simp only
  rw [if_pos high, missing]

/-- The first half of a pair is refused if no escape of a second half is behind it. -/
theorem yields_of_missing {u : Nat} {digits : List Char} (code : codeUnit? digits = some u)
    (high : 0xd800 ≤ u ∧ u < 0xdc00) {units : List Nat}
    (single : ∀ v ∈ units.head?, ¬(0xdc00 ≤ v ∧ v < 0xe000)) {bytes rest : List UInt8}
    (missing : Scanner.lowSurrogate bytes = .error .invalidSurrogatePair rest)
    (scanned more : List UInt8)
    : Yields (textOfUnits (u :: units)) scanned more
        (Scanner.stringBytes scanned
          (92 :: 117 :: (digits.flatMap String.utf8EncodeChar ++ bytes))) := by
  have refused : textOfUnits (u :: units) = .error .invalidSurrogatePair := by
    rw [textOfUnits.eq_def]
    simp only
    rw [if_pos high]
    cases units with
    | nil => rfl
    | cons v units => exact if_neg (single v rfl)
  rw [refused]
  exact ⟨rest, stringBytes_refused (unicodeEscape_half code high missing) scanned⟩

/-- Two halves of a pair are one character. -/
theorem stringBytes_pair {u v : Nat} {first second : List Char} (left : codeUnit? first = some u)
    (high : 0xd800 ≤ u ∧ u < 0xdc00) (right : codeUnit? second = some v)
    (low : 0xdc00 ≤ v ∧ v < 0xe000) (scanned bytes : List UInt8)
    : Scanner.stringBytes scanned (92 :: 117 :: (first.flatMap String.utf8EncodeChar
          ++ 92 :: 117 :: (second.flatMap String.utf8EncodeChar ++ bytes)))
        = Scanner.stringBytes ((String.utf8EncodeChar (Char.ofNat (0x10000 + (u - 0xd800) * 1024
          + (v - 0xdc00)))).reverse ++ scanned) bytes := by
  refine stringBytes_unicodeEscape ?_ scanned
  have found : Scanner.lowSurrogate (92 :: 117 :: (second.flatMap String.utf8EncodeChar ++ bytes))
      = .ok v bytes := by
    rw [Scanner.lowSurrogate, hex4?_codeUnit right]
    exact if_pos low
  rw [Scanner.unicodeEscape, hex4?_codeUnit left]
  simp only
  rw [if_pos high, found]

/-- What stands between the quotes of a literal is scanned to the text that its code units spell, or
refused if they spell none: by induction on its length, since the halves of a pair are taken
together.
-/
theorem stringBytes_wide {units : List Nat} {body : List Char} (h : WideQuoted units body)
    (scanned more : List UInt8)
    : Yields (textOfUnits units) scanned more
        (Scanner.stringBytes scanned (body.flatMap String.utf8EncodeChar ++ 34 :: more)) := by
  have backslash : String.utf8EncodeChar '\\' = [92] := rfl
  have mark : String.utf8EncodeChar 'u' = [117] := rfl
  induction length : body.length using Nat.strongRecOn generalizing units body scanned with
  | ind n ih =>
      cases h with
      | nil =>
          change Scanner.stringBytes scanned (34 :: more) = _
          rw [Scanner.stringBytes, if_pos rfl, List.flatMap_nil, List.append_nil]
      | @plain c units body printable quote other behind =>
          rw [textOfUnits_utf16, List.flatMap_cons, List.append_assoc,
            stringBytes_plain (plain_utf8EncodeChar printable quote other)]
          exact (ih _ (by rw [← length]; exact Nat.lt_succ_self _) behind _ rfl).cons
      | @short letter c units body listed behind =>
          have read := escape_short listed (body.flatMap String.utf8EncodeChar ++ 34 :: more)
          simp only [textOfUnits_toNat, List.flatMap_cons, backslash, List.cons_append,
            List.nil_append, List.append_assoc]
          rw [stringBytes_escape read]
          exact (ih _ (by simp at length; omega) behind _ rfl).cons
      | @unit u digits body units code behind =>
          simp only [List.flatMap_cons, List.flatMap_append, backslash, mark, List.cons_append,
            List.nil_append, List.append_assoc]
          -- The first half of a pair asks for the second one behind it.
          by_cases high : 0xd800 ≤ u ∧ u < 0xdc00
          · cases behind with
            | nil => exact yields_of_missing code high (by simp) rfl scanned more
            | @plain c units body printable quote other behind =>
                obtain ⟨v, others, first, single⟩ := head?_utf16 c
                have plain := plain_utf8EncodeChar printable quote other
                obtain ⟨b, bytes, encoded⟩ := List.exists_cons_of_ne_nil
                  (String.utf8EncodeChar_ne_nil (c := c))
                refine yields_of_missing code high ?_ (lowSurrogate_of_head? ?_) scanned more
                · rw [first]
                  rintro _ ⟨⟩
                  exact single
                · rw [List.flatMap_cons, encoded]
                  rintro ⟨⟩
                  exact (plain 92 (by rw [encoded]; exact List.mem_cons_self)).2.1 rfl
            | @short letter c units body listed behind =>
                have codes : ∀ e ∈ shortEscapes,
                  ¬(0xdc00 ≤ e.2.toNat ∧ e.2.toNat < 0xe000) := by decide
                simp only [List.flatMap_cons, backslash, List.cons_append, List.nil_append,
                  List.append_assoc]
                refine yields_of_missing code high ?_ (lowSurrogate_short listed _) scanned more
                rintro _ ⟨⟩
                exact codes _ listed
            | @unit v second body units code' behind =>
                simp only [List.flatMap_cons, List.flatMap_append, backslash, mark,
                  List.cons_append, List.nil_append, List.append_assoc]
                by_cases low : 0xdc00 ≤ v ∧ v < 0xe000
                · rw [textOfUnits.eq_def]
                  simp only
                  rw [if_pos high, if_pos low, stringBytes_pair code high code' low]
                  exact (ih _ (by simp at length; omega) behind _ rfl).cons
                · have single : ∀ w ∈ (v :: units).head?, ¬(0xdc00 ≤ w ∧ w < 0xe000) := by
                    rintro _ ⟨⟩
                    exact low
                  have missing : Scanner.lowSurrogate
                    (92 :: 117 :: (second.flatMap String.utf8EncodeChar
                      ++ (body.flatMap String.utf8EncodeChar ++ 34 :: more)))
                      = .error .invalidSurrogatePair
                        (body.flatMap String.utf8EncodeChar ++ 34 :: more) := by
                    rw [Scanner.lowSurrogate, hex4?_codeUnit code']
                    exact if_neg low
                  exact yields_of_missing code high single missing scanned more
          · rw [textOfUnits.eq_def]
            simp only
            rw [if_neg high]
            cases known : charOfCode? u with
            | none =>
                refine ⟨body.flatMap String.utf8EncodeChar ++ 34 :: more,
                  stringBytes_refused ?_ scanned⟩
                rw [Scanner.unicodeEscape, hex4?_codeUnit code]
                simp only
                rw [if_neg high, known]
            | some c =>
                have read : Scanner.unicodeEscape (digits.flatMap String.utf8EncodeChar
                    ++ (body.flatMap String.utf8EncodeChar ++ 34 :: more))
                    = .ok c (body.flatMap String.utf8EncodeChar ++ 34 :: more) := by
                  rw [Scanner.unicodeEscape, hex4?_codeUnit code]
                  simp only
                  rw [if_neg high, known]
                rw [stringBytes_unicodeEscape read]
                exact (ih _ (by simp at length; omega) behind _ rfl).cons

/-- A literal is read as the text that its code units spell, or refused if they spell none. -/
theorem string_of_isWideLiteral {units : List Nat} {spelling : List Char}
    (h : IsWideLiteral units spelling) (more : List UInt8)
    : match textOfUnits units with
      | .ok text =>
          Scanner.string (utf8 (String.ofList spelling) ++ more) = .ok (String.ofList text) more
      | .error fault =>
          ∃ rest, Scanner.string (utf8 (String.ofList spelling) ++ more) = .error fault rest := by
  obtain ⟨body, quoted, rfl⟩ := h
  have quote : String.utf8EncodeChar '"' = [34] := rfl
  have bytes : utf8 (String.ofList ('"' :: (body ++ ['"']))) ++ more
      = 34 :: (body.flatMap String.utf8EncodeChar ++ 34 :: more) := by
    rw [utf8_ofList, List.flatMap_cons, List.flatMap_append, quote, List.flatMap_singleton, quote]
    simp
  have read := stringBytes_wide quoted [] more
  rw [bytes]
  cases denoted : textOfUnits units with
  | error fault =>
      rw [denoted] at read
      obtain ⟨rest, read⟩ := read
      exact ⟨rest, by rw [Scanner.string, List.tail_cons, read]⟩
  | ok text =>
      rw [denoted] at read
      have read : Scanner.stringBytes [] (body.flatMap String.utf8EncodeChar ++ 34 :: more)
          = .ok (utf8 (String.ofList text)) more := by
        rw [utf8_ofList]
        exact read
      simp only [Scanner.string, List.tail_cons, read, ofUtf8?_utf8]

theorem textOfUnits_flatMap_utf16 (text : List Char)
    : textOfUnits (text.flatMap utf16) = .ok text := by
  induction text with
  | nil => rfl
  | cons c text ih =>
      rw [List.flatMap_cons, textOfUnits_utf16, ih]
      rfl

/-- A string literal is read as its text, whatever stands behind it. -/
theorem string_of_isLiteral {text : String} {spelling : List Char} (h : IsLiteral text spelling)
    (more : List UInt8)
    : Scanner.string (utf8 (String.ofList spelling) ++ more) = .ok text more := by
  have read := string_of_isWideLiteral h.wide more
  rw [textOfUnits_flatMap_utf16] at read
  simpa only [String.ofList_toList] using read

theorem string_stringLiteral (text : String) (more : List UInt8)
    : Scanner.string (utf8 (stringLiteral text) ++ more) = .ok text more := by
  have read := string_of_isLiteral (isLiteral_stringLiteral text) more
  rwa [String.ofList_toList] at read

end Protobuf.Json
