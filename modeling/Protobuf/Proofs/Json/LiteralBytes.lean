import Protobuf.Proofs.Json.Literals

/-! Which bytes are read as a string literal.  The scanner takes the escapes apart byte by byte and
checks the text that comes out in the end, while the grammar goes character by character; both agree
except on the escapes of code units, whose digits may begin with a plus sign in place of a zero.
-/

namespace Protobuf.Json

open Text

-----------------------------------------------------------------------------------------
-- What is accepted
-----------------------------------------------------------------------------------------

/-- What is accepted between the quotes of a string literal, for the text that it is read as: all
that the grammar allows, and escapes with a plus sign in place of a first zero.
-/
inductive SignedQuoted : List Char → List Char → Prop
  | legal {text body : List Char} (h : Quoted text body) : SignedQuoted text body
  | signed {c : Char} {digits text body others behind : List Char} (front : Quoted text body)
    (code : codeUnit? ('0' :: digits) = some c.toNat) (rest : SignedQuoted others behind)
    : SignedQuoted (text ++ c :: others) (body ++ '\\' :: 'u' :: '+' :: (digits ++ behind))

/-- A string literal with its quotes, in which a plus sign may stand for the first zero of a code
unit.
-/
def IsSignedLiteral (text : String) (spelling : List Char) : Prop :=
  ∃ body, SignedQuoted text.toList body ∧ spelling = '"' :: (body ++ ['"'])

theorem Quoted.append {text body others behind : List Char} (h : Quoted text body)
    (rest : Quoted others behind)
    : Quoted (text ++ others) (body ++ behind) := by
  induction h with
  | nil => exact rest
  | plain printable quote backslash _ ih => exact .plain printable quote backslash ih
  | short escape _ ih => exact .short escape ih
  | unit code _ ih =>
      have piece := Quoted.unit code ih
      simpa only [List.cons_append, List.append_assoc] using piece
  | pair left leftHalf right rightHalf code _ ih =>
      have piece := Quoted.pair left leftHalf right rightHalf code ih
      simpa only [List.cons_append, List.append_assoc] using piece

/-- What the grammar allows may stand before what is accepted. -/
theorem SignedQuoted.behind {text body others behind : List Char}
    (rest : SignedQuoted others behind) (h : Quoted text body)
    : SignedQuoted (text ++ others) (body ++ behind) := by
  cases rest with
  | legal legal => exact .legal (h.append legal)
  | signed front code rest =>
      have piece := SignedQuoted.signed (h.append front) code rest
      simpa only [List.append_assoc] using piece

/-- Nothing else is accepted where no plus sign stands behind a backslash and a `u`. -/
theorem SignedQuoted.legal_or_sign {text body : List Char} (h : SignedQuoted text body)
    : Quoted text body ∨ [92, 117, 43] <:+: body.flatMap String.utf8EncodeChar := by
  cases h with
  | legal legal => exact .inl legal
  | @signed c digits text body others behind _ _ _ =>
      refine .inr ⟨body.flatMap String.utf8EncodeChar,
        (digits ++ behind).flatMap String.utf8EncodeChar, ?_⟩
      have sign : ['\\', 'u', '+'].flatMap String.utf8EncodeChar = [92, 117, 43] := rfl
      rw [← sign, ← List.flatMap_append, ← List.flatMap_append]
      simp

-----------------------------------------------------------------------------------------
-- Reading what is accepted
-----------------------------------------------------------------------------------------

/-- What the grammar allows is scanned to its text, whatever stands behind it. -/
theorem stringBytes_quoted {text body : List Char} (h : Quoted text body)
    (scanned more : List UInt8)
    : Scanner.stringBytes scanned (body.flatMap String.utf8EncodeChar ++ more)
        = Scanner.stringBytes ((text.flatMap String.utf8EncodeChar).reverse ++ scanned) more := by
  have backslash : String.utf8EncodeChar '\\' = [92] := rfl
  have mark : String.utf8EncodeChar 'u' = [117] := rfl
  induction h generalizing scanned with
  | nil => rfl
  | @plain c text body printable quote other _ ih =>
      rw [List.flatMap_cons, List.append_assoc,
        stringBytes_plain (plain_utf8EncodeChar printable quote other), ih]
      simp
  | @short letter c text body listed _ ih =>
      have read := escape_short listed (body.flatMap String.utf8EncodeChar ++ more)
      simp only [List.flatMap_cons, backslash, List.cons_append, List.nil_append, List.append_assoc]
      rw [stringBytes_escape read, ih]
      simp
  | @unit c digits text body code _ ih =>
      simp only [List.flatMap_cons, List.flatMap_append, backslash, mark, List.cons_append,
        List.nil_append, List.append_assoc]
      have other := not_surrogate c
      have read : Scanner.unicodeEscape (digits.flatMap String.utf8EncodeChar
          ++ (body.flatMap String.utf8EncodeChar ++ more))
          = .ok c (body.flatMap String.utf8EncodeChar ++ more) := by
        rw [Scanner.unicodeEscape, hex4?_codeUnit code]
        simp only
        rw [if_neg (by omega), charOfCode?_toNat]
      rw [stringBytes_unicodeEscape read, ih]
      simp
  | @pair c first second text body high low left leftHalf right rightHalf code _ ih =>
      simp only [List.flatMap_cons, List.flatMap_append, backslash, mark, List.cons_append,
        List.nil_append, List.append_assoc]
      have whole : 0x10000 + (0xd800 + high - 0xd800) * 1024 + (0xdc00 + low - 0xdc00)
        = c.toNat := by
        omega
      rw [stringBytes_pair left (by omega) right (by omega), whole, Char.ofNat_toNat, ih]
      simp

/-- A plus sign counts as a zero if it is the first of four digits. -/
theorem hex4?_plus (bytes : List UInt8)
    : hex4? (43 :: bytes) = hex4? (48 :: bytes) := by
  have zero (digits : List UInt8) : hexValues? (48 :: digits) = hexValues? digits := by
    have value : hexValue? 48 = some 0 := by decide
    simp only [hexValues?, List.mapM_cons, value, Option.bind_eq_bind, Option.bind_some,
      Option.pure_def, Option.map_bind]
    cases digits.mapM hexValue? <;> simp
  simp [hex4?, zero]

/-- An escape with a plus sign is scanned to the character of its code. -/
theorem stringBytes_signed {digits : List Char} {c : Char}
    (code : codeUnit? ('0' :: digits) = some c.toNat) (scanned more : List UInt8)
    : Scanner.stringBytes scanned
          (92 :: 117 :: 43 :: (digits.flatMap String.utf8EncodeChar ++ more))
        = Scanner.stringBytes ((String.utf8EncodeChar c).reverse ++ scanned) more := by
  have other := not_surrogate c
  have read := hex4?_codeUnit code more
  rw [List.flatMap_cons, show String.utf8EncodeChar '0' = [48] from rfl, List.append_assoc,
    List.singleton_append, ← hex4?_plus] at read
  refine stringBytes_unicodeEscape ?_ scanned
  rw [Scanner.unicodeEscape, read]
  simp only
  rw [if_neg (by omega), charOfCode?_toNat]

theorem stringBytes_signedQuoted {text body : List Char} (h : SignedQuoted text body)
    (scanned more : List UInt8)
    : Scanner.stringBytes scanned (body.flatMap String.utf8EncodeChar ++ more)
        = Scanner.stringBytes ((text.flatMap String.utf8EncodeChar).reverse ++ scanned) more := by
  induction h generalizing scanned with
  | legal quoted => exact stringBytes_quoted quoted scanned more
  | @signed c digits text body others behind front code _ ih =>
      have sign : ('\\' :: 'u' :: '+' :: (digits ++ behind)).flatMap String.utf8EncodeChar
          = 92 :: 117 :: 43 :: (digits.flatMap String.utf8EncodeChar
            ++ behind.flatMap String.utf8EncodeChar) := by
        rw [← List.flatMap_append]
        rfl
      rw [List.flatMap_append, List.append_assoc, stringBytes_quoted front, sign]
      simp only [List.cons_append, List.append_assoc]
      rw [stringBytes_signed code, ih]
      simp

theorem string_of_isSignedLiteral {text : String} {spelling : List Char}
    (h : IsSignedLiteral text spelling) (more : List UInt8)
    : Scanner.string (utf8 (String.ofList spelling) ++ more) = .ok text more := by
  obtain ⟨body, quoted, rfl⟩ := h
  have quote : String.utf8EncodeChar '"' = [34] := rfl
  have bytes : utf8 (String.ofList ('"' :: (body ++ ['"']))) ++ more
      = 34 :: (body.flatMap String.utf8EncodeChar ++ 34 :: more) := by
    rw [utf8_ofList, List.flatMap_cons, List.flatMap_append, quote, List.flatMap_singleton, quote]
    simp
  have scanned : Scanner.stringBytes [] (body.flatMap String.utf8EncodeChar ++ 34 :: more)
      = .ok (utf8 text) more := by
    rw [stringBytes_signedQuoted quoted, Scanner.stringBytes, if_pos rfl, utf8_eq_flatMap]
    simp
  simp only [bytes, Scanner.string, List.tail_cons, scanned, ofUtf8?_utf8]

-----------------------------------------------------------------------------------------
-- What was read
-----------------------------------------------------------------------------------------

theorem exists_digit_of_hexValue? {b : UInt8} {v : Nat} (h : hexValue? b = some v)
    : ∃ c, hexDigitValue? c = some v ∧ String.utf8EncodeChar c = [b] := by
  have codes : ∀ m < 128, hexValue? (UInt8.ofNat m) = hexDigitValue? (Char.ofNat m)
      ∧ (Char.ofNat m).toNat = m := by decide
  have small : b.toNat < 128 := by
    unfold hexValue? at h
    simp only [Bool.and_eq_true, decide_eq_true_eq, UInt8.le_iff_toNat_le] at h
    have ends : (57 : UInt8).toNat = 57 ∧ (102 : UInt8).toNat = 102 ∧ (70 : UInt8).toNat = 70 := by
      decide
    split at h
    · omega
    · split at h
      · omega
      · split at h
        · omega
        · cases h
  obtain ⟨same, code⟩ := codes b.toNat small
  rw [UInt8.ofNat_toNat] at same
  refine ⟨Char.ofNat b.toNat, same.symm.trans h, ?_⟩
  rw [utf8EncodeChar_of_lt (code.symm ▸ small), code, UInt8.ofNat_toNat]

/-- Four hexadecimal digits were read, unless the first of them is a plus sign. -/
theorem exists_digits_of_hex4? {bytes rest : List UInt8} {n : Nat}
    (unsigned : bytes.head? ≠ some 43) (h : hex4? bytes = some (n, rest))
    : ∃ digits, codeUnit? digits = some n
      ∧ bytes = digits.flatMap String.utf8EncodeChar ++ rest := by
  have whole : bytes.take 4 ++ bytes.drop 4 = bytes := List.take_append_drop 4 bytes
  have four : (bytes.take 4).length = 4 := by
    refine Decidable.byContradiction fun other => ?_
    simp only [hex4?, if_neg other] at h
    cases h
  rcases front : bytes.take 4 with _ | ⟨a, _ | ⟨b, _ | ⟨c, _ | ⟨d, _ | ⟨e, others⟩⟩⟩⟩⟩
  case cons.cons.cons.cons.nil =>
    have other : a ≠ 43 := by
      rintro rfl
      rw [← whole, front] at unsigned
      exact unsigned rfl
    simp only [hex4?, front, List.length_cons, List.length_nil, Nat.zero_add, Nat.reduceAdd,
      ↓reduceIte] at h
    have value : (hexValues? [a, b, c, d]).map (fun n => (n, bytes.drop 4)) = some (n, rest) := by
      split at h
      · rename_i same
        cases same
        exact absurd rfl other
      · exact h
    simp only [hexValues?, List.mapM_cons, List.mapM_nil, Option.pure_def, Option.bind_eq_bind,
      Option.map_eq_some_iff, Option.bind_eq_some_iff, Option.some.injEq, Prod.mk.injEq] at value
    obtain ⟨_, ⟨_, ⟨x, first, _, ⟨y, second, _, ⟨z, third, _, ⟨w, fourth, _, rfl, rfl⟩, rfl⟩, rfl⟩,
      rfl⟩, rfl⟩, rfl, rfl⟩ := value
    obtain ⟨a', first, encodedA⟩ := exists_digit_of_hexValue? first
    obtain ⟨b', second, encodedB⟩ := exists_digit_of_hexValue? second
    obtain ⟨c', third, encodedC⟩ := exists_digit_of_hexValue? third
    obtain ⟨d', fourth, encodedD⟩ := exists_digit_of_hexValue? fourth
    refine ⟨[a', b', c', d'], ?_, ?_⟩
    · simp only [codeUnit?, first, second, third, fourth, Option.bind_eq_bind, Option.bind_some,
        Option.pure_def, List.foldl_cons, List.foldl_nil, Option.some.injEq]
      omega
    · simp only [List.flatMap_cons, List.flatMap_nil, encodedA, encodedB, encodedC, encodedD,
        List.append_nil, List.singleton_append]
      rw [← front, whole]
  all_goals
    rw [front] at four
    simp at four

/-- The digits of an escape that was read, with a plus sign or none in front of them. -/
theorem exists_unit_of_hex4? {bytes rest : List UInt8} {n : Nat} (h : hex4? bytes = some (n, rest))
    : (∃ digits, codeUnit? digits = some n ∧ bytes = digits.flatMap String.utf8EncodeChar ++ rest)
      ∨ ∃ digits, codeUnit? ('0' :: digits) = some n
        ∧ bytes = 43 :: (digits.flatMap String.utf8EncodeChar ++ rest) := by
  by_cases sign : bytes.head? = some 43
  · obtain ⟨bytes, rfl⟩ := List.head?_eq_some_iff.mp sign
    rw [hex4?_plus] at h
    obtain ⟨digits, code, same⟩ := exists_digits_of_hex4? (by simp) h
    match digits, code with
    | d :: digits, code =>
        rw [List.flatMap_cons, List.append_assoc] at same
        obtain ⟨rfl, rfl⟩ := utf8EncodeChar_append_inj (c := '0') (a := bytes) same
        exact .inr ⟨digits, code, rfl⟩
  · exact .inl (exists_digits_of_hex4? sign h)

/-- A plus sign makes a code unit too small for a surrogate. -/
theorem codeUnit?_zero_lt {digits : List Char} {n : Nat} (code : codeUnit? ('0' :: digits) = some n)
    : n < 0x1000 := by
  match digits, code with
  | [b, c, d], code =>
      have zero : hexDigitValue? '0' = some 0 := by decide
      simp only [codeUnit?, zero, Option.bind_eq_bind, Option.bind_eq_some_iff, Option.pure_def,
        Option.some.injEq] at code
      obtain ⟨_, rfl, y, second, z, third, w, fourth, rfl⟩ := code
      have y' := hexDigitValue?_lt second
      have z' := hexDigitValue?_lt third
      have w' := hexDigitValue?_lt fourth
      omega

/-- A character was spelled by an escape: with the backslash in front of what was scanned, it stands
for the character wherever a literal may go on.
-/
def SpelledAs (c : Char) (bytes rest : List UInt8) : Prop :=
  ∃ spelled, bytes = spelled.flatMap String.utf8EncodeChar ++ rest
    ∧ ∀ {text body : List Char}, SignedQuoted text body → SignedQuoted (c :: text) (spelled ++ body)

/-- What the grammar allows may stand for one character. -/
theorem SpelledAs.of_quoted {c : Char} {spelled : List Char} {bytes rest : List UInt8}
    (h : Quoted [c] spelled) (same : bytes = spelled.flatMap String.utf8EncodeChar ++ rest)
    : SpelledAs c bytes rest :=
  ⟨spelled, same, fun behind => behind.behind h⟩

theorem flatMap_unicodeEscape (digits more : List Char)
    : ('\\' :: 'u' :: (digits ++ more)).flatMap String.utf8EncodeChar
        = 92 :: 117 :: (digits.flatMap String.utf8EncodeChar
          ++ more.flatMap String.utf8EncodeChar) := by
  rw [← List.flatMap_append]
  rfl

/-- The second half of a pair was read. -/
theorem exists_unit_of_lowSurrogate {bytes rest : List UInt8} {n : Nat}
    (h : Scanner.lowSurrogate bytes = .ok n rest)
    : 0xdc00 ≤ n ∧ n < 0xe000 ∧ ∃ digits, codeUnit? digits = some n
      ∧ bytes = 92 :: 117 :: (digits.flatMap String.utf8EncodeChar ++ rest) := by
  unfold Scanner.lowSurrogate at h
  split at h
  case h_2 => cases h
  case h_1 bytes =>
    split at h
    case h_2 => cases h
    case h_1 low behind read =>
      split at h
      case isFalse => cases h
      case isTrue half =>
        cases h
        rcases exists_unit_of_hex4? read with ⟨digits, code, rfl⟩ | ⟨digits, code, rfl⟩
        · exact ⟨half.1, half.2, digits, code, rfl⟩
        · have small := codeUnit?_zero_lt code
          omega

/-- What was read behind a backslash and a `u` spells the character: two halves of a pair, or a code
unit with a plus sign or none.
-/
theorem spelledAs_of_unicodeEscape {bytes rest : List UInt8} {c : Char}
    (h : Scanner.unicodeEscape bytes = .ok c rest)
    : SpelledAs c (92 :: 117 :: bytes) rest := by
  unfold Scanner.unicodeEscape at h
  split at h
  case h_1 => cases h
  case h_2 n behind read =>
    split at h
    case isTrue high =>
      split at h
      case h_1 => cases h
      case h_2 low rest' second =>
        simp only [EStateM.Result.ok.injEq] at h
        obtain ⟨same, rfl⟩ := h
        obtain ⟨least, most, digits', code', rfl⟩ := exists_unit_of_lowSurrogate second
        rcases exists_unit_of_hex4? read with ⟨digits, code, rfl⟩ | ⟨digits, code, -⟩
        · have whole : c.toNat = 0x10000 + (n - 0xd800) * 0x400 + (low - 0xdc00) := by
            rw [← same, toNat_ofNat_of_valid (.inr (by omega))]
          have left : codeUnit? digits = some (0xd800 + (n - 0xd800)) := by
            rw [code, Nat.add_sub_cancel' high.1]
          have right : codeUnit? digits' = some (0xdc00 + (low - 0xdc00)) := by
            rw [code', Nat.add_sub_cancel' least]
          refine .of_quoted (.pair left (by omega) right (by omega) whole .nil) ?_
          rw [flatMap_unicodeEscape, flatMap_unicodeEscape]
          simp
        · have small := codeUnit?_zero_lt code
          omega
    case isFalse other =>
      split at h
      case h_2 => cases h
      case h_1 c' known =>
        cases h
        have value : c.toNat = n := toNat_of_charOfCode? known
        rcases exists_unit_of_hex4? read with ⟨digits, code, rfl⟩ | ⟨digits, code, rfl⟩
        · refine .of_quoted (.unit (value ▸ code) .nil) ?_
          rw [flatMap_unicodeEscape]
          simp
        · refine ⟨'\\' :: 'u' :: '+' :: digits, rfl, fun behind => ?_⟩
          have piece := SignedQuoted.signed .nil (value ▸ code) behind
          simpa using piece

/-- What was read behind a backslash stands for one character. -/
theorem exists_char_of_escape {bytes decoded rest : List UInt8}
    (h : Scanner.escape bytes = .ok decoded rest)
    : ∃ c, decoded = String.utf8EncodeChar c ∧ SpelledAs c (92 :: bytes) rest := by
  have short (letter c : Char) (listed : (letter, c) ∈ shortEscapes) (rest : List UInt8)
      : SpelledAs c (92 :: (String.utf8EncodeChar letter ++ rest)) rest := by
    refine .of_quoted (.short listed .nil) ?_
    simp only [List.flatMap_cons, List.flatMap_nil, List.append_nil, List.append_assoc]
    rfl
  match bytes with
  | [] => cases h
  | b :: behind =>
      by_cases mark : b = 117
      · subst mark
        rw [escape_u] at h
        split at h
        case h_1 c rest' read =>
          cases h
          exact ⟨c, by simp [utf8_eq_flatMap], spelledAs_of_unicodeEscape read⟩
        case h_2 => cases h
      · simp only [Scanner.escape, if_neg mark] at h
        split at h
        next same =>
          cases h
          rcases same with rfl | rfl | rfl
          · exact ⟨'"', rfl, short '"' '"' (by decide) rest⟩
          · exact ⟨'\\', rfl, short '\\' '\\' (by decide) rest⟩
          · exact ⟨'/', rfl, short '/' '/' (by decide) rest⟩
        next =>
          split at h
          · cases h
            subst b
            exact ⟨'\x08', rfl, short 'b' '\x08' (by decide) rest⟩
          split at h
          · cases h
            subst b
            exact ⟨'\x0c', rfl, short 'f' '\x0c' (by decide) rest⟩
          split at h
          · cases h
            subst b
            exact ⟨'\n', rfl, short 'n' '\n' (by decide) rest⟩
          split at h
          · cases h
            subst b
            exact ⟨'\r', rfl, short 'r' '\r' (by decide) rest⟩
          split at h
          · cases h
            subst b
            exact ⟨'\t', rfl, short 't' '\t' (by decide) rest⟩
          cases h

/-- The bytes that were scanned before only stand in front of the others. -/
theorem stringBytes_scanned (scanned bytes : List UInt8)
    : Scanner.stringBytes scanned bytes
        = match Scanner.stringBytes [] bytes with
          | .ok decoded rest => .ok (scanned.reverse ++ decoded) rest
          | .error fault rest => .error fault rest := by
  induction length : bytes.length using Nat.strongRecOn generalizing bytes scanned with
  | ind n ih =>
      match bytes with
      | [] => simp [Scanner.stringBytes]
      | b :: behind =>
          have shorter : behind.length < n := length ▸ Nat.lt_succ_self _
          rw [Scanner.stringBytes, Scanner.stringBytes]
          split
          · simp
          · split
            · cases read : Scanner.escape behind with
              | error fault rest => rfl
              | ok decoded rest =>
                  simp only
                  split
                  · rw [ih rest.length (by omega) (decoded.reverse ++ scanned) rest rfl,
                      ih rest.length (by omega) (decoded.reverse ++ []) rest rfl]
                    cases Scanner.stringBytes [] rest <;> simp
                  · rfl
            · split
              · rfl
              · rw [ih _ shorter (b :: scanned) behind rfl, ih _ shorter [b] behind rfl]
                cases Scanner.stringBytes [] behind <;> simp

/-- How a string was scanned from the front: it ended, or a byte was taken that stands for itself,
or an escape that stands for a character.
-/
inductive Scanned : List UInt8 → List UInt8 → List UInt8 → Prop
  | quote {rest : List UInt8} : Scanned (34 :: rest) [] rest
  | plain {b : UInt8} {bytes decoded rest : List UInt8} (itself : b ≠ 34 ∧ b ≠ 92 ∧ ¬b < 32)
    (behind : Scanner.stringBytes [] bytes = .ok decoded rest)
    : Scanned (b :: bytes) (b :: decoded) rest
  | escape {c : Char} {bytes more decoded rest : List UInt8} (spelled : SpelledAs c bytes more)
    (behind : Scanner.stringBytes [] more = .ok decoded rest) (shorter : more.length < bytes.length)
    : Scanned bytes (String.utf8EncodeChar c ++ decoded) rest

theorem scanned_of_stringBytes {bytes decoded rest : List UInt8}
    (h : Scanner.stringBytes [] bytes = .ok decoded rest)
    : Scanned bytes decoded rest := by
  -- what was scanned behind a piece, without the piece
  have behind {piece bytes decoded rest : List UInt8}
      (h : Scanner.stringBytes piece.reverse bytes = .ok decoded rest)
      : ∃ others, Scanner.stringBytes [] bytes = .ok others rest ∧ decoded = piece ++ others := by
    rw [stringBytes_scanned, List.reverse_reverse] at h
    split at h
    · cases h
      exact ⟨_, ‹_›, rfl⟩
    · cases h
  match bytes with
  | [] =>
      rw [Scanner.stringBytes] at h
      cases h
  | b :: bytes =>
      rw [Scanner.stringBytes] at h
      split at h
      next same =>
        cases h
        subst same
        exact .quote
      next quote =>
        split at h
        next same =>
          subst same
          split at h
          next => cases h
          next piece more read =>
            split at h
            next shorter =>
              rw [List.append_nil] at h
              obtain ⟨others, scanned, rfl⟩ := behind h
              obtain ⟨c, rfl, spelled⟩ := exists_char_of_escape read
              exact .escape spelled scanned (Nat.lt_succ_of_le shorter)
            next => cases h
        next backslash =>
          split at h
          next => cases h
          next printable =>
            obtain ⟨others, scanned, rfl⟩ : ∃ others, Scanner.stringBytes [] bytes = .ok others rest
                ∧ decoded = [b] ++ others := behind h
            exact .plain ⟨quote, backslash, printable⟩ scanned

/-- A character that begins with a byte which stands for itself does so too. -/
theorem plain_of_utf8EncodeChar {c : Char} {b : UInt8} {others : List UInt8}
    (encoded : String.utf8EncodeChar c = b :: others) (itself : b ≠ 34 ∧ b ≠ 92 ∧ ¬b < 32)
    : 0x20 ≤ c.toNat ∧ c ≠ '"' ∧ c ≠ '\\' := by
  obtain ⟨quote, backslash, printable⟩ := itself
  refine ⟨Nat.le_of_not_lt fun control => printable ?_, ?_, ?_⟩
  · rw [utf8EncodeChar_of_lt (by omega)] at encoded
    cases encoded
    rw [UInt8.lt_iff_toNat_lt, UInt8.toNat_ofNat', Nat.mod_eq_of_lt (by omega)]
    exact control
  · rintro rfl
    cases encoded
    exact quote rfl
  · rintro rfl
    cases encoded
    exact backslash rfl

/-- Bytes that begin no character were taken as they stand: escapes stand for whole characters. -/
theorem exists_of_continuation {others bytes decoded rest : List UInt8}
    (inside : ∀ b ∈ others, 128 ≤ b.toNat ∧ b.toNat < 192)
    (h : Scanner.stringBytes [] bytes = .ok (others ++ decoded) rest)
    : ∃ more, bytes = others ++ more ∧ Scanner.stringBytes [] more = .ok decoded rest := by
  induction others generalizing bytes with
  | nil => exact ⟨bytes, rfl, h⟩
  | cons b others ih =>
      obtain ⟨own, inside⟩ := List.forall_mem_cons.mp inside
      generalize same : b :: others ++ decoded = all at h
      cases scanned_of_stringBytes h with
      | quote => cases same
      | plain _ behind =>
          obtain ⟨rfl, rfl⟩ := List.cons.inj same
          obtain ⟨more, rfl, scanned⟩ := ih inside behind
          exact ⟨more, rfl, scanned⟩
      | @escape c _ _ _ _ _ _ _ =>
          obtain ⟨first, tail, encoded, begins, -⟩ := utf8EncodeChar_eq_cons c
          rw [encoded] at same
          obtain ⟨rfl, -⟩ := List.cons.inj same
          omega

/-- A string whose bytes are a text was spelled as the text: by induction on the length, since a
character may take several bytes.
-/
theorem exists_body_of_stringBytes {text : List Char} {bytes rest : List UInt8}
    (h : Scanner.stringBytes [] bytes = .ok (text.flatMap String.utf8EncodeChar) rest)
    : ∃ body, SignedQuoted text body
      ∧ bytes = body.flatMap String.utf8EncodeChar ++ 34 :: rest := by
  induction length : bytes.length using Nat.strongRecOn generalizing bytes text with
  | ind n ih =>
      generalize same : text.flatMap String.utf8EncodeChar = decoded at h
      cases scanned_of_stringBytes h with
      | quote =>
          match text with
          | [] => exact ⟨[], .legal .nil, rfl⟩
          | c :: text => simp at same
      | @plain b behind others _ itself scanned =>
          match text with
          | [] => cases same
          | c :: text =>
              obtain ⟨first, tail, encoded, -, inside⟩ := utf8EncodeChar_eq_cons c
              rw [List.flatMap_cons, encoded] at same
              obtain ⟨rfl, rfl⟩ := List.cons.inj same
              obtain ⟨printable, quote, backslash⟩ := plain_of_utf8EncodeChar encoded itself
              obtain ⟨more, rfl, left⟩ := exists_of_continuation inside scanned
              obtain ⟨body, quoted, rfl⟩ := ih more.length (by simp at length; omega) left rfl
              refine ⟨c :: body, quoted.behind (.plain printable quote backslash .nil), ?_⟩
              rw [List.flatMap_cons, encoded]
              simp
      | @escape c _ more others _ spelled scanned shorter =>
          match text with
          | [] => simp at same
          | d :: text =>
              rw [List.flatMap_cons] at same
              obtain ⟨rfl, rfl⟩ := utf8EncodeChar_append_inj same
              obtain ⟨body, quoted, rfl⟩ := ih more.length (length ▸ shorter) scanned rfl
              obtain ⟨piece, rfl, prepend⟩ := spelled
              refine ⟨piece ++ body, prepend quoted, ?_⟩
              rw [List.flatMap_append, List.append_assoc]

-----------------------------------------------------------------------------------------
-- Acceptance
-----------------------------------------------------------------------------------------

/-- The bytes begin with a string literal of a kind, for a text, and the rest is behind it. -/
def BeginsWith (kind : String → List Char → Prop) (text : String) (bytes rest : List UInt8)
    : Prop :=
  ∃ spelling, kind text spelling ∧ bytes = utf8 (String.ofList spelling) ++ rest

theorem utf8_literal (body : List Char)
    : utf8 (String.ofList ('"' :: (body ++ ['"'])))
        = 34 :: (body.flatMap String.utf8EncodeChar ++ [34]) := by
  have quote : String.utf8EncodeChar '"' = [34] := rfl
  rw [utf8_ofList, List.flatMap_cons, List.flatMap_append, List.flatMap_singleton, quote]
  rfl

/-- A string is scanned exactly where the bytes begin with what is accepted. -/
theorem string_ok_iff {bytes : List UInt8} (quote : bytes.head? = some 34) (text : String)
    (rest : List UInt8)
    : Scanner.string bytes = .ok text rest ↔ BeginsWith IsSignedLiteral text bytes rest := by
  constructor
  · intro h
    obtain ⟨bytes, rfl⟩ := List.head?_eq_some_iff.mp quote
    unfold Scanner.string at h
    rw [List.tail_cons] at h
    split at h
    case h_1 => cases h
    case h_2 decoded behind scanned =>
      split at h
      case h_2 => cases h
      case h_1 found known =>
        cases h
        rw [eq_utf8_of_ofUtf8? known, utf8_eq_flatMap] at scanned
        obtain ⟨body, quoted, rfl⟩ := exists_body_of_stringBytes scanned
        refine ⟨_, ⟨body, quoted, rfl⟩, ?_⟩
        rw [utf8_literal]
        simp
  · rintro ⟨spelling, literal, rfl⟩
    exact string_of_isSignedLiteral literal rest

/-- Only an escape with a plus sign is accepted beside what the grammar allows. -/
theorem beginsWith_signed_iff {bytes : List UInt8} (unsigned : ¬[92, 117, 43] <:+: bytes)
    (text : String) (rest : List UInt8)
    : BeginsWith IsSignedLiteral text bytes rest ↔ BeginsWith IsLiteral text bytes rest := by
  constructor
  · rintro ⟨_, ⟨body, accepted, rfl⟩, rfl⟩
    rcases accepted.legal_or_sign with quoted | sign
    · exact ⟨_, ⟨body, quoted, rfl⟩, rfl⟩
    · refine absurd (sign.trans ⟨[34], 34 :: rest, ?_⟩) unsigned
      rw [utf8_literal]
      simp
  · rintro ⟨_, ⟨body, quoted, rfl⟩, rfl⟩
    exact ⟨_, ⟨body, .legal quoted, rfl⟩, rfl⟩

/-- A string is read exactly where the document goes on with a string literal, as the text of the
literal and up to its closing quote, and a syntax fault is kept elsewhere.  What counts as a literal
is the grammar's notion, except that a plus sign may stand for a first zero of a code unit.
-/
theorem scan_string_iff
    (r : Reader) (sound : r.fault = none) (quote : r.rest.head? = some 34)
    : (∀ text rest, r.scan Scanner.string = (some text, { r with rest })
        ↔ BeginsWith IsSignedLiteral text r.rest rest)
      ∧ ((¬∃ text rest, BeginsWith IsSignedLiteral text r.rest rest)
        → ∃ offset fault, (r.scan Scanner.string).1 = none
          ∧ (r.scan Scanner.string).2.fault
            = some ⟨.unmarshal, r.path.dotted, .malformed offset fault⟩)
      ∧ (¬[92, 117, 43] <:+: r.rest → ∀ text rest,
        BeginsWith IsSignedLiteral text r.rest rest ↔ BeginsWith IsLiteral text r.rest rest) := by
  refine ⟨fun text rest => ?_, fun other => ?_, beginsWith_signed_iff⟩
  · rw [← string_ok_iff quote]
    constructor
    · intro h
      unfold Reader.scan at h
      split at h
      case h_1 found behind scanned =>
        simp only [Prod.mk.injEq, Option.some.injEq, Reader.mk.injEq, true_and, and_true] at h
        obtain ⟨rfl, rfl⟩ := h
        exact scanned
      case h_2 => cases h
    · intro scanned
      rw [Reader.scan, scanned]
  · cases scanned : Scanner.string r.rest with
    | ok text rest => exact absurd ⟨text, rest, (string_ok_iff quote text rest).mp scanned⟩ other
    | error fault rest =>
        refine ⟨({ r with rest }).position, fault, ?_, ?_⟩
        · rw [Reader.scan, scanned]
        · simp [Reader.scan, scanned, Reader.malformed, Reader.latch, sound]

/-- Two surrogates that are one character, a letter of two bytes and an escaped quote. -/
theorem scan_string_emoji
    : let r := Reader.ofBytes (utf8 "\"\\ud83d\\uDE00é\\\"\" \"") none
      r.fault = none ∧ r.rest.head? = some 34
      ∧ r.scan Scanner.string = (some "😀é\"", { r with rest := utf8 " \"" }) := by
  intro r
  have front : r.rest.head? = some 34 := by decide
  refine ⟨rfl, front, ((scan_string_iff r rfl front).1 _ _).mpr ?_⟩
  have letters : Quoted ['é', '"'] ['é', '\\', '"'] :=
    .plain (by decide) (by decide) (by decide)
      (.short (show ('"', '"') ∈ shortEscapes by decide) .nil)
  have body : Quoted ['😀', 'é', '"'] "\\ud83d\\uDE00é\\\"".toList :=
    @Quoted.pair '😀' "d83d".toList "DE00".toList _ _ 0x3d 0x200 (by decide) (by decide) (by decide)
      (by decide) (by decide) letters
  exact ⟨_, ⟨_, .legal body, rfl⟩, by decide⟩

/-- No escape of the grammar has a plus sign behind its `u`. -/
theorem Quoted.not_sign_front {text body : List Char} (h : Quoted text body)
    {more rest : List UInt8}
    (same : body.flatMap String.utf8EncodeChar ++ 34 :: more = 92 :: 117 :: 43 :: rest)
    : False := by
  have digit {digits others : List Char} {n : Nat} (code : codeUnit? digits = some n)
      (same : (digits ++ others).flatMap String.utf8EncodeChar ++ 34 :: more
        = 43 :: rest) : False := by
    match digits, code with
    | [a, b, c, d], code =>
        rw [List.cons_append, List.flatMap_cons, List.append_assoc] at same
        obtain ⟨rfl, -⟩ := utf8EncodeChar_append_inj (d := '+') (b := rest) same
        have sign : hexDigitValue? '+' = none := by decide
        simp [codeUnit?, sign] at code
  cases h with
  | nil => cases same
  | @plain c text body _ _ backslash _ =>
      rw [List.flatMap_cons, List.append_assoc] at same
      exact backslash (utf8EncodeChar_append_inj (d := '\\') (b := 117 :: 43 :: rest) same).1
  | @short letter c text body listed _ =>
      have others : ∀ e ∈ shortEscapes, e.1 ≠ 'u' := by decide
      rw [List.flatMap_cons, List.flatMap_cons, List.append_assoc, List.append_assoc] at same
      have front : String.utf8EncodeChar letter
        ++ (body.flatMap String.utf8EncodeChar ++ 34 :: more)
          = String.utf8EncodeChar 'u' ++ 43 :: rest := (List.cons.inj same).2
      exact others _ listed (utf8EncodeChar_append_inj front).1
  | @unit c digits text body code _ =>
      rw [flatMap_unicodeEscape, ← List.flatMap_append] at same
      exact digit code (List.cons.inj (List.cons.inj same).2).2
  | @pair c first second text body high low left _ _ _ _ _ =>
      rw [flatMap_unicodeEscape, ← List.flatMap_append] at same
      exact digit left (List.cons.inj (List.cons.inj same).2).2

/-- An escape with a plus sign is read, though the grammar has no literal there. -/
theorem scan_string_plus_sign
    : let r := Reader.ofBytes (utf8 "\"\\u+041\"") none
      r.fault = none ∧ r.rest.head? = some 34
      ∧ r.scan Scanner.string = (some "A", { r with rest := [] })
      ∧ ¬∃ text rest, BeginsWith IsLiteral text r.rest rest := by
  intro r
  have read : Scanner.string r.rest = .ok "A" [] := by
    have body : SignedQuoted ['A'] "\\u+041".toList :=
      @SignedQuoted.signed 'A' "041".toList [] [] [] [] .nil (by decide) (.legal .nil)
    have literal : IsSignedLiteral "A" "\"\\u+041\"".toList := ⟨_, body, rfl⟩
    exact string_of_isSignedLiteral literal []
  refine ⟨rfl, by decide, ?_, ?_⟩
  · rw [Reader.scan, read]
  · rintro ⟨text, rest, _, ⟨body, quoted, rfl⟩, same⟩
    rw [utf8_literal, List.cons_append, List.append_assoc] at same
    exact quoted.not_sign_front (List.cons.inj same).2.symm

end Protobuf.Json
