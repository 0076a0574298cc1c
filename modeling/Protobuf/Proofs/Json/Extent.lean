import Protobuf.Json.Reader
import Protobuf.Proofs.Text.Utf8

/-! How far scanners go.  A scanner leaves an end of its input, whether it fails or not, and a value
or key that is scanned takes at least a byte; so a cursor stays inside its document.
-/

namespace Protobuf.Json

/-- Dropping blanks leaves a suffix. -/
theorem dropBlanks_suffix (bytes : List UInt8)
    : dropBlanks bytes <:+ bytes :=
  List.dropWhile_suffix _

/-- Nothing is dropped in front of what is no blank. -/
theorem dropBlanks_of_head {bytes : List UInt8} (h : ∀ b ∈ bytes.head?, ¬isBlank b)
    : dropBlanks bytes = bytes := by
  cases bytes with
  | nil => rfl
  | cons b bytes => exact List.dropWhile_cons_of_neg (h b rfl)

/-- Behind blanks there is no further blank. -/
theorem not_isBlank_head {bytes : List UInt8} {b : UInt8} (h : (dropBlanks bytes).head? = some b)
    : ¬isBlank b := by
  have visible := List.head?_dropWhile_not isBlank bytes
  rw [← dropBlanks, h] at visible
  simpa using visible

/-- Blanks are dropped once. -/
@[simp]
theorem dropBlanks_dropBlanks (bytes : List UInt8)
    : dropBlanks (dropBlanks bytes) = dropBlanks bytes :=
  dropBlanks_of_head fun _ first => not_isBlank_head first

namespace Scanner

/-- The input that a scan leaves. -/
def left {α : Type} : EStateM.Result SyntaxFault (List UInt8) α → List UInt8
  | .ok _ rest => rest
  | .error _ rest => rest

/-- What is left behind a token. -/
@[simp]
theorem left_ok {α : Type} (v : α) (rest : List UInt8)
    : left (.ok v rest) = rest :=
  rfl

/-- What is left behind a fault. -/
@[simp]
theorem left_error {α : Type} (fault : SyntaxFault) (rest : List UInt8)
    : left (.error fault rest : EStateM.Result SyntaxFault (List UInt8) α) = rest :=
  rfl

/-- What is left is an end of the input. -/
def Suffixes {α : Type} (scanner : Scanner α) : Prop :=
  ∀ bytes, left (scanner bytes) <:+ bytes

/-- A scan that does not fail takes a byte. -/
def Consumes {α : Type} (scanner : Scanner α) : Prop :=
  ∀ bytes v rest, scanner bytes = .ok v rest → rest.length < bytes.length

variable {α β : Type} {scanner : Scanner α} {f : α → Scanner β} {bytes rest : List UInt8} {v : α}
  {fault : SyntaxFault}

-----------------------------------------------------------------------------------------
-- Scanners one after the other
-----------------------------------------------------------------------------------------

/-- A token stands in front of what is left. -/
theorem Suffixes.of_ok (h : scanner.Suffixes) (scanned : scanner bytes = .ok v rest)
    : rest <:+ bytes := by
  have own := h bytes
  rwa [scanned] at own

/-- A fault is found at a suffix. -/
theorem Suffixes.of_error (h : scanner.Suffixes) (scanned : scanner bytes = .error fault rest)
    : rest <:+ bytes := by
  have own := h bytes
  rwa [scanned] at own

/-- What comes next is scanned behind the token. -/
theorem bind_of_ok (scanned : scanner bytes = .ok v rest)
    : (scanner >>= f) bytes = f v rest := by
  simp only [Bind.bind, EStateM.bind, scanned]

/-- Nothing is scanned behind a fault. -/
theorem bind_of_error (scanned : scanner bytes = .error fault rest)
    : (scanner >>= f) bytes = .error fault rest := by
  simp only [Bind.bind, EStateM.bind, scanned]

/-- Scanners that succeed one after the other each succeed. -/
theorem ok_of_bind {w : β} (scanned : (scanner >>= f) bytes = .ok w rest)
    : ∃ v behind, scanner bytes = .ok v behind ∧ f v behind = .ok w rest := by
  cases first : scanner bytes with
  | error fault behind =>
      rw [bind_of_error first] at scanned
      cases scanned
  | ok v behind =>
      rw [bind_of_ok first] at scanned
      exact ⟨v, behind, rfl, scanned⟩

/-- Scanning nothing leaves everything. -/
theorem suffixes_pure (v : α)
    : Suffixes (pure v) :=
  fun _ => List.suffix_refl _

theorem suffixes_throw (fault : SyntaxFault)
    : Suffixes (throw fault : Scanner α) :=
  fun _ => List.suffix_refl _

/-- Scanning twice leaves a suffix of a suffix. -/
theorem Suffixes.bind (h : scanner.Suffixes) (next : ∀ v, (f v).Suffixes)
    : Suffixes (scanner >>= f) := by
  intro bytes
  simp only [Bind.bind, EStateM.bind]
  cases first : scanner bytes with
  | error fault rest => exact h.of_error first
  | ok v rest => exact (next v rest).trans (h.of_ok first)

/-- Mapping what is scanned leaves what is left. -/
theorem Suffixes.map (h : scanner.Suffixes) (g : α → β)
    : Suffixes (g <$> scanner) := by
  rw [map_eq_pure_bind]
  exact h.bind fun _ => suffixes_pure _

/-- Scanning further does not give bytes back. -/
theorem Consumes.bind (h : scanner.Consumes) (next : ∀ v, (f v).Suffixes)
    : Consumes (scanner >>= f) := by
  intro bytes w last scanned
  simp only [Bind.bind, EStateM.bind] at scanned
  cases first : scanner bytes with
  | error fault rest => simp [first] at scanned
  | ok v rest =>
      simp only [first] at scanned
      exact Nat.lt_of_le_of_lt ((next v).of_ok scanned).length_le (h _ _ _ first)

/-- It is enough that the second scan takes a byte. -/
theorem Suffixes.consumes_bind (h : scanner.Suffixes) (next : ∀ v, (f v).Consumes)
    : Consumes (scanner >>= f) := by
  intro bytes w last scanned
  simp only [Bind.bind, EStateM.bind] at scanned
  cases first : scanner bytes with
  | error fault rest => simp [first] at scanned
  | ok v rest =>
      simp only [first] at scanned
      exact Nat.lt_of_lt_of_le (next v _ _ _ scanned) (h.of_ok first).length_le

theorem consumes_throw (fault : SyntaxFault)
    : Consumes (throw fault : Scanner α) := by
  intro bytes v rest scanned
  cases scanned

-----------------------------------------------------------------------------------------
-- Tokens
-----------------------------------------------------------------------------------------

theorem suffixes_peek
    : peek.Suffixes :=
  dropBlanks_suffix

theorem suffixes_advance
    : advance.Suffixes :=
  List.tail_suffix

/-- An expected byte is taken from the front. -/
theorem suffixes_expect (b : UInt8) (fault : SyntaxFault)
    : (expect b fault).Suffixes := by
  refine suffixes_peek.bind fun next => ?_
  split
  · exact suffixes_advance
  · exact suffixes_throw _

/-- A word is taken from the front. -/
theorem suffixes_literal (word : String)
    : (literal word).Suffixes := by
  intro bytes
  simp only [literal]
  split
  · exact List.drop_suffix _ _
  · exact List.suffix_refl _

/-- A word that is not empty takes bytes. -/
theorem consumes_literal {word : String} (written : Text.utf8 word ≠ [])
    : (literal word).Consumes := by
  intro bytes v rest scanned
  simp only [literal] at scanned
  split at scanned <;> cases scanned
  rename_i front
  have inside := (List.isPrefixOf_iff_prefix.mp front).length_le
  have positive := List.length_pos_iff.mpr written
  rw [List.length_drop]
  omega

/-- A number is taken from the front. -/
theorem suffixes_number
    : number.Suffixes := by
  intro bytes
  simp only [number]
  split
  · exact List.dropWhile_suffix _
  · exact List.suffix_refl _

/-- The text of a number is not empty. -/
theorem consumes_number
    : number.Consumes := by
  intro bytes v rest scanned
  simp only [number] at scanned
  split at scanned <;> cases scanned
  rename_i legal
  have whole := congrArg List.length
    (List.takeWhile_append_dropWhile (p := isNumberByte) (l := bytes))
  have positive : 0 < (bytes.takeWhile isNumberByte).length := by
    refine List.length_pos_iff.mpr fun none => ?_
    rw [none] at legal
    cases legal
  rw [List.length_append] at whole
  omega

/-- Four hexadecimal digits are taken from the front. -/
theorem suffix_of_hex4? {n : Nat} (h : hex4? bytes = some (n, rest))
    : rest <:+ bytes := by
  simp only [hex4?] at h
  split at h
  · obtain ⟨value, -, same⟩ := Option.map_eq_some_iff.mp h
    cases same
    exact List.drop_suffix _ _
  · cases h

/-- The second half of a pair is taken from the front. -/
theorem suffixes_lowSurrogate
    : lowSurrogate.Suffixes := by
  intro bytes
  unfold lowSurrogate
  split
  · rename_i rest
    have behind : rest <:+ 92 :: 117 :: rest := ⟨[92, 117], rfl⟩
    split
    · rename_i digits
      have taken := (suffix_of_hex4? digits).trans behind
      split <;> exact taken
    · exact behind
  · exact List.suffix_refl _

/-- A code unit, or a pair of them, is taken from the front. -/
theorem suffixes_unicodeEscape
    : unicodeEscape.Suffixes := by
  intro bytes
  unfold unicodeEscape
  split
  · exact List.suffix_refl _
  · rename_i high rest digits
    have taken := suffix_of_hex4? digits
    split
    · cases low : lowSurrogate rest with
      | ok code behind => exact (suffixes_lowSurrogate.of_ok low).trans taken
      | error fault behind => exact (suffixes_lowSurrogate.of_error low).trans taken
    · split <;> exact taken

/-- An escape is taken from the front. -/
theorem suffixes_escape
    : escape.Suffixes := by
  intro bytes
  cases bytes with
  | nil => exact List.suffix_refl _
  | cons b rest =>
      have behind := List.suffix_cons b rest
      simp only [escape]
      repeat' split
      all_goals try exact behind
      · rename_i read
        exact (suffixes_unicodeEscape.of_ok read).trans behind
      · rename_i failed
        exact (suffixes_unicodeEscape.of_error failed).trans behind

/-- The bytes of a string are taken from the front, by induction on the input. -/
theorem suffix_stringBytes (scanned bytes : List UInt8)
    : left (stringBytes scanned bytes) <:+ bytes := by
  fun_induction stringBytes scanned bytes with
  | case1 => exact List.suffix_refl _
  | case2 scanned rest => exact List.suffix_cons _ _
  | case3 scanned rest fault behind failed =>
      exact (suffixes_escape.of_error failed).trans (List.suffix_cons _ _)
  | case4 scanned rest decoded behind read _ _ ih =>
      exact ih.trans ((suffixes_escape.of_ok read).trans (List.suffix_cons _ _))
  | case5 scanned rest decoded behind read =>
      exact (suffixes_escape.of_ok read).trans (List.suffix_cons _ _)
  | case6 scanned b rest _ _ _ => exact List.suffix_cons _ _
  | case7 scanned b rest _ _ _ ih => exact ih.trans (List.suffix_cons _ _)

/-- A string is taken from the front. -/
theorem suffixes_string
    : string.Suffixes := by
  intro bytes
  have inside := (suffix_stringBytes [] bytes.tail).trans (List.tail_suffix bytes)
  unfold string
  split
  · rename_i failed
    rwa [failed] at inside
  · rename_i read
    rw [read] at inside
    split <;> exact inside

/-- A string takes its first quote. -/
theorem consumes_string
    : string.Consumes := by
  intro bytes text rest read
  cases bytes with
  | nil =>
      simp only [string, List.tail_nil, stringBytes] at read
      cases read
  | cons b bytes =>
      have inside := suffix_stringBytes [] bytes
      simp only [string, List.tail_cons] at read
      split at read
      · cases read
      · rename_i scanned
        rw [scanned] at inside
        split at read <;> cases read
        exact Nat.lt_succ_of_le inside.length_le

-----------------------------------------------------------------------------------------
-- Members and elements
-----------------------------------------------------------------------------------------

/-- The scan of a key and the colon behind it. -/
def keyAndColon : Scanner String := do
  if (← peek) == some 34 then
    let key ← string
    expect 58 .expectedColon
    return key
  else throw .expectedKey

/-- A key is taken from the front with its colon. -/
theorem suffixes_keyAndColon
    : keyAndColon.Suffixes := by
  refine suffixes_peek.bind fun next => ?_
  split
  · exact suffixes_string.bind fun _ => (suffixes_expect _ _).bind fun _ => suffixes_pure _
  · exact suffixes_throw _

/-- A key takes bytes. -/
theorem consumes_keyAndColon
    : keyAndColon.Consumes := by
  refine suffixes_peek.consumes_bind fun next => ?_
  split
  · exact consumes_string.bind fun _ => (suffixes_expect _ _).bind fun _ => suffixes_pure _
  · exact consumes_throw _

/-- The scan behind a member or element: over the end of the container, or over a comma and on. -/
def proceed (close : UInt8) (fault : SyntaxFault) (others : Scanner Unit) : Scanner Unit :=
  fun bytes =>
    match dropBlanks bytes with
    | [] => .error fault []
    | b :: rest =>
        if b = 44 then others rest
        else if b = close then .ok () rest
        else .error fault (b :: rest)

variable {value : Scanner Unit}

/-- A member is a key with its colon, a value, and a look at what comes next. -/
theorem member_eq (value : Scanner Unit)
    : (do
        if (← peek) == some 34 then
          let _ ← string
          expect 58 .expectedColon
          value
          peek
        else throw .expectedKey : Scanner (Option UInt8))
        = (do
          let _ ← keyAndColon
          value
          peek : Scanner (Option UInt8)) := by
  rw [keyAndColon, bind_assoc]
  refine bind_congr fun next => ?_
  split
  · simp only [bind_assoc, pure_bind]
  · rfl

/-- Members are passed over up to the end of the object, by induction on the input. -/
theorem suffixes_skipMembers (h : value.Suffixes)
    : Suffixes (skipMembers value) := by
  intro bytes
  have member : Suffixes (do
      let _ ← keyAndColon
      value
      peek : Scanner (Option UInt8)) :=
    suffixes_keyAndColon.bind fun _ => h.bind fun _ => suffixes_peek
  rw [← member_eq] at member
  fun_induction skipMembers value bytes with
  | case1 bytes _ fault rest failed => exact member.of_error failed
  | case2 bytes _ rest scanned _ ih =>
      exact ih.trans ((List.tail_suffix rest).trans (member.of_ok scanned))
  | case3 bytes _ rest scanned _ => exact member.of_ok scanned
  | case4 bytes _ rest scanned => exact (List.tail_suffix rest).trans (member.of_ok scanned)
  | case5 bytes _ next rest _ _ scanned => exact member.of_ok scanned

/-- Elements are passed over up to the end of the array, by induction on the input. -/
theorem suffixes_skipElements (h : value.Suffixes)
    : Suffixes (skipElements value) := by
  intro bytes
  have element : Suffixes (do
      value
      peek : Scanner (Option UInt8)) :=
    h.bind fun _ => suffixes_peek
  fun_induction skipElements value bytes with
  | case1 bytes _ fault rest failed => exact element.of_error failed
  | case2 bytes _ rest scanned _ ih =>
      exact ih.trans ((List.tail_suffix rest).trans (element.of_ok scanned))
  | case3 bytes _ rest scanned _ => exact element.of_ok scanned
  | case4 bytes _ rest scanned => exact (List.tail_suffix rest).trans (element.of_ok scanned)
  | case5 bytes _ next rest _ _ scanned => exact element.of_ok scanned

/-- Each member takes a byte, so the passage over the members never stops short. -/
theorem skipMembers_unfold (h : value.Suffixes)
    : skipMembers value
        = (do
          let _ ← keyAndColon
          value
          proceed 125 .expectedCommaOrBrace (skipMembers value) : Scanner Unit) := by
  funext bytes
  rw [skipMembers, member_eq]
  cases key : keyAndColon bytes with
  | error fault rest => rw [bind_of_error key, bind_of_error key]
  | ok name start =>
      rw [bind_of_ok key, bind_of_ok key]
      cases passed : value start with
      | error fault rest => rw [bind_of_error passed, bind_of_error passed]
      | ok _ behind =>
          rw [bind_of_ok passed, bind_of_ok passed]
          have short : (dropBlanks behind).length < bytes.length :=
            Nat.lt_of_le_of_lt ((dropBlanks_suffix behind).trans (h.of_ok passed)).length_le
              (consumes_keyAndColon _ _ _ key)
          simp only [peek, proceed]
          cases visible : dropBlanks behind with
          | nil => rfl
          | cons b others =>
              rw [visible] at short
              by_cases comma : b = 44
              · subst comma
                simp only [List.head?_cons, short, if_true, List.tail_cons]
              by_cases close : b = 125
              · subst close
                rfl
              simp only [List.head?_cons, comma, close, if_false]
              split <;> simp_all

/-- Each element takes a byte, so the passage over the elements never stops short. -/
theorem skipElements_unfold (taken : value.Consumes)
    : skipElements value
        = (do
          value
          proceed 93 .expectedCommaOrBracket (skipElements value) : Scanner Unit) := by
  funext bytes
  rw [skipElements]
  cases passed : value bytes with
  | error fault rest => rw [bind_of_error passed, bind_of_error passed]
  | ok _ behind =>
      rw [bind_of_ok passed, bind_of_ok passed]
      have short : (dropBlanks behind).length < bytes.length :=
        Nat.lt_of_le_of_lt (dropBlanks_suffix behind).length_le (taken _ _ _ passed)
      simp only [peek, proceed]
      cases visible : dropBlanks behind with
      | nil => rfl
      | cons b others =>
          rw [visible] at short
          by_cases comma : b = 44
          · subst comma
            simp only [List.head?_cons, short, if_true, List.tail_cons]
          by_cases close : b = 93
          · subst close
            rfl
          simp only [List.head?_cons, comma, close, if_false]
          split <;> simp_all

-----------------------------------------------------------------------------------------
-- Values
-----------------------------------------------------------------------------------------

/-- The passage behind the opening byte of a container. -/
def enclosed (close : UInt8) (others : Scanner Unit) : Scanner Unit := do
  if (← peek) == some close then advance else others

/-- The passage over the value with the given first byte, given how to pass over those inside it. -/
def skipFrom (inner : Scanner Unit) (b : UInt8) (rest : List UInt8)
    : EStateM.Result SyntaxFault (List UInt8) Unit :=
  if b = 123 then enclosed 125 (skipMembers inner) rest
  else if b = 91 then enclosed 93 (skipElements inner) rest
  else if b = 34 then (do let _ ← string : Scanner Unit) (b :: rest)
  else if b = 116 then literal "true" (b :: rest)
  else if b = 102 then literal "false" (b :: rest)
  else if b = 110 then literal "null" (b :: rest)
  else if b = 45 || (48 ≤ b && b ≤ 57) then (do let _ ← number : Scanner Unit) (b :: rest)
  else .error .unexpectedCharacter (b :: rest)

theorem skipValue_succ (depth : Nat) (bytes : List UInt8)
    : skipValue (depth + 1) bytes
        = match dropBlanks bytes with
          | [] => .error .unexpectedEnd []
          | b :: rest => skipFrom (skipValue depth) b rest := by
  rw [skipValue]
  simp only [Bind.bind, EStateM.bind, peek]
  cases dropBlanks bytes with
  | nil => rfl
  | cons b rest =>
      simp only [List.head?_cons, skipFrom]
      repeat' split
      all_goals rfl

/-- A container leaves a suffix if its parts do. -/
theorem suffixes_enclosed {others : Scanner Unit} (close : UInt8) (h : others.Suffixes)
    : (enclosed close others).Suffixes := by
  refine suffixes_peek.bind fun next => ?_
  split
  · exact suffixes_advance
  · exact h

/-- Passing over a value by its first byte leaves a suffix. -/
theorem suffix_skipFrom {inner : Scanner Unit} (h : inner.Suffixes) (b : UInt8)
    (rest : List UInt8)
    : left (skipFrom inner b rest) <:+ b :: rest := by
  have behind := List.suffix_cons b rest
  unfold skipFrom
  split
  · exact (suffixes_enclosed 125 (suffixes_skipMembers h) rest).trans behind
  split
  · exact (suffixes_enclosed 93 (suffixes_skipElements h) rest).trans behind
  repeat' split
  · exact suffixes_string.bind (fun _ => suffixes_pure ()) _
  · exact suffixes_literal _ _
  · exact suffixes_literal _ _
  · exact suffixes_literal _ _
  · exact suffixes_number.bind (fun _ => suffixes_pure ()) _
  · exact List.suffix_refl _

/-- Passing over a value leaves a suffix, by induction on the depth. -/
theorem suffixes_skipValue (depth : Nat)
    : (skipValue depth).Suffixes := by
  induction depth with
  | zero => exact suffixes_throw _
  | succ depth ih =>
      intro bytes
      rw [skipValue_succ]
      have kept := dropBlanks_suffix bytes
      cases visible : dropBlanks bytes with
      | nil => exact List.nil_suffix
      | cons b rest =>
          rw [visible] at kept
          exact (suffix_skipFrom ih b rest).trans kept

/-- A value takes a byte. -/
theorem consumes_skipValue (depth : Nat)
    : (skipValue depth).Consumes := by
  intro bytes _ last passed
  cases depth with
  | zero => cases passed
  | succ depth =>
      rw [skipValue_succ] at passed
      have kept := (dropBlanks_suffix bytes).length_le
      cases visible : dropBlanks bytes with
      | nil =>
          rw [visible] at passed
          cases passed
      | cons b rest =>
          rw [visible] at passed kept
          refine Nat.lt_of_lt_of_le ?_ kept
          have inner := suffixes_skipValue depth
          simp only [skipFrom] at passed
          split at passed
          · have inside := (suffixes_enclosed 125 (suffixes_skipMembers inner)).of_ok passed
            exact Nat.lt_succ_of_le inside.length_le
          split at passed
          · have inside := (suffixes_enclosed 93 (suffixes_skipElements inner)).of_ok passed
            exact Nat.lt_succ_of_le inside.length_le
          repeat' split at passed
          · exact consumes_string.bind (fun _ => suffixes_pure ()) _ _ _ passed
          · exact consumes_literal (by decide) _ _ _ passed
          · exact consumes_literal (by decide) _ _ _ passed
          · exact consumes_literal (by decide) _ _ _ passed
          · exact consumes_number.bind (fun _ => suffixes_pure ()) _ _ _ passed
          · cases passed

end Scanner

end Protobuf.Json
