import Mathlib.Data.List.Infix
import Protobuf.Proofs.Json.Dynamic
import Protobuf.Proofs.Json.Termination
import Protobuf.Proofs.Json.Writing

/-! Reading a document and passing over it accept the same texts.  What a message was read from can
be passed over; and what can be passed over can be read as a dynamic value, if its numbers are
finite.
-/

namespace Protobuf.Json

open Number

-----------------------------------------------------------------------------------------
-- Number tokens
-----------------------------------------------------------------------------------------

/-- The number tokens of a document, which stand outside of its strings; none behind a token that is
malformed.
-/
def numberTokens (bytes : List UInt8) : List String :=
  match bytes with
  | [] => []
  | b :: rest =>
      if b = 34 then
        match _scanned : Scanner.string (b :: rest) with
        | .ok _ behind => numberTokens behind
        | .error _ _ => []
      else if b = 45 ∨ (48 ≤ b ∧ b ≤ 57) then
        match _scanned : Scanner.number (b :: rest) with
        | .ok text behind => text :: numberTokens behind
        | .error _ _ => []
      else numberTokens rest
termination_by bytes.length
decreasing_by
  · exact Scanner.consumes_string _ _ _ _scanned
  · exact Scanner.consumes_number _ _ _ _scanned
  · exact Nat.lt_succ_self _

/-- The `double` nearest to the number that the text denotes is finite. -/
def IsFinite (text : String) : Prop :=
  (decimalOfNumber text.toList).toMagnitude double < double.infinity

/-- All numbers in the document are finite. -/
def FiniteNumbers (bytes : List UInt8) : Prop :=
  ∀ text ∈ numberTokens bytes, IsFinite text

section

variable {b : UInt8} {bytes rest behind : List UInt8} {text : String}

/-- There are no number tokens in a string. -/
theorem numberTokens_string (scanned : Scanner.string (34 :: rest) = .ok text behind)
    : numberTokens (34 :: rest) = numberTokens behind := by
  rw [numberTokens]
  simp only [if_true]
  split
  · rename_i found
    cases found.symm.trans scanned
    rfl
  · rename_i found
    cases found.symm.trans scanned

/-- A number in front is the first number token. -/
theorem numberTokens_number (kind : ValueKind.ofByte? b = some .number)
    (scanned : Scanner.number (b :: rest) = .ok text behind)
    : numberTokens (b :: rest) = text :: numberTokens behind := by
  have first : b ≠ 34 ∧ (b = 45 ∨ (48 ≤ b ∧ b ≤ 57)) := by
    unfold ValueKind.ofByte? at kind
    repeat' split at kind
    all_goals first | exact ⟨by assumption, by assumption⟩ | cases kind
  rw [numberTokens, if_neg first.1, if_pos first.2]
  split
  · rename_i found
    cases found.symm.trans scanned
    rfl
  · rename_i found
    cases found.symm.trans scanned

/-- There are no number tokens in other bytes. -/
theorem numberTokens_other (other : b ≠ 34) (none : ¬(b = 45 ∨ (48 ≤ b ∧ b ≤ 57)))
    : numberTokens (b :: rest) = numberTokens rest := by
  rw [numberTokens, if_neg other, if_neg none]

/-- By induction on the document. -/
theorem numberTokens_dropBlanks (bytes : List UInt8)
    : numberTokens (dropBlanks bytes) = numberTokens bytes := by
  induction bytes with
  | nil => rfl
  | cons b rest ih =>
      by_cases blank : isBlank b
      · have dropped : dropBlanks (b :: rest) = dropBlanks rest := List.dropWhile_cons_of_pos blank
        simp only [isBlank, Bool.or_eq_true, beq_iff_eq] at blank
        rcases blank with ((rfl | rfl) | rfl) | rfl
          <;> rw [dropped, ih, numberTokens_other (by decide) (by decide)]
      · have kept : dropBlanks (b :: rest) = b :: rest := List.dropWhile_cons_of_neg blank
        rw [kept]

/-- By induction on the word. -/
theorem numberTokens_append {word : List UInt8}
    (others : ∀ b ∈ word, b ≠ 34 ∧ ¬(b = 45 ∨ (48 ≤ b ∧ b ≤ 57)))
    : numberTokens (word ++ rest) = numberTokens rest := by
  induction word with
  | nil => rfl
  | cons b word ih =>
      have first := others b List.mem_cons_self
      rw [List.cons_append, numberTokens_other first.1 first.2,
        ih fun b listed => others b (List.mem_cons_of_mem _ listed)]

end

-----------------------------------------------------------------------------------------
-- Numbers behind what was passed over
-----------------------------------------------------------------------------------------

namespace Scanner

/-- The numbers behind what was scanned are among those of the document. -/
def Keeps {α : Type} (scanner : Scanner α) : Prop :=
  ∀ bytes v rest, scanner bytes = .ok v rest → numberTokens rest <:+ numberTokens bytes

section

variable {bytes rest : List UInt8} {value others : Scanner Unit} {fault : SyntaxFault}

theorem keeps_literal {word : String}
    (others : (Text.utf8 word).all fun b => b ≠ 34 ∧ ¬(b = 45 ∨ (48 ≤ b ∧ b ≤ 57)))
    : (literal word).Keeps := by
  have others := fun b listed => of_decide_eq_true (List.all_eq_true.mp others b listed)
  intro bytes v rest scanned
  simp only [literal] at scanned
  split at scanned <;> cases scanned
  rename_i front
  obtain ⟨rest, rfl⟩ := List.isPrefixOf_iff_prefix.mp front
  rw [List.drop_left, numberTokens_append others]

/-- A byte that was expected stands in front of the rest. -/
theorem dropBlanks_of_expect {b : UInt8} (scanned : expect b fault bytes = .ok () rest)
    : dropBlanks bytes = b :: rest := by
  obtain ⟨next, behind, peeked, scanned⟩ := ok_of_bind scanned
  cases peeked
  split at scanned
  · rename_i first
    obtain ⟨others, visible⟩ := List.head?_eq_some_iff.mp (beq_iff_eq.mp first)
    rw [visible] at scanned ⊢
    cases scanned
    rfl
  · cases scanned

/-- A key is a string that begins with a quote, and a colon stands behind it. -/
theorem dropBlanks_of_keyAndColon {key : String} (scanned : keyAndColon bytes = .ok key rest)
    : ∃ start behind, dropBlanks bytes = 34 :: start ∧ string (34 :: start) = .ok key behind
      ∧ dropBlanks behind = 58 :: rest := by
  obtain ⟨next, start, peeked, scanned⟩ := ok_of_bind scanned
  cases peeked
  split at scanned
  · rename_i first
    obtain ⟨start, visible⟩ := List.head?_eq_some_iff.mp (beq_iff_eq.mp first)
    obtain ⟨key', behind, named, scanned⟩ := ok_of_bind scanned
    obtain ⟨_, rest', colon, scanned⟩ := ok_of_bind scanned
    cases scanned
    rw [visible] at named
    exact ⟨start, behind, visible, named, dropBlanks_of_expect colon⟩
  · cases scanned

/-- Passing over a key keeps the number tokens behind it. -/
theorem keeps_keyAndColon
    : keyAndColon.Keeps := by
  intro bytes key rest scanned
  obtain ⟨start, behind, visible, named, colon⟩ := dropBlanks_of_keyAndColon scanned
  rw [← numberTokens_dropBlanks bytes, visible, numberTokens_string named,
    ← numberTokens_dropBlanks behind, colon, numberTokens_other (by decide) (by decide)]

/-- Behind a member or element stands the end of the container, or a comma and more. -/
theorem dropBlanks_of_proceed {close : UInt8}
    (scanned : proceed close fault others bytes = .ok () rest)
    : dropBlanks bytes = close :: rest ∨ ∃ start, dropBlanks bytes = 44 :: start
      ∧ others start = .ok () rest := by
  unfold proceed at scanned
  split at scanned
  · cases scanned
  rename_i b start visible
  split at scanned
  · rename_i comma
    exact .inr ⟨start, by rw [visible, comma], scanned⟩
  split at scanned
  · rename_i closing
    cases scanned
    exact .inl (by rw [visible, closing])
  · cases scanned

/-- By induction on the length of the members. -/
theorem keeps_skipMembers (suffixes : value.Suffixes) (keeps : value.Keeps)
    : Keeps (skipMembers value) := by
  intro bytes
  induction length : bytes.length using Nat.strongRecOn generalizing bytes with
  | ind n ih =>
      intro _ rest scanned
      rw [skipMembers_unfold suffixes] at scanned
      obtain ⟨key, start, keyed, scanned⟩ := ok_of_bind scanned
      obtain ⟨_, behind, passed, scanned⟩ := ok_of_bind scanned
      refine List.IsSuffix.trans ?_ ((keeps _ _ _ passed).trans (keeps_keyAndColon _ _ _ keyed))
      rw [← numberTokens_dropBlanks behind]
      rcases dropBlanks_of_proceed scanned with closing | ⟨others, comma, more⟩
      · rw [closing, numberTokens_other (by decide) (by decide)]
      · rw [comma, numberTokens_other (by decide) (by decide)]
        have short := consumes_keyAndColon _ _ _ keyed
        have inside := ((dropBlanks_suffix behind).trans (suffixes.of_ok passed)).length_le
        rw [comma, List.length_cons] at inside
        exact ih _ (by omega) others rfl _ _ more

/-- By induction on the length of the elements. -/
theorem keeps_skipElements (taken : value.Consumes) (keeps : value.Keeps)
    : Keeps (skipElements value) := by
  intro bytes
  induction length : bytes.length using Nat.strongRecOn generalizing bytes with
  | ind n ih =>
      intro _ rest scanned
      rw [skipElements_unfold taken] at scanned
      obtain ⟨_, behind, passed, scanned⟩ := ok_of_bind scanned
      refine List.IsSuffix.trans ?_ (keeps _ _ _ passed)
      rw [← numberTokens_dropBlanks behind]
      rcases dropBlanks_of_proceed scanned with closing | ⟨others, comma, more⟩
      · rw [closing, numberTokens_other (by decide) (by decide)]
      · rw [comma, numberTokens_other (by decide) (by decide)]
        have short := taken _ _ _ passed
        have inside := (dropBlanks_suffix behind).length_le
        rw [comma, List.length_cons] at inside
        exact ih _ (by omega) others rfl _ _ more

end

end Scanner

/-- What is left of a container is its end, or a first member or element, or a comma and more. -/
theorem Reader.dropBlanks_of_remainder {close : UInt8} {fault : SyntaxFault} {others : Scanner Unit}
    {first : Bool} {bytes rest : List UInt8} (bracket : close ≠ 44)
    (scanned : remainder close fault others first bytes = .ok () rest)
    : dropBlanks bytes = close :: rest ∨ ∃ start, (dropBlanks bytes).head? ≠ some close
      ∧ dropBlanks bytes = (if first then start else 44 :: start) ∧ others start = .ok () rest := by
  cases first with
  | true =>
      obtain ⟨next, behind, peeked, scanned⟩ := Scanner.ok_of_bind scanned
      cases peeked
      split at scanned
      · rename_i closing
        obtain ⟨start, visible⟩ := List.head?_eq_some_iff.mp (beq_iff_eq.mp closing)
        rw [visible] at scanned ⊢
        cases scanned
        exact .inl rfl
      · rename_i other
        exact .inr ⟨_, fun closing => other (beq_iff_eq.mpr closing), rfl, scanned⟩
  | false =>
      rcases Scanner.dropBlanks_of_proceed scanned with closing | ⟨start, comma, more⟩
      · exact .inl closing
      · refine .inr ⟨start, ?_, comma, more⟩
        rw [comma]
        exact fun same => bracket (Option.some.inj same).symm

/-- How a value is passed over that begins with the first byte. -/
inductive Scanner.Passage (depth : Nat) (rest : List UInt8) : List UInt8 → Prop
  | object {start : List UInt8} (passed : Reader.membersBehind true depth start = .ok () rest)
    : Passage depth rest (123 :: start)
  | array {start : List UInt8} (passed : Reader.elementsBehind true depth start = .ok () rest)
    : Passage depth rest (91 :: start)
  | string {start : List UInt8} {text : String} (scanned : string (34 :: start) = .ok text rest)
    : Passage depth rest (34 :: start)
  | true {start : List UInt8} (scanned : literal "true" (116 :: start) = .ok () rest)
    : Passage depth rest (116 :: start)
  | false {start : List UInt8} (scanned : literal "false" (102 :: start) = .ok () rest)
    : Passage depth rest (102 :: start)
  | null {start : List UInt8} (scanned : literal "null" (110 :: start) = .ok () rest)
    : Passage depth rest (110 :: start)
  | number {b : UInt8} {start : List UInt8} {text : String}
    (kind : ValueKind.ofByte? b = some .number) (scanned : number (b :: start) = .ok text rest)
    : Passage depth rest (b :: start)

namespace Scanner

/-- A value that is passed over has one more level than what is inside it. -/
theorem passage_of_skipValue {depth : Nat} {bytes rest : List UInt8}
    (passed : skipValue depth bytes = .ok () rest)
    : ∃ inner, depth = inner + 1 ∧ Passage inner rest (dropBlanks bytes) := by
  cases depth with
  | zero => cases passed
  | succ depth =>
      rw [skipValue_succ] at passed
      refine ⟨depth, rfl, ?_⟩
      cases visible : dropBlanks bytes with
      | nil =>
          rw [visible] at passed
          cases passed
      | cons b start =>
          rw [visible] at passed
          simp only [skipFrom] at passed
          split at passed
          · subst b
            exact .object passed
          split at passed
          · subst b
            exact .array passed
          split at passed
          · subst b
            obtain ⟨text, behind, scanned, done⟩ := ok_of_bind passed
            cases done
            exact .string scanned
          split at passed
          · subst b
            exact .true passed
          split at passed
          · subst b
            exact .false passed
          split at passed
          · subst b
            exact .null passed
          split at passed
          · rename_i starts
            obtain ⟨text, behind, scanned, done⟩ := ok_of_bind passed
            cases done
            exact .number (kind_of_number starts) scanned
          · cases passed

/-- By induction on how deep the value may nest. -/
theorem keeps_skipValue (depth : Nat)
    : (skipValue depth).Keeps := by
  induction depth with
  | zero =>
      intro bytes _ rest passed
      cases passed
  | succ depth ih =>
      intro bytes _ rest passed
      obtain ⟨inner, same, passage⟩ := passage_of_skipValue passed
      cases same
      rw [← numberTokens_dropBlanks bytes]
      generalize dropBlanks bytes = visible at passage
      cases passage with
      | @object start passed =>
          rw [numberTokens_other (by decide) (by decide), ← numberTokens_dropBlanks start]
          rcases Reader.dropBlanks_of_remainder (by decide) passed with closing
            | ⟨_, _, begun, more⟩
          · rw [closing, numberTokens_other (by decide) (by decide)]
          · rw [begun]
            exact keeps_skipMembers (suffixes_skipValue _) ih _ _ _ more
      | @array start passed =>
          rw [numberTokens_other (by decide) (by decide), ← numberTokens_dropBlanks start]
          rcases Reader.dropBlanks_of_remainder (by decide) passed with closing
            | ⟨_, _, begun, more⟩
          · rw [closing, numberTokens_other (by decide) (by decide)]
          · rw [begun]
            exact keeps_skipElements (consumes_skipValue _) ih _ _ _ more
      | string scanned =>
          rw [numberTokens_string scanned]
      | true scanned | false scanned | null scanned =>
          exact keeps_literal (by decide) _ _ _ scanned
      | number kind scanned =>
          rw [numberTokens_number kind scanned]
          exact List.suffix_cons _ _

end Scanner

-----------------------------------------------------------------------------------------
-- Steps that succeed
-----------------------------------------------------------------------------------------

namespace Reader

variable {α : Type} {r : Reader} {container : Container} {first : Bool} {frames : List Frame}
  {start rest : List UInt8}

theorem scan_of_ok {scanner : Scanner α} {v : α} (scanned : scanner r.rest = .ok v rest)
    : r.scan scanner = (some v, { r with rest }) := by
  rw [scan, scanned]

/-- An opening bracket is stepped into, within the limit. -/
theorem enter_of_opening (sound : r.fault = none)
    (opening : dropBlanks r.rest = container.opening :: start)
    : r.enter container
        = if maxDepth ≤ r.frames.length then (false, r.beginValue.malformed .nestingTooDeep)
          else (true, { r with
            pending := false
            rest := start
            frames := ⟨container, true⟩ :: r.frames }) := by
  unfold enter
  rw [sound]
  simp only [beginValue, skipBlanks, opening, List.head?_cons, if_true, List.tail_cons, sound]

/-- In front of a part the cursor moves to it, over the comma if there is one. -/
theorem advance_of_begun (sound : r.fault = none) (idle : r.pending = false)
    (inside : r.frames = ⟨container, first⟩ :: frames)
    (other : (dropBlanks r.rest).head? ≠ some container.closing)
    (begun : dropBlanks r.rest = (if first then start else 44 :: start))
    : r.advance container
        = (true, { r with rest := start, frames := ⟨container, false⟩ :: frames }) := by
  rw [advance_of_inside sound idle inside, if_neg other, begun]
  cases first with
  | true => rfl
  | false => rfl

/-- In front of a member the next key is scanned. -/
theorem nextKey_of_begun {key : String} (sound : r.fault = none) (idle : r.pending = false)
    (inside : r.frames = ⟨.object, first⟩ :: frames)
    (other : (dropBlanks r.rest).head? ≠ some 125)
    (begun : dropBlanks r.rest = (if first then start else 44 :: start))
    (keyed : Scanner.keyAndColon start = .ok key rest)
    : r.nextKey
        = (some key, { r with rest, frames := ⟨.object, false⟩ :: frames, pending := true }) := by
  rw [nextKey_eq, advance_of_begun sound idle inside other begun]
  simp only [scan, keyed]

/-- In front of an element there is a next one. -/
theorem nextElement_of_begun (sound : r.fault = none) (idle : r.pending = false)
    (inside : r.frames = ⟨.array, first⟩ :: frames)
    (other : (dropBlanks r.rest).head? ≠ some 93)
    (begun : dropBlanks r.rest = (if first then start else 44 :: start))
    : r.nextElement
        = (true,
          { r with rest := start, frames := ⟨.array, false⟩ :: frames, pending := true }) := by
  rw [nextElement, advance_of_begun sound idle inside other begun]

/-- A closing bracket ends the container. -/
theorem advance_of_closing (sound : r.fault = none) (idle : r.pending = false)
    (inside : r.frames = ⟨container, first⟩ :: frames)
    (closing : dropBlanks r.rest = container.closing :: rest)
    : r.advance container = (false, { r with rest, frames }) := by
  rw [advance_of_inside sound idle inside, closing, List.head?_cons, if_pos rfl]
  rfl

/-- A string that can be scanned is read. -/
theorem string_of_scanned {text : String} (sound : r.fault = none)
    (visible : dropBlanks r.rest = 34 :: start)
    (scanned : Scanner.string (34 :: start) = .ok text rest)
    : r.string = (text, { r with pending := false, rest }) := by
  have begun : r.beginValue.rest = 34 :: start := visible
  have kind : ValueKind.ofByte? 34 = some .string := rfl
  rw [string, stringAs, sound]
  simp only [peekKind_beginValue sound, begun, List.head?_cons, Option.bind_some, kind]
  rw [scan_of_ok (begun ▸ scanned), beginValue_fault, sound]
  rfl

/-- A number that can be scanned is read. -/
theorem numericText_of_scanned {b : UInt8} {text : String} (sound : r.fault = none)
    (kind : ValueKind.ofByte? b = some .number)
    (visible : dropBlanks r.rest = b :: start)
    (scanned : Scanner.number (b :: start) = .ok text rest) (type : String)
    : r.numericText type = (some text, { r with pending := false, rest }) := by
  have begun : r.beginValue.rest = b :: start := visible
  rw [numericText, sound]
  simp only [peekKind_beginValue sound, begun, List.head?_cons, Option.bind_some, kind]
  rw [scan_of_ok (begun ▸ scanned), beginValue_fault, sound]
  rfl

/-- A boolean that can be scanned is read. -/
theorem bool_of_scanned {b : UInt8} (sound : r.fault = none)
    (visible : dropBlanks r.rest = b :: start)
    (scanned : b = 116 ∧ Scanner.literal "true" (b :: start) = .ok () rest
      ∨ b = 102 ∧ Scanner.literal "false" (b :: start) = .ok () rest)
    : r.bool.2 = { r with pending := false, rest } := by
  have begun : r.beginValue.rest = b :: start := visible
  rw [bool, sound]
  rcases scanned with ⟨rfl, scanned⟩ | ⟨rfl, scanned⟩
  · have kind : ValueKind.ofByte? 116 = some .bool := rfl
    simp only [peekKind_beginValue sound, begun, List.head?_cons, Option.bind_some, kind, if_true]
    rw [scan_of_ok (begun ▸ scanned), beginValue_fault, sound]
    rfl
  · have kind : ValueKind.ofByte? 102 = some .bool := rfl
    have other : ¬some (102 : UInt8) = some 116 := by decide
    simp only [peekKind_beginValue sound, begun, List.head?_cons, Option.bind_some, kind,
      other, if_false]
    rw [scan_of_ok (begun ▸ scanned), beginValue_fault, sound]
    rfl

/-- A null that can be scanned is taken. -/
theorem null_of_scanned (sound : r.fault = none) (visible : dropBlanks r.rest = 110 :: start)
    (scanned : Scanner.literal "null" (110 :: start) = .ok () rest)
    : r.null.2 = { r with pending := false, rest } := by
  have begun : r.skipBlanks.beginValue.rest = 110 :: start :=
    (dropBlanks_dropBlanks r.rest).trans visible
  have kind : ValueKind.ofByte? 110 = some .null := rfl
  rw [null, peekKind_of_sound sound, visible]
  simp only [List.head?_cons, Option.bind_some, kind]
  rw [scan_of_ok (begun ▸ scanned)]
  rfl

end Reader

-----------------------------------------------------------------------------------------
-- Dynamic values
-----------------------------------------------------------------------------------------

/-- The fault says that containers nest too deep. -/
def Fault.TooDeep (fault : Fault) : Prop :=
  ∃ offset, fault.cause = .malformed offset .nestingTooDeep

/-- The reader has not failed, unless containers nest too deep. -/
def Reader.Fares (r : Reader) : Prop :=
  ∀ fault, r.fault = some fault → fault.TooDeep

/-- A reader without a fault has fared well. -/
theorem Reader.fares_of_sound {r : Reader} (sound : r.fault = none)
    : r.Fares := by
  intro fault failed
  rw [sound] at failed
  cases failed

/-- A reader that went too deep has fared well. -/
theorem Reader.fares_of_deep (r : Reader) (sound : r.fault = none)
    : (r.beginValue.malformed .nestingTooDeep).Fares := by
  intro fault failed
  rw [malformed, latch_of_sound (r := r.beginValue) sound] at failed
  cases failed
  exact ⟨_, rfl⟩

/-- Two passages from the same bytes come to the same end. -/
theorem Scanner.Skips.eq_of_skipValue {depth : Nat} {bytes rest rest' : List UInt8}
    (h : Skips bytes rest) (passed : Scanner.skipValue depth bytes = .ok () rest')
    : rest = rest' := by
  have same := h.skipValue depth fun _ deep => by
    rw [deep] at passed
    cases passed
  cases same.symm.trans passed
  rfl

/-- The number tokens behind a value are among those of the document. -/
theorem FiniteNumbers.suffix {bytes rest : List UInt8} (finite : FiniteNumbers bytes)
    (behind : numberTokens rest <:+ numberTokens bytes)
    : FiniteNumbers rest :=
  fun text listed => finite text (behind.subset listed)

theorem FiniteNumbers.dropBlanks {bytes : List UInt8} (finite : FiniteNumbers bytes)
    : FiniteNumbers (dropBlanks bytes) :=
  finite.suffix (by rw [numberTokens_dropBlanks])

/-- Numbers stay finite behind a byte of another token. -/
theorem FiniteNumbers.other {b : UInt8} {rest : List UInt8} (finite : FiniteNumbers (b :: rest))
    (other : b ≠ 34) (none : ¬(b = 45 ∨ (48 ≤ b ∧ b ≤ 57)))
    : FiniteNumbers rest :=
  finite.suffix (by rw [numberTokens_other other none])

/-- Numbers stay finite behind the comma in front of a part. -/
theorem FiniteNumbers.begun {bytes start : List UInt8} {first : Bool} (finite : FiniteNumbers bytes)
    (begun : Json.dropBlanks bytes = (if first then start else 44 :: start))
    : FiniteNumbers start := by
  have visible := finite.dropBlanks
  rw [begun] at visible
  cases first with
  | true => exact visible
  | false => exact visible.other (by decide) (by decide)

/-- A finite number is read as a `double`. -/
theorem doubleOfText_of_finite {text : String} (legal : isNumber text.toList)
    (finite : IsFinite text)
    : ∃ bits, Reader.doubleOfText text = .ok bits := by
  have number (word : String) (same : text = word) : isNumber word.toList := same ▸ legal
  unfold Reader.doubleOfText
  rw [if_neg fun same => absurd (number _ same) (by decide),
    if_neg fun same => absurd (number _ same) (by decide),
    if_neg fun same => absurd (number _ same) (by decide), legal]
  exact ⟨_, if_pos finite⟩

/-- What is scanned as a number is one. -/
theorem isNumber_of_scanned {bytes rest : List UInt8} {text : String}
    (scanned : Scanner.number bytes = .ok text rest)
    : isNumber text.toList := by
  simp only [Scanner.number] at scanned
  split at scanned <;> cases scanned
  rwa [String.toList_ofList]

/-- What a reader of values does with one that can be passed over, so deep, and has finite numbers.
-/
def FaresOn (depth : Nat) (read : Reader → Reader) : Prop :=
  ∀ r behind, r.fault = none → Scanner.skipValue depth r.rest = .ok () behind → FiniteNumbers r.rest
    → (read r).Fares

section

variable {α : Type} {depth : Nat} {first : Bool} {frames : List Frame} {rest : List UInt8}

/-- The members of an object that can be passed over are read, by induction on what is left. -/
theorem fares_keys {read : String → α → Reader → α × Reader}
    (onward : ∀ key v (r : Reader), r.Onward (read key v r).2)
    (outcome : ∀ key v (r : Reader), r.fault = none → r.Outcome False (read key v r).2)
    (fares : ∀ key v, FaresOn depth fun r => (read key v r).2) (v : α) {r : Reader}
    (sound : r.fault = none) (idle : r.pending = false)
    (inside : r.frames = ⟨.object, first⟩ :: frames)
    (passed : Reader.membersBehind first depth r.rest = .ok () rest) (finite : FiniteNumbers r.rest)
    : (r.keys read v).2.Fares := by
  induction length : r.rest.length using Nat.strongRecOn generalizing first v r with
  | ind n ih =>
      rw [Reader.keys_unfold onward]
      rcases Reader.dropBlanks_of_remainder (by decide) passed with closing
        | ⟨start, other, begun, more⟩
      · have ended : r.nextKey = (none, { r with rest, frames }) := by
          rw [Reader.nextKey_eq, Reader.advance_of_closing sound idle inside closing]
        rw [ended]
        exact Reader.fares_of_sound sound
      rw [Scanner.skipMembers_unfold (Scanner.suffixes_skipValue _)] at more
      obtain ⟨key, value, keyed, more⟩ := Scanner.ok_of_bind more
      obtain ⟨_, behind, skipped, more⟩ := Scanner.ok_of_bind more
      obtain ⟨r', reached, sound', rest', frames'⟩ : ∃ r', r.nextKey = (some key, r')
        ∧ r'.fault = none
          ∧ r'.rest = value ∧ r'.frames = ⟨.object, false⟩ :: frames :=
        ⟨_, Reader.nextKey_of_begun sound idle inside other begun keyed, sound, rfl, rfl⟩
      have finite' : FiniteNumbers r'.rest :=
        rest' ▸ (finite.begun begun).suffix (Scanner.keeps_keyAndColon _ _ _ keyed)
      rw [reached]
      rcases outcome key v r' sound' with failed | ⟨never, _⟩ | took
      · dsimp only
        rw [keys_of_fault read _ failed]
        exact fares key v r' behind sound' (rest' ▸ skipped) finite'
      · exact never.elim
      · have shorter := Nat.lt_of_le_of_lt (onward key v r').length_le
          (Reader.length_lt_nextKey reached)
        have atEnd : (read key v r').2.rest = behind := took.skips.eq_of_skipValue (rest' ▸ skipped)
        refine ih _ (length ▸ shorter) _ took.sound took.pending
          (took.frames.trans frames') ?_ ?_ rfl
        · rw [atEnd]
          exact more
        · rw [atEnd]
          exact finite'.suffix (Scanner.keeps_skipValue _ _ _ _ (rest' ▸ skipped))

/-- The elements of an array that can be passed over are read, by induction on what is left. -/
theorem fares_elements {read : α → Reader → α × Reader}
    (outcome : ∀ v (r : Reader), r.fault = none → r.Outcome False (read v r).2)
    (fares : ∀ v, FaresOn depth fun r => (read v r).2) (v : α) {r : Reader}
    (sound : r.fault = none) (idle : r.pending = false)
    (inside : r.frames = ⟨.array, first⟩ :: frames)
    (passed : Reader.elementsBehind first depth r.rest = .ok () rest)
    (finite : FiniteNumbers r.rest)
    : (r.elements read v).2.Fares := by
  induction length : r.rest.length using Nat.strongRecOn generalizing first v r with
  | ind n ih =>
      rw [Reader.elements_unfold fun v r sound => (outcome v r sound).weaken False.elim]
      rcases Reader.dropBlanks_of_remainder (by decide) passed with closing
        | ⟨start, other, begun, more⟩
      · have ended : r.nextElement = (false, { r with rest, frames }) := by
          rw [Reader.nextElement, Reader.advance_of_closing sound idle inside closing]
        rw [ended]
        exact Reader.fares_of_sound sound
      rw [Scanner.skipElements_unfold (Scanner.consumes_skipValue _)] at more
      obtain ⟨_, behind, skipped, more⟩ := Scanner.ok_of_bind more
      obtain ⟨r', reached, sound', rest', frames'⟩ : ∃ r', r.nextElement = (true, r')
        ∧ r'.fault = none
          ∧ r'.rest = start ∧ r'.frames = ⟨.array, false⟩ :: frames :=
        ⟨_, Reader.nextElement_of_begun sound idle inside other begun, sound, rfl, rfl⟩
      have finite' : FiniteNumbers r'.rest := rest' ▸ finite.begun begun
      rw [reached]
      rcases outcome v r' sound' with failed | ⟨never, _⟩ | took
      · dsimp only
        rw [elements_of_fault read _ failed]
        exact fares v r' behind sound' (rest' ▸ skipped) finite'
      · exact never.elim
      · have moved := Reader.onward_nextElement r
        rw [reached] at moved
        have shorter := Nat.lt_of_lt_of_le took.skips.length_lt moved.length_le
        have atEnd : (read v r').2.rest = behind := took.skips.eq_of_skipValue (rest' ▸ skipped)
        refine ih _ (length ▸ shorter) _ took.sound took.pending
          (took.frames.trans frames') ?_ ?_ rfl
        · rw [atEnd]
          exact more
        · rw [atEnd]
          exact finite'.suffix (Scanner.keeps_skipValue _ _ _ _ (rest' ▸ skipped))

end

section

variable {s : Schema} (known : s.HasWellKnown)

/-- A dynamic value is read as a message of its type. -/
theorem readDynamic_snd {read : MessageReader} (known : s.HasWellKnown) (r : Reader)
    : (readDynamic s read r).2 = (read WellKnown.valueType (s.empty dynamicType) r).2 := by
  rw [readDynamic, dynamicType, type_value known]

variable (flat : ∀ name, name ∉ wellKnownNames → (s.type name).form ≠ .any)

include flat

/-- Reading a dynamic value goes by its kind. -/
theorem readMessage_value (m : Message) (r : Reader)
    : (readMessage s WellKnown.valueType m r).2 = (readKind s (readMessage s) m.slots r).2 := by
  rw [readMessage_unfold flat]
  rfl

include known

/-- Reading a dynamic value takes one value, or fails. -/
theorem outcome_dynamic {r : Reader} (sound : r.fault = none)
    : r.Outcome False (readDynamic s (readMessage s) r).2 := by
  rw [readDynamic_snd known]
  exact outcome_readMessage_of_fits flat trivial sound

theorem outcome_withField_dynamic (key : String) {r : Reader} (sound : r.fault = none)
    : r.Outcome False (r.withField key (readDynamic s (readMessage s))).2 :=
  (outcome_dynamic known flat (r := { r with path := r.path.push key }) sound).congr rfl rfl rfl rfl
    rfl rfl rfl

/-- A value that can be passed over and has finite numbers is read as a dynamic value, unless
containers nest too deep: by induction on how deep the passage may go.
-/
theorem fares_value (depth : Nat) (m : Message)
    : FaresOn depth fun r => (readMessage s WellKnown.valueType m r).2 := by
  induction depth generalizing m with
  | zero =>
      intro r behind _ passed
      cases passed
  | succ depth ih =>
      intro q behind sound passed finite
      obtain ⟨inner, same, passage⟩ := Scanner.passage_of_skipValue passed
      cases same
      have inside : FaresOn depth fun r => (readDynamic s (readMessage s) r).2 := fun r behind => by
        dsimp only
        rw [readDynamic_snd known]
        exact ih _ r behind
      have finite' := finite.dropBlanks
      have begun : dropBlanks q.skipBlanks.rest = dropBlanks q.rest := dropBlanks_dropBlanks _
      dsimp only
      rw [readMessage_value flat, readKind, Reader.peekKind_of_sound sound]
      replace sound : q.skipBlanks.fault = none := sound
      generalize dropBlanks q.rest = visible at passage finite' begun
      generalize q.skipBlanks = r at sound begun
      cases passage with
      | @object start passed =>
          have kind : (123 :: start).head?.bind ValueKind.ofByte? = some .object := rfl
          have opening : dropBlanks r.rest = Container.object.opening :: start := begun
          simp only [kind, readFields, Reader.object]
          rw [Reader.enter_of_opening sound opening]
          -- The containers around the value count, too, so the reader may be at its limit.
          by_cases deep : maxDepth ≤ r.frames.length
          · rw [if_pos deep]
            exact Reader.fares_of_deep r sound
          · rw [if_neg deep]
            refine fares_keys ?_ ?_ ?_ _ sound rfl rfl passed
              (finite'.other (by decide) (by decide))
            · exact fun key _ r =>
                ((program_dynamic s).field key).onward (onward_readMessage flat) r
            · exact fun key _ r sound => outcome_withField_dynamic known flat key sound
            · exact fun key _ r behind sound passed finite =>
                inside { r with path := r.path.push key } behind sound passed finite
      | @array start passed =>
          have kind : (91 :: start).head?.bind ValueKind.ofByte? = some .array := rfl
          have opening : dropBlanks r.rest = Container.array.opening :: start := begun
          simp only [kind, readItems, Reader.array]
          rw [Reader.enter_of_opening sound opening]
          by_cases deep : maxDepth ≤ r.frames.length
          · rw [if_pos deep]
            exact Reader.fares_of_deep r sound
          · rw [if_neg deep]
            refine fares_elements ?_ ?_ _ sound rfl rfl passed
              (finite'.other (by decide) (by decide))
            · exact fun _ r sound => outcome_dynamic known flat sound
            · exact fun _ r behind sound passed finite => inside r behind sound passed finite
      | @string start text scanned =>
          have kind : (34 :: start).head?.bind ValueKind.ofByte? = some .string := rfl
          simp only [kind]
          rw [Reader.string_of_scanned sound begun scanned]
          exact Reader.fares_of_sound sound
      | @true start scanned =>
          have kind : (116 :: start).head?.bind ValueKind.ofByte? = some .bool := rfl
          simp only [kind]
          rw [Reader.bool_of_scanned sound begun (.inl ⟨rfl, scanned⟩)]
          exact Reader.fares_of_sound sound
      | @false start scanned =>
          have kind : (102 :: start).head?.bind ValueKind.ofByte? = some .bool := rfl
          simp only [kind]
          rw [Reader.bool_of_scanned sound begun (.inr ⟨rfl, scanned⟩)]
          exact Reader.fares_of_sound sound
      | @null start scanned =>
          have kind : (110 :: start).head?.bind ValueKind.ofByte? = some .null := rfl
          simp only [kind]
          rw [Reader.null_of_scanned sound begun scanned]
          exact Reader.fares_of_sound sound
      | @number b start text number scanned =>
          have kind : (b :: start).head?.bind ValueKind.ofByte? = some .number := number
          have token := numberTokens_number number scanned
          obtain ⟨bits, denoted⟩ := doubleOfText_of_finite (isNumber_of_scanned scanned)
            (finite' text (by rw [token]; exact List.mem_cons_self))
          simp only [kind]
          rw [Reader.double, Reader.floating,
            Reader.numericText_of_scanned sound number begun scanned]
          simp only [denoted]
          exact Reader.fares_of_sound sound

end

-----------------------------------------------------------------------------------------
-- Documents
-----------------------------------------------------------------------------------------

/-- The slots of a message of its type show the form of the type. -/
theorem fits_of_typed {s : Schema} {t : MessageType} {m : Message} (json : t.HasJson)
    (typed : m.Typed s t)
    : Fits t m.slots := by
  obtain ⟨slots, unknown⟩ := m
  have conforms : slotsConform s t.members (slotsKnown slots) := typed.1
  unfold Fits
  unfold MessageType.HasJson at json
  generalize form : t.form = f at json
  generalize shapes : t.members.map (·.shape) = shape at json
  cases json with
  | members | filler | timestamp | duration | fieldMask | value | any => trivial
  | bare | wrapper =>
      obtain ⟨m, members, shape⟩ := List.map_eq_singleton_iff.mp shapes
      simp only [soleType, members, shape, Option.isSome_some]
  | struct =>
      obtain ⟨m, members, shape⟩ := List.map_eq_singleton_iff.mp shapes
      rw [members] at conforms
      obtain ⟨slot, others, rfl, known, none⟩ := slotsKnown_cons conforms
      obtain ⟨es, rfl, -⟩ := Slot.entries_of_known known shape
      cases slotsKnown_nil none
      exact ⟨es, rfl⟩
  | listValue =>
      obtain ⟨m, members, shape⟩ := List.map_eq_singleton_iff.mp shapes
      rw [members] at conforms
      obtain ⟨slot, others, rfl, known, none⟩ := slotsKnown_cons conforms
      obtain ⟨vs, rfl, -⟩ := Slot.many_of_known known shape
      cases slotsKnown_nil none
      exact ⟨vs, rfl⟩

/-- Blanks in front of a value make no difference to the passage. -/
theorem Scanner.skipValue_dropBlanks (depth : Nat) (bytes : List UInt8)
    : skipValue (depth + 1) (dropBlanks bytes) = skipValue (depth + 1) bytes := by
  rw [skipValue_succ, skipValue_succ, dropBlanks_dropBlanks]

theorem Reader.isSome_malformed (r : Reader) (fault : SyntaxFault)
    : (r.malformed fault).fault.isSome :=
  isSome_latch r _

/-- A fault is what comes out in the end. -/
theorem finish_fst_of_fault {r : Reader} {fault : Fault} (failed : r.fault = some fault)
    : r.finish.1 = some fault := by
  rw [Reader.finish, failed]

/-- Behind the value of a document there are only blanks. -/
theorem finish_fst_of_sound {r : Reader} (sound : r.fault = none)
    : r.finish.1
        = if dropBlanks r.rest = [] then none
          else some ⟨.unmarshal, r.path.dotted, .trailingData⟩ := by
  split
  · rename_i blank
    rw [Reader.finish_of_blank sound blank]
  · rename_i more
    rw [Reader.finish_of_trailing sound more, Reader.latch_of_sound (r := r.skipBlanks) sound]
    rfl

/-- A document is read to its end without a fault. -/
theorem finish_eq_none {r : Reader}
    : r.finish.1 = none ↔ r.fault = none ∧ dropBlanks r.rest = [] := by
  cases failed : r.fault with
  | some fault =>
      rw [finish_fst_of_fault failed]
      exact ⟨nofun, fun ⟨sound, _⟩ => nomatch sound⟩
  | none =>
      rw [finish_fst_of_sound failed]
      split
      · exact ⟨fun _ => ⟨rfl, ‹_›⟩, fun _ => rfl⟩
      · exact ⟨nofun, fun ⟨_, blanks⟩ => absurd blanks ‹_›⟩

/-- The reader that has passed over a document, or has failed with the fault of the passage. -/
theorem skip_eq {r : Reader} (sound : r.fault = none)
    : r.skip
        = match Scanner.skipValue maxDepth r.rest with
          | .ok () rest => { r with pending := false, rest }
          | .error fault rest => ({ r with pending := false, rest } : Reader).malformed fault := by
  have blanks : Scanner.skipValue maxDepth r.beginValue.rest = Scanner.skipValue maxDepth r.rest :=
    Scanner.skipValue_dropBlanks 127 r.rest
  rw [Reader.skip, sound]
  simp only [Reader.scan, blanks]
  cases Scanner.skipValue maxDepth r.rest with
  | error fault rest =>
      rw [← sound]
      rfl
  | ok _ rest =>
      rw [← sound]
      rfl

/-- A document can be passed over if a value is there and nothing but blanks behind it. -/
theorem finish_skip_eq_none {r : Reader} (sound : r.fault = none)
    : r.skip.finish.1 = none
      ↔ ∃ rest, Scanner.skipValue maxDepth r.rest = .ok () rest ∧ dropBlanks rest = [] := by
  rw [finish_eq_none, skip_eq sound]
  cases passed : Scanner.skipValue maxDepth r.rest with
  | ok _ rest =>
      refine ⟨fun ⟨_, blanks⟩ => ⟨rest, rfl, blanks⟩, fun ⟨_, same, blanks⟩ => ?_⟩
      cases same
      exact ⟨sound, blanks⟩
  | error fault rest =>
      refine ⟨fun ⟨sound', _⟩ => ?_, fun ⟨_, same, _⟩ => nomatch same⟩
      have failed := Reader.isSome_malformed { r with pending := false, rest } fault
      dsimp only at sound'
      rw [sound'] at failed
      cases failed

/-- A document in which containers nest too deep is not passed over for that. -/
theorem finish_skip_of_deep {r : Reader} (sound : r.fault = none) {rest : List UInt8}
    (deep : Scanner.skipValue maxDepth r.rest = .error .nestingTooDeep rest)
    : ∃ fault, r.skip.finish.1 = some fault ∧ fault.TooDeep := by
  rw [skip_eq sound, deep]
  have failed := Reader.latch_of_sound (r := { r with pending := false, rest }) sound
    (.malformed (r.input.length - rest.length) .nestingTooDeep)
  exact ⟨_, finish_fst_of_fault (congrArg Reader.fault failed), _, rfl⟩

/-- A document is read if the reader does not fail and nothing but blanks is left. -/
theorem decodeInto_ok {s : Schema} {registry : Option Registry} {t : MessageType} {m : Message}
    {bytes : List UInt8}
    : (∃ fields, (decodeInto s registry t m bytes).2 = .ok fields)
      ↔ (readMessage s t m (Reader.ofBytes bytes registry)).2.fault = none
        ∧ dropBlanks (readMessage s t m (Reader.ofBytes bytes registry)).2.rest = [] := by
  rw [← finish_eq_none, decodeInto]
  dsimp only
  split
  · rename_i fault r finished
    rw [finished]
    exact ⟨fun ⟨_, same⟩ => (nomatch same), nofun⟩
  · rename_i r finished
    rw [finished]
    exact ⟨fun _ => rfl, fun _ => ⟨_, rfl⟩⟩

/-- A fault while reading is what comes out. -/
theorem decodeInto_of_fault {s : Schema} {registry : Option Registry}
    {t : MessageType} {m : Message} {bytes : List UInt8} {fault : Fault}
    (failed : (readMessage s t m (Reader.ofBytes bytes registry)).2.fault = some fault)
    : (decodeInto s registry t m bytes).2 = .error fault := by
  have finished := finish_fst_of_fault failed
  rw [decodeInto]
  dsimp only
  split
  · rename_i fault' r same
    rw [same] at finished
    cases finished
    rfl
  · rename_i r same
    rw [same] at finished
    cases finished

/-- Where containers do not nest too deep for the passage over the document, a document that is read
as a message of any type can be passed over.  One whose numbers are finite, and in which containers
do not nest too deep for the reader either, is read as a dynamic value if and only if it can be
passed over, and the value is read from the same bytes.
-/
theorem reading_agrees_with_passing {own : List MessageType}
    (lawful : (WellKnown.schemaWith own).Lawful) (plain : ∀ t ∈ own, t.form ≠ .any)
    {bytes : List UInt8} {registry : Option Registry}
    (shallow : ∀ fault, (Reader.ofBytes bytes registry).skip.finish.1 = some fault → ¬fault.TooDeep)
    : let s := WellKnown.schemaWith own
      let fresh := Reader.ofBytes bytes registry
      (∀ t m, t.HasJson → m.Typed s t → (∃ fields, (decodeInto s registry t m bytes).2 = .ok fields)
        → fresh.skip.finish.1 = none)
      ∧ ∀ m, (∀ fault, (decodeInto s registry WellKnown.valueType m bytes).2 = .error fault
          → ¬fault.TooDeep)
        → FiniteNumbers bytes
        → ((∃ fields, (decodeInto s registry WellKnown.valueType m bytes).2 = .ok fields)
            ↔ fresh.skip.finish.1 = none)
          ∧ (fresh.skip.finish.1 = none → ∃ raw, fresh.rawValue.1 = some raw
            ∧ dropBlanks bytes = raw ++ (readMessage s WellKnown.valueType m fresh).2.rest) := by
  intro s fresh
  have flat := form_type_ne_any plain
  have known := hasWellKnown lawful
  -- What fits its type takes the value that the passage takes, since that does not nest too deep.
  have accepted {t : MessageType} {m : Message} (fits : Fits t m.slots)
      (read : ∃ fields, (decodeInto s registry t m bytes).2 = .ok fields)
      : Scanner.skipValue maxDepth bytes = .ok () (readMessage s t m fresh).2.rest
        ∧ fresh.skip.finish.1 = none := by
    obtain ⟨sound, blanks⟩ := decodeInto_ok.mp read
    rcases outcome_readMessage_of_fits flat (r := fresh) fits rfl with failed | ⟨never, _⟩ | took
    · rw [sound] at failed
      cases failed
    · exact never.elim
    · have passed := took.skips.skipValue maxDepth fun rest deep => by
        obtain ⟨fault, failed, tooDeep⟩ := finish_skip_of_deep (r := fresh) rfl deep
        exact shallow fault failed tooDeep
      exact ⟨passed, (finish_skip_eq_none rfl).mpr ⟨_, passed, blanks⟩⟩
  refine ⟨fun t m json typed read => (accepted (fits_of_typed json typed) read).2, ?_⟩
  intro m within finite
  have read (passed : fresh.skip.finish.1 = none)
      : ∃ fields, (decodeInto s registry WellKnown.valueType m bytes).2 = .ok fields := by
    obtain ⟨rest, skipped, blanks⟩ := (finish_skip_eq_none rfl).mp passed
    have fares := fares_value known flat maxDepth m fresh rest rfl skipped finite
    rcases outcome_readMessage_of_fits flat (t := WellKnown.valueType) (m := m) (r := fresh) trivial
      rfl with failed | ⟨never, _⟩ | took
    · obtain ⟨fault, failed⟩ := Option.isSome_iff_exists.mp failed
      exact absurd (fares fault failed) (within fault (decodeInto_of_fault failed))
    · exact never.elim
    · refine decodeInto_ok.mpr ⟨took.sound, ?_⟩
      rw [took.skips.eq_of_skipValue skipped]
      exact blanks
  refine ⟨⟨fun ok => (accepted (t := WellKnown.valueType) (m := m) trivial ok).2, read⟩,
    fun passed => ?_⟩
  have skipped := (accepted (t := WellKnown.valueType) (m := m) trivial (read passed)).1
  obtain ⟨raw, whole, same⟩ := Reader.rawValue_of_skipped (r := fresh) rfl
    ((Scanner.skipValue_dropBlanks 127 bytes).trans skipped)
  exact ⟨raw, congrArg Prod.fst same, whole⟩

/-- An object with a list, an object in it, commas between members and items, and an empty list. -/
theorem reading_agrees_with_passing_nested
    : let s := WellKnown.schemaWith []
      let bytes := Text.utf8 "\x7b\"a\":[1,\x7b\"b\":null\x7d],\"c\":[]\x7d"
      let fresh := Reader.ofBytes bytes none
      let m := s.empty WellKnown.valueType.name
      s.Lawful ∧ FiniteNumbers bytes ∧ fresh.skip.finish.1 = none
      ∧ (∃ fields, (decodeInto s none WellKnown.valueType m bytes).2 = .ok fields)
      ∧ ∃ raw, fresh.rawValue.1 = some raw
        ∧ dropBlanks bytes = raw ++ (readMessage s WellKnown.valueType m fresh).2.rest := by
  intro s bytes fresh m
  have lawful : s.Lawful := WellKnown.lawful_types
  have plain : ∀ t ∈ ([] : List MessageType), t.form ≠ .any := nofun
  have passed : fresh.skip.finish.1 = none := by decide +kernel
  have spelled : bytes = [123, 34, 97, 34, 58, 91, 49, 44, 123, 34, 98, 34, 58, 110, 117, 108, 108,
      125, 93, 44, 34, 99, 34, 58, 91, 93, 125] := by decide +kernel
  have finite : FiniteNumbers bytes := by
    intro text listed
    rw [spelled] at listed
    have a : ∀ rest, Scanner.string (34 :: 97 :: 34 :: rest) = .ok "a" rest :=
      string_stringLiteral "a"
    have b : ∀ rest, Scanner.string (34 :: 98 :: 34 :: rest) = .ok "b" rest :=
      string_stringLiteral "b"
    have c : ∀ rest, Scanner.string (34 :: 99 :: 34 :: rest) = .ok "c" rest :=
      string_stringLiteral "c"
    have one (rest : List UInt8) : Scanner.number (49 :: 44 :: rest) = .ok "1" (44 :: rest) := rfl
    simp (disch := decide) only [numberTokens_other, numberTokens_string (a _),
      numberTokens_string (b _), numberTokens_string (c _), numberTokens_number rfl (one _)]
        at listed
    rw [numberTokens, List.mem_singleton] at listed
    subst listed
    unfold IsFinite
    decide +kernel
  have shallow (fault : Fault) (failed : fresh.skip.finish.1 = some fault) : ¬fault.TooDeep := by
    rw [passed] at failed
    cases failed
  have read : ∃ fields, (decodeInto s none WellKnown.valueType m bytes).2 = .ok fields := by
    let fields : List WellKnown.TreeField :=
      [⟨"a", .list [.number 0x3ff0000000000000, .struct [⟨"b", .null⟩]]⟩, ⟨"c", .list []⟩]
    let τ : WellKnown.Tree := .struct fields
    have legible : τ.Legible := by
      have ordered : Ordered (.string none) (WellKnown.Tree.fieldEntries fields) :=
        ⟨by decide, List.pairwise_pair.mpr (by unfold Entry.Before; decide)⟩
      have single : Ordered (.string none) [⟨.string "b", .message WellKnown.Tree.null.message⟩] :=
        ⟨by decide, List.pairwise_singleton _ _⟩
      exact ⟨ordered, ⟨⟨rfl, fun _ => by decide +kernel⟩, ⟨single, trivial, trivial⟩, trivial⟩,
        trivial, trivial⟩
    have written : Text.utf8 τ.node.text = bytes := by decide +kernel
    have takes (limit : Nat)
        : Takes 0 limit (readMessage s WellKnown.valueType m) τ.node .root τ.message [] :=
      takes_treeMessage lawful (hasWellKnown lawful) .root τ legible limit
    rcases decodeInto_of_takes takes none with took | ⟨-, deep⟩
    · rw [written] at took
      exact ⟨_, congrArg Prod.snd took⟩
    · exact absurd deep (by decide)
  have agrees := (reading_agrees_with_passing lawful plain shallow).2 m
    (fun fault failed => by
      obtain ⟨fields, ok⟩ := read
      rw [ok] at failed
      cases failed) finite
  exact ⟨lawful, finite, passed, agrees.1.mpr passed, agrees.2 passed⟩

end Protobuf.Json
