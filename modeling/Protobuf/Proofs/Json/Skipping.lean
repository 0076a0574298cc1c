import Protobuf.Proofs.Json.Cursor

/-! The passage over whole values.  It takes exactly the text of a tree off the front, unless the
tree nests too deep for it; a value of any kind counts as one level.
-/

namespace Protobuf.Json

open Text

-----------------------------------------------------------------------------------------
-- Levels
-----------------------------------------------------------------------------------------

mutual

/-- How many levels the passage over the value takes: a value in a container is one level more than
the container, of whatever kind it is.
-/
def Node.levels : Node → Nat
  | .null | .bool _ | .number _ | .string _ => 1
  | .array items => itemsLevels items + 1
  | .object fields => fieldsLevels fields + 1

def itemsLevels : List Node → Nat
  | [] => 0
  | n :: items => max n.levels (itemsLevels items)

def fieldsLevels : List Field → Nat
  | [] => 0
  | ⟨_, n⟩ :: fields => max n.levels (fieldsLevels fields)

end

mutual

/-- There are as many levels as containers that nest, or one more if a scalar is innermost. -/
theorem Node.levels_bounds (n : Node)
    : n.nesting ≤ n.levels ∧ n.levels ≤ n.nesting + 1 := by
  cases n with
  | null | bool _ | number _ | string _ => exact ⟨Nat.zero_le _, Nat.le_refl _⟩
  | array items =>
      obtain ⟨least, most⟩ := itemsLevels_bounds items
      exact ⟨Nat.succ_le_succ least, Nat.succ_le_succ most⟩
  | object fields =>
      obtain ⟨least, most⟩ := fieldsLevels_bounds fields
      exact ⟨Nat.succ_le_succ least, Nat.succ_le_succ most⟩

theorem itemsLevels_bounds (items : List Node)
    : itemsNesting items ≤ itemsLevels items ∧ itemsLevels items ≤ itemsNesting items + 1 := by
  cases items with
  | nil => exact ⟨Nat.le_refl _, Nat.zero_le _⟩
  | cons n items =>
      have first := n.levels_bounds
      have others := itemsLevels_bounds items
      simp only [itemsNesting, itemsLevels]
      omega

theorem fieldsLevels_bounds (fields : List Field)
    : fieldsNesting fields ≤ fieldsLevels fields
      ∧ fieldsLevels fields ≤ fieldsNesting fields + 1 := by
  cases fields with
  | nil => exact ⟨Nat.le_refl _, Nat.zero_le _⟩
  | cons field fields =>
      obtain ⟨key, n⟩ := field
      have first := n.levels_bounds
      have others := fieldsLevels_bounds fields
      simp only [fieldsNesting, fieldsLevels]
      omega

end

/-- The scanner takes the value off the front if there is room for it, and fails if there is none.
-/
def Passes (scanner : Scanner Unit) (text more : List UInt8) (room : Prop) : Prop :=
  scanner (text ++ more) = .ok () more ∧ room
    ∨ (∃ fault rest, scanner (text ++ more) = .error fault rest) ∧ ¬room

variable {value : Scanner Unit} {n : Node} {more others : List UInt8}

theorem Passes.congr {text : List UInt8} {room room' : Prop} (h : Passes value text more room)
    (same : room ↔ room')
    : Passes value text more room' := by
  rwa [Passes, ← same]

-----------------------------------------------------------------------------------------
-- Members and elements
-----------------------------------------------------------------------------------------

/-- What comes after a value that ends: it stays, and no blanks are in front of it. -/
theorem peek_of_ends (ends : Ends others)
    : Scanner.peek others = .ok others.head? others := by
  rw [Scanner.peek, ends.dropBlanks]

theorem skipMembers_eq (key : String) (n : Node) (others : List UInt8)
    : Scanner.skipMembers value (utf8 (stringLiteral key) ++ 58 :: (utf8 n.text ++ others))
        = match value (utf8 n.text ++ others) with
          | .error e rest => .error e rest
          | .ok () rest =>
              match Scanner.peek rest with
              | .error e rest => .error e rest
              | .ok (some 44) rest =>
                  if rest.length
                      < (utf8 (stringLiteral key) ++ 58 :: (utf8 n.text ++ others)).length then
                    Scanner.skipMembers value rest.tail
                  else .error .expectedCommaOrBrace rest
              | .ok (some 125) rest => .ok () rest.tail
              | .ok _ rest => .error .expectedCommaOrBrace rest := by
  obtain ⟨bytes, quote⟩ := utf8_stringLiteral_cons key
  have visible (behind : List UInt8) : dropBlanks (utf8 (stringLiteral key) ++ behind)
      = utf8 (stringLiteral key) ++ behind := by
    rw [quote]
    rfl
  have first (behind : List UInt8)
      : (utf8 (stringLiteral key) ++ behind).head? = some 34 := by
    rw [quote]
    rfl
  have colon (behind : List UInt8) : dropBlanks (58 :: behind) = 58 :: behind := rfl
  rw [Scanner.skipMembers]
  simp only [Bind.bind, EStateM.bind, Scanner.peek, visible, first, beq_self_eq_true, if_true,
    string_stringLiteral, Scanner.expect, colon, List.head?_cons, Scanner.advance, List.tail_cons]
  cases value (utf8 n.text ++ others) with
  | error e rest => rfl
  | ok done rest => rfl

theorem skipElements_eq (bytes : List UInt8)
    : Scanner.skipElements value bytes
        = match value bytes with
          | .error e rest => .error e rest
          | .ok () rest =>
              match Scanner.peek rest with
              | .error e rest => .error e rest
              | .ok (some 44) rest =>
                  if rest.length < bytes.length then Scanner.skipElements value rest.tail
                  else .error .expectedCommaOrBracket rest
              | .ok (some 93) rest => .ok () rest.tail
              | .ok _ rest => .error .expectedCommaOrBracket rest := by
  rw [Scanner.skipElements]
  simp only [Bind.bind, EStateM.bind]
  cases value bytes with
  | error e rest => rfl
  | ok done rest => rfl

theorem text_behind_member {fields : List Field} (some : fields ≠ [])
    : utf8 (fieldsText true fields ++ "\x7d") ++ more
        = 44 :: (utf8 (fieldsText false fields ++ "\x7d") ++ more) := by
  obtain ⟨⟨key, n⟩, others, rfl⟩ := List.exists_cons_of_ne_nil some
  rw [utf8_fieldsText_cons, utf8_fieldsText_cons]
  rfl

theorem text_behind_element {items : List Node} (some : items ≠ [])
    : utf8 (itemsText true items ++ "]") ++ more
        = 44 :: (utf8 (itemsText false items ++ "]") ++ more) := by
  obtain ⟨n, others, rfl⟩ := List.exists_cons_of_ne_nil some
  rw [utf8_itemsText_cons, utf8_itemsText_cons]
  rfl

-----------------------------------------------------------------------------------------
-- Values
-----------------------------------------------------------------------------------------

/-- The first byte tells how a value is passed over. -/
theorem skipValue_cons (depth : Nat) {b : UInt8} (visible : ¬isBlank b) (bytes : List UInt8)
    : Scanner.skipValue (depth + 1) (b :: bytes)
        = (if b = 123 then do
            Scanner.advance
            if (← Scanner.peek) == some 125 then Scanner.advance
            else Scanner.skipMembers (Scanner.skipValue depth)
          else if b = 91 then do
            Scanner.advance
            if (← Scanner.peek) == some 93 then Scanner.advance
            else Scanner.skipElements (Scanner.skipValue depth)
          else if b = 34 then do let _ ← Scanner.string
          else if b = 116 then Scanner.literal "true"
          else if b = 102 then Scanner.literal "false"
          else if b = 110 then Scanner.literal "null"
          else if b = 45 || (48 ≤ b && b ≤ 57) then do let _ ← Scanner.number
          else throw .unexpectedCharacter : Scanner Unit) (b :: bytes) := by
  have kept : dropBlanks (b :: bytes) = b :: bytes := List.dropWhile_cons_of_neg visible
  rw [Scanner.skipValue]
  simp only [Bind.bind, EStateM.bind, Scanner.peek, kept, List.head?_cons]

/-- A number begins with a sign or a digit, and with nothing that begins another value. -/
theorem skipValue_number (depth : Nat) {b : UInt8} (number : ValueKind.ofByte? b = some .number)
    (bytes : List UInt8)
    : Scanner.skipValue (depth + 1) (b :: bytes)
        = (do let _ ← Scanner.number : Scanner Unit) (b :: bytes) := by
  rw [skipValue_cons depth (not_isBlank_of_kind number)]
  unfold ValueKind.ofByte? at number
  split at number
  · cases number
  split at number
  · cases number
  split at number
  · cases number
  split at number
  · cases number
  split at number
  · cases number
  split at number
  · rename_i object array string bool null starts
    simp only [not_or] at bool
    rw [if_neg object, if_neg array, if_neg string, if_neg bool.1, if_neg bool.2, if_neg null,
      if_pos (by simpa using starts)]
  · cases number

/-- Behind the bracket of an array that is not empty, its elements are passed over. -/
theorem skipValue_array (depth : Nat) {b : UInt8} (visible : ¬isBlank b) (closing : b ≠ 93)
    (bytes : List UInt8)
    : Scanner.skipValue (depth + 1) (91 :: b :: bytes)
        = Scanner.skipElements (Scanner.skipValue depth) (b :: bytes) := by
  have kept : dropBlanks (b :: bytes) = b :: bytes := List.dropWhile_cons_of_neg visible
  refine (skipValue_cons depth (by decide) (b :: bytes)).trans ?_
  show (do
    Scanner.advance
    if (← Scanner.peek) == some 93 then Scanner.advance
    else Scanner.skipElements (Scanner.skipValue depth) : Scanner Unit) (91 :: b :: bytes) = _
  simp [Bind.bind, EStateM.bind, Scanner.advance, Scanner.peek, kept, closing]

/-- Behind the brace of an object that is not empty, its members are passed over. -/
theorem skipValue_object (depth : Nat) {b : UInt8} (visible : ¬isBlank b) (closing : b ≠ 125)
    (bytes : List UInt8)
    : Scanner.skipValue (depth + 1) (123 :: b :: bytes)
        = Scanner.skipMembers (Scanner.skipValue depth) (b :: bytes) := by
  have kept : dropBlanks (b :: bytes) = b :: bytes := List.dropWhile_cons_of_neg visible
  refine (skipValue_cons depth (by decide) (b :: bytes)).trans ?_
  show (do
    Scanner.advance
    if (← Scanner.peek) == some 125 then Scanner.advance
    else Scanner.skipMembers (Scanner.skipValue depth) : Scanner Unit) (123 :: b :: bytes) = _
  simp [Bind.bind, EStateM.bind, Scanner.advance, Scanner.peek, kept, closing]

mutual

/-- A value is passed over if it has no more levels than there may be, by induction on it. -/
theorem passes_skipValue (n : Node) (depth : Nat) {more : List UInt8} (ends : Ends more)
    : Passes (Scanner.skipValue depth) (utf8 n.text) more (n.levels ≤ depth) := by
  cases depth with
  | zero =>
      refine .inr ⟨⟨_, _, rfl⟩, ?_⟩
      cases n <;> exact Nat.not_succ_le_zero _
  | succ depth =>
      have single : 1 ≤ depth + 1 := Nat.le_add_left 1 depth
      cases n with
      | null =>
          refine .inl ⟨?_, single⟩
          exact (skipValue_cons depth (by decide) _).trans (literal_utf8 "null" more)
      | bool v =>
          refine .inl ⟨?_, single⟩
          cases v with
          | true => exact (skipValue_cons depth (by decide) _).trans (literal_utf8 "true" more)
          | false => exact (skipValue_cons depth (by decide) _).trans (literal_utf8 "false" more)
      | number v =>
          obtain ⟨b, bytes, text, kind⟩ := (Node.number v).utf8_text_cons
          have read := number_text v ends
          rw [← Node.text, text, List.cons_append] at read
          refine .inl ⟨?_, single⟩
          rw [text, List.cons_append, skipValue_number depth kind]
          simp only [Bind.bind, EStateM.bind, read]
          rfl
      | string v =>
          obtain ⟨bytes, text⟩ := utf8_stringLiteral_cons v
          have read := string_stringLiteral v more
          rw [text, List.cons_append] at read
          refine .inl ⟨?_, single⟩
          rw [Node.text, text, List.cons_append]
          refine (skipValue_cons depth (by decide) _).trans ?_
          show (do let _ ← Scanner.string : Scanner Unit) (34 :: (bytes ++ more)) = _
          simp only [Bind.bind, EStateM.bind, read]
          rfl
      | array items =>
          have text : utf8 (Node.array items).text ++ more
              = 91 :: (utf8 (itemsText false items ++ "]") ++ more) := by
            rw [Node.text, String.append_assoc, utf8_append]
            rfl
          unfold Passes
          rw [text]
          cases items with
          | nil =>
              have empty : utf8 (itemsText false [] ++ "]") ++ more = 93 :: more := rfl
              rw [empty]
              exact .inl ⟨skipValue_cons depth (by decide) _, single⟩
          | cons n items =>
              obtain ⟨b, bytes, first, kind⟩ := n.utf8_text_cons
              have closing : b ≠ 93 := by
                rintro rfl
                cases kind
              have start : utf8 (itemsText false (n :: items) ++ "]") ++ more
                  = b :: (bytes ++ (utf8 (itemsText true items ++ "]") ++ more)) := by
                rw [utf8_itemsText_cons, first]
                rfl
              -- A container with parts is passed over if each part is, one level further down.
              have inside := (passes_skipElements (n :: items)
                (List.cons_ne_nil _ _) depth more).congr
                Nat.succ_le_succ_iff.symm
              unfold Passes at inside
              rw [start] at inside ⊢
              rw [skipValue_array depth (not_isBlank_of_kind kind) closing]
              exact inside
      | object fields =>
          have text : utf8 (Node.object fields).text ++ more
              = 123 :: (utf8 (fieldsText false fields ++ "\x7d") ++ more) := by
            rw [Node.text, String.append_assoc, utf8_append]
            rfl
          unfold Passes
          rw [text]
          cases fields with
          | nil =>
              have empty : utf8 (fieldsText false [] ++ "\x7d") ++ more = 125 :: more := rfl
              rw [empty]
              exact .inl ⟨skipValue_cons depth (by decide) _, single⟩
          | cons field fields =>
              obtain ⟨key, n⟩ := field
              obtain ⟨bytes, quote⟩ := utf8_stringLiteral_cons key
              have start : ∃ others, utf8 (fieldsText false (⟨key, n⟩ :: fields) ++ "\x7d") ++ more
                  = 34 :: others := by
                rw [utf8_fieldsText_cons, quote]
                exact ⟨_, rfl⟩
              obtain ⟨others, start⟩ := start
              have inside := (passes_skipMembers (⟨key, n⟩ :: fields) (List.cons_ne_nil _ _) depth
                more).congr Nat.succ_le_succ_iff.symm
              unfold Passes at inside
              rw [start] at inside ⊢
              rw [skipValue_object depth (by decide) (by decide)]
              exact inside

theorem passes_skipMembers (fields : List Field) (some : fields ≠ []) (depth : Nat)
    (more : List UInt8)
    : Passes (Scanner.skipMembers (Scanner.skipValue depth))
        (utf8 (fieldsText false fields ++ "\x7d")) more (fieldsLevels fields ≤ depth) := by
  cases fields with
  | nil => exact absurd rfl some
  | cons field fields =>
      cases field with
      | mk key n =>
          unfold Passes
          rw [utf8_fieldsText_cons]
          simp only [Bool.false_eq_true, if_false, List.nil_append, fieldsLevels]
          rw [skipMembers_eq]
          have ends := ends_fieldsText fields more
          rcases passes_skipValue n depth ends with ⟨passed, room⟩ | ⟨⟨fault, rest, failed⟩, deep⟩
          · simp only [passed, peek_of_ends ends]
            by_cases last : fields = []
            · subst last
              exact .inl ⟨rfl, Nat.max_le.mpr ⟨room, Nat.zero_le _⟩⟩
            · rw [text_behind_member last]
              simp only [List.head?_cons, List.tail_cons]
              rw [if_pos (by simp only [List.length_append, List.length_cons]; omega)]
              rcases passes_skipMembers fields last depth more with ⟨passed, others⟩
                | ⟨failed, deep⟩
              · exact .inl ⟨passed, Nat.max_le.mpr ⟨room, others⟩⟩
              · exact .inr ⟨failed, fun room => deep (Nat.max_le.mp room).2⟩
          · simp only [failed]
            exact .inr ⟨⟨fault, rest, rfl⟩, fun room => deep (Nat.max_le.mp room).1⟩

theorem passes_skipElements (items : List Node) (some : items ≠ []) (depth : Nat)
    (more : List UInt8)
    : Passes (Scanner.skipElements (Scanner.skipValue depth))
        (utf8 (itemsText false items ++ "]")) more (itemsLevels items ≤ depth) := by
  cases items with
  | nil => exact absurd rfl some
  | cons n items =>
      obtain ⟨b, bytes, written, -⟩ := n.utf8_text_cons
      unfold Passes
      rw [utf8_itemsText_cons]
      simp only [Bool.false_eq_true, if_false, List.nil_append, itemsLevels]
      rw [skipElements_eq]
      have ends := ends_itemsText items more
      rcases passes_skipValue n depth ends with ⟨passed, room⟩ | ⟨⟨fault, rest, failed⟩, deep⟩
      · simp only [passed, peek_of_ends ends]
        by_cases last : items = []
        · subst last
          exact .inl ⟨rfl, Nat.max_le.mpr ⟨room, Nat.zero_le _⟩⟩
        · rw [text_behind_element last]
          simp only [List.head?_cons, List.tail_cons]
          rw [if_pos (by simp only [written, List.length_append, List.length_cons]; omega)]
          rcases passes_skipElements items last depth more with ⟨passed, others⟩ | ⟨failed, deep⟩
          · exact .inl ⟨passed, Nat.max_le.mpr ⟨room, others⟩⟩
          · exact .inr ⟨failed, fun room => deep (Nat.max_le.mp room).2⟩
      · simp only [failed]
        exact .inr ⟨⟨fault, rest, rfl⟩, fun room => deep (Nat.max_le.mp room).1⟩

end

/-- There is room for a value if more levels may be than containers nest in it. -/
theorem skipValue_of_levels {depth : Nat} (levels : n.levels ≤ depth) (ends : Ends more)
    : Scanner.skipValue depth (utf8 n.text ++ more) = .ok () more := by
  rcases passes_skipValue n depth ends with ⟨passed, -⟩ | ⟨-, deep⟩
  · exact passed
  · exact absurd levels deep

theorem skipValue_of_room {depth : Nat} (room : n.nesting < depth) (ends : Ends more)
    : Scanner.skipValue depth (utf8 n.text ++ more) = .ok () more :=
  skipValue_of_levels (Nat.le_trans n.levels_bounds.2 room) ends

/-- The text of a value that is passed over is cut out of the document. -/
theorem rawValue_of_levels {r : Reader} (h : r.Faces n more) (levels : n.levels ≤ maxDepth)
    : r.rawValue = (some (utf8 n.text), r.behind more []) := by
  rw [Reader.rawValue, h.sound]
  simp only [h.beginValue]
  rw [h.begun.scan (skipValue_of_levels levels h.ends)]
  have cut : (utf8 n.text ++ more).take ((utf8 n.text ++ more).length - more.length)
      = utf8 n.text := by
    rw [List.length_append, Nat.add_sub_cancel, List.take_left']
    rfl
  simp only [h.text, cut]
  rfl

/-- The text of a value is cut out of the document, unless it has more levels than there may be. -/
theorem rawValue_of_faces {r : Reader} (h : r.Faces n more)
    : n.levels ≤ maxDepth ∧ r.rawValue = (some (utf8 n.text), r.behind more [])
      ∨ maxDepth < n.levels ∧ r.rawValue.1 = none ∧ r.rawValue.2.fault.isSome := by
  rcases passes_skipValue n maxDepth h.ends with ⟨-, levels⟩ | ⟨⟨fault, rest, failed⟩, deep⟩
  · exact .inl ⟨levels, rawValue_of_levels h levels⟩
  · refine .inr ⟨Nat.lt_of_not_le deep, ?_⟩
    rw [Reader.rawValue, h.sound]
    simp only [h.beginValue]
    have scanned : Reader.scan { r with pending := false } (Scanner.skipValue maxDepth)
        = (none, Reader.malformed { r with pending := false, rest := rest } fault) := by
      rw [Reader.scan]
      simp only [h.text, failed]
    rw [scanned]
    refine ⟨rfl, ?_⟩
    simp [Reader.malformed, Reader.latch, h.sound]

end Protobuf.Json
