import Protobuf.Json.Reader
import Protobuf.Proofs.Json.Extent
import Protobuf.Proofs.Json.Scanning

/-! What the cursor does on the text of a tree.  A value is taken off the front whatever stands
behind it, and the one thing that can go wrong is that it nests as deep as containers may.
-/

namespace Protobuf.Json

open FieldMask Text

-----------------------------------------------------------------------------------------
-- Readers in front of a value
-----------------------------------------------------------------------------------------

/-- The type of a tree. -/
def Node.kind : Node → ValueKind
  | .null => .null
  | .bool _ => .bool
  | .number _ => .number
  | .string _ => .string
  | .array _ => .array
  | .object _ => .object

/-- Nothing went wrong yet, and the value is what comes next. -/
structure Reader.Faces (r : Reader) (n : Node) (more : List UInt8) : Prop where
  sound : r.fault = none
  text : r.rest = utf8 n.text ++ more
  ends : Ends more

/-- The reader behind a value in which the fields were recorded. -/
def Reader.behind (r : Reader) (more : List UInt8) (fields : List Path) : Reader :=
  { r with rest := more, mask := fields.foldl PathSet.add r.mask, pending := false }

/-- The value is read as the result, and no field is recorded. -/
def Reads {α : Type} (read : Reader → α × Reader) (n : Node) (v : α) : Prop :=
  ∀ r more, r.Faces n more → read r = (v, r.behind more [])

/-- The value is read as the result at the path if it stands in front of less than so many bytes; or
the reader fails, which it only does if more containers are opened than may be, up to the slack.
-/
def Takes {α : Type} (slack limit : Nat) (read : Reader → α × Reader) (n : Node)
    (path : Path) (v : α) (fields : List Path) : Prop :=
  ∀ r more, r.Faces n more → r.rest.length < limit → r.path = path
    → read r = (v, r.behind more fields)
      ∨ (read r).2.fault.isSome ∧ maxDepth < r.frames.length + n.nesting + slack

variable {r : Reader} {n : Node} {more : List UInt8}

/-- A string literal begins with a quote. -/
theorem utf8_stringLiteral_cons (text : String)
    : ∃ bytes, utf8 (stringLiteral text) = 34 :: bytes :=
  ⟨_, by rw [stringLiteral, utf8_ofList, List.flatMap_cons]; rfl⟩

/-- Minus signs and digits begin numbers. -/
theorem kind_of_number {b : UInt8} (starts : (b = 45 || (48 ≤ b && b ≤ 57)) = true)
    : ValueKind.ofByte? b = some .number := by
  have codes : ∀ n < 58, (UInt8.ofNat n = 45 || (48 ≤ UInt8.ofNat n && UInt8.ofNat n ≤ 57)) = true
      → ValueKind.ofByte? (UInt8.ofNat n) = some .number := by decide
  have small : b.toNat < 58 := by
    simp only [Bool.or_eq_true, Bool.and_eq_true, decide_eq_true_eq, UInt8.le_iff_toNat_le]
      at starts
    rcases starts with rfl | ⟨_, most⟩
    · decide
    · exact Nat.lt_succ_of_le most
  have own := codes b.toNat small
  rw [UInt8.ofNat_toNat] at own
  exact own starts

/-- The first byte of a value tells its type. -/
theorem Node.utf8_text_cons (n : Node)
    : ∃ b bytes, utf8 n.text = b :: bytes ∧ ValueKind.ofByte? b = some n.kind := by
  cases n with
  | null => exact ⟨110, _, rfl, rfl⟩
  | bool v =>
      cases v with
      | true => exact ⟨116, _, rfl, rfl⟩
      | false => exact ⟨102, _, rfl, rfl⟩
  | number v =>
      obtain ⟨c, others, same, first⟩ := v.legal.exists_cons
      have codes : ∀ n < 58, n = 45 ∨ 48 ≤ n
          → ValueKind.ofByte? (UInt8.ofNat n) = some .number := by decide
      have range : c.toNat < 58 ∧ (c.toNat = 45 ∨ 48 ≤ c.toNat) := by
        rcases first with rfl | digit
        · decide
        · rw [Char.isDigit_iff_toNat] at digit
          exact ⟨Nat.lt_succ_of_le digit.2, .inr digit.1⟩
      refine ⟨_, others.flatMap String.utf8EncodeChar, ?_, codes c.toNat range.1 range.2⟩
      rw [Node.text, utf8_ofList, same, List.flatMap_cons,
        utf8EncodeChar_of_lt (Nat.lt_trans range.1 (by decide)), List.singleton_append]
  | string v =>
      obtain ⟨bytes, same⟩ := utf8_stringLiteral_cons v
      exact ⟨34, bytes, same, rfl⟩
  | array items =>
      refine ⟨91, utf8 (itemsText false items ++ "]"), ?_, rfl⟩
      rw [Node.text, String.append_assoc, utf8_append]
      rfl
  | object fields =>
      refine ⟨123, utf8 (fieldsText false fields ++ "\x7d"), ?_, rfl⟩
      rw [Node.text, String.append_assoc, utf8_append]
      rfl

/-- The first byte of a value is no blank. -/
theorem not_isBlank_of_kind {b : UInt8} {kind : ValueKind} (h : ValueKind.ofByte? b = some kind)
    : ¬isBlank b := by
  intro blank
  simp only [isBlank, Bool.or_eq_true, beq_iff_eq] at blank
  rcases blank with ((rfl | rfl) | rfl) | rfl <;> cases h

/-- There are no blanks where a value ends. -/
theorem Ends.dropBlanks (ends : Ends more)
    : Json.dropBlanks more = more :=
  dropBlanks_of_head fun b first => by
    have codes : ∀ b ∈ ([44, 93, 125] : List UInt8), ¬isBlank b := by
      simp only [List.forall_mem_cons, List.not_mem_nil, false_implies, implies_true]
      decide
    exact codes b (ends b first)

namespace Reader.Faces

/-- The first byte of a value tells its type. -/
theorem head (h : r.Faces n more)
    : ∃ b, r.rest.head? = some b ∧ ValueKind.ofByte? b = some n.kind := by
  obtain ⟨b, bytes, same, kind⟩ := n.utf8_text_cons
  exact ⟨b, by rw [h.text, same]; rfl, kind⟩

/-- There are no blanks in front of the value that the reader faces. -/
theorem dropBlanks (h : r.Faces n more)
    : Json.dropBlanks r.rest = r.rest := by
  obtain ⟨b, first, kind⟩ := h.head
  refine dropBlanks_of_head fun other listed => ?_
  cases first.symm.trans listed
  exact not_isBlank_of_kind kind

/-- The reader that faces a value stays in front of it. -/
theorem skipBlanks (h : r.Faces n more)
    : r.skipBlanks = r := by
  rw [Reader.skipBlanks, h.dropBlanks]

/-- A reader in front of a value stays there when it begins to read it. -/
theorem begun (h : r.Faces n more)
    : Reader.Faces { r with pending := false } n more :=
  ⟨h.sound, h.text, h.ends⟩

theorem beginValue (h : r.Faces n more)
    : r.beginValue = { r with pending := false } :=
  h.begun.skipBlanks

/-- The reader sees the type of the value that it faces. -/
theorem peekKind (h : r.Faces n more)
    : r.peekKind = (some n.kind, r) := by
  obtain ⟨b, first, kind⟩ := h.head
  rw [Reader.peekKind, h.sound]
  simp only [h.skipBlanks, first, Option.bind_some, kind]

/-- The token that the reader faces is scanned. -/
theorem scan {α : Type} {scanner : Scanner α} {v : α} (h : r.Faces n more)
    (token : scanner (utf8 n.text ++ more) = .ok v more)
    : r.scan scanner = (some v, { r with rest := more }) := by
  rw [Reader.scan, h.text, token]

/-- A value that is no null is not taken for one. -/
theorem null_of_ne (h : r.Faces n more) (other : n.kind ≠ .null)
    : r.null = (false, r) := by
  rw [Reader.null, h.peekKind]
  cases kind : n.kind with
  | null => exact absurd kind other
  | bool | number | string | object | array => rfl

end Reader.Faces

/-- A null is taken. -/
theorem reads_null
    : Reads Reader.null .null true := by
  intro r more h
  rw [Reader.null, h.peekKind]
  simp only [Node.kind]
  rw [h.beginValue, h.begun.scan (literal_utf8 "null" more)]
  rfl

-----------------------------------------------------------------------------------------
-- Readers that have failed
-----------------------------------------------------------------------------------------

/-- A reader that has failed does not move in a container. -/
theorem advance_of_fault (container : Container) (h : r.fault.isSome)
    : r.advance container = (false, r) := by
  obtain ⟨fault, same⟩ := Option.isSome_iff_exists.mp h
  rw [Reader.advance, same]

/-- A reader that has failed finds no key. -/
theorem nextKey_of_fault (h : r.fault.isSome)
    : r.nextKey = (none, r) := by
  rw [Reader.nextKey, advance_of_fault .object h]

/-- A reader that has failed reads no further member. -/
theorem keys_of_fault {α : Type} (read : String → α → Reader → α × Reader) (v : α)
    (h : r.fault.isSome)
    : r.keys read v = (v, r) := by
  rw [Reader.keys, nextKey_of_fault h]

/-- A reader that has failed finds no element. -/
theorem nextElement_of_fault (h : r.fault.isSome)
    : r.nextElement = (false, r) := by
  rw [Reader.nextElement, advance_of_fault .array h]

/-- A reader that has failed reads no further element. -/
theorem elements_of_fault {α : Type} (read : α → Reader → α × Reader) (v : α)
    (h : r.fault.isSome)
    : r.elements read v = (v, r) := by
  rw [Reader.elements, nextElement_of_fault h]

-----------------------------------------------------------------------------------------
-- Containers
-----------------------------------------------------------------------------------------

/-- The reader inside a container that it has entered, with fields recorded since. -/
def Reader.inside (r : Reader) (container : Container) (first : Bool) (rest : List UInt8)
    (fields : List Path) : Reader :=
  { r with
    rest := rest
    mask := fields.foldl PathSet.add r.mask
    frames := ⟨container, first⟩ :: r.frames
    pending := false }

@[simp]
theorem Reader.rest_inside (r : Reader) (container : Container) (first : Bool) (rest : List UInt8)
    (fields : List Path)
    : (r.inside container first rest fields).rest = rest :=
  rfl

/-- The reader in front of a member or element to which the cursor has moved. -/
def Reader.reached (r : Reader) (container : Container) (rest : List UInt8) (fields : List Path)
    : Reader :=
  { r.inside container false rest fields with pending := true }

variable {container : Container} {bytes : List UInt8} {fields own : List Path}

/-- In front of a part the cursor moves to it. -/
theorem advance_inside (sound : r.fault = none) (behind : Bool)
    (start : ∀ b ∈ bytes.head?, ¬isBlank b ∧ b ≠ container.closing) (written : bytes ≠ [])
    : (r.inside container (!behind) ((if behind then [44] else []) ++ bytes) fields).advance
      container
        = (true, r.inside container false bytes fields) := by
  obtain ⟨b, others, rfl⟩ := List.exists_cons_of_ne_nil written
  obtain ⟨visible, different⟩ := start b rfl
  have kept : dropBlanks (b :: others) = b :: others := List.dropWhile_cons_of_neg visible
  rw [Reader.advance]
  cases behind with
  | false =>
      simp only [Reader.inside, sound, Bool.not_false, ne_eq, not_true_eq_false, if_false,
        Reader.skipBlanks, Bool.false_eq_true, List.nil_append, kept, List.head?_cons,
        Option.some.injEq, different, if_true]
  | true =>
      have comma : dropBlanks (44 :: b :: others) = 44 :: b :: others := rfl
      have closing : (44 : UInt8) ≠ container.closing := by cases container <;> decide
      simp only [Reader.inside, sound, Bool.not_true, ne_eq, not_true_eq_false, if_false,
        Reader.skipBlanks, Bool.false_eq_true, if_true, List.singleton_append, comma,
        List.head?_cons, Option.some.injEq, closing, List.tail_cons]

/-- At its bracket the container ends. -/
theorem advance_end (sound : r.fault = none) (container : Container) (first : Bool)
    : (r.inside container first (container.closing :: more) fields).advance container
        = (false, r.behind more fields) := by
  have kept : dropBlanks (container.closing :: more) = container.closing :: more := by
    cases container <;> rfl
  simp only [Reader.advance, Reader.inside, Reader.behind, sound, ne_eq, not_true_eq_false,
    if_false, Reader.skipBlanks, Bool.false_eq_true, kept, List.head?_cons, if_true, List.tail_cons]

/-- The container that the reader faces is stepped into, within the limit. -/
theorem enter_of_faces (container : Container) (h : r.Faces n more)
    (text : utf8 n.text ++ more = container.opening :: bytes) (nested : 0 < n.nesting)
    : r.enter container = (true, r.inside container true bytes [])
      ∨ (r.enter container).1 = false ∧ (r.enter container).2.fault.isSome
        ∧ maxDepth < r.frames.length + n.nesting := by
  rw [Reader.enter, h.sound]
  simp only [h.beginValue, h.text, text, List.head?_cons, if_true]
  split
  · refine .inr ⟨rfl, ?_, by omega⟩
    simp [Reader.malformed, Reader.latch, h.sound]
  · exact .inl rfl

-----------------------------------------------------------------------------------------
-- Members of objects
-----------------------------------------------------------------------------------------

section

variable {α : Type} {slack limit : Nat} {path : Path} {key : String} {members : List Field}

/-- What is read within a limit is read within a smaller one. -/
theorem Takes.mono {read : Reader → α × Reader} {v : α} {limit' : Nat}
    (h : Takes slack limit read n path v fields) (less : limit' ≤ limit)
    : Takes slack limit' read n path v fields :=
  fun r more faces short place => h r more faces (Nat.lt_of_lt_of_le short less) place

/-- A scalar that is read is taken. -/
theorem Reads.takes {read : Reader → α × Reader} {v : α} (h : Reads read n v)
    : Takes slack limit read n path v [] :=
  fun r more faces _ _ => .inl (h r more faces)

/-- A value inside a container is read at the place to which the cursor has moved. -/
theorem Takes.reached {read : Reader → α × Reader} {v : α}
    (h : Takes slack limit read n r.path v own) (container : Container) (recorded : List Path)
    (sound : r.fault = none) (ends : Ends more) (short : (utf8 n.text ++ more).length < limit)
    : let r' := r.reached container (utf8 n.text ++ more) recorded
      read r' = (v, r.inside container false more (recorded ++ own))
      ∨ (read r').2.fault.isSome ∧ maxDepth < r.frames.length + (n.nesting + 1) + slack := by
  intro r'
  rcases h r' more ⟨sound, rfl, ends⟩ short rfl with read | ⟨fault, deep⟩
  · refine .inl ?_
    rw [read, Reader.behind, Reader.inside, List.foldl_append]
    rfl
  · refine .inr ⟨fault, ?_⟩
    have opened : r'.frames.length = r.frames.length + 1 := rfl
    omega

/-- The members of an object are read one after the other, each into the result of the one before.
-/
inductive TakesFields (slack limit : Nat) (read : String → α → Reader → α × Reader) (path : Path)
    : List Field → α → α → List Path → Prop
  | nil (v : α) : TakesFields slack limit read path [] v v []
  | cons {key : String} {n : Node} {members : List Field} {v next last : α}
    {own others : List Path} (first : Takes slack limit (read key v) n path next own)
    (behind : TakesFields slack limit read path members next last others)
    : TakesFields slack limit read path (⟨key, n⟩ :: members) v last (own ++ others)

/-- Members that are read within a limit are read within a smaller one. -/
theorem TakesFields.mono {read : String → α → Reader → α × Reader} {v last : α} {limit' : Nat}
    (h : TakesFields slack limit read path members v last fields) (less : limit' ≤ limit)
    : TakesFields slack limit' read path members v last fields := by
  induction h with
  | nil v => exact .nil v
  | cons first behind ih => exact .cons (first.mono less) ih

/-- The text of members begins with the first one, behind a comma if others are in front. -/
theorem utf8_fieldsText_cons (behind : Bool) (key : String) (n : Node) (members : List Field)
    : utf8 (fieldsText behind (⟨key, n⟩ :: members) ++ "\x7d") ++ more
        = (if behind then [44] else [])
          ++ (utf8 (stringLiteral key)
            ++ 58 :: (utf8 n.text ++ (utf8 (fieldsText true members ++ "\x7d") ++ more))) := by
  have separator : utf8 (if behind then "," else "") = if behind then [44] else [] := by
    cases behind <;> rfl
  have colon : utf8 ":" = [58] := rfl
  simp only [fieldsText, utf8_append, separator, colon, List.append_assoc, List.cons_append,
    List.nil_append]

/-- What stands behind a member is a comma or the end of the object. -/
theorem ends_fieldsText (members : List Field) (more : List UInt8)
    : Ends (utf8 (fieldsText true members ++ "\x7d") ++ more) := by
  cases members with
  | nil =>
      intro b first
      cases first
      decide
  | cons field members =>
      obtain ⟨key, n⟩ := field
      rw [utf8_fieldsText_cons]
      intro b first
      cases first
      decide

/-- A key and its colon are taken off the front. -/
theorem keyAndColon_append (key : String) (others : List UInt8)
    : (do
        if (← Scanner.peek) == some 34 then
          let key ← Scanner.string
          Scanner.expect 58 .expectedColon
          return key
        else throw .expectedKey : Scanner String) (utf8 (stringLiteral key) ++ 58 :: others)
      = .ok key others := by
  obtain ⟨bytes, quote⟩ := utf8_stringLiteral_cons key
  have visible : dropBlanks (utf8 (stringLiteral key) ++ 58 :: others)
      = utf8 (stringLiteral key) ++ 58 :: others := by
    rw [quote]
    rfl
  have first : (utf8 (stringLiteral key) ++ 58 :: others).head? = some 34 := by
    rw [quote]
    rfl
  have colon : dropBlanks (58 :: others) = 58 :: others := rfl
  simp only [Bind.bind, EStateM.bind, Scanner.peek, visible, first, beq_self_eq_true, if_true,
    string_stringLiteral, Scanner.expect, colon, List.head?_cons, Scanner.advance, List.tail_cons]
  rfl

/-- The cursor moves to the next member and stands in front of its value. -/
theorem nextKey_inside (sound : r.fault = none) (behind : Bool) (key : String) (n : Node)
    (members : List Field) (more : List UInt8) (fields : List Path)
    : (r.inside .object (!behind)
          (utf8 (fieldsText behind (⟨key, n⟩ :: members) ++ "\x7d") ++ more) fields).nextKey
        = (some key,
            r.reached .object (utf8 n.text ++ (utf8 (fieldsText true members ++ "\x7d") ++ more))
              fields) := by
  rw [utf8_fieldsText_cons]
  generalize utf8 n.text ++ (utf8 (fieldsText true members ++ "\x7d") ++ more) = others
  obtain ⟨bytes, quote⟩ := utf8_stringLiteral_cons key
  have start : ∀ b ∈ (utf8 (stringLiteral key) ++ 58 :: others).head?,
      ¬isBlank b ∧ b ≠ Container.object.closing := by
    rw [quote]
    rintro b first
    cases first
    decide
  rw [Reader.nextKey, advance_inside sound behind start (by simp [quote])]
  simp only [Reader.scan, Reader.reached, Reader.inside, keyAndColon_append]

/-- Behind the last member there is no key. -/
theorem nextKey_end (sound : r.fault = none) (behind : Bool)
    : (r.inside .object (!behind) (utf8 (fieldsText behind [] ++ "\x7d") ++ more) fields).nextKey
        = (none, r.behind more fields) := by
  have text : utf8 (fieldsText behind [] ++ "\x7d") ++ more = Container.object.closing :: more := by
    cases behind <;> rfl
  rw [text, Reader.nextKey, advance_end sound]

/-- The members of an object are read up to its end, by induction on them. -/
theorem keys_inside {read : String → α → Reader → α × Reader} {v last : α}
    (h : TakesFields slack limit read r.path members v last own) (sound : r.fault = none)
    (behind : Bool) (recorded : List Path)
    (short : (utf8 (fieldsText behind members ++ "\x7d") ++ more).length ≤ limit)
    : let r' := r.inside .object (!behind) (utf8 (fieldsText behind members ++ "\x7d") ++ more)
        recorded
      r'.keys read v = (last, r.behind more (recorded ++ own))
      ∨ (r'.keys read v).2.fault.isSome
        ∧ maxDepth < r.frames.length + (fieldsNesting members + 1) + slack := by
  intro r'
  induction h generalizing behind recorded with
  | nil v =>
      refine .inl ?_
      rw [Reader.keys, nextKey_end sound behind, List.append_nil]
  | @cons key n members v next last own others first later ih =>
      have ends := ends_fieldsText members more
      have shorter : (utf8 n.text ++ (utf8 (fieldsText true members ++ "\x7d") ++ more)).length
          < (utf8 (fieldsText behind (⟨key, n⟩ :: members) ++ "\x7d") ++ more).length := by
        rw [utf8_fieldsText_cons]
        simp only [List.length_append, List.length_cons]
        omega
      have left : (utf8 (fieldsText true members ++ "\x7d") ++ more).length
          ≤ (utf8 n.text ++ (utf8 (fieldsText true members ++ "\x7d") ++ more)).length := by
        simp only [List.length_append]
        omega
      simp only [r', fieldsNesting]
      rw [Reader.keys, nextKey_inside sound behind]
      rcases first.reached .object recorded sound ends (Nat.lt_of_lt_of_le shorter short) with
        read | ⟨fault, deep⟩
      · simp only [read, Reader.rest_inside]
        rw [if_pos (Nat.lt_of_le_of_lt left shorter), ← List.append_assoc]
        rcases ih true (recorded ++ own) (by omega) with done | ⟨fault, deep⟩
        · exact .inl done
        · exact .inr ⟨fault, by omega⟩
      · refine .inr ⟨?_, by omega⟩
        simp only
        split
        · rwa [keys_of_fault _ _ fault]
        · exact fault

/-- The object is read member by member. -/
theorem object_of_faces {read : String → α → Reader → α × Reader} {v last : α}
    (h : r.Faces (.object members) more)
    (inside : TakesFields slack r.rest.length read r.path members v last own)
    : r.object read v = (last, r.behind more own)
      ∨ (r.object read v).2.fault.isSome
        ∧ maxDepth < r.frames.length + (Node.object members).nesting + slack := by
  have text : utf8 (Node.object members).text ++ more
      = 123 :: (utf8 (fieldsText false members ++ "\x7d") ++ more) := by
    rw [Node.text, String.append_assoc, utf8_append]
    rfl
  have short : (utf8 (fieldsText false members ++ "\x7d") ++ more).length ≤ r.rest.length := by
    rw [h.text, text]
    exact Nat.le_succ _
  rw [Reader.object]
  rcases enter_of_faces .object h text (Nat.succ_pos _) with
    entered | ⟨refused, fault, deep⟩
  · rw [entered]
    exact keys_inside inside h.sound false [] short
  · refine .inr ⟨?_, Nat.lt_add_right slack deep⟩
    rw [show r.enter .object = (false, (r.enter .object).2) from Prod.ext refused rfl]
    exact fault

/-- An object is taken if its members are. -/
theorem takes_object {read : String → α → Reader → α × Reader} {v last : α}
    (h : TakesFields slack limit read path members v last fields)
    : Takes slack limit (fun r => r.object read v) (.object members) path last fields := by
  rintro r more faces short rfl
  exact object_of_faces faces (h.mono (Nat.le_of_lt short))

-----------------------------------------------------------------------------------------
-- Elements of arrays
-----------------------------------------------------------------------------------------

variable {items : List Node}

/-- The elements of an array are read one after the other, each into the result of the one before.
-/
inductive TakesItems (slack limit : Nat) (read : α → Reader → α × Reader) (path : Path)
    : List Node → α → α → List Path → Prop
  | nil (v : α) : TakesItems slack limit read path [] v v []
  | cons {n : Node} {items : List Node} {v next last : α} {own others : List Path}
    (first : Takes slack limit (read v) n path next own)
    (behind : TakesItems slack limit read path items next last others)
    : TakesItems slack limit read path (n :: items) v last (own ++ others)

/-- Items that are read within a limit are read within a smaller one. -/
theorem TakesItems.mono {read : α → Reader → α × Reader} {v last : α} {limit' : Nat}
    (h : TakesItems slack limit read path items v last fields) (less : limit' ≤ limit)
    : TakesItems slack limit' read path items v last fields := by
  induction h with
  | nil v => exact .nil v
  | cons first behind ih => exact .cons (first.mono less) ih

/-- The text of items begins with the first one, behind a comma if others are in front. -/
theorem utf8_itemsText_cons (behind : Bool) (n : Node) (items : List Node)
    : utf8 (itemsText behind (n :: items) ++ "]") ++ more
        = (if behind then [44] else [])
          ++ (utf8 n.text ++ (utf8 (itemsText true items ++ "]") ++ more)) := by
  have separator : utf8 (if behind then "," else "") = if behind then [44] else [] := by
    cases behind <;> rfl
  simp only [itemsText, utf8_append, separator, List.append_assoc]

/-- What stands behind an element is a comma or the end of the array. -/
theorem ends_itemsText (items : List Node) (more : List UInt8)
    : Ends (utf8 (itemsText true items ++ "]") ++ more) := by
  cases items with
  | nil =>
      intro b first
      cases first
      decide
  | cons n items =>
      rw [utf8_itemsText_cons]
      intro b first
      cases first
      decide

/-- The cursor moves to the next element. -/
theorem nextElement_inside (sound : r.fault = none) (behind : Bool) (n : Node) (items : List Node)
    (more : List UInt8) (fields : List Path)
    : (r.inside .array (!behind) (utf8 (itemsText behind (n :: items) ++ "]") ++ more)
          fields).nextElement
        = (true,
            r.reached .array (utf8 n.text ++ (utf8 (itemsText true items ++ "]") ++ more)) fields)
        := by
  rw [utf8_itemsText_cons]
  generalize utf8 (itemsText true items ++ "]") ++ more = others
  obtain ⟨b, bytes, same, kind⟩ := n.utf8_text_cons
  have start : ∀ b ∈ (utf8 n.text ++ others).head?, ¬isBlank b ∧ b ≠ Container.array.closing := by
    rw [same]
    rintro b' first
    cases first
    refine ⟨not_isBlank_of_kind kind, ?_⟩
    rintro rfl
    cases kind
  rw [Reader.nextElement, advance_inside sound behind start (by simp [same])]
  rfl

/-- Behind the last item there is no element. -/
theorem nextElement_end (sound : r.fault = none) (behind : Bool)
    : (r.inside .array (!behind) (utf8 (itemsText behind [] ++ "]") ++ more) fields).nextElement
        = (false, r.behind more fields) := by
  have text : utf8 (itemsText behind [] ++ "]") ++ more = Container.array.closing :: more := by
    cases behind <;> rfl
  rw [text, Reader.nextElement, advance_end sound]

/-- The elements of an array are read up to its end, by induction on them. -/
theorem elements_inside {read : α → Reader → α × Reader} {v last : α}
    (h : TakesItems slack limit read r.path items v last own) (sound : r.fault = none)
    (behind : Bool) (recorded : List Path)
    (short : (utf8 (itemsText behind items ++ "]") ++ more).length < limit)
    : let r' := r.inside .array (!behind) (utf8 (itemsText behind items ++ "]") ++ more) recorded
      r'.elements read v = (last, r.behind more (recorded ++ own))
      ∨ (r'.elements read v).2.fault.isSome
        ∧ maxDepth < r.frames.length + (itemsNesting items + 1) + slack := by
  intro r'
  induction h generalizing behind recorded with
  | nil v =>
      refine .inl ?_
      rw [Reader.elements, nextElement_end sound behind, List.append_nil]
  | @cons n items v next last own others first later ih =>
      have ends := ends_itemsText items more
      obtain ⟨b, bytes, written, -⟩ := n.utf8_text_cons
      have here : (utf8 n.text ++ (utf8 (itemsText true items ++ "]") ++ more)).length
          ≤ (utf8 (itemsText behind (n :: items) ++ "]") ++ more).length := by
        rw [utf8_itemsText_cons]
        simp only [List.length_append]
        omega
      have shorter : (utf8 (itemsText true items ++ "]") ++ more).length
          < (utf8 (itemsText behind (n :: items) ++ "]") ++ more).length := by
        rw [utf8_itemsText_cons, written]
        simp only [List.length_append, List.length_cons]
        omega
      simp only [r', itemsNesting]
      rw [Reader.elements, nextElement_inside sound behind]
      rcases first.reached .array recorded sound ends (Nat.lt_of_le_of_lt here short) with
        read | ⟨fault, deep⟩
      · simp only [read, Reader.rest_inside]
        rw [if_pos shorter, ← List.append_assoc]
        rcases ih true (recorded ++ own) (Nat.lt_trans shorter short) with done | ⟨fault, deep⟩
        · exact .inl done
        · exact .inr ⟨fault, by omega⟩
      · refine .inr ⟨?_, by omega⟩
        simp only
        split
        · rwa [elements_of_fault _ _ fault]
        · rwa [nextElement_of_fault fault]

/-- The array is read element by element. -/
theorem array_of_faces {read : α → Reader → α × Reader} {v last : α}
    (h : r.Faces (.array items) more)
    (inside : TakesItems slack r.rest.length read r.path items v last own)
    : r.array read v = (last, r.behind more own)
      ∨ (r.array read v).2.fault.isSome
        ∧ maxDepth < r.frames.length + (Node.array items).nesting + slack := by
  have text : utf8 (Node.array items).text ++ more
      = 91 :: (utf8 (itemsText false items ++ "]") ++ more) := by
    rw [Node.text, String.append_assoc, utf8_append]
    rfl
  have short : (utf8 (itemsText false items ++ "]") ++ more).length < r.rest.length := by
    rw [h.text, text]
    exact Nat.lt_succ_self _
  rw [Reader.array]
  rcases enter_of_faces .array h text (Nat.succ_pos _) with
    entered | ⟨refused, fault, deep⟩
  · rw [entered]
    exact elements_inside inside h.sound false [] short
  · refine .inr ⟨?_, Nat.lt_add_right slack deep⟩
    rw [show r.enter .array = (false, (r.enter .array).2) from Prod.ext refused rfl]
    exact fault

/-- An array is taken if its items are. -/
theorem takes_array {read : α → Reader → α × Reader} {v last : α}
    (h : TakesItems slack limit read path items v last fields)
    : Takes slack limit (fun r => r.array read v) (.array items) path last fields := by
  rintro r more faces short rfl
  exact array_of_faces faces (h.mono (Nat.le_of_lt short))

end

end Protobuf.Json
