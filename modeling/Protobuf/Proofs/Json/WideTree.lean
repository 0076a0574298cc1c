import Protobuf.Proofs.Json.Tokens

/-! The trees that all JSON texts denote, those with lone surrogates in their strings included.
Strings are sequences of code units in them.  Texts of the same tree are documents of the same
tokens.
-/

namespace Protobuf.Json

open Text

-----------------------------------------------------------------------------------------
-- Trees
-----------------------------------------------------------------------------------------

mutual

/-- A JSON value whose strings are sequences of code units. -/
inductive WideNode where
  | null
  | bool (v : Bool)
  | number (v : Numeral)
  | string (units : List Nat)
  | array (items : List WideNode)
  | object (fields : List WideField)

/-- A member of an object. -/
structure WideField where
  key : List Nat
  value : WideNode

end

mutual

/-- The text spells the value, and nothing stands before or behind it. -/
def WideNode.Spells : WideNode → List Char → Prop
  | .null, text => text = "null".toList
  | .bool true, text => text = "true".toList
  | .bool false, text => text = "false".toList
  | .number v, text => text = v.text
  | .string units, text => IsWideLiteral units text
  | .array items, text => ∃ inner, text = '[' :: (inner ++ [']']) ∧ wideItemsSpell false items inner
  | .object fields, text =>
      ∃ inner, text = '\x7b' :: (inner ++ ['\x7d']) ∧ wideFieldsSpell false fields inner

/-- What stands in the brackets of an array, or a part of it behind other items. -/
def wideItemsSpell : Bool → List WideNode → List Char → Prop
  | behind, [], text => if behind then text = [] else IsBlank text
  | behind, n :: items, text =>
      ∃ item others, text = (if behind then [','] else []) ++ item ++ others
        ∧ Padded n.Spells item ∧ wideItemsSpell true items others

/-- What stands in the braces of an object, or a part of it behind other members. -/
def wideFieldsSpell : Bool → List WideField → List Char → Prop
  | behind, [], text => if behind then text = [] else IsBlank text
  | behind, ⟨key, n⟩ :: fields, text =>
      ∃ name value others, text = (if behind then [','] else []) ++ name ++ ':' :: value ++ others
        ∧ Padded (IsWideLiteral key) name ∧ Padded n.Spells value
          ∧ wideFieldsSpell true fields others

end

mutual

/-- The value with its texts as code units. -/
def Node.wide : Node → WideNode
  | .null => .null
  | .bool v => .bool v
  | .number v => .number v
  | .string v => .string (v.toList.flatMap utf16)
  | .array items => .array (itemsWide items)
  | .object fields => .object (fieldsWide fields)

def itemsWide : List Node → List WideNode
  | [] => []
  | n :: items => n.wide :: itemsWide items

def fieldsWide : List Field → List WideField
  | [] => []
  | ⟨key, n⟩ :: fields => ⟨key.toList.flatMap utf16, n.wide⟩ :: fieldsWide fields

end

theorem Padded.weaken {spells spells' : List Char → Prop} {text : List Char}
    (h : Padded spells text) (weaker : ∀ text, spells text → spells' text)
    : Padded spells' text := by
  obtain ⟨before, inner, behind, same, blank, spelled, blank'⟩ := h
  exact ⟨before, inner, behind, same, blank, weaker inner spelled, blank'⟩

mutual

/-- A text of a tree is a text of the same tree with code units, by induction on the tree. -/
theorem Node.spells_wide (n : Node) {text : List Char} (h : n.Spells text)
    : n.wide.Spells text := by
  cases n with
  | null => exact h
  | bool v => cases v <;> exact h
  | number v => exact h
  | string v => exact IsLiteral.wide h
  | array items =>
      obtain ⟨inner, same, spelled⟩ := h
      exact ⟨inner, same, itemsSpell_wide false items spelled⟩
  | object fields =>
      obtain ⟨inner, same, spelled⟩ := h
      exact ⟨inner, same, fieldsSpell_wide false fields spelled⟩

theorem itemsSpell_wide (behind : Bool) (items : List Node) {text : List Char}
    (h : itemsSpell behind items text)
    : wideItemsSpell behind (itemsWide items) text := by
  cases items with
  | nil => exact h
  | cons n items =>
      obtain ⟨item, others, same, padded, spelled⟩ := h
      exact ⟨item, others, same,
        padded.weaken fun _ => n.spells_wide, itemsSpell_wide true items spelled⟩

theorem fieldsSpell_wide (behind : Bool) (fields : List Field) {text : List Char}
    (h : fieldsSpell behind fields text)
    : wideFieldsSpell behind (fieldsWide fields) text := by
  cases fields with
  | nil => exact h
  | cons field fields =>
      obtain ⟨key, n⟩ := field
      obtain ⟨name, value, others, same, literal, padded, spelled⟩ := h
      exact ⟨name, value, others, same, literal.weaken fun _ => IsLiteral.wide,
        padded.weaken fun _ => n.spells_wide, fieldsSpell_wide true fields spelled⟩

end

-----------------------------------------------------------------------------------------
-- The tokens of a tree
-----------------------------------------------------------------------------------------

/-- The tokens between members and elements, and behind keys. -/
def comma : Token := .mark 44 (by decide)

def colon : Token := .mark 58 (by decide)

mutual

/-- The tokens of a value. -/
def WideNode.tokens : WideNode → List Token
  | .null => [.word "null" (by decide)]
  | .bool true => [.word "true" (by decide)]
  | .bool false => [.word "false" (by decide)]
  | .number v => [.number v]
  | .string v => [.string v]
  | .array items => .mark 91 (by decide) :: (itemsTokens false items ++ [.mark 93 (by decide)])
  | .object fields =>
      .mark 123 (by decide) :: (fieldsTokens false fields ++ [.mark 125 (by decide)])

/-- The tokens of the items of an array, perhaps behind other items. -/
def itemsTokens : Bool → List WideNode → List Token
  | _, [] => []
  | behind, n :: items => (if behind then [comma] else []) ++ (n.tokens ++ itemsTokens true items)

/-- The tokens of the members of an object, perhaps behind other members. -/
def fieldsTokens : Bool → List WideField → List Token
  | _, [] => []
  | behind, ⟨key, n⟩ :: fields =>
      (if behind then [comma] else [])
        ++ (.string key :: colon :: (n.tokens ++ fieldsTokens true fields))

end

/-- No number goes on in the bytes. -/
def StopsNumbers (bytes : List UInt8) : Prop :=
  ∀ b ∈ bytes.head?, ¬isNumberByte b

/-- The text spells the tokens, whatever stands behind it that ends a number. -/
def Writes (ts : List Token) (text : List Char) : Prop :=
  ∀ rest, StopsNumbers rest → Lexes ts (text.flatMap String.utf8EncodeChar ++ rest) rest

section

variable {ts us : List Token} {text others : List Char} {rest : List UInt8}

theorem StopsNumbers.stops (h : StopsNumbers rest) (t : Token)
    : t.Stops rest := by
  cases t with
  | number _ => exact h
  | mark _ _ | word _ _ | string _ => trivial

theorem lexes_token {t : Token} {piece : List UInt8} (spelled : t.Spelled piece)
    (stops : t.Stops rest)
    : Lexes [t] (piece ++ rest) rest :=
  ⟨[], piece, rest, rfl, nofun, spelled, stops, [], rfl, nofun⟩

theorem writes_token {t : Token} (spelled : t.Spelled (text.flatMap String.utf8EncodeChar))
    : Writes [t] text :=
  fun _ stops => lexes_token spelled (stops.stops t)

theorem stopsNumbers_cons {b : UInt8} (other : ¬isNumberByte b) (rest : List UInt8)
    : StopsNumbers (b :: rest) := by
  intro b' first
  cases first
  exact other

/-- Blank characters are blank bytes. -/
theorem IsBlank.bytes (h : IsBlank text)
    : ∀ b ∈ text.flatMap String.utf8EncodeChar, isBlank b := by
  intro b listed
  obtain ⟨c, inside, byte⟩ := List.mem_flatMap.mp listed
  have codes : ∀ c ∈ [' ', '\t', '\n', '\r'], (String.utf8EncodeChar c).all isBlank := by
    simp only [List.forall_mem_cons, List.not_mem_nil, false_implies, implies_true]
    decide
  exact List.all_eq_true.mp (codes c (h c inside)) b byte

theorem IsBlank.stopsNumbers (h : IsBlank text) (stops : StopsNumbers rest)
    : StopsNumbers (text.flatMap String.utf8EncodeChar ++ rest) := by
  intro b first
  cases bytes : text.flatMap String.utf8EncodeChar with
  | nil =>
      rw [bytes, List.nil_append] at first
      exact stops b first
  | cons b' others =>
      rw [bytes] at first
      cases first
      have blank := h.bytes b (by rw [bytes]; exact List.mem_cons_self)
      simp only [isBlank, Bool.or_eq_true, beq_iff_eq] at blank
      rcases blank with ((rfl | rfl) | rfl) | rfl <;> decide

theorem IsBlank.writes (h : IsBlank text)
    : Writes [] text :=
  fun _ _ => ⟨_, rfl, h.bytes⟩

/-- Texts are written one after the other if the second one ends a number. -/
theorem Writes.append (first : Writes ts text) (second : Writes us others)
    (stops : ∀ rest, StopsNumbers rest
      → StopsNumbers (others.flatMap String.utf8EncodeChar ++ rest))
    : Writes (ts ++ us) (text ++ others) := by
  intro rest ends
  rw [List.flatMap_append, List.append_assoc]
  exact (first _ (stops rest ends)).append (second rest ends)

/-- A mark ends itself. -/
theorem writes_mark_append {b : UInt8} {c : Char} {legal : b ∈ [44, 58, 91, 93, 123, 125]}
    (byte : String.utf8EncodeChar c = [b]) (others : Writes us text)
    : Writes (.mark b legal :: us) (c :: text) := by
  intro rest ends
  rw [List.flatMap_cons, byte, List.append_assoc]
  exact (lexes_token (t := .mark b legal) rfl trivial).append (others rest ends)

theorem Padded.writes {spells : List Char → Prop} (h : Padded spells text)
    (inner : ∀ text, spells text → Writes ts text)
    : Writes ts text := by
  obtain ⟨before, middle, behind, rfl, blank, spelled, blank'⟩ := h
  have front := (inner middle spelled).append blank'.writes fun _ => blank'.stopsNumbers
  rw [List.append_nil] at front
  intro rest ends
  rw [List.append_assoc, List.flatMap_append, List.append_assoc]
  exact (front rest ends).blanks blank.bytes

theorem IsWideLiteral.writes {key : List Nat} (h : IsWideLiteral key text)
    : Writes [.string key] text :=
  writes_token ⟨text, h, (utf8_ofList text).symm⟩

/-- What is spelled behind an item or member ends a number. -/
theorem stopsNumbers_wideItemsSpell {items : List WideNode} (h : wideItemsSpell true items text)
    (stops : StopsNumbers rest)
    : StopsNumbers (text.flatMap String.utf8EncodeChar ++ rest) := by
  cases items with
  | nil =>
      cases (show text = [] from h)
      exact stops
  | cons n items =>
      obtain ⟨item, others, rfl, -⟩ := h
      exact stopsNumbers_cons (by decide) _

theorem stopsNumbers_wideFieldsSpell {fields : List WideField}
    (h : wideFieldsSpell true fields text) (stops : StopsNumbers rest)
    : StopsNumbers (text.flatMap String.utf8EncodeChar ++ rest) := by
  cases fields with
  | nil =>
      cases (show text = [] from h)
      exact stops
  | cons field fields =>
      obtain ⟨key, n⟩ := field
      obtain ⟨name, value, others, rfl, -⟩ := h
      exact stopsNumbers_cons (by decide) _

/-- A bracket or brace that closes a container is behind its last item. -/
theorem writes_closing {b : UInt8} {c : Char} {legal : b ∈ [44, 58, 91, 93, 123, 125]}
    (byte : String.utf8EncodeChar c = [b]) (others : Writes ts text)
    : Writes (ts ++ [.mark b legal]) (text ++ [c]) := by
  have single : Writes [.mark b legal] [c] :=
    writes_token (by rw [List.flatMap_singleton, byte]; rfl)
  refine others.append single fun rest _ => ?_
  rw [List.flatMap_singleton, byte]
  have codes : ∀ b ∈ [44, 58, 91, 93, 123, 125], ¬isNumberByte b := by
    simp only [List.forall_mem_cons, List.not_mem_nil, false_implies, implies_true]
    decide
  exact stopsNumbers_cons (codes b legal) rest

mutual

/-- A text that spells a value spells its tokens, by induction on the value. -/
theorem WideNode.writes (n : WideNode) {text : List Char} (h : n.Spells text)
    : Writes n.tokens text := by
  cases n with
  | null =>
      cases h
      exact writes_token rfl
  | bool v =>
      cases v with
      | true =>
          cases h
          exact writes_token rfl
      | false =>
          cases h
          exact writes_token rfl
  | number v =>
      cases h
      exact writes_token (utf8_ofList v.text).symm
  | string v => exact IsWideLiteral.writes h
  | array items =>
      obtain ⟨inner, rfl, spelled⟩ := h
      exact writes_mark_append rfl (writes_closing rfl (itemsWrite false items spelled))
  | object fields =>
      obtain ⟨inner, rfl, spelled⟩ := h
      exact writes_mark_append rfl (writes_closing rfl (fieldsWrite false fields spelled))

theorem itemsWrite (behind : Bool) (items : List WideNode) {text : List Char}
    (h : wideItemsSpell behind items text)
    : Writes (itemsTokens behind items) text := by
  cases items with
  | nil =>
      cases behind with
      | true =>
          cases (show text = [] from h)
          exact IsBlank.writes nofun
      | false => exact IsBlank.writes h
  | cons n items =>
      obtain ⟨item, others, rfl, padded, spelled⟩ := h
      have own := (padded.writes fun _ => n.writes).append (itemsWrite true items spelled)
        fun _ => stopsNumbers_wideItemsSpell spelled
      cases behind with
      | true => exact writes_mark_append rfl own
      | false => exact own

theorem fieldsWrite (behind : Bool) (fields : List WideField) {text : List Char}
    (h : wideFieldsSpell behind fields text)
    : Writes (fieldsTokens behind fields) text := by
  cases fields with
  | nil =>
      cases behind with
      | true =>
          cases (show text = [] from h)
          exact IsBlank.writes nofun
      | false => exact IsBlank.writes h
  | cons field fields =>
      obtain ⟨key, n⟩ := field
      obtain ⟨name, value, others, rfl, literal, padded, spelled⟩ := h
      have own := (padded.writes fun _ => n.writes).append (fieldsWrite true fields spelled)
        fun _ => stopsNumbers_wideFieldsSpell spelled
      have behindKey : Writes (colon :: (n.tokens ++ fieldsTokens true fields))
        (':' :: (value ++ others)) :=
        writes_mark_append rfl own
      have named : Writes (.string key :: colon :: (n.tokens ++ fieldsTokens true fields))
          (name ++ ':' :: value ++ others) := by
        rw [List.append_assoc]
        exact (literal.writes fun _ => IsWideLiteral.writes).append behindKey fun rest _ =>
          stopsNumbers_cons (b := 58) (by decide) _
      cases behind with
      | true => exact writes_mark_append rfl named
      | false => exact named

end

/-- A text that spells a value is a document of its tokens. -/
theorem lexes_of_spells {n : WideNode} (h : Padded n.Spells text)
    : Lexes n.tokens (utf8 (String.ofList text)) [] := by
  have written := h.writes (fun _ => n.writes) [] nofun
  rwa [List.append_nil, ← utf8_ofList] at written

/-- Texts that spell the same value are documents of the same tokens. -/
theorem beside_of_spells {n : WideNode} {others : List Char} (h : Padded n.Spells text)
    (h' : Padded n.Spells others)
    : Beside (utf8 (String.ofList text)) (utf8 (String.ofList others)) :=
  ⟨n.tokens, lexes_of_spells h, lexes_of_spells h'⟩

end

end Protobuf.Json
