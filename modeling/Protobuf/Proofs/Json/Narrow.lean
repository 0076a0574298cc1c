import Protobuf.Proofs.Json.Acceptance
import Protobuf.Proofs.Json.WideTree

/-! What can be passed over has texts for strings.  A document with a lone surrogate in one of its
strings is not passed over, so each document that is denotes a tree whose strings are texts.
-/

namespace Protobuf.Json

open Text

-----------------------------------------------------------------------------------------
-- Code units of texts
-----------------------------------------------------------------------------------------

theorem WideQuoted.units_lt {units : List Nat} {body : List Char} (h : WideQuoted units body)
    : ∀ u ∈ units, u < 0x10000 := by
  induction h with
  | nil => exact nofun
  | @plain c units body _ _ _ _ ih =>
      intro u listed
      rcases List.mem_append.mp listed with own | later
      · have bound : c.toNat < 0x110000 := by
          rcases c.valid with small | ⟨_, large⟩
          · exact Nat.lt_trans small (by decide)
          · exact large
        unfold utf16 at own
        split at own
        · rw [List.mem_singleton.mp own]
          assumption
        · simp only [List.mem_cons, List.not_mem_nil, or_false] at own
          omega
      · exact ih u later
  | @short letter c units body escape _ ih =>
      have codes : ∀ e ∈ shortEscapes, e.2.toNat < 0x10000 := by decide
      exact List.forall_mem_cons.mpr ⟨codes _ escape, ih⟩
  | unit code _ ih => exact List.forall_mem_cons.mpr ⟨codeUnit?_lt code, ih⟩

theorem ok_of_map {ε α β : Type} {f : α → β} {x : Except ε α} {v : β} (h : x.map f = .ok v)
    : ∃ w, x = .ok w ∧ f w = v := by
  cases x with
  | error e => cases h
  | ok w =>
      cases h
      exact ⟨w, rfl, rfl⟩

/-- Code units that spell a text are those of the text. -/
theorem flatMap_utf16_of_textOfUnits {units : List Nat} {text : List Char}
    (small : ∀ u ∈ units, u < 0x10000) (spelled : textOfUnits units = .ok text)
    : text.flatMap utf16 = units := by
  fun_induction textOfUnits units generalizing text with
  | case1 =>
      cases spelled
      rfl
  | case2 => cases spelled
  | case3 u high v units low ih =>
      obtain ⟨others, inside, rfl⟩ := ok_of_map spelled
      have valid : (0x10000 + (u - 0xd800) * 1024 + (v - 0xdc00)).isValidChar := .inr (by omega)
      have pair : utf16 (Char.ofNat (0x10000 + (u - 0xd800) * 1024 + (v - 0xdc00))) = [u, v] := by
        rw [utf16, toNat_ofNat_of_valid valid, if_neg (by omega)]
        simp only [List.cons.injEq, and_true]
        omega
      obtain ⟨_, _, small⟩ := List.forall_mem_cons.mp small |>.imp_right List.forall_mem_cons.mp
      rw [List.flatMap_cons, pair, ih small inside]
      rfl
  | case4 => cases spelled
  | case5 => cases spelled
  | case6 u units other c found ih =>
      obtain ⟨others, inside, rfl⟩ := ok_of_map spelled
      obtain ⟨own, small⟩ := List.forall_mem_cons.mp small
      have code : c.toNat = u := toNat_of_charOfCode? found
      rw [List.flatMap_cons, utf16, code, if_pos own, ih small inside]
      rfl

-----------------------------------------------------------------------------------------
-- Tokens in front of what is scanned
-----------------------------------------------------------------------------------------

section

variable {ts : List Token} {bytes start rest : List UInt8} {b : UInt8}

theorem Lexes.of_mark {mark : UInt8} {legal : mark ∈ [44, 58, 91, 93, 123, 125]}
    (h : Lexes (.mark mark legal :: ts) bytes []) (visible : Json.dropBlanks bytes = b :: rest)
    : b = mark ∧ Lexes ts rest [] := by
  obtain ⟨piece, behind, same, spelled, -, others⟩ := h.of_cons
  obtain rfl : piece = [mark] := spelled
  cases visible.symm.trans same
  exact ⟨rfl, others⟩

/-- A string that is scanned is a text. -/
theorem Lexes.of_string {units : List Nat} {text : String}
    (h : Lexes (.string units :: ts) bytes []) (visible : Json.dropBlanks bytes = start)
    (scanned : Scanner.string start = .ok text rest)
    : text.toList.flatMap utf16 = units ∧ Lexes ts rest [] := by
  obtain ⟨piece, behind, same, ⟨spelling, literal, rfl⟩, -, others⟩ := h.of_cons
  obtain rfl := visible.symm.trans same
  have small : ∀ u ∈ units, u < 0x10000 := by
    obtain ⟨body, quoted, -⟩ := literal
    exact quoted.units_lt
  have read := string_of_isWideLiteral literal behind
  cases denoted : textOfUnits units with
  | error fault =>
      rw [denoted] at read
      obtain ⟨rest', read⟩ := read
      cases scanned.symm.trans read
  | ok text' =>
      rw [denoted] at read
      cases scanned.symm.trans read
      rw [String.toList_ofList]
      exact ⟨flatMap_utf16_of_textOfUnits small denoted, others⟩

end

-----------------------------------------------------------------------------------------
-- Values that are passed over
-----------------------------------------------------------------------------------------

/-- No value begins with a closing bracket. -/
theorem WideNode.head?_ne_bracket (w : WideNode) {ts : List Token} {bytes : List UInt8}
    (lexed : Lexes (w.tokens ++ ts) bytes [])
    : (dropBlanks bytes).head? ≠ some 93 := by
  have first {t : Token} {us : List Token} (lexed : Lexes (t :: us) bytes [])
      (other : ∀ b, t.Begins b → b ≠ 93) : (dropBlanks bytes).head? ≠ some 93 := by
    obtain ⟨piece, behind, visible, spelled, -⟩ := lexed.of_cons
    obtain ⟨b, others, rfl, -, begins⟩ := spelled.exists_cons
    rw [visible]
    exact fun same => other b begins (Option.some.inj same)
  cases w with
  | null => exact first lexed (by rintro b begins rfl; cases begins)
  | bool v => cases v <;> exact first lexed (by rintro b begins rfl; cases begins)
  | number v => exact first lexed (by rintro b begins rfl; cases begins)
  | string units => exact first lexed (by rintro b begins rfl; cases begins)
  | array items => exact first lexed (by rintro b begins rfl; cases begins)
  | object fields => exact first lexed (by rintro b begins rfl; cases begins)

mutual

/-- A value that is passed over has texts for strings, and what is behind it is what is left of its
document: by induction on the value.
-/
theorem WideNode.narrow (w : WideNode) {ts : List Token} {bytes rest : List UInt8} {depth : Nat}
    (lexed : Lexes (w.tokens ++ ts) bytes [])
    (passed : Scanner.skipValue depth bytes = .ok () rest)
    : (∃ n : Node, n.wide = w) ∧ Lexes ts rest [] := by
  cases depth with
  | zero => cases passed
  | succ depth =>
      cases w with
      | null =>
          obtain ⟨piece, behind, visible, rfl, -, others⟩ := lexed.of_cons
          rw [Scanner.skipValue_succ, visible] at passed
          cases (literal_utf8 "null" behind).symm.trans passed
          exact ⟨⟨.null, rfl⟩, others⟩
      | bool v =>
          cases v with
          | true =>
              obtain ⟨piece, behind, visible, rfl, -, others⟩ := lexed.of_cons
              rw [Scanner.skipValue_succ, visible] at passed
              cases (literal_utf8 "true" behind).symm.trans passed
              exact ⟨⟨.bool true, rfl⟩, others⟩
          | false =>
              obtain ⟨piece, behind, visible, rfl, -, others⟩ := lexed.of_cons
              rw [Scanner.skipValue_succ, visible] at passed
              cases (literal_utf8 "false" behind).symm.trans passed
              exact ⟨⟨.bool false, rfl⟩, others⟩
      | number v =>
          obtain ⟨piece, behind, visible, rfl, stops, others⟩ := lexed.of_cons
          obtain ⟨b, digits, written, kind⟩ := (Node.number v).utf8_text_cons
          have whole : Json.dropBlanks bytes = b :: (digits ++ behind) :=
            visible.trans (congrArg (· ++ behind) written)
          have scanned := number_of_stops v stops
          rw [← visible, whole] at scanned
          rw [← Scanner.skipValue_dropBlanks, whole, skipValue_number depth kind,
            Scanner.bind_of_ok scanned] at passed
          cases passed
          exact ⟨⟨.number v, rfl⟩, others⟩
      | string units =>
          obtain ⟨piece, behind, visible, ⟨spelling, ⟨body, -, rfl⟩, rfl⟩, -, -⟩ := lexed.of_cons
          have quote : utf8 (String.ofList ('"' :: (body ++ ['"']))) ++ behind
              = 34 :: ((body ++ ['"']).flatMap String.utf8EncodeChar ++ behind) := by
            rw [utf8_ofList, List.flatMap_cons]
            rfl
          rw [quote] at visible
          rw [Scanner.skipValue_succ, visible] at passed
          obtain ⟨text, rest', scanned, done⟩ := Scanner.ok_of_bind passed
          cases done
          obtain ⟨same, others⟩ := lexed.of_string visible scanned
          exact ⟨⟨.string text, congrArg WideNode.string same⟩, others⟩
      | array items =>
          obtain ⟨piece, behind, visible, rfl, -, others⟩ := lexed.of_cons
          rw [Scanner.skipValue_succ, visible] at passed
          rw [List.append_eq, List.append_assoc] at others
          obtain ⟨⟨ns, same⟩, others⟩ := itemsNarrow items false others passed
          exact ⟨⟨.array ns, congrArg WideNode.array same⟩, others⟩
      | object fields =>
          obtain ⟨piece, behind, visible, rfl, -, others⟩ := lexed.of_cons
          rw [Scanner.skipValue_succ, visible] at passed
          rw [List.append_eq, List.append_assoc] at others
          obtain ⟨⟨members, same⟩, others⟩ := fieldsNarrow fields false others passed
          exact ⟨⟨.object members, congrArg WideNode.object same⟩, others⟩

theorem itemsNarrow (items : List WideNode) (behind : Bool) {ts : List Token}
    {bytes rest : List UInt8} {depth : Nat}
    (lexed : Lexes (itemsTokens behind items ++ .mark 93 (by decide) :: ts) bytes [])
    (passed : Reader.elementsBehind (!behind) depth bytes = .ok () rest)
    : (∃ ns : List Node, itemsWide ns = items) ∧ Lexes ts rest [] := by
  rcases Reader.dropBlanks_of_remainder (by decide) passed with closing
    | ⟨start, other, begun, more⟩
  · cases items with
    | nil => exact ⟨⟨[], rfl⟩, (Lexes.of_mark lexed closing).2⟩
    | cons w items =>
        cases behind with
        | true => exact absurd (Lexes.of_mark lexed closing).1 (by decide)
        | false =>
            rw [itemsTokens, if_neg Bool.false_ne_true, List.nil_append, List.append_assoc] at lexed
            exact absurd (congrArg List.head? closing) (w.head?_ne_bracket lexed)
  · cases items with
    | nil =>
        obtain ⟨piece, behind, visible, rfl, -, -⟩ := lexed.of_cons
        rw [visible] at other
        exact absurd rfl other
    | cons w items =>
        have front : Lexes (w.tokens ++ (itemsTokens true items ++ .mark 93 (by decide) :: ts))
          start [] := by
          rw [← List.append_assoc]
          cases behind with
          | true => exact (Lexes.of_mark lexed begun).2
          | false =>
              have begun : Json.dropBlanks bytes = start := begun
              exact begun ▸ lexed.dropBlanks
        rw [Scanner.skipElements_unfold (Scanner.consumes_skipValue depth)] at more
        obtain ⟨_, between, passed, more⟩ := Scanner.ok_of_bind more
        obtain ⟨⟨n, rfl⟩, later⟩ := w.narrow front passed
        obtain ⟨⟨ns, rfl⟩, last⟩ := itemsNarrow items true later more
        exact ⟨⟨n :: ns, rfl⟩, last⟩

theorem fieldsNarrow (fields : List WideField) (behind : Bool) {ts : List Token}
    {bytes rest : List UInt8} {depth : Nat}
    (lexed : Lexes (fieldsTokens behind fields ++ .mark 125 (by decide) :: ts) bytes [])
    (passed : Reader.membersBehind (!behind) depth bytes = .ok () rest)
    : (∃ members : List Field, fieldsWide members = fields) ∧ Lexes ts rest [] := by
  rcases Reader.dropBlanks_of_remainder (by decide) passed with closing
    | ⟨start, other, begun, more⟩
  · cases fields with
    | nil => exact ⟨⟨[], rfl⟩, (Lexes.of_mark lexed closing).2⟩
    | cons field fields =>
        obtain ⟨units, w⟩ := field
        cases behind with
        | true => exact absurd (Lexes.of_mark lexed closing).1 (by decide)
        | false =>
            obtain ⟨piece, behind, visible, spelled, -⟩ := lexed.of_cons
            obtain ⟨b, others, rfl, -, rfl⟩ := spelled.exists_cons
            cases visible.symm.trans closing
  · cases fields with
    | nil =>
        obtain ⟨piece, behind, visible, rfl, -, -⟩ := lexed.of_cons
        rw [visible] at other
        exact absurd rfl other
    | cons field fields =>
        obtain ⟨units, w⟩ := field
        have front : Lexes (.string units :: colon
            :: (w.tokens ++ (fieldsTokens true fields ++ .mark 125 (by decide) :: ts)))
              start [] := by
          rw [← List.append_assoc]
          cases behind with
          | true => exact (Lexes.of_mark lexed begun).2
          | false =>
              have begun : Json.dropBlanks bytes = start := begun
              exact begun ▸ lexed.dropBlanks
        rw [Scanner.skipMembers_unfold (Scanner.suffixes_skipValue depth)] at more
        obtain ⟨key, value, keyed, more⟩ := Scanner.ok_of_bind more
        obtain ⟨_, between, passed, more⟩ := Scanner.ok_of_bind more
        obtain ⟨quote, named, visible, scanned, mark⟩ := Scanner.dropBlanks_of_keyAndColon keyed
        obtain ⟨same, front⟩ := front.of_string visible scanned
        obtain ⟨⟨n, rfl⟩, later⟩ := w.narrow (Lexes.of_mark front mark).2 passed
        obtain ⟨⟨members, rfl⟩, last⟩ := fieldsNarrow fields true later more
        refine ⟨⟨⟨key, n⟩ :: members, ?_⟩, last⟩
        rw [fieldsWide, same]

end

/-- A text that is passed over denotes a tree whose strings are texts. -/
theorem exists_node_of_skips {w : WideNode} {text : List Char} (spelled : Padded w.Spells text)
    {rest : List UInt8} (passed : Scanner.Skips (utf8 (String.ofList text)) rest)
    : ∃ n : Node, n.wide = w := by
  obtain ⟨depth, passed⟩ := passed
  have lexed := lexes_of_spells spelled
  rw [← List.append_nil w.tokens] at lexed
  exact (w.narrow lexed passed).1

end Protobuf.Json
