import Protobuf.Json.Writer
import Protobuf.Proofs.Json.Grammar

/-! The text of a JSON tree without blanks, in which only what has to be escaped is escaped.
-/

namespace Protobuf.Json

mutual

/-- The shortest text of a value. -/
def Node.text : Node → String
  | .null => "null"
  | .bool v => if v then "true" else "false"
  | .number v => String.ofList v.text
  | .string v => stringLiteral v
  | .array items => "[" ++ itemsText false items ++ "]"
  | .object fields => "\x7b" ++ fieldsText false fields ++ "\x7d"

/-- The items of an array with commas between them, and in front of them if they stand behind
others.
-/
def itemsText : Bool → List Node → String
  | _, [] => ""
  | behind, n :: items => (if behind then "," else "") ++ n.text ++ itemsText true items

/-- The members of an object with commas between them, and in front of them if they stand behind
others.
-/
def fieldsText : Bool → List Field → String
  | _, [] => ""
  | behind, ⟨key, n⟩ :: fields =>
      (if behind then "," else "") ++ stringLiteral key ++ ":" ++ n.text ++ fieldsText true fields

end

-----------------------------------------------------------------------------------------
-- String literals
-----------------------------------------------------------------------------------------

theorem codeUnit?_of_lt : ∀ n < 32,
    codeUnit? ['0', '0', Text.hexDigit (n / 16), Text.hexDigit (n % 16)] = some n := by
  decide

/-- A character is written as a short escape, as its code, or as it is. -/
theorem escapeChar_cases (c : Char)
    : (∃ letter, (letter, c) ∈ shortEscapes ∧ escapeChar c = ['\\', letter])
      ∨ (c.toNat < 32 ∧ escapeChar c
          = ['\\', 'u', '0', '0', Text.hexDigit (c.toNat / 16), Text.hexDigit (c.toNat % 16)])
      ∨ (32 ≤ c.toNat ∧ c ≠ '"' ∧ c ≠ '\\' ∧ escapeChar c = [c]) := by
  generalize written : escapeChar c = text
  have short {letter d : Char} (same : c = d) (listed : (letter, d) ∈ shortEscapes)
      (written : ['\\', letter] = text)
      : ∃ other, (other, c) ∈ shortEscapes ∧ text = ['\\', other] :=
    ⟨letter, same ▸ listed, written.symm⟩
  have ofCode {n : Nat} (code : c.toNat = n) : c = Char.ofNat n :=
    code ▸ (Char.ofNat_toNat c).symm
  unfold escapeChar at written
  split at written
  · exact .inl (short ‹_› (by decide) written)
  split at written
  · exact .inl (short ‹_› (by decide) written)
  split at written
  · exact .inl (short ‹_› (by decide) written)
  split at written
  · exact .inl (short ‹_› (by decide) written)
  split at written
  · exact .inl (short ‹_› (by decide) written)
  split at written
  · exact .inl (short (ofCode ‹_›) (by decide) written)
  split at written
  · exact .inl (short (ofCode ‹_›) (by decide) written)
  split at written
  · exact .inr (.inl ⟨‹_›, written.symm⟩)
  · exact .inr (.inr ⟨by omega, ‹_›, ‹_›, written.symm⟩)

theorem Quoted.escapeChar (c : Char) {text body : List Char} (behind : Quoted text body)
    : Quoted (c :: text) (escapeChar c ++ body) := by
  rcases escapeChar_cases c with
    ⟨letter, listed, same⟩ | ⟨control, same⟩ | ⟨printable, quote, backslash, same⟩
  · rw [same]
    exact .short listed behind
  · rw [same]
    exact .unit (codeUnit?_of_lt _ control) behind
  · rw [same]
    exact .plain printable quote backslash behind

theorem quoted_escaped (text : List Char)
    : Quoted text (text.flatMap escapeChar) := by
  induction text with
  | nil => exact .nil
  | cons c text ih => exact ih.escapeChar c

theorem isLiteral_stringLiteral (text : String)
    : IsLiteral text (stringLiteral text).toList :=
  ⟨_, quoted_escaped text.toList, String.toList_ofList⟩

/-- No character of the text needs an escape. -/
def IsPlain (text : List Char) : Prop :=
  ∀ c ∈ text, escapeChar c = [c]

theorem stringLiteral_of_plain {text : String} (plain : IsPlain text.toList)
    : stringLiteral text = "\"" ++ text ++ "\"" := by
  have same : ∀ {cs : List Char}, IsPlain cs → cs.flatMap escapeChar = cs := by
    intro cs plain
    induction cs with
    | nil => rfl
    | cons c cs ih =>
        obtain ⟨first, others⟩ := List.forall_mem_cons.mp plain
        rw [List.flatMap_cons, first, ih others, List.singleton_append]
  apply String.toList_injective
  simp only [stringLiteral, same plain, String.toList_ofList, String.toList_append]
  rfl

-----------------------------------------------------------------------------------------
-- Values
-----------------------------------------------------------------------------------------

theorem padded_of_spells {spells : List Char → Prop} {text : List Char} (h : spells text)
    : Padded spells text :=
  ⟨[], text, [], by simp, by simp [IsBlank], h, by simp [IsBlank]⟩

theorem toList_separator (behind : Bool)
    : (if behind then "," else "").toList = if behind then [','] else [] := by
  cases behind <;> rfl

mutual

/-- The shortest text spells the value, by induction on it. -/
theorem Node.spells_text (n : Node)
    : n.Spells n.text.toList := by
  cases n with
  | null => rfl
  | bool v => cases v <;> rfl
  | number v => exact String.toList_ofList
  | string v => exact isLiteral_stringLiteral v
  | array items =>
      exact ⟨_, by simp only [Node.text, String.toList_append]; rfl, itemsSpell_text false items⟩
  | object fields =>
      exact ⟨_, by simp only [Node.text, String.toList_append]; rfl, fieldsSpell_text false fields⟩

theorem itemsSpell_text (behind : Bool) (items : List Node)
    : itemsSpell behind items (itemsText behind items).toList := by
  cases items with
  | nil => cases behind <;> simp [itemsSpell, itemsText, IsBlank]
  | cons n items =>
      refine ⟨_, _, ?_, padded_of_spells n.spells_text, itemsSpell_text true items⟩
      simp only [itemsText, String.toList_append, toList_separator]

theorem fieldsSpell_text (behind : Bool) (fields : List Field)
    : fieldsSpell behind fields (fieldsText behind fields).toList := by
  cases fields with
  | nil => cases behind <;> simp [fieldsSpell, fieldsText, IsBlank]
  | cons field fields =>
      obtain ⟨key, n⟩ := field
      refine ⟨_, _, _, ?_, padded_of_spells (isLiteral_stringLiteral key),
        padded_of_spells n.spells_text, fieldsSpell_text true fields⟩
      simp only [fieldsText, String.toList_append, toList_separator, List.append_assoc]
      rfl

end

end Protobuf.Json
