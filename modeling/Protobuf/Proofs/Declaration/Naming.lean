import Protobuf.Proofs.Declaration.TakingPart
import Protobuf.Proofs.FieldMask.Naming

/-! The names of fields and alternatives in both styles.  The JSON name of a field is its name in
camel case, as a field mask writes it, if it can; and the JSON name of an alternative is its
identifier with a small letter in front.
-/

namespace Protobuf.Text

/-- A name in camel case is made of its words between underscores, by induction on its characters.
-/
theorem camelChars_eq (raise : Bool) (text : List Char)
    : camelChars raise text
        = match text.splitOn '_' with
          | [] => []
          | first :: words =>
              (if raise then capitalizeWord first else first)
                ++ (words.map capitalizeWord).flatten := by
  induction text generalizing raise with
  | nil => cases raise <;> rfl
  | cons c text ih =>
      obtain ⟨first, words, pieces⟩ := List.exists_cons_of_ne_nil (List.splitOn_ne_nil '_' text)
      rw [camelChars, List.splitOn_cons_eq_if_modifyHead, ih true, ih false, pieces]
      by_cases underscore : c = '_'
      · cases raise <;> simp [underscore, capitalizeWord]
      · cases raise <;> simp [underscore, capitalizeWord]

/-- The loop over a field's name appends the name in camel case, by induction on its characters. -/
theorem foldl_addToJsonName (out : List Char) (raise : Bool) (text : List Char)
    : (text.foldl addToJsonName (out, raise)).1 = out ++ camelChars raise text := by
  induction text generalizing out raise with
  | nil => exact (List.append_nil out).symm
  | cons c text ih =>
      rw [List.foldl_cons, addToJsonName, camelChars]
      by_cases underscore : c = '_'
      · rw [if_pos underscore, if_pos underscore, ih]
      · rw [if_neg underscore, if_neg underscore]
        cases raise <;> simp [ih]

/-- The JSON name of a field is its name in camel case. -/
theorem jsonName_eq (name : String)
    : jsonName name = String.ofList (camelChars false name.toList) := by
  rw [jsonName, foldl_addToJsonName, List.nil_append]

/-- The JSON name of a field: the words between underscores, each but the first one capitalized. -/
theorem jsonName_words (name : String)
    : jsonName name
        = match name.toList.splitOn '_' with
          | [] => ""
          | first :: words => String.ofList (first ++ (words.map capitalizeWord).flatten) := by
  rw [jsonName_eq, camelChars_eq]
  cases name.toList.splitOn '_' with
  | nil => rfl
  | cons first words => rfl

end Protobuf.Text

namespace Protobuf.Declaration

open Text FieldMask

/-- The text with a capital at its beginning lowered. -/
def lowerFirst (text : String) : String :=
  match text.toList with
  | [] => ""
  | c :: rest => String.ofList (uncapitalize c :: rest)

theorem jsonName_of_toCamelCase {path camel : String} (h : toCamelCase path = .ok camel)
    : camel = jsonName path := by
  rw [jsonName_eq]
  unfold toCamelCase at h
  dsimp only at h
  split at h
  · exact (Except.ok.inj h).symm
  · cases h

/-- A field without a JSON name of its own has that of its name. -/
theorem jsonName_of_ofItems {identifier : String} {items : List Item} {field : Field}
    (accepted : Field.ofItems identifier items = .ok field)
    (unnamed : ∀ item ∈ items, item.key? ≠ some "json_name")
    : field.jsonName = jsonName field.name := by
  obtain ⟨-, -, distinct, described⟩ := ofItems_eq_ok_iff.mp accepted
  have none : (items.foldl Collected.withItem {}).at? .jsonName = none := by
    rw [at?_collected distinct, List.find?_eq_none]
    intro m listed named
    obtain ⟨item, own, meant⟩ := List.mem_filterMap.mp listed
    cases m with
    | jsonName text => exact unnamed item own (key_of_jsonName meant)
    | tag _ | tags _ | type _ | label _ | map _ | packed _ | name _ => cases of_decide_eq_true named
  have own := described.jsonName
  rw [Option.map_eq_none_iff.mp none] at own
  exact own.symm

theorem plainIdentifier_eq {text : List Char} (unmarked : ¬['r', '#'] <+: text)
    : plainIdentifier text = text := by
  unfold plainIdentifier
  split
  · rename_i rest
    exact absurd ⟨rest, rfl⟩ unmarked
  · rfl

/-- The first letter is lowered, and each other capital is raised behind the underscore that it
gets.
-/
theorem jsonName_snakeIdentifier {identifier : String} (plain : '_' ∉ identifier.toList)
    (unmarked : ¬['r', '#'] <+: identifier.toList)
    : jsonName (snakeIdentifier identifier) = lowerFirst identifier := by
  rw [jsonName_eq, snakeIdentifier, plainIdentifier_eq unmarked, lowerFirst]
  cases letters : identifier.toList with
  | nil => rfl
  | cons c rest =>
      rw [letters] at plain
      obtain ⟨first, others⟩ := List.ne_and_not_mem_of_not_mem_cons plain
      have lowered : uncapitalize c ≠ '_' := by
        by_cases capital : isCapital c
        · exact (capitalize_uncapitalize capital).1
        · rw [uncapitalize, if_neg capital]
          exact Ne.symm first
      dsimp only
      rw [String.toList_ofList, camelChars, if_neg lowered, camelChars_snakeChars others]
      rfl

/-- Names convert between the styles and agree.  A path is written as the text that names it and
only so; a text without underscores names a path; the text of a path is the JSON name of that name,
so it is the JSON name of a field that does not declare another one; and the JSON name that comes
from the identifier of an alternative is the identifier with a capital at its beginning lowered.
-/
theorem names_convert_and_agree
    : (∀ path camel, toCamelCase path = .ok camel ↔ toSnakeCase camel = .ok path)
      ∧ (∀ camel : String, '_' ∉ camel.toList
        → ∃ path, toSnakeCase camel = .ok path ∧ toCamelCase path = .ok camel)
      ∧ (∀ path camel, toCamelCase path = .ok camel → camel = jsonName path)
      ∧ (∀ identifier items field, Field.ofItems identifier items = .ok field
        → (∀ item ∈ items, item.key? ≠ some "json_name")
        → ∀ camel, toCamelCase field.name = .ok camel → camel = field.jsonName)
      ∧ ∀ identifier : String, '_' ∉ identifier.toList → ¬['r', '#'] <+: identifier.toList
        → jsonName (snakeIdentifier identifier) = lowerFirst identifier := by
  refine ⟨fun path camel => toCamelCase_eq_ok_iff, fun camel => exists_path_of_camel,
    fun path camel => jsonName_of_toCamelCase, ?_, fun identifier => jsonName_snakeIdentifier⟩
  intro identifier items field accepted unnamed camel written
  rw [jsonName_of_ofItems accepted unnamed]
  exact jsonName_of_toCamelCase written

/-- A leading underscore, digits and letters beyond ASCII. -/
theorem names_convert_and_agree_mixed
    : toSnakeCase "AÄb.x1Y" = .ok "_aÄb.x1_y"
      ∧ (∃ path, toSnakeCase "AÄb.x1Y" = .ok path ∧ toCamelCase path = .ok "AÄb.x1Y")
      ∧ "AÄb.x1Y" = jsonName "_aÄb.x1_y"
      ∧ (∃ field, Field.ofItems "foo_bar" [.word "oneof", .call "tags" [.integer 1]] = .ok field
        ∧ "fooBar" = field.jsonName)
      ∧ jsonName (snakeIdentifier "ÄABr#") = lowerFirst "ÄABr#" := by
  obtain ⟨convert, named, json, fields, variants⟩ := names_convert_and_agree
  have written : toCamelCase "_aÄb.x1_y" = .ok "AÄb.x1Y" := by decide +kernel
  have accepted : Field.ofItems "foo_bar" [.word "oneof", .call "tags" [.integer 1]]
      = .ok ⟨.oneof, [1], "foo_bar", "fooBar"⟩ := by
    decide +kernel
  refine ⟨(convert _ _).mp written, named _ (by decide +kernel), json _ _ written,
    ⟨_, accepted, ?_⟩, variants _ (by decide +kernel) (by decide +kernel)⟩
  exact fields _ _ _ accepted (by decide) _ (by decide +kernel)

end Protobuf.Declaration
