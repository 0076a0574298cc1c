import Protobuf.FieldMask.Naming
import Protobuf.Proofs.Text.Utf8

/-! The two naming styles undo each other: a text without underscores is the camel case form of its
snake case form.
-/

namespace Protobuf.Text

theorem isCapital_iff (c : Char)
    : isCapital c ↔ 65 ≤ c.toNat ∧ c.toNat ≤ 90 := by
  have low : 'A' ≤ c ↔ 65 ≤ c.toNat := Iff.rfl
  have high : c ≤ 'Z' ↔ c.toNat ≤ 90 := Iff.rfl
  simp [isCapital, low, high]

/-- A capital is lowered to a letter, which is raised to the capital again. -/
theorem capitalize_uncapitalize {c : Char} (capital : isCapital c)
    : uncapitalize c ≠ '_' ∧ capitalize (uncapitalize c) = c := by
  have range := (isCapital_iff c).mp capital
  have lowered : uncapitalize c = Char.ofNat (c.toNat + 32) := if_pos capital
  have code : (Char.ofNat (c.toNat + 32)).toNat = c.toNat + 32 := toNat_ofNat_of_lt (by omega)
  have letter : 'a' ≤ Char.ofNat (c.toNat + 32) ∧ Char.ofNat (c.toNat + 32) ≤ 'z' := by
    have low : 'a' ≤ Char.ofNat (c.toNat + 32) ↔ 97 ≤ (Char.ofNat (c.toNat + 32)).toNat := Iff.rfl
    have high : Char.ofNat (c.toNat + 32) ≤ 'z' ↔ (Char.ofNat (c.toNat + 32)).toNat ≤ 122 := Iff.rfl
    rw [low, high, code]
    omega
  rw [lowered]
  refine ⟨fun same => ?_, ?_⟩
  · have := congrArg Char.toNat same
    rw [code] at this
    have underscore : '_'.toNat = 95 := rfl
    omega
  · rw [capitalize, if_pos (by simpa using letter), code, Nat.add_sub_cancel, Char.ofNat_toNat]

/-- No letter is raised to an underscore. -/
theorem capitalize_ne {c : Char} (other : c ≠ '_')
    : capitalize c ≠ '_' := by
  unfold capitalize
  split
  · rename_i letter
    have range : 'a' ≤ c ∧ c ≤ 'z' := by simpa using letter
    have low : 97 ≤ c.toNat := range.1
    have high : c.toNat ≤ 122 := range.2
    intro same
    have code := congrArg Char.toNat same
    rw [toNat_ofNat_of_lt (by omega)] at code
    have underscore : '_'.toNat = 95 := rfl
    omega
  · exact other

theorem not_mem_camelChars (raise : Bool) (text : List Char)
    : '_' ∉ camelChars raise text := by
  induction text generalizing raise with
  | nil => nofun
  | cons c text ih =>
      rw [camelChars]
      split
      · exact ih true
      · rename_i other
        refine List.not_mem_cons_of_ne_of_not_mem (Ne.symm ?_) (ih false)
        split
        · exact capitalize_ne other
        · exact other

/-- A text without underscores comes back from its snake case form, by induction on it. -/
theorem camelChars_snakeChars {text : List Char} (h : '_' ∉ text)
    : camelChars false (snakeChars text) = text := by
  induction text with
  | nil => rfl
  | cons c text ih =>
      obtain ⟨first, others⟩ := List.ne_and_not_mem_of_not_mem_cons h
      rw [snakeChars]
      split
      · rename_i capital
        obtain ⟨other, raised⟩ := capitalize_uncapitalize capital
        rw [camelChars, if_pos rfl, camelChars, if_neg other, if_pos rfl, raised, ih others]
      · rw [camelChars, if_neg (Ne.symm first), ih others]
        rfl

end Protobuf.Text

namespace Protobuf.FieldMask

open Text

theorem not_mem_of_toCamelCase {path camel : String} (h : toCamelCase path = .ok camel)
    : '_' ∉ camel.toList := by
  unfold toCamelCase at h
  dsimp only at h
  split at h
  · cases h
    rw [String.toList_ofList]
    exact not_mem_camelChars _ _
  · cases h

theorem toSnakeCase_of_toCamelCase {path camel : String} (h : toCamelCase path = .ok camel)
    : toSnakeCase camel = .ok path := by
  have plain := not_mem_of_toCamelCase h
  rw [toSnakeCase, if_neg (by simpa using plain)]
  unfold toCamelCase at h
  dsimp only at h
  split at h
  · rename_i back
    cases h
    rw [String.toList_ofList, back, String.ofList_toList]
  · cases h

/-- A text without underscores names a path, and is how the path is written. -/
theorem exists_path_of_camel {camel : String} (plain : '_' ∉ camel.toList)
    : ∃ path, toSnakeCase camel = .ok path ∧ toCamelCase path = .ok camel := by
  refine ⟨String.ofList (snakeChars camel.toList), ?_, ?_⟩
  · rw [toSnakeCase, if_neg (by simpa using plain)]
  · simp only [toCamelCase, String.toList_ofList, camelChars_snakeChars plain, if_true,
      String.ofList_toList]

theorem not_mem_of_toSnakeCase {path camel : String} (h : toSnakeCase camel = .ok path)
    : '_' ∉ camel.toList := by
  intro inside
  rw [toSnakeCase, if_pos (by simpa using inside)] at h
  cases h

/-- A path is written as the text that names it. -/
theorem toCamelCase_eq_ok_iff {path camel : String}
    : toCamelCase path = .ok camel ↔ toSnakeCase camel = .ok path := by
  refine ⟨toSnakeCase_of_toCamelCase, fun snake => ?_⟩
  obtain ⟨other, named, back⟩ := exists_path_of_camel (not_mem_of_toSnakeCase snake)
  cases snake.symm.trans named
  exact back

/-- Texts without underscores name paths, and are how the paths are written, by induction on them.
-/
theorem exists_paths_of_camel {camel : List String} (plain : ∀ text ∈ camel, '_' ∉ text.toList)
    : ∃ paths, camel.mapM toSnakeCase = .ok paths ∧ paths.mapM toCamelCase = .ok camel := by
  induction camel with
  | nil => exact ⟨[], rfl, rfl⟩
  | cons text camel ih =>
      obtain ⟨own, others⟩ := List.forall_mem_cons.mp plain
      obtain ⟨path, snake, back⟩ := exists_path_of_camel own
      obtain ⟨paths, snakes, backs⟩ := ih others
      refine ⟨path :: paths, ?_, ?_⟩
      · rw [List.mapM_cons, snake, snakes]
        rfl
      · rw [List.mapM_cons, back, backs]
        rfl

theorem not_mem_of_mapM_toCamelCase {paths camel : List String}
    (h : paths.mapM toCamelCase = .ok camel)
    : ∀ text ∈ camel, '_' ∉ text.toList := by
  induction paths generalizing camel with
  | nil =>
      cases h
      nofun
  | cons path paths ih =>
      rw [List.mapM_cons] at h
      cases first : toCamelCase path with
      | error e =>
          rw [first] at h
          cases h
      | ok own =>
          cases others : paths.mapM toCamelCase with
          | error e =>
              rw [first, others] at h
              cases h
          | ok behind =>
              rw [first, others] at h
              cases h
              exact List.forall_mem_cons.mpr ⟨not_mem_of_toCamelCase first, ih others⟩

end Protobuf.FieldMask
