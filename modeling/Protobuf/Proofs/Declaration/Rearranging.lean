import Mathlib.Data.List.Perm.Basic
import Protobuf.Proofs.Declaration.TakingPart

/-! The order of the items of a declaration, and how they are dealt out to its attributes.  Two
items that are taken one after the other are taken as well in the other order, for they have
different roles, and the same is collected; so a list of items declares what each of its
rearrangements declares.  What is declared of a field is well-formed.
-/

namespace Protobuf.Declaration

-----------------------------------------------------------------------------------------
-- Two items
-----------------------------------------------------------------------------------------

namespace Collected

variable {c c' : Collected}

/-- Different roles are filled in any order. -/
theorem set_comm {m n : Meaning} (other : m.role ≠ n.role)
    : (c.set m).set n = (c.set n).set m := by
  refine ext_at (fun role => ?_) (by simp only [strangers_set])
  simp only [at?_set]
  split
  · rename_i last
    rw [if_neg fun same => other (same.symm.trans last)]
  · rfl

/-- Two meanings that are put find their roles free, and so they do in the other order. -/
theorem put_comm {m n : Meaning} (taken : (c.put m >>= fun d => d.put n) = .ok c')
    : (c.put n >>= fun d => d.put m) = .ok c' := by
  simp only [bind_eq_ok_iff, put_eq_ok_iff] at taken ⊢
  obtain ⟨_, ⟨free, rfl⟩, behind, rfl⟩ := taken
  rw [at?_set] at behind
  split at behind
  · cases behind
  · rename_i other
    refine ⟨_, ⟨behind, rfl⟩, ?_, set_comm other⟩
    rwa [at?_set, if_neg (Ne.symm other)]

/-- A meaning is put before or behind an item without one. -/
theorem put_addStranger_iff {m : Meaning}
    : (c.put m >>= addStranger) = .ok c' ↔ (c.addStranger >>= fun d => d.put m) = .ok c' := by
  have free : ({ c with strangers := c.strangers + 1 } : Collected).at? m.role = c.at? m.role := by
    cases m <;> rfl
  have same : ({ c with strangers := c.strangers + 1 } : Collected).set m
      = { c.set m with strangers := (c.set m).strangers + 1 } := by
    cases m <;> rfl
  simp only [bind_eq_ok_iff, put_eq_ok_iff, addStranger, Except.ok.injEq,
    exists_eq_left', free, same]
  constructor
  · rintro ⟨_, ⟨unfilled, rfl⟩, rfl⟩
    exact ⟨unfilled, rfl⟩
  · rintro ⟨unfilled, rfl⟩
    exact ⟨_, ⟨unfilled, rfl⟩, rfl⟩

/-- Two readings that are taken one after the other are taken as well in the other order. -/
theorem take_comm {first second : Reading}
    (taken : (c.take first >>= fun d => d.take second) = .ok c')
    : (c.take second >>= fun d => d.take first) = .ok c' := by
  match first, second with
  | .error _, _ => cases taken
  | .ok none, .error _ => cases taken
  | .ok (some m), .error _ =>
      obtain ⟨_, _, refused⟩ := bind_eq_ok_iff.mp taken
      cases refused
  | .ok none, .ok none => exact taken
  | .ok none, .ok (some n) => exact put_addStranger_iff.mpr taken
  | .ok (some m), .ok none => exact put_addStranger_iff.mp taken
  | .ok (some m), .ok (some n) => exact put_comm taken

end Collected

-----------------------------------------------------------------------------------------
-- Whole lists
-----------------------------------------------------------------------------------------

/-- A way to collect items that passes over literals and takes each other item as what it is read to
be.
-/
structure Collects (step : Collected → Item → Except DeclarationError Collected)
    (reading : Item → Reading)
    : Prop where
  literal : ∀ c value, step c (.literal value) = .ok c
  keyed : ∀ c item, item.isLiteral = false → step c item = c.take (reading item)

/-- What an item of an alternative means, by the first attribute that knows it. -/
def Item.variantReading (item : Item) : Reading :=
  .or (.as .tag (tagItem item)) <|
  .or (.as .type (FieldType.ofItem item)) <|
  .or (.as .name (textItem "name" item)) <|
  .or (.as .jsonName (textItem "json_name" item)) <|
  .ok none

theorem collects_addToField
    : Collects Collected.addToField Item.reading :=
  ⟨fun _ _ => rfl, fun _ _ => Collected.addToField_eq⟩

theorem collects_addToVariant
    : Collects Collected.addToVariant Item.variantReading := by
  refine ⟨fun _ _ => rfl, fun c item keyed => ?_⟩
  unfold Item.variantReading
  simp only [← Collected.orElse_put]
  cases item with
  | literal value => cases keyed
  | word key | assign key value | call key values => rfl

section

variable {step : Collected → Item → Except DeclarationError Collected} {reading : Item → Reading}
  {c c' : Collected} {items others : List Item}

theorem Item.eq_literal {item : Item} (h : item.isLiteral = true)
    : ∃ value, item = .literal value := by
  cases item with
  | literal value => exact ⟨value, rfl⟩
  | word key | assign key value | call key values => cases h

/-- Two items are collected in any order. -/
theorem Collects.comm (collects : Collects step reading) {a b : Item}
    (taken : (step c a >>= fun d => step d b) = .ok c')
    : (step c b >>= fun d => step d a) = .ok c' := by
  -- A literal changes nothing, in front of the other item or behind it.
  have front (value : Literal) (item : Item) (c : Collected)
      : (step c (.literal value) >>= fun d => step d item) = step c item := by
    rw [collects.literal]
    rfl
  have behind (value : Literal) (item : Item) (c : Collected)
      : (step c item >>= fun d => step d (.literal value)) = step c item := by
    simp only [collects.literal]
    exact bind_pure _
  cases first : a.isLiteral with
  | true =>
      obtain ⟨value, rfl⟩ := Item.eq_literal first
      rw [front] at taken
      rw [behind, taken]
  | false =>
      cases second : b.isLiteral with
      | true =>
          obtain ⟨value, rfl⟩ := Item.eq_literal second
          rw [behind] at taken
          rw [front, taken]
      | false =>
          simp only [collects.keyed _ _ first, collects.keyed _ _ second] at taken ⊢
          exact Collected.take_comm taken

/-- A list of items is collected in any order, by induction on its rearrangement. -/
theorem Collects.foldlM_perm (collects : Collects step reading) (same : items.Perm others)
    (taken : items.foldlM step c = .ok c')
    : others.foldlM step c = .ok c' := by
  induction same generalizing c with
  | nil => exact taken
  | cons item _ ih =>
      rw [List.foldlM_cons, bind_eq_ok_iff] at taken ⊢
      obtain ⟨d, first, behind⟩ := taken
      exact ⟨d, first, ih behind⟩
  | swap a b items =>
      simp only [List.foldlM_cons, ← bind_assoc] at taken ⊢
      obtain ⟨d, both, behind⟩ := bind_eq_ok_iff.mp taken
      exact bind_eq_ok_iff.mpr ⟨d, collects.comm both, behind⟩
  | trans _ _ first second => exact second (first taken)

/-- What comes of the collected items is the same for each rearrangement. -/
theorem Collects.bind_perm {α : Type} {describe : Collected → Except DeclarationError α} {x : α}
    (collects : Collects step reading) (same : items.Perm others)
    : (items.foldlM step c >>= describe) = .ok x ↔ (others.foldlM step c >>= describe) = .ok x := by
  simp only [bind_eq_ok_iff]
  exact exists_congr fun d => and_congr_left' ⟨collects.foldlM_perm same,
    collects.foldlM_perm same.symm⟩

end

-----------------------------------------------------------------------------------------
-- Well-formed descriptors
-----------------------------------------------------------------------------------------

/-- The types of integers. -/
def integerTypes : List FieldType :=
  [.int32, .int64, .uint32, .uint64, .sint32, .sint64, .fixed32, .fixed64, .sfixed32, .sfixed64]

/-- The parts of a descriptor fit together: what is packed is a number, a truth value or of an
enumeration; the keys of a map are integers, truth values or texts; and but for a oneof, a field has
one number, or none if it holds the undeclared fields.
-/
structure Field.IsWellFormed (field : Field) : Prop where
  packed : ∀ type, field.kind = .repeated type true
    → type ∈ integerTypes ++ [.bool, .float, .double] ∨ ∃ path, type = .enumeration path
  keys : ∀ key value, field.kind = .map key value → key ∈ integerTypes ++ [.bool, .string]
  unnumbered : field.kind = .unknown → field.tags = []
  numbered : field.kind ≠ .unknown → field.kind ≠ .oneof → ∃ tag, field.tags = [tag]

theorem FieldType.isNumeric_iff {type : FieldType}
    : type.isNumeric ↔ type ∈ integerTypes ++ [.bool, .float, .double]
      ∨ ∃ path, type = .enumeration path := by
  cases type <;> simp [isNumeric, integerTypes]

theorem FieldType.isMapKey_iff {type : FieldType}
    : type.isMapKey ↔ type ∈ integerTypes ++ [.bool, .string] := by
  cases type <;> simp [isMapKey, integerTypes]

theorem isMapKey_of_mapKind {text : String} {key value : FieldType}
    (h : Collected.mapKind text = .ok (.map key value))
    : key.isMapKey := by
  unfold Collected.mapKind at h
  dsimp only at h
  split at h
  · cases h
  · obtain ⟨own, -, h⟩ := bind_eq_ok_iff.mp h
    obtain ⟨behind, -, h⟩ := bind_eq_ok_iff.mp h
    split at h
    · cases h
      assumption
    · cases h

theorem Collected.Describes.isWellFormed {c : Collected} {identifier : String} {field : Field}
    (h : c.Describes identifier field)
    : field.IsWellFormed := by
  obtain ⟨-, given, -, numbers, -, -⟩ := h
  obtain ⟨kind, tags, name, jsonName⟩ := field
  constructor
  · rintro type ⟨⟩
    obtain ⟨-, -, -, -, numeric⟩ := given
    exact FieldType.isNumeric_iff.mp (numeric rfl)
  · rintro key value ⟨⟩
    obtain ⟨-, text, -, typed⟩ := given
    exact FieldType.isMapKey_iff.mp (isMapKey_of_mapKind typed)
  · rintro ⟨⟩
    exact numbers.2.2
  · intro known single
    cases kind with
    | unknown => exact absurd rfl known
    | oneof => exact absurd rfl single
    | single _ | optional _ | repeated _ _ | map _ _ =>
        obtain ⟨tag, -, same⟩ := numbers
        exact ⟨tag, same⟩

-----------------------------------------------------------------------------------------
-- Declarations
-----------------------------------------------------------------------------------------

/-- The items of a field or of an alternative are accepted in each order and however they are dealt
out to the attributes of their name, among which others may stand, and they declare the same
descriptor.  That of a field is well-formed.
-/
theorem declared_in_any_order {name : String} {attributes others : List Attribute}
    (same : (itemsOf name attributes).Perm (itemsOf name others)) (identifier : String)
    : (∀ field, Field.ofItems identifier (itemsOf name attributes) = .ok field
        ↔ Field.ofItems identifier (itemsOf name others) = .ok field)
      ∧ (∀ variant, Variant.ofItems identifier (itemsOf name attributes) = .ok variant
        ↔ Variant.ofItems identifier (itemsOf name others) = .ok variant)
      ∧ ∀ field, Field.ofItems identifier (itemsOf name attributes) = .ok field
        → field.IsWellFormed := by
  refine ⟨fun field => ?_, fun variant => ?_, fun field accepted => ?_⟩
  · rw [Collected.ofItems_eq, Collected.ofItems_eq]
    exact collects_addToField.bind_perm same
  · exact collects_addToVariant.bind_perm same
  · obtain ⟨-, -, -, described⟩ := ofItems_eq_ok_iff.mp accepted
    exact described.isWellFormed

/-- Two attributes with another one between them declare what one does that has their items in
another order.
-/
theorem declared_in_any_order_dealt
    : let type := Item.word "uint64"
      let name := Item.assign "name" (.string "a_b")
      let tag := Item.call "tag" [.integer 5]
      let attributes : List Attribute :=
        [⟨"protolite", [type, .literal (.integer 8)]⟩, ⟨"serde", [.word "skip"]⟩,
          ⟨"protolite", [name, tag]⟩]
      let others : List Attribute := [⟨"protolite", [tag, .literal (.integer 8), name, type]⟩]
      (itemsOf "protolite" attributes).Perm (itemsOf "protolite" others)
      ∧ Field.ofItems "x" (itemsOf "protolite" others) = .ok ⟨.single .uint64, [5], "a_b", "aB"⟩
      ∧ Variant.ofItems "x" (itemsOf "protolite" others) = .ok ⟨5, .uint64, "a_b", "aB"⟩
      ∧ Field.IsWellFormed ⟨.single .uint64, [5], "a_b", "aB"⟩ := by
  intro type name tag attributes others
  have same : (itemsOf "protolite" attributes).Perm (itemsOf "protolite" others) := by
    decide +kernel
  obtain ⟨fields, variants, wellFormed⟩ := declared_in_any_order same "x"
  have accepted : Field.ofItems "x" (itemsOf "protolite" attributes)
    = .ok ⟨.single .uint64, [5], "a_b", "aB"⟩ := by
    decide +kernel
  exact ⟨same, (fields _).mp accepted, (variants _).mp (by decide +kernel), wellFormed _ accepted⟩

end Protobuf.Declaration
