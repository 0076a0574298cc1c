import Protobuf.Schema.Type

/-! What a type is made of: the types that its members hold, those that are reached through them,
and the names under which values stand in an object.
-/

namespace Protobuf

-----------------------------------------------------------------------------------------
-- Types inside types
-----------------------------------------------------------------------------------------

/-- The types of the values that a member can hold. -/
def Member.valueTypes (m : Member) : List ValueType :=
  match m.shape with
  | .single type | .optional type | .repeated type _ _ | .map _ type => [type]
  | .oneof alternatives => alternatives.map (·.type)

/-- A message of the first type can hold one of the second at some depth, or both are the same. -/
inductive Schema.MayHold (s : Schema) : String → String → Prop
  | refl (name : String) : MayHold s name name
  | step {name inner last : String} {m : Member} (before : MayHold s name inner)
    (member : m ∈ (s.type inner).members) (holds : .message last ∈ m.valueTypes)
    : MayHold s name last

theorem Member.valueTypes_of_alternative {m : Member} {tag : Nat} {a : Alternative}
    (h : m.alternative? tag = some a)
    : a.type ∈ m.valueTypes := by
  unfold alternative? at h
  split at h
  · rename_i alternatives shape
    rw [valueTypes, shape]
    exact List.mem_map_of_mem (List.mem_of_find?_eq_some h)
  · cases h

-----------------------------------------------------------------------------------------
-- Names
-----------------------------------------------------------------------------------------

/-- No name of an enumeration stands for two values, and none stands twice for one. -/
def EnumType.DistinctNames (e : EnumType) : Prop :=
  (e.numberTable.map (·.1)).Nodup

instance (e : EnumType) : Decidable e.DistinctNames :=
  inferInstanceAs (Decidable (List.Nodup _))

/-- The name that is written for a number is read as that number. -/
def EnumType.Legible (e : EnumType) : Prop :=
  ∀ p ∈ e.nameTable, e.numberTable.lookup p.2 = some p.1

instance (e : EnumType) : Decidable e.Legible :=
  inferInstanceAs (Decidable (∀ p ∈ e.nameTable, _))

/-- A name that is listed once is read as its number. -/
theorem EnumType.DistinctNames.legible {e : EnumType} (distinct : e.DistinctNames)
    : e.Legible := by
  intro p listed
  obtain ⟨value, member, rfl⟩ := List.mem_map.mp listed
  have numbered : (value.name, value.number) ∈ e.numberTable :=
    List.mem_flatMap.mpr ⟨value, member, by simp⟩
  obtain ⟨front, behind, split⟩ := List.append_of_mem numbered
  refine List.lookup_eq_some_iff.mpr ⟨front, behind, split, fun p earlier => ?_⟩
  unfold EnumType.DistinctNames at distinct
  rw [split, List.map_append, List.nodup_append] at distinct
  have other := distinct.2.2 p.1 (List.mem_map_of_mem earlier) value.name (by simp)
  simpa using other.symm

/-- The names of the type, if it is an enumeration, are distinct. -/
def ScalarType.DistinctNames : ScalarType → Prop
  | .enumeration e => e.DistinctNames
  | _ => True

instance : (type : ScalarType) → Decidable type.DistinctNames
  | .enumeration e => inferInstanceAs (Decidable e.DistinctNames)
  | .int32 | .int64 | .uint32 | .uint64 | .sint32 | .sint64 | .fixed32 | .fixed64 | .sfixed32
  | .sfixed64 | .bool | .float | .double | .string _ | .bytes _ => .isTrue trivial

/-- The names of the type, if it is an enumeration, are read as their numbers. -/
def ScalarType.Legible : ScalarType → Prop
  | .enumeration e => e.Legible
  | _ => True

instance : (type : ScalarType) → Decidable type.Legible
  | .enumeration e => inferInstanceAs (Decidable e.Legible)
  | .int32 | .int64 | .uint32 | .uint64 | .sint32 | .sint64 | .fixed32 | .fixed64 | .sfixed32
  | .sfixed64 | .bool | .float | .double | .string _ | .bytes _ => .isTrue trivial

/-- The names of the type, if it is an enumeration, are distinct. -/
def ValueType.DistinctNames : ValueType → Prop
  | .scalar type => type.DistinctNames
  | .message _ => True

instance : (type : ValueType) → Decidable type.DistinctNames
  | .scalar type => inferInstanceAs (Decidable type.DistinctNames)
  | .message _ => .isTrue trivial

/-- The names of the type, if it is an enumeration, are read as their numbers. -/
def ValueType.Legible : ValueType → Prop
  | .scalar type => type.Legible
  | .message _ => True

instance : (type : ValueType) → Decidable type.Legible
  | .scalar type => inferInstanceAs (Decidable type.Legible)
  | .message _ => .isTrue trivial

theorem ValueType.DistinctNames.legible {type : ValueType} (h : type.DistinctNames)
    : type.Legible := by
  cases type with
  | message name => trivial
  | scalar type =>
      cases type with
      | enumeration e => exact EnumType.DistinctNames.legible h
      | _ => trivial

/-- The message type is one that is reached, or the names of the scalar type are legible. -/
def ValueType.Reached (s : Schema) (root : String) : ValueType → Prop
  | .scalar type => type.Legible
  | .message name => s.MayHold root name

/-- A value stands under its name or its JSON name. -/
structure KeyNames where
  name : String
  jsonName : String
deriving DecidableEq

/-- The key is one of the names. -/
def KeyNames.Has (names : KeyNames) (key : String) : Prop :=
  key = names.name ∨ key = names.jsonName

/-- No key is a name of both. -/
def KeyNames.Apart (a b : KeyNames) : Prop :=
  ¬b.Has a.name ∧ ¬b.Has a.jsonName

instance (names : KeyNames) (key : String) : Decidable (names.Has key) :=
  inferInstanceAs (Decidable (_ ∨ _))

instance (a b : KeyNames) : Decidable (a.Apart b) :=
  inferInstanceAs (Decidable (_ ∧ _))

/-- The names under which the values of a member stand: those of each alternative of a oneof. -/
def Member.keyNames (m : Member) : List KeyNames :=
  match m.shape with
  | .oneof alternatives => alternatives.map fun a => ⟨a.name, a.jsonName⟩
  | _ => [⟨m.name, m.jsonName⟩]

theorem Member.keyNames_of_alone {m : Member}
    (alone : ∀ alternatives, m.shape ≠ .oneof alternatives)
    : m.keyNames = [⟨m.name, m.jsonName⟩] := by
  unfold Member.keyNames
  cases shape : m.shape with
  | oneof alternatives => exact absurd shape (alone alternatives)
  | single _ | optional _ | repeated _ _ _ | map _ _ => rfl

namespace MessageType

def keyNames (t : MessageType) : List KeyNames :=
  t.members.flatMap Member.keyNames

/-- A key of an object stands for one value, and so does the name of an enumeration. -/
structure DistinctNames (t : MessageType) : Prop where
  keys : t.keyNames.Pairwise KeyNames.Apart
  enums : ∀ m ∈ t.members, ∀ type ∈ m.valueTypes, type.DistinctNames

instance (t : MessageType) : Decidable t.DistinctNames :=
  decidable_of_iff
    (t.keyNames.Pairwise KeyNames.Apart
      ∧ ∀ m ∈ t.members, ∀ type ∈ m.valueTypes, type.DistinctNames)
    ⟨fun ⟨keys, enums⟩ => ⟨keys, enums⟩, fun ⟨keys, enums⟩ => ⟨keys, enums⟩⟩

/-- A key of an object stands for one value, and the name of an enumeration for its number. -/
structure Legible (t : MessageType) : Prop where
  keys : t.keyNames.Pairwise KeyNames.Apart
  enums : ∀ m ∈ t.members, ∀ type ∈ m.valueTypes, type.Legible

instance (t : MessageType) : Decidable t.Legible :=
  decidable_of_iff
    (t.keyNames.Pairwise KeyNames.Apart ∧ ∀ m ∈ t.members, ∀ type ∈ m.valueTypes, type.Legible)
    ⟨fun ⟨keys, enums⟩ => ⟨keys, enums⟩, fun ⟨keys, enums⟩ => ⟨keys, enums⟩⟩

theorem DistinctNames.legible {t : MessageType} (h : t.DistinctNames)
    : t.Legible :=
  ⟨h.keys, fun m member type holds => (h.enums m member type holds).legible⟩

end MessageType

theorem KeyNames.Apart.symm {a b : KeyNames} (h : a.Apart b)
    : b.Apart a := by
  obtain ⟨first, second⟩ := h
  simp only [Has, not_or] at first second
  simp only [Apart, Has, not_or]
  exact ⟨⟨Ne.symm first.1, Ne.symm second.1⟩, ⟨Ne.symm first.2, Ne.symm second.2⟩⟩

theorem KeyNames.Apart.not_has {a b : KeyNames} (h : a.Apart b) {key : String} (own : a.Has key)
    : ¬b.Has key := by
  rcases own with rfl | rfl
  · exact h.1
  · exact h.2

/-- A key of one place in the list stands for no other place. -/
theorem not_has_of_apart {front behind : List KeyNames} {names : KeyNames} {key : String}
    (apart : (front ++ names :: behind).Pairwise KeyNames.Apart) (own : names.Has key)
    : ∀ other ∈ front ++ behind, ¬other.Has key := by
  obtain ⟨-, later, between⟩ := List.pairwise_append.mp apart
  intro other listed
  rcases List.mem_append.mp listed with earlier | listed
  · exact (between other earlier names (by simp)).symm.not_has own
  · exact ((List.pairwise_cons.mp later).1 other listed).not_has own

theorem MessageType.Legible.reached {s : Schema} {root name : String}
    (h : (s.type name).Legible) (reached : s.MayHold root name) {m : Member}
    (member : m ∈ (s.type name).members) {type : ValueType} (holds : type ∈ m.valueTypes)
    : type.Reached s root := by
  cases type with
  | scalar type => exact h.enums m member _ holds
  | message inner => exact reached.step member holds

/-- A key of a member is not one of another, and stands for one place in the member. -/
theorem MessageType.Legible.not_has {t : MessageType} (h : t.Legible)
    {front behind : List Member} {m : Member} (split : t.members = front ++ m :: behind)
    {before after : List KeyNames} {names : KeyNames}
    (place : m.keyNames = before ++ names :: after) {key : String} (own : names.Has key)
    : (∀ n ∈ front ++ behind, ∀ other ∈ n.keyNames, ¬other.Has key)
      ∧ ∀ other ∈ before ++ after, ¬other.Has key := by
  have apart := h.keys
  rw [keyNames, split, List.flatMap_append, List.flatMap_cons, place, List.append_assoc,
    ← List.append_assoc, List.cons_append] at apart
  have others := not_has_of_apart apart own
  simp only [List.mem_append, List.mem_flatMap] at others
  refine ⟨fun n listed other named => others other ?_, fun other listed => others other ?_⟩
  · rcases List.mem_append.mp listed with earlier | later
    · exact .inl (.inl ⟨n, earlier, named⟩)
    · exact .inr (.inr ⟨n, later, named⟩)
  · rcases List.mem_append.mp listed with earlier | later
    · exact .inl (.inr earlier)
    · exact .inr (.inl later)

end Protobuf
