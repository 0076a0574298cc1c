import Protobuf.Message.Basic
import Protobuf.WellKnown.Types

/-! Lawful schemas: field numbers are legal and belong to one member each, only numbers are packed,
and no message holds itself without presence.  The last law makes empty messages finite, so facts
about them are proved by induction on the types that a type embeds.
-/

namespace Protobuf

open Wire

/-- Integers, booleans and texts are keys of maps. -/
def ScalarType.isKey : ScalarType → Bool
  | .float | .double | .bytes _ | .enumeration _ => false
  | _ => true

/-- Only numbers are packed, and maps have keys of a key type. -/
def Shape.isLawful : Shape → Bool
  | .repeated (.scalar type) packed _ => !packed || type.wireType != .lengthDelimited
  | .repeated (.message _) packed _ => !packed
  | .map key _ => key.isKey
  | _ => true

def Member.tags (m : Member) : List Nat :=
  match m.shape with
  | .oneof alternatives => alternatives.map (·.tag)
  | _ => [m.tag]

namespace MessageType

def tags (t : MessageType) : List Nat :=
  t.members.flatMap Member.tags

/-- The type has a member that always holds a message of the given type. -/
def embeds (t : MessageType) (name : String) : Bool :=
  t.members.any fun m => m.shape == .single (.message name)

/-- What is required of a message type apart from the other types. -/
structure Lawful (t : MessageType) : Prop where
  form : t.form ≠ .filler
  legal : ∀ tag ∈ t.tags, 0 < tag ∧ tag ≤ maxTag
  distinct : t.tags.Nodup
  shapes : ∀ m ∈ t.members, m.shape.isLawful

instance (t : MessageType) : Decidable t.Lawful :=
  decidable_of_iff
    (t.form ≠ .filler ∧ (∀ tag ∈ t.tags, 0 < tag ∧ tag ≤ maxTag) ∧ t.tags.Nodup
      ∧ ∀ m ∈ t.members, m.shape.isLawful)
    ⟨fun ⟨form, legal, distinct, shapes⟩ => ⟨form, legal, distinct, shapes⟩,
      fun ⟨form, legal, distinct, shapes⟩ => ⟨form, legal, distinct, shapes⟩⟩

end MessageType

namespace Schema

/-- All types are lawful, have names of their own and embed only types that stand behind them. -/
structure Lawful (s : Schema) : Prop where
  types : ∀ t ∈ s.types, t.Lawful
  layered : s.types.Pairwise fun t u => t.name ≠ u.name ∧ ¬u.embeds t.name
  finite : ∀ t ∈ s.types, ¬t.embeds t.name

instance (s : Schema) : Decidable s.Lawful :=
  decidable_of_iff
    ((∀ t ∈ s.types, t.Lawful)
      ∧ s.types.Pairwise (fun t u => t.name ≠ u.name ∧ ¬u.embeds t.name)
      ∧ ∀ t ∈ s.types, ¬t.embeds t.name)
    ⟨fun ⟨types, layered, finite⟩ => ⟨types, layered, finite⟩,
      fun ⟨types, layered, finite⟩ => ⟨types, layered, finite⟩⟩

end Schema

namespace WellKnown

theorem lawful_types
    : (schemaWith []).Lawful := by
  decide +kernel

/-- A lawful type of another name may stand beside the well-known ones. -/
theorem lawful_schemaWith {t : MessageType} (lawful : t.Lawful)
    (apart : ∀ u ∈ types, t.name ≠ u.name ∧ ¬u.embeds t.name) (finite : ¬t.embeds t.name)
    : (schemaWith [t]).Lawful where
  types := List.forall_mem_cons.mpr ⟨lawful, lawful_types.types⟩
  layered := .cons apart lawful_types.layered
  finite := List.forall_mem_cons.mpr ⟨finite, lawful_types.finite⟩

end WellKnown

-----------------------------------------------------------------------------------------
-- Members by field number
-----------------------------------------------------------------------------------------

theorem Member.hasTag_iff (m : Member) (tag : Nat)
    : m.hasTag tag ↔ tag ∈ m.tags := by
  rcases m with ⟨own, name, jsonName, shape⟩
  cases shape with
  | oneof alternatives => simp [hasTag, tags]
  | single _ | optional _ | repeated _ _ _ | map _ _ =>
      simp only [hasTag, tags, beq_iff_eq, List.mem_singleton]
      exact eq_comm

theorem Member.tag_of_alternative {m : Member} {tag : Nat} {a : Alternative}
    (h : m.alternative? tag = some a)
    : a.tag = tag ∧ tag ∈ m.tags := by
  unfold alternative? at h
  split at h
  · rename_i alternatives shape
    have same : a.tag = tag := by simpa using List.find?_some h
    refine ⟨same, ?_⟩
    rw [tags, shape]
    exact List.mem_map.mpr ⟨a, List.mem_of_find?_eq_some h, same⟩
  · cases h

theorem Member.shape_of_alternative {m : Member} {tag : Nat} {a : Alternative}
    (h : m.alternative? tag = some a)
    : ∃ alternatives, m.shape = .oneof alternatives := by
  unfold alternative? at h
  split at h
  · rename_i alternatives shape
    exact ⟨alternatives, shape⟩
  · cases h

theorem MessageType.embeds_of_mem {t : MessageType} {m : Member} {name : String}
    (member : m ∈ t.members) (shape : m.shape = .single (.message name))
    : t.embeds name :=
  List.any_eq_true.mpr ⟨m, member, by simp [shape]⟩

namespace MessageType.Lawful

variable {t : MessageType} {m : Member} {before behind : List Member}

/-- A field number of a member does not belong to a member in front of it. -/
theorem not_hasTag (h : t.Lawful) (members : t.members = before ++ m :: behind) {tag : Nat}
    (own : tag ∈ m.tags)
    : ∀ n ∈ before, n.hasTag tag = false := by
  intro n earlier
  rw [← Bool.not_eq_true, n.hasTag_iff tag]
  intro shared
  have distinct := h.distinct
  rw [tags, members, List.flatMap_append, List.flatMap_cons, List.nodup_append] at distinct
  exact distinct.2.2 tag (List.mem_flatMap.mpr ⟨n, earlier, shared⟩) tag
    (List.mem_append_left _ own) rfl

theorem legal_of_mem (h : t.Lawful) (member : m ∈ t.members) {tag : Nat} (own : tag ∈ m.tags)
    : 0 < tag ∧ tag ≤ maxTag :=
  h.legal tag (List.mem_flatMap.mpr ⟨m, member, own⟩)

end MessageType.Lawful

-----------------------------------------------------------------------------------------
-- Empty messages
-----------------------------------------------------------------------------------------

/-- Types in front with other names do not matter, by induction on them. -/
theorem emptyMessage_append {before : List MessageType} {name : String}
    (h : ∀ t ∈ before, t.name ≠ name) (behind : List MessageType)
    : emptyMessage (before ++ behind) name = emptyMessage behind name := by
  induction before with
  | nil => rfl
  | cons t before ih =>
      have other : (t.name == name) = false := by simpa using h t (by simp)
      rw [List.cons_append, emptyMessage, other]
      exact ih fun u member => h u (List.mem_cons_of_mem t member)

namespace Schema

variable {s : Schema} {name : String}

/-- A name either belongs to a type of the schema, the first of that name, or to none. -/
theorem type_cases (s : Schema) (name : String)
    : (∃ before behind, s.types = before ++ s.type name :: behind
        ∧ (s.type name).name = name ∧ ∀ t ∈ before, t.name ≠ name)
      ∨ (s.type name = .empty name ∧ ∀ t ∈ s.types, t.name ≠ name) := by
  unfold type
  cases found : s.types.find? fun t => t.name == name with
  | none =>
      refine .inr ⟨rfl, fun t member => ?_⟩
      simpa using List.find?_eq_none.mp found t member
  | some t =>
      obtain ⟨same, before, behind, split, others⟩ := List.find?_eq_some_iff_append.mp found
      refine .inl ⟨before, behind, split, by simpa using same, fun u member => ?_⟩
      simpa using others u member

namespace Lawful

theorem type (h : s.Lawful) (name : String)
    : (s.type name).Lawful := by
  rcases s.type_cases name with ⟨before, behind, split, -, -⟩ | ⟨absent, -⟩
  · exact h.types _ (by simp [split])
  · rw [absent]
    exact ⟨JsonForm.noConfusion, by simp [MessageType.tags, MessageType.empty], .nil,
      by simp [MessageType.empty]⟩

/-- A type of the schema is found under its name. -/
theorem type_of_mem (h : s.Lawful) {t : MessageType} (member : t ∈ s.types)
    : s.type t.name = t := by
  obtain ⟨before, behind, split⟩ := List.append_of_mem member
  have layered := h.layered
  rw [split, List.pairwise_append] at layered
  have missing : before.find? (fun u => u.name == t.name) = none :=
    List.find?_eq_none.mpr fun u earlier => by simpa using (layered.2.2 u earlier t (by simp)).1
  rw [Schema.type, split, List.find?_append, missing]
  simp

/-- What a type embeds stands behind it. -/
theorem embedded_ne (h : s.Lawful) {before behind : List MessageType} {t : MessageType}
    (split : s.types = before ++ t :: behind) (embedded : t.embeds name)
    : ∀ u ∈ before ++ [t], u.name ≠ name := by
  intro u member same
  subst same
  rcases List.mem_append.mp member with earlier | self
  · have layered := h.layered
    rw [split, List.pairwise_append] at layered
    exact (layered.2.2 u earlier t (by simp)).2 embedded
  · cases List.mem_singleton.mp self
    exact h.finite t (by simp [split]) embedded

/-- An empty message holds what its members hold before they are set. -/
theorem empty_eq (h : s.Lawful) (name : String)
    : s.empty name = ⟨(s.type name).members.map fun m => m.shape.emptySlot s.empty, []⟩ := by
  rcases s.type_cases name with ⟨before, behind, split, same, others⟩ | ⟨absent, others⟩
  · have found : s.empty name
        = ⟨(s.type name).members.map fun m => m.shape.emptySlot (emptyMessage behind), []⟩ := by
      rw [Schema.empty, split, emptyMessage_append others, emptyMessage,
        if_pos (by simpa using same)]
    rw [found]
    congr 1
    refine List.map_congr_left fun m member => ?_
    rcases m with ⟨tag, name', jsonName, shape⟩
    cases shape with
    | single type =>
        cases type with
        | scalar type => rfl
        | message inner =>
            have embedded : (s.type name).embeds inner := MessageType.embeds_of_mem member rfl
            simp only [Shape.emptySlot, Schema.empty]
            rw [split, List.append_cons, emptyMessage_append (h.embedded_ne split embedded)]
    | optional _ | repeated _ _ _ | map _ _ | oneof _ => rfl
  · have missing := emptyMessage_append others []
    rw [List.append_nil] at missing
    rw [absent, Schema.empty, missing]
    rfl

/-- What holds of a type as soon as it holds of the types that it embeds holds of all types, by
induction on the types behind it.
-/
theorem embedded_induction (h : s.Lawful) {P : String → Prop}
    (step : ∀ name, (∀ inner, (s.type name).embeds inner → P inner) → P name) (name : String)
    : P name := by
  have behind : ∀ behind before, s.types = before ++ behind
      → ∀ name, (∀ t ∈ before, t.name ≠ name) → P name := by
    intro behind
    induction behind with
    | nil =>
        intro before split name others
        refine step name fun inner embedded => ?_
        rcases s.type_cases name with ⟨_, _, found, same, -⟩ | ⟨absent, -⟩
        · have member : s.type name ∈ before := by
            rw [← before.append_nil, ← split, found]
            simp
          exact absurd same (others _ member)
        · simp [absent, MessageType.empty, MessageType.embeds] at embedded
    | cons t behind ih =>
        intro before split name others
        have next := ih (before ++ [t]) (by simp [split])
        by_cases same : t.name = name
        · refine step name fun inner embedded => next inner ?_
          have missing : before.find? (fun u => u.name == name) = none :=
            List.find?_eq_none.mpr (by simpa using others)
          have found : s.type name = t := by
            rw [Schema.type, split, List.find?_append, missing]
            simp [same]
          exact h.embedded_ne split (found ▸ embedded)
        · refine next name fun u member => ?_
          rcases List.mem_append.mp member with earlier | self
          · exact others u earlier
          · rw [List.mem_singleton.mp self]
            exact same
  exact behind s.types [] rfl name (by simp)

end Lawful

end Schema

end Protobuf
