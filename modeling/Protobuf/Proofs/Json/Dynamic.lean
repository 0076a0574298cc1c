import Protobuf.Proofs.Json.Reading
import Protobuf.WellKnown.Tree
import Protobuf.WellKnown.Types

/-! Dynamic values as JSON trees.  A tree of values and a JSON tree of the same shape stand for one
another: the writer spells out the one, and the reader builds up the other.
-/

namespace Protobuf

open Json Number

namespace WellKnown

namespace Tree

mutual

/-- The JSON value of a dynamic value. -/
def node : Tree → Node
  | .null => .null
  | .number bits => floatNode double bits.toNat
  | .text v => .string v
  | .bool v => .bool v
  | .struct fields => .object (fieldNodes fields)
  | .list items => .array (nodes items)

def fieldNodes : List TreeField → List Field
  | [] => []
  | ⟨key, value⟩ :: fields => ⟨key, value.node⟩ :: fieldNodes fields

def nodes : List Tree → List Node
  | [] => []
  | item :: items => item.node :: nodes items

end

/-- The fields of a struct as entries, one after the other. -/
def fieldEntries (fields : List TreeField) : List Entry :=
  fields.map fun field => ⟨.string field.key, .message field.value.message⟩

mutual

/-- Numbers are finite and their texts lead back to them, and keys stand in ascending order. -/
def Legible : Tree → Prop
  | .number bits => specialText (double.value bits.toNat) = none ∧ (Scalar.double bits).ReadsBack
  | .struct fields => Ordered (.string none) (fieldEntries fields) ∧ fieldsLegible fields
  | .list items => itemsLegible items
  | .null | .text _ | .bool _ => True

def fieldsLegible : List TreeField → Prop
  | [] => True
  | ⟨_, value⟩ :: fields => value.Legible ∧ fieldsLegible fields

def itemsLegible : List Tree → Prop
  | [] => True
  | item :: items => item.Legible ∧ itemsLegible items

end

theorem insertFields_eq (fields : List TreeField) (es : List Entry)
    : insertFields fields es = insertEntries es (fieldEntries fields) := by
  induction fields generalizing es with
  | nil => rfl
  | cons field fields ih =>
      obtain ⟨key, value⟩ := field
      exact ih _

/-- Fields with ascending keys are the entries of their struct. -/
theorem insertFields_of_ordered {fields : List TreeField}
    (ordered : Ordered (.string none) (fieldEntries fields))
    : insertFields fields [] = fieldEntries fields :=
  (insertFields_eq fields []).trans (ordered.sortEntries_eq rfl)

end Tree

end WellKnown

/-- The well-known types stand under their names. -/
def Schema.HasWellKnown (s : Schema) : Prop :=
  ∀ t ∈ WellKnown.types, s.type t.name = t

namespace Json

open FieldMask WellKnown

variable {s : Schema} {config : Config} {mask : PathSet} {tree : AnyTree} {read : MessageReader}
  {path : Path} {slack limit : Nat}

-----------------------------------------------------------------------------------------
-- Schemas with the well-known types
-----------------------------------------------------------------------------------------

theorem hasWellKnown {own : List MessageType} (lawful : (schemaWith own).Lawful)
    : (schemaWith own).HasWellKnown :=
  fun _ listed => lawful.type_of_mem (List.mem_append_right own listed)

section

variable (known : s.HasWellKnown)

include known

theorem type_value
    : s.type "google.protobuf.Value" = valueType :=
  known valueType (by simp [types])

theorem type_struct
    : s.type "google.protobuf.Struct" = structType :=
  known structType (by simp [types])

theorem type_listValue
    : s.type "google.protobuf.ListValue" = listValueType :=
  known listValueType (by simp [types])

end

-----------------------------------------------------------------------------------------
-- Dynamic values that are written
-----------------------------------------------------------------------------------------

mutual

/-- A dynamic value is written as its JSON value, by induction on it. -/
theorem messageNode_tree (known : s.HasWellKnown) (path : Path) (τ : Tree) (legible : τ.Legible)
    : messageNode s config tree mask path valueType τ.message = some τ.node := by
  cases τ with
  | null | text v | bool v => rfl
  | number bits =>
      have finite := legible.1
      simp only [Tree.message, Tree.ofKind, messageNode, valueType, kindNode, dynamicNode, finite,
        WellKnown.Tree.node]
  | struct fields =>
      have inner : structFields s config tree mask path (Tree.insertFields fields [])
          = some (Tree.fieldNodes fields) := by
        rw [Tree.insertFields_of_ordered legible.1]
        exact structFields_tree known path fields legible.2
      have whole : messageNode s config tree mask path structType
          ⟨[.entries (Tree.insertFields fields [])], []⟩
            = some (WellKnown.Tree.node (.struct fields)) :=
        congrArg (Option.map Node.object) inner
      rw [← type_struct known] at whole
      exact whole
  | list items =>
      have inner := itemNodes_tree known path items legible
      have whole : messageNode s config tree mask path listValueType
          ⟨[.many (Tree.messages items)], []⟩ = some (WellKnown.Tree.node (.list items)) :=
        congrArg (Option.map Node.array) inner
      rw [← type_listValue known] at whole
      exact whole

theorem structFields_tree (known : s.HasWellKnown) (path : Path) (fields : List TreeField)
    (legible : Tree.fieldsLegible fields)
    : structFields s config tree mask path (Tree.fieldEntries fields)
        = some (Tree.fieldNodes fields) := by
  cases fields with
  | nil => rfl
  | cons field fields =>
      cases field with
      | mk key value =>
          have first := messageNode_tree known (path.push key) value legible.1
          have others := structFields_tree known path fields legible.2
          rw [← type_value known] at first
          exact Option.bind_eq_some_iff.mpr
            ⟨_, first, Option.bind_eq_some_iff.mpr ⟨_, others, rfl⟩⟩

theorem itemNodes_tree (known : s.HasWellKnown) (path : Path) (items : List Tree)
    (legible : Tree.itemsLegible items)
    : itemNodes s config tree mask path (Tree.messages items) = some (Tree.nodes items) := by
  cases items with
  | nil => rfl
  | cons item items =>
      have first := messageNode_tree known path item legible.1
      have others := itemNodes_tree known path items legible.2
      rw [← type_value known] at first
      exact Option.bind_eq_some_iff.mpr
        ⟨_, first, Option.bind_eq_some_iff.mpr ⟨_, others, rfl⟩⟩

end

-----------------------------------------------------------------------------------------
-- Dynamic values that are read
-----------------------------------------------------------------------------------------

/-- A finite number is read with its bits. -/
theorem reads_number {bits : UInt64} (finite : specialText (double.value bits.toNat) = none)
    (back : (Scalar.double bits).ReadsBack)
    : Reads Reader.double (floatNode double bits.toNat) bits := by
  obtain ⟨v, read, same⟩ := reads_floatNode_double back
  rcases value_cases double (show bits.toNat < 2 * double.signBit from bits.toNat_lt) with
    ⟨none, -⟩ | ⟨number, -⟩
  · rw [none] at finite
    cases finite
  · rw [canonical_double (Nat.not_lt.mpr number)] at same
    cases same
    exact read

theorem message_eq (τ : Tree)
    : τ.message = ⟨τ.message.slots, []⟩ := by
  cases τ <;> rfl

/-- A dynamic value is read into a fresh message. -/
theorem takes_readDynamic (lawful : s.Lawful) (known : s.HasWellKnown) {τ : Tree}
    (serves : Serves s limit read) (h : ∀ m limit,
      Takes slack limit (readMessage s valueType m) τ.node path ⟨τ.message.slots, m.unknown⟩ [])
    : Takes slack limit (readDynamic s read) τ.node path (.message τ.message) [] := by
  have own := h (s.empty dynamicType) limit
  rw [lawful.empty_eq, ← message_eq, ← lawful.empty_eq, ← type_value known] at own
  exact (serves.takes own).map Value.message

mutual

/-- A dynamic value is read from its JSON value, whatever was in its place, by induction on it. -/
theorem takes_tree (lawful : s.Lawful) (known : s.HasWellKnown) (path : Path) (τ : Tree)
    (legible : τ.Legible) (m : Message) (limit : Nat)
    : Takes slack limit (readMessage s valueType m) τ.node path
      ⟨τ.message.slots, m.unknown⟩ [] := by
  refine takes_slots (fun read r more faces place serves => ?_) limit
  simp only [readSlots, valueType, readKind, faces.peekKind]
  cases τ with
  | null =>
      refine .inl ?_
      simp only [WellKnown.Tree.node, Node.kind]
      rw [reads_null r more faces]
      rfl
  | number bits =>
      refine .inl ?_
      have read := reads_number legible.1 legible.2 r more faces
      rw [WellKnown.Tree.node, floatNode_of_finite legible.1]
      simp only [Node.kind, read]
      rfl
  | text v =>
      refine .inl ?_
      simp only [WellKnown.Tree.node, Node.kind, reads_string v r more faces]
      rfl
  | bool v =>
      refine .inl ?_
      simp only [WellKnown.Tree.node, Node.kind, reads_bool v r more faces]
      rfl
  | struct fields =>
      have inside := takes_treeFields lawful known serves r.path fields legible.2 []
      have own := object_of_faces faces inside
      simp only [WellKnown.Tree.node, Node.kind, readFields]
      rcases own with read | failed
      · refine .inl ?_
        simp only [read]
        rfl
      · exact .inr failed
  | list items =>
      have inside := takes_treeItems lawful known serves r.path items legible []
      have own := array_of_faces faces inside
      simp only [WellKnown.Tree.node, Node.kind, readItems]
      rcases own with read | failed
      · refine .inl ?_
        simp only [read]
        rfl
      · exact .inr failed

theorem takes_treeFields (lawful : s.Lawful) (known : s.HasWellKnown) {limit : Nat}
    {read : MessageReader} (serves : Serves s limit read) (path : Path) (fields : List TreeField)
    (legible : Tree.fieldsLegible fields) (es : List Entry)
    : TakesFields slack limit (fun key es r =>
          let (v, r) := r.withField key (readDynamic s read)
          (insertEntry (.string key) v es, r)) path (Tree.fieldNodes fields) es
        (Tree.insertFields fields es) [] := by
  cases fields with
  | nil => exact .nil es
  | cons field fields =>
      cases field with
      | mk key value =>
          have own := takes_readDynamic lawful known serves
            (takes_tree lawful known (path.push key) value legible.1)
          have others := takes_treeFields lawful known serves path fields legible.2
            (insertEntry (.string key) (.message value.message) es)
          exact .cons (own.withField.map (insertEntry (.string key) · es)) others

theorem takes_treeItems (lawful : s.Lawful) (known : s.HasWellKnown) {limit : Nat}
    {read : MessageReader} (serves : Serves s limit read) (path : Path) (items : List Tree)
    (legible : Tree.itemsLegible items) (vs : List Value)
    : TakesItems slack limit (fun vs r =>
          let (v, r) := readDynamic s read r
          (vs ++ [v], r)) path (Tree.nodes items) vs (vs ++ Tree.messages items) [] := by
  cases items with
  | nil =>
      rw [Tree.messages, List.append_nil]
      exact .nil vs
  | cons item items =>
      have own := takes_readDynamic lawful known serves
        (takes_tree lawful known path item legible.1)
      have others := takes_treeItems lawful known serves path items legible.2
        (vs ++ [.message item.message])
      rw [List.append_assoc] at others
      exact .cons (own.map (vs ++ [·])) others

end

/-- A dynamic value is read into an empty message. -/
theorem takes_treeMessage (lawful : s.Lawful) (known : s.HasWellKnown) (path : Path) (τ : Tree)
    (legible : τ.Legible) (limit : Nat)
    : Takes slack limit (readMessage s valueType (s.empty valueType.name)) τ.node path τ.message []
    := by
  have read : Takes slack limit (readMessage s valueType (s.empty valueType.name))
    τ.node path _ [] :=
    takes_tree lawful known path τ legible (s.empty valueType.name) limit
  rw [lawful.empty_eq, ← message_eq, ← lawful.empty_eq] at read
  exact read

theorem takes_structMessage (lawful : s.Lawful) (known : s.HasWellKnown) (path : Path)
    {fields : List TreeField} (legible : Tree.fieldsLegible fields)
    (ordered : Ordered (.string none) (Tree.fieldEntries fields)) (limit : Nat)
    : Takes slack limit (readMessage s structType (s.empty structType.name))
        (.object (Tree.fieldNodes fields)) path ⟨[.entries (Tree.fieldEntries fields)], []⟩ [] := by
  have empty : s.empty structType.name = ⟨[.entries []], []⟩ := by
    rw [lawful.empty_eq, known structType (by simp [types])]
    rfl
  rw [empty]
  refine takes_slots (fun read r more faces place serves => ?_) limit
  have inside := @takes_treeFields s slack lawful known _ _ serves r.path fields legible []
  rw [Tree.insertFields_of_ordered ordered] at inside
  have own := object_of_faces faces inside
  simp only [readSlots, structType, readFields]
  rcases own with read | failed
  · refine .inl ?_
    simp only [read]
  · exact .inr failed

theorem takes_listMessage (lawful : s.Lawful) (known : s.HasWellKnown) (path : Path)
    {items : List Tree} (legible : Tree.itemsLegible items) (limit : Nat)
    : Takes slack limit (readMessage s listValueType (s.empty listValueType.name))
        (.array (Tree.nodes items)) path ⟨[.many (Tree.messages items)], []⟩ [] := by
  have empty : s.empty listValueType.name = ⟨[.many []], []⟩ := by
    rw [lawful.empty_eq, known listValueType (by simp [types])]
    rfl
  rw [empty]
  refine takes_slots (fun read r more faces place serves => ?_) limit
  have own := array_of_faces faces
    (@takes_treeItems s slack lawful known _ _ serves r.path items legible [])
  simp only [readSlots, listValueType, readItems]
  rcases own with read | failed
  · refine .inl ?_
    simp only [read]
    rfl
  · exact .inr failed

end Json

end Protobuf
