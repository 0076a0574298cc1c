import Protobuf.Json.Decode
import Protobuf.Proofs.FieldMask.PathSet
import Protobuf.Proofs.Json.Grammar
import Protobuf.Proofs.Schema.Names

/-! The fields that a document names: the paths of the declared keys that stand where a message is
read.  The tree of the document tells which these are; and each path stands behind the one in which
it lies.
-/

namespace Protobuf

open FieldMask Json

-----------------------------------------------------------------------------------------
-- Declared keys
-----------------------------------------------------------------------------------------

/-- The key names the member, which is no oneof. -/
def Member.isCalled (m : Member) (key : String) : Bool :=
  match m.shape with
  | .oneof _ => false
  | _ => isNamed m.name m.jsonName key

/-- The alternative of a oneof that the key names. -/
def Member.called? (m : Member) (key : String) : Option Alternative :=
  match m.shape with
  | .oneof alternatives => alternatives.find? fun a => isNamed a.name a.jsonName key
  | _ => none

/-- The name and the shape of what a key of an object stands for: a member, or one value of an
alternative.  Types of a form of their own declare no keys.
-/
def MessageType.declared? (t : MessageType) (key : String) : Option (String × Shape) :=
  match t.form with
  | .members =>
      match t.members.find? (·.isCalled key) with
      | some m => some (m.name, m.shape)
      | none =>
          (t.members.findSome? (·.called? key)).map fun a => (a.name, .single a.type)
  | _ => none

/-- No name of a member holds a dot. -/
def MessageType.DotlessNames (t : MessageType) : Prop :=
  ∀ names ∈ t.keyNames, '.' ∉ names.name.toList

instance (t : MessageType) : Decidable t.DotlessNames :=
  inferInstanceAs (Decidable (∀ names ∈ t.keyNames, '.' ∉ names.name.toList))

/-- What a key stands for has it as one of its names. -/
theorem exists_names_of_declared {t : MessageType} {key name : String} {shape : Shape}
    (declared : t.declared? key = some (name, shape))
    : ∃ names ∈ t.keyNames, names.name = name ∧ names.Has key := by
  have has {name jsonName : String} (named : isNamed name jsonName key)
      : KeyNames.Has ⟨name, jsonName⟩ key := by
    simpa [isNamed, KeyNames.Has] using named
  unfold MessageType.declared? at declared
  split at declared
  · split at declared
    · rename_i m found
      cases declared
      have called := List.find?_some found
      unfold Member.isCalled at called
      have alone : ∀ alternatives, m.shape ≠ .oneof alternatives := by
        intro alternatives shape
        simp [shape] at called
      refine ⟨⟨m.name, m.jsonName⟩,
        List.mem_flatMap.mpr ⟨m, List.mem_of_find?_eq_some found, ?_⟩, rfl, ?_⟩
      · rw [Member.keyNames_of_alone alone]
        exact List.mem_singleton_self _
      · cases shape : m.shape with
        | oneof alternatives => exact absurd shape (alone alternatives)
        | single _ | optional _ | repeated _ _ _ | map _ _ =>
            rw [shape] at called
            exact has called
    · obtain ⟨a, found, same⟩ := Option.map_eq_some_iff.mp declared
      cases same
      obtain ⟨m, member, called⟩ := List.exists_of_findSome?_eq_some found
      unfold Member.called? at called
      split at called
      · rename_i alternatives shape
        refine ⟨⟨a.name, a.jsonName⟩, List.mem_flatMap.mpr ⟨m, member, ?_⟩, rfl, has ?_⟩
        · rw [Member.keyNames, shape]
          exact List.mem_map_of_mem (List.mem_of_find?_eq_some called)
        · exact List.find?_some (p := fun a : Alternative => isNamed a.name a.jsonName key) called
      · cases called
  · cases declared

namespace Json

-----------------------------------------------------------------------------------------
-- Paths of declared keys
-----------------------------------------------------------------------------------------

section

variable (s : Schema)

mutual

/-- The paths of the declared keys in the value of a message of the type, which stands at the path.
-/
def Node.namedPaths (path : Path) (t : MessageType) : Node → List Path
  | .object fields => fieldsPaths path t fields
  | _ => []

def fieldsPaths (path : Path) (t : MessageType) : List Field → List Path
  | [] => []
  | ⟨key, n⟩ :: fields =>
      (match t.declared? key with
        | some (name, shape) => path.push name :: n.heldPaths (path.push name) shape
        | none => [])
      ++ fieldsPaths path t fields

/-- The paths below a declared key, in the messages that its value holds. -/
def Node.heldPaths (path : Path) (shape : Shape) : Node → List Path
  | .object fields =>
      match shape with
      | .single (.message name) | .optional (.message name) => fieldsPaths path (s.type name) fields
      | .map _ (.message name) => entriesPaths path (s.type name) fields
      | _ => []
  | .array items =>
      match shape with
      | .repeated (.message name) _ _ => itemsPaths path (s.type name) items
      | _ => []
  | _ => []

def itemsPaths (path : Path) (t : MessageType) : List Node → List Path
  | [] => []
  | n :: items => n.namedPaths path t ++ itemsPaths path t items

def entriesPaths (path : Path) (t : MessageType) : List Field → List Path
  | [] => []
  | ⟨_, n⟩ :: fields => n.namedPaths path t ++ entriesPaths path t fields

end

/-- The paths in a value of the type, which stands at the path. -/
def Node.valuePaths (path : Path) (type : ValueType) (n : Node) : List Path :=
  match type with
  | .scalar _ => []
  | .message name => n.namedPaths s path (s.type name)

/-- What a member adds to the paths of the object in which it stands. -/
def Field.namedPaths (path : Path) (t : MessageType) (field : Field) : List Path :=
  match t.declared? field.key with
  | some (name, shape) => path.push name :: field.value.heldPaths s (path.push name) shape
  | none => []

end

variable {s : Schema}

theorem fieldsPaths_eq (path : Path) (t : MessageType) (fields : List Field)
    : fieldsPaths s path t fields = fields.flatMap (·.namedPaths s path t) := by
  induction fields with
  | nil => rfl
  | cons field fields ih =>
      cases field with
      | mk key n => simp only [fieldsPaths, ih, List.flatMap_cons, Field.namedPaths]

theorem itemsPaths_eq (path : Path) (name : String) (items : List Node)
    : itemsPaths s path (s.type name) items
        = items.flatMap (·.valuePaths s path (.message name)) := by
  induction items with
  | nil => rfl
  | cons n items ih => rw [itemsPaths, ih, List.flatMap_cons, Node.valuePaths]

theorem entriesPaths_eq (path : Path) (name : String) (fields : List Field)
    : entriesPaths s path (s.type name) fields
        = fields.flatMap (·.value.valuePaths s path (.message name)) := by
  induction fields with
  | nil => rfl
  | cons field fields ih =>
      cases field with
      | mk key n => simp only [entriesPaths, ih, List.flatMap_cons, Node.valuePaths]

/-- In the value of a message of a form of its own there are no declared keys. -/
theorem namedPaths_of_form {t : MessageType} (form : t.form ≠ .members) (path : Path) (n : Node)
    : n.namedPaths s path t = [] := by
  have undeclared (key : String) : t.declared? key = none := by
    unfold MessageType.declared?
    split
    · exact absurd ‹_› form
    · rfl
  cases n with
  | object fields =>
      rw [Node.namedPaths, fieldsPaths_eq, List.flatMap_eq_nil_iff]
      intro field _
      simp only [Field.namedPaths, undeclared]
  | null | bool _ | number _ | string _ | array _ =>
      rw [Node.namedPaths]
      nofun

theorem heldPaths_single (path : Path) (type : ValueType) (n : Node)
    : n.heldPaths s path (.single type) = n.valuePaths s path type := by
  cases n <;> cases type <;> simp only [Node.heldPaths, Node.valuePaths, Node.namedPaths]

theorem heldPaths_optional (path : Path) (type : ValueType) (n : Node)
    : n.heldPaths s path (.optional type) = n.valuePaths s path type := by
  cases n <;> cases type <;> simp only [Node.heldPaths, Node.valuePaths, Node.namedPaths]

theorem heldPaths_repeated (path : Path) (type : ValueType) (packed : Bool) (capacity : Option Nat)
    (items : List Node)
    : (Node.array items).heldPaths s path (.repeated type packed capacity)
        = items.flatMap (·.valuePaths s path type) := by
  cases type with
  | scalar type => simp [Node.heldPaths, Node.valuePaths]
  | message name => rw [Node.heldPaths, itemsPaths_eq]

theorem heldPaths_map (path : Path) (key : ScalarType) (type : ValueType) (fields : List Field)
    : (Node.object fields).heldPaths s path (.map key type)
        = fields.flatMap (·.value.valuePaths s path type) := by
  cases type with
  | scalar type => simp [Node.heldPaths, Node.valuePaths]
  | message name => rw [Node.heldPaths, entriesPaths_eq]

-----------------------------------------------------------------------------------------
-- Paths that grow
-----------------------------------------------------------------------------------------

mutual

theorem growsFrom_namedPaths (dotless : ∀ name, (s.type name).DotlessNames) (path : Path)
    {t : MessageType} (own : t.DotlessNames) (n : Node)
    : GrowsFrom path (n.namedPaths s path t) := by
  cases n with
  | object fields =>
      rw [Node.namedPaths]
      exact growsFrom_fieldsPaths dotless path own fields
  | null | bool _ | number _ | string _ | array _ =>
      rw [Node.namedPaths]
      · exact growsFrom_nil
      · nofun

theorem growsFrom_fieldsPaths (dotless : ∀ name, (s.type name).DotlessNames) (path : Path)
    {t : MessageType} (own : t.DotlessNames)
    (fields : List Field)
    : GrowsFrom path (fieldsPaths s path t fields) := by
  cases fields with
  | nil => exact growsFrom_nil
  | cons field fields =>
      cases field with
      | mk key n =>
          rw [fieldsPaths]
          refine GrowsFrom.append ?_ (growsFrom_fieldsPaths dotless path own fields)
          split
          · rename_i name shape declared
            obtain ⟨names, listed, rfl, -⟩ := exists_names_of_declared declared
            exact (growsFrom_heldPaths dotless (path.push names.name) shape n).below
              (own names listed)
          · exact growsFrom_nil

theorem growsFrom_heldPaths (dotless : ∀ name, (s.type name).DotlessNames) (path : Path)
    (shape : Shape) (n : Node)
    : GrowsFrom path (n.heldPaths s path shape) := by
  cases n with
  | object fields =>
      simp only [Node.heldPaths]
      split
      · exact growsFrom_fieldsPaths dotless path (dotless _) fields
      · exact growsFrom_fieldsPaths dotless path (dotless _) fields
      · exact growsFrom_entriesPaths dotless path (dotless _) fields
      · exact growsFrom_nil
  | array items =>
      simp only [Node.heldPaths]
      split
      · exact growsFrom_itemsPaths dotless path (dotless _) items
      · exact growsFrom_nil
  | null | bool _ | number _ | string _ =>
      rw [Node.heldPaths]
      · exact growsFrom_nil
      · nofun
      · nofun

theorem growsFrom_itemsPaths (dotless : ∀ name, (s.type name).DotlessNames) (path : Path)
    {t : MessageType} (own : t.DotlessNames)
    (items : List Node)
    : GrowsFrom path (itemsPaths s path t items) := by
  cases items with
  | nil => exact growsFrom_nil
  | cons n items =>
      exact (growsFrom_namedPaths dotless path own n).append
        (growsFrom_itemsPaths dotless path own items)

theorem growsFrom_entriesPaths (dotless : ∀ name, (s.type name).DotlessNames) (path : Path)
    {t : MessageType} (own : t.DotlessNames)
    (fields : List Field)
    : GrowsFrom path (entriesPaths s path t fields) := by
  cases fields with
  | nil => exact growsFrom_nil
  | cons field fields =>
      cases field with
      | mk key n =>
          exact (growsFrom_namedPaths dotless path own n).append
            (growsFrom_entriesPaths dotless path own fields)

end

end Json

end Protobuf
