import Protobuf.Proofs.Json.Documents
import Protobuf.Proofs.Json.Reading

/-! Messages that are written as objects at every depth.  They always have a document, and what is
read from it is the message, but for unknown records, patterns of no number and signs of zeros.
-/

namespace Protobuf

open FieldMask Json

-----------------------------------------------------------------------------------------
-- What objects keep
-----------------------------------------------------------------------------------------

/-- All messages that can stand inside one of the type are written as objects without doubtful
names.
-/
def Schema.Objects (s : Schema) (root : String) : Prop :=
  ∀ name, s.MayHold root name → (s.type name).form = .members ∧ (s.type name).DistinctNames

/-- A message that is reached is written as an object. -/
theorem Schema.Objects.reached {s : Schema} {root name : String} (h : s.Objects root)
    (reached : s.MayHold root name) {m : Member} (member : m ∈ (s.type name).members)
    {type : ValueType} (holds : type ∈ m.valueTypes)
    : type.Reached s root :=
  (h name reached).2.legible.reached reached member holds

mutual

/-- The value with one pattern for what is no number. -/
def Value.canonical : Value → Value
  | .scalar v => .scalar v.canonical
  | .message m => .message m.canonical

/-- A message with the one NaN that texts have. -/
def Message.canonical : Message → Message
  | ⟨slots, unknown⟩ => ⟨slotsCanonical slots, unknown⟩

def slotsCanonical : List Slot → List Slot
  | [] => []
  | slot :: slots => slot.canonical :: slotsCanonical slots

def Slot.canonical : Slot → Slot
  | .none => .none
  | .one v => .one v.canonical
  | .many vs => .many (elementsCanonical vs)
  | .entries es => .entries (entriesCanonical es)
  | .choice tag v => .choice tag v.canonical

def elementsCanonical : List Value → List Value
  | [] => []
  | v :: vs => v.canonical :: elementsCanonical vs

def entriesCanonical : List Entry → List Entry
  | [] => []
  | ⟨key, v⟩ :: es => ⟨key, v.canonical⟩ :: entriesCanonical es

end

section

variable (s : Schema) (mask : PathSet)

mutual

def Value.unsigned (path : Path) (field : String) (type : ValueType) : Value → Value
  | .scalar v => .scalar v
  | .message m =>
      match type with
      | .scalar _ => .message m
      | .message name => .message (m.unsigned (path.push field) (s.type name))

/-- The message with positive zeros in the place of negative ones that are not written: those
without presence that the mask does not name.
-/
def Message.unsigned (path : Path) (t : MessageType) : Message → Message
  | ⟨slots, unknown⟩ => ⟨slotsUnsigned path t.members slots, unknown⟩

def slotsUnsigned (path : Path) (members : List Member) : List Slot → List Slot
  | [] => []
  | slot :: slots =>
      match members with
      | [] => slot :: slots
      | m :: members => slot.unsigned path m :: slotsUnsigned path members slots

def Slot.unsigned (path : Path) (m : Member) : Slot → Slot
  | .none => .none
  | .one v =>
      match m.shape with
      | .single type =>
          .one (if names mask path m.name then v.unsigned path m.name type
            else (v.unsigned path m.name type).positiveZero)
      | .optional type => .one (v.unsigned path m.name type)
      | _ => .one v
  | .many vs =>
      match m.shape with
      | .repeated type _ _ => .many (elementsUnsigned path m.name type vs)
      | _ => .many vs
  | .entries es =>
      match m.shape with
      | .map _ type => .entries (entriesUnsigned path m.name type es)
      | _ => .entries es
  | .choice tag v =>
      match m.alternative? tag with
      | some a => .choice tag (v.unsigned path a.name a.type)
      | none => .choice tag v

def elementsUnsigned (path : Path) (field : String) (type : ValueType) : List Value → List Value
  | [] => []
  | v :: vs => v.unsigned path field type :: elementsUnsigned path field type vs

def entriesUnsigned (path : Path) (field : String) (type : ValueType) : List Entry → List Entry
  | [] => []
  | ⟨key, v⟩ :: es => ⟨key, v.unsigned path field type⟩ :: entriesUnsigned path field type es

end

end

namespace Json

variable {s : Schema} {config : Config} {mask : PathSet} {tree : AnyTree} {form : FormBack}
  {root : String}

-----------------------------------------------------------------------------------------
-- Trees of objects
-----------------------------------------------------------------------------------------

mutual

/-- Every value has a document, by induction on the value. -/
theorem exists_valueNode (objects : s.Objects root) (path : Path) (field : String)
    {type : ValueType} (v : Value) (reached : type.Reached s root)
    (typed : v.known.Conforms s type)
    : ∃ n, valueNode s config tree mask path field type v = some n := by
  cases v with
  | scalar v =>
      cases type with
      | scalar type => exact ⟨_, rfl⟩
      | message name => exact typed.elim
  | message m =>
      cases type with
      | scalar type => exact typed.elim
      | message name => exact exists_messageNode objects (path.push field) m reached typed

/-- A message of objects has a tree, by induction on it. -/
theorem exists_messageNode (objects : s.Objects root) {name : String} (path : Path) (m : Message)
    (reached : s.MayHold root name) (typed : m.Typed s (s.type name))
    : ∃ n, messageNode s config tree mask path (s.type name) m = some n := by
  cases m with
  | mk slots unknown =>
      obtain ⟨fields, written⟩ := exists_memberFields objects path slots
        (fun _ member _ holds => objects.reached reached member holds) typed.1
      simp only [messageNode, (objects name reached).1, written]
      exact ⟨_, rfl⟩

theorem exists_memberFields (objects : s.Objects root) (path : Path) {members : List Member}
    (slots : List Slot)
    (reached : ∀ m ∈ members, ∀ type ∈ m.valueTypes, type.Reached s root)
    (typed : slotsConform s members (slotsKnown slots))
    : ∃ fields, memberFields s config tree mask path members slots = some fields := by
  cases slots with
  | nil => exact ⟨_, rfl⟩
  | cons slot slots =>
      cases members with
      | nil => exact typed.elim
      | cons m members =>
          obtain ⟨own, others⟩ := List.forall_mem_cons.mp reached
          obtain ⟨fields, written⟩ := exists_memberFields objects path slots others typed.2
          by_cases alone : ∀ alternatives, m.shape ≠ .oneof alternatives
          · obtain ⟨n, value⟩ := exists_slotNode objects path slot alone own typed.1
            rw [memberFields_alone alone, written, value]
            split <;> exact ⟨_, rfl⟩
          · obtain ⟨alternatives, shape⟩ : ∃ alternatives, m.shape = .oneof alternatives := by
              simpa using alone
            have typed := typed.1
            cases slot with
            | one _ | many _ | entries _ => simp only [Slot.known, Slot.Conforms, shape] at typed
            | none => exact ⟨fields, (memberFields_none shape members slots).trans written⟩
            | choice tag v =>
                simp only [Slot.known, Slot.Conforms] at typed
                cases found : m.alternative? tag with
                | none => simp only [found] at typed
                | some a =>
                    simp only [found] at typed
                    obtain ⟨n, value⟩ := exists_valueNode objects path a.name v
                      (own _ (Member.valueTypes_of_alternative found)) typed
                    rw [memberFields_choice found, written, value]
                    exact ⟨_, rfl⟩

theorem exists_slotNode (objects : s.Objects root) (path : Path) {m : Member} (slot : Slot)
    (alone : ∀ alternatives, m.shape ≠ .oneof alternatives)
    (reached : ∀ type ∈ m.valueTypes, type.Reached s root) (typed : slot.known.Conforms s m)
    : ∃ n, slotNode s config tree mask path m slot = some n := by
  cases slot with
  | none => exact ⟨_, rfl⟩
  | one v =>
      simp only [Slot.known, Slot.Conforms] at typed
      unfold slotNode
      cases shape : m.shape with
      | single type =>
          simp only [shape] at typed
          cases type with
          | scalar type =>
              cases v with
              | scalar v => exact ⟨_, rfl⟩
              | message m => exact typed.elim
          | message name =>
              exact exists_valueNode objects path m.name v
                (reached _ (by simp [Member.valueTypes, shape])) typed
      | optional type =>
          simp only [shape] at typed
          exact exists_valueNode objects path m.name v
            (reached type (by simp [Member.valueTypes, shape])) typed
      | repeated _ _ _ | map _ _ | oneof _ => simp only [shape] at typed
  | many vs =>
      simp only [Slot.known, Slot.Conforms] at typed
      unfold slotNode
      cases shape : m.shape with
      | repeated type packed capacity =>
          simp only [shape] at typed
          obtain ⟨items, values⟩ := exists_elementNodes objects path m.name vs
            (reached type (by simp [Member.valueTypes, shape])) typed
          exact ⟨_, congrArg (Option.map _) values⟩
      | single _ | optional _ | map _ _ | oneof _ => simp only [shape] at typed
  | entries es =>
      simp only [Slot.known, Slot.Conforms] at typed
      cases shape : m.shape with
      | map key type =>
          simp only [shape] at typed
          rw [slotNode_entries shape (ordered_entriesKnown.mp typed.1)]
          obtain ⟨fields, values⟩ := exists_entryFields objects path m.name es
            (reached type (by simp [Member.valueTypes, shape])) typed.2
          exact ⟨_, congrArg (Option.map _) values⟩
      | single _ | optional _ | repeated _ _ _ | oneof _ => simp only [shape] at typed
  | choice tag v =>
      simp only [Slot.known, Slot.Conforms] at typed
      cases found : m.alternative? tag with
      | none => simp only [found] at typed
      | some a => exact absurd (Member.shape_of_alternative found).choose_spec (alone _)

theorem exists_elementNodes (objects : s.Objects root) (path : Path) (field : String)
    {type : ValueType} (vs : List Value) (reached : type.Reached s root)
    (typed : elementsConform s type (elementsKnown vs))
    : ∃ items, elementNodes s config tree mask path field type vs = some items := by
  cases vs with
  | nil => exact ⟨_, rfl⟩
  | cons v vs =>
      obtain ⟨n, value⟩ := exists_valueNode objects path field v reached typed.1
      obtain ⟨items, values⟩ := exists_elementNodes objects path field vs reached typed.2
      rw [elementNodes, value, values]
      exact ⟨_, rfl⟩

theorem exists_entryFields (objects : s.Objects root) (path : Path) (field : String)
    {type : ValueType} (es : List Entry) (reached : type.Reached s root)
    (typed : entriesConform s type (entriesKnown es))
    : ∃ fields, entryFields s config tree mask path field type es = some fields := by
  cases es with
  | nil => exact ⟨_, rfl⟩
  | cons e es =>
      cases e with
      | mk key v =>
          obtain ⟨n, value⟩ := exists_valueNode objects path field v reached typed.1
          obtain ⟨fields, values⟩ := exists_entryFields objects path field es reached typed.2
          rw [entryFields, value, values]
          exact ⟨_, rfl⟩

end

-----------------------------------------------------------------------------------------
-- What is read back
-----------------------------------------------------------------------------------------

/-- What is no number is no default under any pattern. -/
theorem isDefault_canonical (v : Scalar)
    : v.canonical.isDefault = v.isDefault := by
  cases v with
  | float bits =>
      simp only [Scalar.canonical]
      split
      · rename_i special
        have special : 0x7f800000 < bits.toNat % 2 ^ 31 := of_decide_eq_true special
        have other : bits.toNat % 2 ^ 31 ≠ 0 := by omega
        exact (beq_eq_false_iff_ne.mpr other).symm
      · rfl
  | double bits =>
      simp only [Scalar.canonical]
      split
      · rename_i special
        have special : 0x7ff0000000000000 < bits.toNat % 2 ^ 63 := of_decide_eq_true special
        have other : bits.toNat % 2 ^ 63 ≠ 0 := by omega
        exact (beq_eq_false_iff_ne.mpr other).symm
      · rfl
  | int32 _ | int64 _ | uint32 _ | uint64 _ | bool _ | string _ | bytes _ => rfl

/-- A canonical scalar has the same type. -/
theorem hasType_canonical {type : ScalarType} {v : Scalar} (typed : v.hasType type)
    : v.canonical.hasType type := by
  cases v <;> cases type <;> exact typed

/-- A scalar that is not written is read back as the default, without the sign of a zero. -/
theorem slotBack_scalar {m : Member} {type : ScalarType} {v : Scalar} {path : Path}
    (shape : m.shape = .single (.scalar type)) (typed : v.hasType type)
    : slotBack s mask form path m (.one (.scalar v))
        = (Slot.one (.scalar v.canonical)).unsigned s mask path m := by
  unfold slotBack Slot.unsigned
  simp only [shape, Value.unsigned]
  by_cases named : names mask path m.name
  · simp only [named, Bool.not_true, Bool.and_false, Bool.false_eq_true, if_false, if_true]
  · simp only [named, Bool.false_eq_true, if_false, Bool.not_false, Bool.and_true]
    cases omitted : v.isDefault with
    | true =>
        simp only [if_true, Value.positiveZero]
        rw [Scalar.positiveZero_of_isDefault (hasType_canonical typed)
          ((isDefault_canonical v).trans omitted)]
    | false =>
        simp only [Bool.false_eq_true, if_false, Value.positiveZero]
        rw [Scalar.positiveZero_of_not_isDefault ((isDefault_canonical v).trans omitted)]

mutual

/-- What comes back of a value is its canonical form without unwritten signs. -/
theorem valueBack_eq (objects : s.Objects root) (path : Path) (field : String) {type : ValueType}
    (v : Value) (reached : type.Reached s root) (typed : v.known.Conforms s type)
    : valueBack s mask form path field type v
        = v.known.canonical.unsigned s mask path field type := by
  cases v with
  | scalar v =>
      cases type with
      | scalar type => rfl
      | message name => exact typed.elim
  | message m =>
      cases type with
      | scalar type => exact typed.elim
      | message name =>
          exact congrArg Value.message (messageBack_eq objects (path.push field) m reached typed)

/-- What is read back of objects, by induction on the message. -/
theorem messageBack_eq (objects : s.Objects root) {name : String} (path : Path) (m : Message)
    (reached : s.MayHold root name) (typed : m.Typed s (s.type name))
    : messageBack s mask form path (s.type name) m
        = m.known.canonical.unsigned s mask path (s.type name) := by
  cases m with
  | mk slots unknown =>
      simp only [messageBack, (objects name reached).1]
      exact congrArg (Message.mk · []) (slotsBack_eq objects path slots
        (fun _ member _ holds => objects.reached reached member holds) typed.1)

theorem slotsBack_eq (objects : s.Objects root) (path : Path) {members : List Member}
    (slots : List Slot)
    (reached : ∀ m ∈ members, ∀ type ∈ m.valueTypes, type.Reached s root)
    (typed : slotsConform s members (slotsKnown slots))
    : slotsBack s mask form path members slots
        = slotsUnsigned s mask path members (slotsCanonical (slotsKnown slots)) := by
  cases slots with
  | nil => rfl
  | cons slot slots =>
      cases members with
      | nil => exact typed.elim
      | cons m members =>
          obtain ⟨own, others⟩ := List.forall_mem_cons.mp reached
          exact congrArg₂ List.cons (slotBack_eq objects path slot own typed.1)
            (slotsBack_eq objects path slots others typed.2)

theorem slotBack_eq (objects : s.Objects root) (path : Path) {m : Member} (slot : Slot)
    (reached : ∀ type ∈ m.valueTypes, type.Reached s root) (typed : slot.known.Conforms s m)
    : slotBack s mask form path m slot = slot.known.canonical.unsigned s mask path m := by
  cases slot with
  | none =>
      unfold slotBack
      split
      · rename_i type shape
        have other : nullIsValue s type = false := by
          cases type with
          | scalar type => rfl
          | message name =>
              have holds : .message name ∈ m.valueTypes := by simp [Member.valueTypes, shape]
              simp [nullIsValue, (objects name (reached _ holds)).1]
        rw [other, Bool.and_false]
        rfl
      · rfl
  | one v =>
      simp only [Slot.known, Slot.Conforms] at typed
      cases shape : m.shape with
      | single type =>
          simp only [shape] at typed
          have holds : type ∈ m.valueTypes := by simp [Member.valueTypes, shape]
          cases v with
          | scalar v =>
              cases type with
              | scalar type => exact slotBack_scalar shape typed
              | message name => exact typed.elim
          | message inner =>
              cases type with
              | scalar type => exact typed.elim
              | message name =>
                  have same := valueBack_eq objects path m.name (.message inner)
                    (reached _ holds) typed
                  unfold slotBack
                  simp only [Slot.known, Slot.canonical, Slot.unsigned, shape, same]
                  split <;> rfl
      | optional type =>
          simp only [shape] at typed
          have same := valueBack_eq objects path m.name v
            (reached type (by simp [Member.valueTypes, shape])) typed
          unfold slotBack
          simp only [Slot.known, Slot.canonical, Slot.unsigned, shape, same]
      | repeated _ _ _ | map _ _ | oneof _ => simp only [shape] at typed
  | many vs =>
      simp only [Slot.known, Slot.Conforms] at typed
      cases shape : m.shape with
      | repeated type packed capacity =>
          simp only [shape] at typed
          have same := elementsBack_eq objects path m.name vs
            (reached type (by simp [Member.valueTypes, shape])) typed
          unfold slotBack
          simp only [Slot.known, Slot.canonical, Slot.unsigned, shape, same]
      | single _ | optional _ | map _ _ | oneof _ => simp only [shape] at typed
  | entries es =>
      simp only [Slot.known, Slot.Conforms] at typed
      cases shape : m.shape with
      | map key type =>
          simp only [shape] at typed
          have same := entriesBack_eq objects path m.name es
            (reached type (by simp [Member.valueTypes, shape])) typed.2
          unfold slotBack
          simp only [Slot.known, Slot.canonical, Slot.unsigned, shape, same]
      | single _ | optional _ | repeated _ _ _ | oneof _ => simp only [shape] at typed
  | choice tag v =>
      simp only [Slot.known, Slot.Conforms] at typed
      cases found : m.alternative? tag with
      | none => simp only [found] at typed
      | some a =>
          simp only [found] at typed
          have same := valueBack_eq objects path a.name v
            (reached _ (Member.valueTypes_of_alternative found)) typed
          unfold slotBack
          simp only [Slot.known, Slot.canonical, Slot.unsigned, found, same]

theorem elementsBack_eq (objects : s.Objects root) (path : Path) (field : String)
    {type : ValueType} (vs : List Value) (reached : type.Reached s root)
    (typed : elementsConform s type (elementsKnown vs))
    : elementsBack s mask form path field type vs
        = elementsUnsigned s mask path field type (elementsCanonical (elementsKnown vs)) := by
  cases vs with
  | nil => rfl
  | cons v vs =>
      exact congrArg₂ List.cons (valueBack_eq objects path field v reached typed.1)
        (elementsBack_eq objects path field vs reached typed.2)

theorem entriesBack_eq (objects : s.Objects root) (path : Path) (field : String)
    {type : ValueType} (es : List Entry) (reached : type.Reached s root)
    (typed : entriesConform s type (entriesKnown es))
    : entriesBack s mask form path field type es
        = entriesUnsigned s mask path field type (entriesCanonical (entriesKnown es)) := by
  cases es with
  | nil => rfl
  | cons e es =>
      cases e with
      | mk key v =>
          exact congrArg₂ (fun v es => (⟨key, v⟩ : Entry) :: es)
            (valueBack_eq objects path field v reached typed.1)
            (entriesBack_eq objects path field es reached typed.2)

end

-----------------------------------------------------------------------------------------
-- Documents
-----------------------------------------------------------------------------------------

/-- What is written for an `Any` is an object. -/
theorem visible_anyNode (s : Schema) (config : Config)
    : (anyNode s config).Visible := by
  have resolved (tree : AnyTree) (path : Path) (url : String) (payload : List UInt8)
      (resolution : Resolution) (n : Node)
      (h : resolvedNode s config tree path url payload resolution = some n) : n.kind ≠ .null := by
    cases resolution <;> obtain ⟨_, -, rfl⟩ := Option.map_eq_some_iff.mp h <;>
      exact fun same => by cases same
  intro path url payload n h
  simp only [anyNode, anyNodeWithin] at h
  split at h
  · cases h
    exact fun same => by cases same
  · split at h
    · cases h
    · exact resolved _ _ _ _ _ _ h

/-- A message of objects is written, whatever names and mask there are, and what is read from its
document is the message, if the document does not nest too deep for the reader: only the unknown
records are gone, no number has one pattern, and zeros that are not written have no sign.
-/
theorem decodeInto_encode (lawful : s.Lawful) (json : s.HasJson) {name : String}
    (objects : s.Objects name) {m : Message} (typed : m.Typed s (s.type name))
    (fits : m.Fits s (s.type name)) (back : m.All Scalar.ReadsBack) (config : Config)
    (mask : PathSet) (registry : Option Registry)
    : ∃ n, treeOf s config mask (s.type name) m = some n
        ∧ encode s config mask (s.type name) m = .ok n.text
        ∧ n.Spells n.text.toList
        ∧ (n.nesting < maxDepth → ∃ named,
            decodeInto s registry (s.type name) (s.empty name) (Text.utf8 n.text)
              = (m.known.canonical.unsigned s mask .root (s.type name), .ok named)) := by
  obtain ⟨n, tree⟩ : ∃ n, messageNode s config (anyNode s config) mask .root (s.type name) m
    = some n
    := exists_messageNode objects .root m (.refl name) typed
  have written := encode_treeOf config mask lawful json (json.type name) typed
  rw [treeOf, tree] at written
  have document : encode s config mask (s.type name) m = .ok n.text := by
    cases result : encode s config mask (s.type name) m with
    | error fault =>
        rw [result] at written
        cases written
    | ok text =>
        rw [result] at written
        exact congrArg Except.ok (Option.some.inj written)
  refine ⟨n, tree, document, n.spells_text, fun shallow => ?_⟩
  have rereads : Rereads 0 s config (anyNode s config) mask (fun _ _ slots => slots)
      (fun _ _ _ => True) name :=
    ⟨visible_anyNode s config, fun inner reached _ => (objects inner reached).2.legible,
      fun inner reached other => absurd (objects inner reached).1 other⟩
  have takes := takes_message lawful rereads m (.refl name) typed fits back
    (m.everywhere_of_forall (fun _ _ _ => trivial) _ _) tree
  rw [messageBack_eq objects .root m (.refl name) typed] at takes
  rcases decodeInto_of_takes takes registry with read | ⟨-, deep⟩
  · exact ⟨_, read⟩
  · omega

/-- A tree inside a tree: the outer one loses the sign of its weight, which is not written, and the
inner one the pattern of its weight and a record of an unknown field.
-/
theorem decodeInto_encode_nested
    : let tree : MessageType := ⟨"Tree", [
        ⟨1, "weight", "weight", .single (.scalar .double)⟩,
        ⟨2, "sub_trees", "subTrees", .map (.string none) (.message "Tree")⟩,
        ⟨3, "label", "label", .oneof [⟨3, .scalar (.bytes none), "raw", "raw"⟩,
          ⟨4, .scalar (.string none), "text", "text"⟩]⟩], true, .members⟩
      let s : Schema := ⟨[tree]⟩
      let inner : Message := ⟨[.one (.scalar (.double 0xfff8000000000001)), .entries [],
        .choice 3 (.scalar (.bytes [255, 0]))], [0x28, 1]⟩
      let m : Message := ⟨[.one (.scalar (.double 0x8000000000000000)),
        .entries [⟨.string "é", .message inner⟩], .none], []⟩
      let back : Message := ⟨[.one (.scalar (.double 0x7ff8000000000000)), .entries [],
        .choice 3 (.scalar (.bytes [255, 0]))], []⟩
      let m' : Message := ⟨[.one (.scalar (.double 0)),
        .entries [⟨.string "é", .message back⟩], .none], []⟩
      let config : Config := ⟨false, true, false, none⟩
      ∃ n, treeOf s config ⟨["sub_trees"]⟩ tree m = some n
        ∧ encode s config ⟨["sub_trees"]⟩ tree m = .ok n.text
        ∧ n.nesting = 3
        ∧ ∃ named, decodeInto s none tree (s.empty "Tree") (Text.utf8 n.text)
            = (m', .ok named) := by
  intro tree s inner m back m' config
  have lawful : s.Lawful := by decide +kernel
  have json : s.HasJson := List.forall_mem_singleton.mpr .members
  have objects : s.Objects "Tree" := by
    intro name reached
    have same : name = "Tree" := by
      have own : ∀ m ∈ tree.members, ∀ type ∈ m.valueTypes, ∀ last, type = .message last
          → last = "Tree" := by
        simp [tree, Member.valueTypes]
      induction reached with
      | refl => rfl
      | step before member holds same =>
          subst same
          exact own _ member _ holds _ rfl
    subst same
    exact ⟨rfl, by decide +kernel⟩
  have ordered : Ordered (.string none) [⟨.string "é", .message inner.known⟩] :=
    ⟨by simp [Scalar.hasType, withinCapacity], List.pairwise_singleton _ _⟩
  have typed : m.Typed s tree :=
    ⟨⟨rfl, ⟨ordered, ⟨⟨rfl, ⟨ordered_nil, trivial⟩, rfl, rfl⟩, .nil⟩, trivial⟩, trivial, rfl⟩, .nil⟩
  have fits : m.Fits s tree :=
    ⟨trivial, ⟨⟨trivial, trivial, trivial, trivial⟩, trivial⟩, trivial, trivial⟩
  have texts : m.All Scalar.ReadsBack := by
    refine ⟨?_, ⟨⟨?_, trivial, trivial, trivial⟩, trivial⟩, trivial, trivial⟩
    · exact fun _ => by decide +kernel
    · exact fun finite => absurd finite (by decide +kernel)
  have nesting : (treeOf s config ⟨["sub_trees"]⟩ tree m).map Node.nesting = some 3 := by
    decide +kernel
  obtain ⟨n, written, document, -, read⟩ := decodeInto_encode lawful json objects typed fits texts
    config ⟨["sub_trees"]⟩ none
  have deep : n.nesting = 3 := by
    change treeOf s config ⟨["sub_trees"]⟩ tree m = some n at written
    rw [written] at nesting
    exact Option.some.inj nesting
  obtain ⟨named, read⟩ := read (by rw [deep]; decide)
  exact ⟨n, written, document, deep, named, read⟩

end Json

end Protobuf
