import Protobuf.Proofs.Json.AnyPayloads
import Protobuf.Proofs.Json.Emission
import Protobuf.Proofs.Json.Typing
import Protobuf.Proofs.Message.Overlay

/-! Documents that are read and written again.  The fields that a document names are taken as a
mask; it shows in the message that was read what the document showed, as long as no object leaves
out a member that another one shows under the same path.
-/

namespace Protobuf

open FieldMask

/-- Bytes are not longer than the length in front of them can say. -/
def Scalar.Storable : Scalar → Prop
  | .bytes v => v.length < 2 ^ 63
  | _ => True

instance : DecidablePred Scalar.Storable
  | .bytes v => inferInstanceAs (Decidable (v.length < 2 ^ 63))
  | .int32 _ | .int64 _ | .uint32 _ | .uint64 _ | .bool _ | .float _ | .double _ | .string _ =>
      .isTrue trivial

/-- All types are those of objects or well-known ones. -/
def Schema.OfObjects (s : Schema) : Prop :=
  ∀ t ∈ s.types, t.form = .members ∨ t ∈ WellKnown.types

/-- A type that is not written as an object is a well-known one. -/
theorem Schema.OfObjects.type_of_form {s : Schema} (kinds : s.OfObjects) {name : String}
    (other : (s.type name).form ≠ .members)
    : s.type name ∈ WellKnown.types ∧ (s.type name).name = name := by
  unfold Schema.type at other ⊢
  cases found : s.types.find? fun t => t.name == name with
  | none =>
      rw [found] at other
      exact absurd rfl other
  | some t =>
      rw [found] at other
      exact ⟨(kinds t (List.mem_of_find?_eq_some found)).resolve_left other,
        beq_iff_eq.mp (List.find?_some found :)⟩

theorem Schema.OfObjects.hasJson {s : Schema} (kinds : s.OfObjects)
    : s.HasJson := by
  intro t listed
  rcases kinds t listed with form | known
  · unfold MessageType.HasJson
    rw [form]
    exact .members
  · exact Json.hasJson_wellKnown t known

theorem ofObjects_schemaWith {own : List MessageType} (objects : ∀ t ∈ own, t.form = .members)
    : (WellKnown.schemaWith own).OfObjects := by
  intro t listed
  rcases List.mem_append.mp listed with listed | listed
  · exact .inl (objects t listed)
  · exact .inr listed

theorem legible_schemaWith {own : List MessageType} (legible : ∀ t ∈ own, t.Legible) (name : String)
    : ((WellKnown.schemaWith own).type name).Legible := by
  unfold Schema.type
  cases found : (WellKnown.schemaWith own).types.find? fun t => t.name == name with
  | none => exact ⟨.nil, fun _ listed => absurd listed List.not_mem_nil⟩
  | some t =>
      rcases List.mem_append.mp (List.mem_of_find?_eq_some found) with listed | listed
      · exact legible t listed
      · have all : ∀ t ∈ WellKnown.types, t.Legible := by decide
        exact all t listed

namespace Json

open WellKnown

variable {s : Schema} {mask mask' : PathSet} {tree : AnyTree} {form : FormBack} {path : Path}
  {Q : Path → MessageType → List Slot → Prop} {root : String} {n : Node}

-----------------------------------------------------------------------------------------
-- Members that stay shown
-----------------------------------------------------------------------------------------

/-- The object shows each member that the other mask names: it is set, or named by this mask too. -/
def ShowsAll (mask other : PathSet) (path : Path) (t : MessageType) (slots : List Slot) : Prop :=
  t.form = .members → ∀ held ∈ t.members.zip slots,
    (∀ alternatives, held.1.shape ≠ .oneof alternatives)
      → names other path held.1.name → Slot.isSet held.1 held.2 || names mask path held.1.name

/-- A name that leads back from its mask leads back from any that has its path. -/
theorem names_of_mem {field : String} (named : names mask path field)
    (recorded : (path.push field).dotted ∈ mask'.paths)
    : names mask' path field := by
  rw [names_eq, namesPath, decide_eq_true_iff] at named ⊢
  exact ⟨named.1, recorded⟩

/-- A member that is set is set when it is read back. -/
theorem isSet_slotBack {m : Member} {slot : Slot} (typed : slot.known.Conforms s m)
    (alone : ∀ alternatives, m.shape ≠ .oneof alternatives) (set : Slot.isSet m slot)
    : Slot.isSet m (slotBack s mask form path m slot) := by
  cases shape : m.shape with
  | single type =>
      obtain ⟨v, rfl, known⟩ := Slot.one_of_known typed shape
      cases v with
      | message inner =>
          cases type with
          | scalar type => exact known.elim
          | message name =>
              unfold slotBack
              simp [shape, valueBack, Slot.isSet, Value.isOmitted]
      | scalar v =>
          cases type with
          | message name => exact known.elim
          | scalar type =>
              rw [slotBack_of_set shape (by rw [set]; rfl)]
              simpa [Slot.isSet, shape, Value.isOmitted, isDefault_canonical] using set
  | optional type =>
      rcases Slot.optional_of_known typed shape with rfl | ⟨v, rfl, -⟩
      · simp [Slot.isSet] at set
      · unfold slotBack
        simp [shape, Slot.isSet]
  | repeated type packed capacity =>
      obtain ⟨vs, rfl, -⟩ := Slot.many_of_known typed shape
      cases vs with
      | nil => simp [Slot.isSet] at set
      | cons v vs =>
          unfold slotBack
          simp [shape, elementsBack, Slot.isSet]
  | map key type =>
      obtain ⟨es, rfl, -⟩ := Slot.entries_of_known typed shape
      cases es with
      | nil => simp [Slot.isSet] at set
      | cons e es =>
          unfold slotBack
          cases e
          simp [shape, entriesBack, Slot.isSet]
  | oneof alternatives => exact absurd shape (alone alternatives)

/-- A member that is not written is not set when it is read back. -/
theorem not_isSet_slotBack {m : Member} {slot : Slot} (typed : slot.known.Conforms s m)
    (alone : ∀ alternatives, m.shape ≠ .oneof alternatives)
    (hidden : ¬(Slot.isSet m slot || names mask path m.name))
    : Slot.isSet m (slotBack s mask form path m slot) = false := by
  rw [slotBack_of_unset typed alone hidden]
  cases shape : m.shape with
  | single type =>
      cases type with
      | scalar type =>
          simp [Shape.emptySlot, Slot.isSet, shape, Value.isOmitted, type.isDefault_default]
      | message name =>
          obtain ⟨v, rfl, known⟩ := Slot.one_of_known typed shape
          obtain ⟨inner, rfl, -⟩ := message_of_known known
          simp [Slot.isSet, shape, Value.isOmitted] at hidden
  | optional _ | repeated _ _ _ | map _ _ => rfl
  | oneof alternatives => exact absurd shape (alone alternatives)

-----------------------------------------------------------------------------------------
-- Messages that are written again
-----------------------------------------------------------------------------------------

theorem singularNode_canonical (config : Config) (type : ScalarType) (v : Scalar)
    : singularNode config type v.canonical = singularNode config type v := by
  have whole := scalarNode_canonical config type v
  cases v with
  | float bits =>
      cases nan : floatIsNaN bits with
      | false => rw [canonical_float (of_decide_eq_false nan)]
      | true =>
          simp only [Scalar.canonical, nan, if_true] at whole ⊢
          exact whole
  | double bits =>
      cases nan : doubleIsNaN bits with
      | false => rw [canonical_double (of_decide_eq_false nan)]
      | true =>
          simp only [Scalar.canonical, nan, if_true] at whole ⊢
          exact whole
  | int32 _ | int64 _ | uint32 _ | uint64 _ | bool _ | string _ | bytes _ => rfl

/-- Null is written for a value that null was read as. -/
theorem messageNode_null {t : MessageType} (form : t.form = .value)
    : messageNode s {} tree mask path t WellKnown.Tree.null.message = some .null := by
  unfold WellKnown.Tree.message WellKnown.Tree.ofKind
  simp only [messageNode, form]
  rfl

/-- Where nothing is held, null is written, and again for what is read for it. -/
theorem slotNode_none {m : Member}
    : slotNode s {} tree mask' path m (slotBack s mask form path m .none) = some .null := by
  unfold slotBack
  split
  · rename_i type shape
    split
    · rename_i value
      cases type with
      | scalar type => simp [nullIsValue] at value
      | message name =>
          unfold slotNode
          simp only [shape, valueNode]
          exact messageNode_null (by simpa [nullIsValue] using (Bool.and_eq_true_iff.mp value).2)
    · rfl
  · rfl

/-- Objects of the types that are reached have legible names and show what the other mask names, and
messages of other forms are written again as they were.
-/
structure Rewrites (s : Schema) (tree : AnyTree) (mask mask' : PathSet) (form : FormBack)
    (Q : Path → MessageType → List Slot → Prop) (root : String) : Prop where
  legible : ∀ name, s.MayHold root name → (s.type name).form = .members
    → (s.type name).Legible
  shows : ∀ path t slots, Q path t slots → ShowsAll mask mask' path t slots
  forms : ∀ name, s.MayHold root name → (s.type name).form ≠ .members → ∀ path m n,
    m.Typed s (s.type name) → m.All Scalar.ReadsBack → Q path (s.type name) m.slots
    → messageNode s {} tree mask path (s.type name) m = some n
    → slotsAll Scalar.Storable (form path (s.type name) m.slots)
    → messageNode s {} tree mask' path (s.type name) ⟨form path (s.type name) m.slots, []⟩ = some n

mutual

theorem rewritten_value (rewrites : Rewrites s tree mask mask' form Q root) {path : Path}
    (field : String) {type : ValueType} (v : Value) (reached : type.Reached s root)
    (typed : v.known.Conforms s type) (back : v.All Scalar.ReadsBack)
    (kept : v.Everywhere s Q path field type)
    (recorded : ∀ q ∈ valueNamed s mask path field type v, q.dotted ∈ mask'.paths)
    (small : (valueBack s mask form path field type v).All Scalar.Storable) {n : Node}
    (node : valueNode s {} tree mask path field type v = some n)
    : valueNode s {} tree mask' path field type (valueBack s mask form path field type v)
        = some n := by
  cases v with
  | scalar v =>
      cases type with
      | scalar type =>
          cases node
          exact congrArg some (scalarNode_canonical {} type v)
      | message name => exact typed.elim
  | message m =>
      cases type with
      | scalar type => exact typed.elim
      | message name =>
          exact rewritten_message rewrites m reached typed back kept recorded small node

/-- What is read for a message is written as the message was, by induction on it. -/
theorem rewritten_message (rewrites : Rewrites s tree mask mask' form Q root) {name : String}
    {path : Path} (m : Message) (reached : s.MayHold root name) (typed : m.Typed s (s.type name))
    (back : m.All Scalar.ReadsBack) (kept : m.Everywhere s Q path (s.type name))
    (recorded : ∀ q ∈ messageNamed s mask path (s.type name) m, q.dotted ∈ mask'.paths)
    (small : (messageBack s mask form path (s.type name) m).All Scalar.Storable) {n : Node}
    (node : messageNode s {} tree mask path (s.type name) m = some n)
    : messageNode s {} tree mask' path (s.type name) (messageBack s mask form path (s.type name) m)
        = some n := by
  by_cases objects : (s.type name).form = .members
  · cases m with
    | mk slots unknown =>
        simp only [messageNode, objects] at node
        simp only [messageNamed, objects] at recorded
        simp only [messageBack, objects] at small ⊢
        obtain ⟨fields, members, rfl⟩ := Option.map_eq_some_iff.mp node
        have again := rewritten_members rewrites slots
          (fun m member _ holds =>
            (rewrites.legible name reached objects).reached reached member holds)
          typed.1 back kept.2 (rewrites.shows _ _ _ kept.1 objects) recorded small members
        simp only [messageNode, objects, again]
        rfl
  · rw [messageBack_of_form m objects] at small ⊢
    have own : Q path (s.type name) m.slots := by
      cases m
      exact kept.1
    exact rewrites.forms name reached objects path m n typed back own node small

theorem rewritten_members (rewrites : Rewrites s tree mask mask' form Q root) {path : Path}
    {members : List Member} (slots : List Slot)
    (reached : ∀ m ∈ members, ∀ type ∈ m.valueTypes, type.Reached s root)
    (typed : slotsConform s members (slotsKnown slots)) (back : slotsAll Scalar.ReadsBack slots)
    (kept : slotsEverywhere s Q path members slots)
    (shows : ∀ held ∈ members.zip slots, (∀ alternatives, held.1.shape ≠ .oneof alternatives)
      → names mask' path held.1.name → Slot.isSet held.1 held.2 || names mask path held.1.name)
    (recorded : ∀ q ∈ slotsNamed s mask path members slots, q.dotted ∈ mask'.paths)
    (small : slotsAll Scalar.Storable (slotsBack s mask form path members slots))
    {fields : List Field} (node : memberFields s {} tree mask path members slots = some fields)
    : memberFields s {} tree mask' path members (slotsBack s mask form path members slots)
        = some fields := by
  cases slots with
  | nil => exact node
  | cons slot slots =>
      cases members with
      | nil => exact typed.elim
      | cons m members =>
          obtain ⟨own, reached⟩ := List.forall_mem_cons.mp reached
          obtain ⟨typed, others⟩ := typed
          obtain ⟨back, backs⟩ := back
          obtain ⟨kept, keeps⟩ := kept
          rw [List.zip_cons_cons] at shows
          obtain ⟨shown, shows⟩ := List.forall_mem_cons.mp shows
          simp only [slotsBack] at small ⊢
          obtain ⟨small, smalls⟩ := small
          have behind {fields : List Field}
              (recorded : ∀ q ∈ slotsNamed s mask path members slots, q.dotted ∈ mask'.paths)
              (node : memberFields s {} tree mask path members slots = some fields) :=
            rewritten_members rewrites slots reached others backs keeps shows recorded smalls node
          by_cases alone : ∀ alternatives, m.shape ≠ .oneof alternatives
          · rw [memberFields_alone alone] at node ⊢
            rw [slotsNamed_alone alone] at recorded
            by_cases visible : Slot.isSet m slot || names mask path m.name
            · rw [if_pos visible] at node recorded
              obtain ⟨n, first, node⟩ := Option.bind_eq_some_iff.mp node
              obtain ⟨rest, after, same⟩ := Option.bind_eq_some_iff.mp node
              cases same
              obtain ⟨recorded, later⟩ := List.forall_mem_append.mp recorded
              obtain ⟨named, inside⟩ := List.forall_mem_cons.mp recorded
              have again : Slot.isSet m (slotBack s mask form path m slot)
                || names mask' path m.name := by
                rw [Bool.or_eq_true] at visible ⊢
                exact visible.imp (isSet_slotBack typed alone) (names_of_mem · named)
              rw [if_pos again, behind later after,
                rewritten_slot rewrites slot own typed back kept visible inside small first]
              rfl
            · rw [if_neg visible] at node recorded
              have hidden : names mask' path m.name = false :=
                Bool.eq_false_iff.mpr fun named => visible (shown alone named)
              rw [if_neg (by simp [not_isSet_slotBack typed alone visible, hidden]),
                behind recorded node]
          · obtain ⟨alternatives, shape⟩ : ∃ alternatives, m.shape = .oneof alternatives := by
              simpa using alone
            simp only [slotsNamed, shape] at recorded
            obtain ⟨inside, later⟩ := List.forall_mem_append.mp recorded
            cases slot with
            | one _ | many _ | entries _ => simp only [Slot.known, Slot.Conforms, shape] at typed
            | none =>
                rw [memberFields_none shape] at node
                rw [slotBack_unchosen shape, memberFields_none shape]
                exact behind later node
            | choice tag v =>
                simp only [Slot.known, Slot.Conforms] at typed
                cases found : m.alternative? tag with
                | none => simp only [found] at typed
                | some a =>
                    simp only [found] at typed
                    simp only [Slot.Everywhere, found] at kept
                    simp only [slotNamed, found] at inside
                    rw [memberFields_choice found] at node
                    rw [slotBack_choice found] at small ⊢
                    rw [memberFields_choice found]
                    obtain ⟨n, first, node⟩ := Option.bind_eq_some_iff.mp node
                    obtain ⟨rest, after, same⟩ := Option.bind_eq_some_iff.mp node
                    cases same
                    rw [behind later after, rewritten_value rewrites a.name v
                      (own _ (Member.valueTypes_of_alternative found)) typed back kept
                      (List.forall_mem_cons.mp inside).2 small first]
                    rfl

theorem rewritten_slot (rewrites : Rewrites s tree mask mask' form Q root) {path : Path}
    {m : Member} (slot : Slot) (reached : ∀ type ∈ m.valueTypes, type.Reached s root)
    (typed : slot.known.Conforms s m) (back : slot.All Scalar.ReadsBack)
    (kept : slot.Everywhere s Q path m) (shown : Slot.isSet m slot || names mask path m.name)
    (recorded : ∀ q ∈ slotNamed s mask path m slot, q.dotted ∈ mask'.paths)
    (small : (slotBack s mask form path m slot).All Scalar.Storable) {n : Node}
    (node : slotNode s {} tree mask path m slot = some n)
    : slotNode s {} tree mask' path m (slotBack s mask form path m slot) = some n := by
  cases slot with
  | none =>
      cases node
      exact slotNode_none
  | one v =>
      simp only [Slot.known, Slot.Conforms] at typed
      simp only [Slot.Everywhere] at kept
      simp only [slotNamed] at recorded
      cases shape : m.shape with
      | single type =>
          simp only [shape] at typed kept recorded
          have holds : type ∈ m.valueTypes := by simp [Member.valueTypes, shape]
          cases v with
          | scalar v =>
              cases type with
              | message name => exact typed.elim
              | scalar type =>
                  rw [slotBack_of_set shape shown]
                  unfold slotNode at node ⊢
                  simp only [shape] at node ⊢
                  rw [singularNode_canonical]
                  exact node
          | message inner =>
              cases type with
              | scalar type => exact typed.elim
              | message name =>
                  unfold slotBack at small ⊢
                  unfold slotNode at node ⊢
                  simp only [shape] at small node ⊢
                  exact rewritten_value rewrites m.name (.message inner)
                    (reached _ holds) typed back
                    kept recorded small node
      | optional type =>
          simp only [shape] at typed kept recorded
          have holds : type ∈ m.valueTypes := by simp [Member.valueTypes, shape]
          unfold slotBack at small ⊢
          unfold slotNode at node ⊢
          simp only [shape] at small node ⊢
          exact rewritten_value rewrites m.name v (reached _ holds) typed back kept
            recorded small node
      | repeated _ _ _ | map _ _ | oneof _ => simp only [shape] at typed
  | many vs =>
      simp only [Slot.known, Slot.Conforms] at typed
      simp only [Slot.Everywhere] at kept
      simp only [slotNamed] at recorded
      unfold slotBack at small ⊢
      unfold slotNode at node ⊢
      cases shape : m.shape with
      | repeated type packed capacity =>
          simp only [shape] at typed kept recorded small node ⊢
          have holds : type ∈ m.valueTypes := by simp [Member.valueTypes, shape]
          obtain ⟨items, inside, rfl⟩ := Option.map_eq_some_iff.mp node
          rw [rewritten_elements rewrites m.name vs (reached _ holds) typed back kept recorded small
            inside]
          rfl
      | single _ | optional _ | map _ _ | oneof _ => simp only [shape] at typed
  | entries es =>
      simp only [Slot.known, Slot.Conforms] at typed
      simp only [Slot.Everywhere] at kept
      simp only [slotNamed] at recorded
      unfold slotBack at small ⊢
      cases shape : m.shape with
      | map key type =>
          simp only [shape] at typed kept recorded small ⊢
          have ordered := ordered_entriesKnown.mp typed.1
          have back' : Ordered key (entriesBack s mask form path m.name type es) := by
            rwa [ordered_iff_keys, map_key_entriesBack, ← ordered_iff_keys]
          rw [slotNode_entries shape ordered] at node
          rw [slotNode_entries shape back']
          have holds : type ∈ m.valueTypes := by simp [Member.valueTypes, shape]
          obtain ⟨fields, inside, rfl⟩ := Option.map_eq_some_iff.mp node
          rw [rewritten_entries rewrites m.name es (reached _ holds) typed.2 back kept
            recorded small
            inside]
          rfl
      | single _ | optional _ | repeated _ _ _ | oneof _ => simp only [shape] at typed
  | choice tag v => cases node

theorem rewritten_elements (rewrites : Rewrites s tree mask mask' form Q root) {path : Path}
    (field : String) {type : ValueType} (vs : List Value) (reached : type.Reached s root)
    (typed : elementsConform s type (elementsKnown vs)) (back : elementsAll Scalar.ReadsBack vs)
    (kept : elementsEverywhere s Q path field type vs)
    (recorded : ∀ q ∈ elementsNamed s mask path field type vs, q.dotted ∈ mask'.paths)
    (small : elementsAll Scalar.Storable (elementsBack s mask form path field type vs))
    {items : List Node} (node : elementNodes s {} tree mask path field type vs = some items)
    : elementNodes s {} tree mask' path field type (elementsBack s mask form path field type vs)
        = some items := by
  cases vs with
  | nil => exact node
  | cons v vs =>
      obtain ⟨n, first, node⟩ := Option.bind_eq_some_iff.mp node
      obtain ⟨others, after, same⟩ := Option.bind_eq_some_iff.mp node
      cases same
      obtain ⟨inside, later⟩ := List.forall_mem_append.mp recorded
      have own := rewritten_value rewrites field v reached typed.1 back.1 kept.1
        inside small.1 first
      have behind := rewritten_elements rewrites field vs reached typed.2 back.2
        kept.2 later small.2
        after
      rw [elementsBack, elementNodes, own, behind]
      rfl

theorem rewritten_entries (rewrites : Rewrites s tree mask mask' form Q root) {path : Path}
    (field : String) {type : ValueType} (es : List Entry) (reached : type.Reached s root)
    (typed : entriesConform s type (entriesKnown es)) (back : entriesAll Scalar.ReadsBack es)
    (kept : entriesEverywhere s Q path field type es)
    (recorded : ∀ q ∈ entriesNamed s mask path field type es, q.dotted ∈ mask'.paths)
    (small : entriesAll Scalar.Storable (entriesBack s mask form path field type es))
    {fields : List Field} (node : entryFields s {} tree mask path field type es = some fields)
    : entryFields s {} tree mask' path field type (entriesBack s mask form path field type es)
        = some fields := by
  cases es with
  | nil => exact node
  | cons e es =>
      cases e with
      | mk key v =>
          obtain ⟨n, first, node⟩ := Option.bind_eq_some_iff.mp node
          obtain ⟨others, after, same⟩ := Option.bind_eq_some_iff.mp node
          cases same
          obtain ⟨inside, later⟩ := List.forall_mem_append.mp recorded
          have own := rewritten_value rewrites field v reached typed.1 back.1 kept.1 inside small.1
            first
          have behind := rewritten_entries rewrites field es reached typed.2 back.2 kept.2 later
            small.2 after
          rw [entriesBack, entryFields, own, behind]
          rfl

end

-----------------------------------------------------------------------------------------
-- Messages of forms of their own
-----------------------------------------------------------------------------------------

/-- The message inside an `Any` comes back. -/
def PayloadsReturn (s : Schema) (t : MessageType) (slots : List Slot) : Prop :=
  t.form = .any → ∀ url payload, slots = anySlots url payload → AnyReturns s url payload

/-- The slots are read from the JSON value, and they are written as that again. -/
structure Answers (s : Schema) (path : Path) (t : MessageType) (n : Node) (next : List Slot)
    : Prop where
  read : ∀ limit, Takes 1 limit (readMessage s t (s.empty t.name)) n path ⟨next, []⟩ []
  written : slotsAll Scalar.Storable next
    → ∀ mask, messageNode s {} (anyNode s {}) mask path t ⟨next, []⟩ = some n

/-- A message of a well-known type that is no object is read as one that is written so again. -/
theorem exists_answer (lawful : s.Lawful) (known : s.HasWellKnown) {t : MessageType} {m : Message}
    (listed : t ∈ types) (other : t.form ≠ .members) (typed : m.Typed s t)
    (back : m.All Scalar.ReadsBack) (paths : PathsReturn t m.slots)
    (payloads : PayloadsReturn s t m.slots)
    (node : messageNode s {} (anyNode s {}) mask path t m = some n)
    : ∃ next, Answers s path t n next := by
  by_cases packed : t.form = .any
  · have only : ∀ t ∈ types, t.form = .any → t = anyType := by decide
    obtain rfl := only t listed packed
    obtain ⟨slots, unknown⟩ := m
    obtain ⟨v, w, rfl, url, payload⟩ := scalars_of_pair rfl typed.1
    cases v <;> cases url
    cases w <;> cases payload
    rename_i url payload
    obtain ⟨next, read, written⟩ := (payloads rfl url payload rfl).exists_payload lawful known node
    refine ⟨anySlots url next, fun limit => read limit path, fun small mask => ?_⟩
    exact written _ path (.inr ⟨small.2.1, Nat.le_refl _⟩)
  · obtain ⟨⟨next, unknown⟩, stands, -⟩ :=
      exists_next lawful known listed packed typed back paths node
    have drops : ∀ t ∈ types, t.keepsUnknown = false := by decide
    have none : unknown = [] := by simpa [drops t listed] using stands.conforms.2
    subst none
    exact ⟨next, fun limit => stands.read 1 limit path, fun _ mask => stands.written _ mask path⟩

/-- The slots that are told for messages that are no objects answer what the messages are written
as.
-/
def Answering (s : Schema) (mask : PathSet) (form : FormBack) : Prop :=
  ∀ path t (m : Message) n, t ∈ types → t.form ≠ .members → m.Typed s t → m.All Scalar.ReadsBack
    → PathsReturn t m.slots → PayloadsReturn s t m.slots
    → messageNode s {} (anyNode s {}) mask path t m = some n
    → Answers s path t n (form path t m.slots)

theorem exists_answering (lawful : s.Lawful) (known : s.HasWellKnown) (mask : PathSet)
    : ∃ form, Answering s mask form := by
  have each (path : Path) (t : MessageType) (slots : List Slot)
      : ∃ next, ∀ (m : Message) n, m.slots = slots → t ∈ types → t.form ≠ .members → m.Typed s t
        → m.All Scalar.ReadsBack → PathsReturn t m.slots → PayloadsReturn s t m.slots
        → messageNode s {} (anyNode s {}) mask path t m = some n → Answers s path t n next := by
    cases written : messageNode s {} (anyNode s {}) mask path t ⟨slots, []⟩ with
    | none =>
        refine ⟨[], fun m n same _ _ _ _ _ _ node => ?_⟩
        cases m
        cases same
        cases written.symm.trans node
    | some n =>
        by_cases answer : ∃ next, Answers s path t n next
        · obtain ⟨next, answers⟩ := answer
          refine ⟨next, fun m n' same _ _ _ _ _ _ node => ?_⟩
          cases m
          cases same
          cases written.symm.trans node
          exact answers
        · refine ⟨[], fun m n' same listed other typed back paths payloads node => ?_⟩
          cases m
          cases same
          cases written.symm.trans node
          exact absurd (exists_answer lawful known listed other typed back paths payloads node)
            answer
  choose form answers using each
  exact ⟨form, fun path t m n => answers path t m.slots m n rfl⟩

-----------------------------------------------------------------------------------------
-- Documents
-----------------------------------------------------------------------------------------

/-- The fields that a document of the message names. -/
def namedFields (s : Schema) (mask : PathSet) (t : MessageType) (m : Message) : PathSet :=
  ⟨(messageNamed s mask .root t m).map Path.dotted⟩

/-- The object shows all members that a document names at its path, and what is no object comes back
from its text.
-/
structure Reproduces (s : Schema) (mask named : PathSet) (path : Path) (t : MessageType)
    (slots : List Slot) : Prop where
  shows : ShowsAll mask named path t slots
  paths : PathsReturn t slots
  payloads : PayloadsReturn s t slots

theorem names_congr (same : ∀ text, text ∈ mask'.paths ↔ text ∈ mask.paths) (path : Path)
    (field : String)
    : names mask' path field = names mask path field := by
  rw [names_eq, names_eq, namesPath, namesPath, Bool.eq_iff_iff, decide_eq_true_iff,
    decide_eq_true_iff, same]

theorem rereads_of_answering {named : PathSet} {name : String} (kinds : s.OfObjects)
    (answering : Answering s mask form)
    (legible : ∀ inner, s.MayHold name inner → (s.type inner).form = .members
      → (s.type inner).Legible)
    : Rereads 1 s {} (anyNode s {}) mask form (Reproduces s mask named) name where
  visible := visible_anyNode s {}
  legible := legible
  forms := by
    intro inner _ other path m n typed _ back kept node limit
    obtain ⟨listed, own⟩ := kinds.type_of_form other
    have answers := answering path _ m n listed other typed back kept.paths kept.payloads node
    have read := answers.read limit
    rwa [own] at read

theorem rewrites_of_answering {named : PathSet} {name : String} (kinds : s.OfObjects)
    (answering : Answering s mask form)
    (legible : ∀ inner, s.MayHold name inner → (s.type inner).form = .members
      → (s.type inner).Legible)
    (same : ∀ text, text ∈ mask'.paths ↔ text ∈ named.paths)
    : Rewrites s (anyNode s {}) mask mask' form (Reproduces s mask named) name where
  legible := legible
  shows := by
    intro path t slots kept form held listed alone shown
    rw [names_congr same] at shown
    exact kept.shows form held listed alone shown
  forms := by
    intro inner _ other path m n typed back kept node small
    obtain ⟨listed, -⟩ := kinds.type_of_form other
    have answers := answering path _ m n listed other typed back kept.paths kept.payloads node
    exact answers.written small mask'

/-- What is read into an empty message is of its type. -/
theorem typed_of_decodeInto (lawful : s.Lawful) (known : s.HasWellKnown) (kinds : s.OfObjects)
    {name : String} {registry : Option Registry} {bytes : List UInt8} {m : Message}
    {result : Except Fault PathSet}
    (read : decodeInto s registry (s.type name) (s.empty name) bytes = (m, result))
    : m.Typed s (s.type name) := by
  have only (inner : String) (form : (s.type inner).form = .value) : s.type inner = valueType := by
    have value : ∀ t ∈ types, t.form = .value → t = valueType := by decide
    exact value _ (kinds.type_of_form (by simp [form])).1 form
  have sound := sound_readMessage lawful known kinds.hasJson only (lawful.sound_empty name)
    (Reader.ofBytes bytes registry)
  have same : m = (readMessage s (s.type name) (s.empty name)
    (Reader.ofBytes bytes registry)).1 := by
    unfold decodeInto at read
    dsimp only at read
    split at read <;> cases read <;> rfl
  exact same ▸ Message.Conforms.typed _ sound.1

/-- A document that is read and written again, with the fields that it names as the mask, is the
same document, as long as no object leaves out a member that is shown under the same path in another
one, and texts and packed messages lead back to what they stand for.
-/
theorem encode_captured (lawful : s.Lawful) (known : s.HasWellKnown) (kinds : s.OfObjects)
    {name : String}
    (legible : ∀ inner, s.MayHold name inner → (s.type inner).form = .members
      → (s.type inner).Legible)
    {m m' : Message} (typed : m.Typed s (s.type name)) (fits : m.Fits s (s.type name))
    (texts : m.All Scalar.ReadsBack)
    (kept : m.Everywhere s (Reproduces s mask (namedFields s mask (s.type name) m)) .root
      (s.type name))
    {document : String} {registry : Option Registry}
    (written : encode s {} mask (s.type name) m = .ok document)
    (read : decodeInto s registry (s.type name) (s.empty name) (Text.utf8 document)
      = (m', .ok mask'))
    (small : m'.All Scalar.Storable)
    : (∀ text, text ∈ mask'.paths ↔ text ∈ (namedFields s mask (s.type name) m).paths)
      ∧ encode s {} mask' (s.type name) m' = .ok document := by
  have json := kinds.hasJson
  have typed' := typed_of_decodeInto lawful known kinds read
  obtain ⟨n, tree, rfl⟩ := (encode_eq_ok_iff lawful json (json.type name) typed document).mp written
  obtain ⟨form, answering⟩ := exists_answering lawful known mask
  have rereads : Rereads 1 s {} (anyNode s {}) mask form
      (Reproduces s mask (namedFields s mask (s.type name) m)) name :=
    rereads_of_answering kinds answering legible
  have takes := takes_message lawful rereads m (.refl name) typed fits texts kept tree
  rcases decodeInto_of_takes takes registry with took | ⟨⟨_, fault, failed⟩, -⟩
  · cases took.symm.trans read
    have same (text : String)
        : text ∈ ((messageNamed s mask .root (s.type name) m).foldl PathSet.add .empty).paths
          ↔ text ∈ (namedFields s mask (s.type name) m).paths := by
      rw [PathSet.mem_paths_foldl_add]
      exact or_iff_right List.not_mem_nil
    have rewrites := rewrites_of_answering kinds answering legible same
    have again := rewritten_message rewrites m (.refl name) typed texts kept
      (fun q recorded => (same _).mpr (List.mem_map_of_mem recorded)) small tree
    exact ⟨same, (encode_eq_ok_iff lawful json (json.type name) typed' _).mpr ⟨n, again, rfl⟩⟩
  · cases failed.symm.trans read

/-- Two notes in a list show their texts, a member that is not set is named by the mask, and the
mask that is captured names it and the texts.
-/
theorem encode_captured_notes
    : let note : MessageType := ⟨"Note", [
        ⟨1, "text", "text", .single (.scalar (.string none))⟩,
        ⟨2, "stars", "stars", .optional (.scalar .int32)⟩,
        ⟨3, "sub_notes", "subNotes", .repeated (.message "Note") false none⟩,
        ⟨4, "info", "info", .optional (.message "google.protobuf.Any")⟩], false, .members⟩
      let s := schemaWith [note]
      let inner (text : String) : Message :=
        ⟨[.one (.scalar (.string text)), .none, .many [], .none], []⟩
      let url := "type.googleapis.com/google.protobuf.Int32Value"
      let m : Message := ⟨[.one (.scalar (.string "")), .none,
        .many [.message (inner "a"), .message (inner "b")],
        .one (.message ⟨anySlots url [8, 5], []⟩)], []⟩
      let mask : PathSet := ⟨["stars"]⟩
      let mask' : PathSet := ⟨["stars", "sub_notes", "sub_notes.text", "info"]⟩
      let document := "\x7b\"stars\":null,"
        ++ "\"sub_notes\":[\x7b\"text\":\"a\"\x7d,\x7b\"text\":\"b\"\x7d],"
        ++ "\"info\":\x7b\"@type\":\"" ++ url ++ "\",\"value\":5\x7d\x7d"
      let read := decodeInto s none note (s.empty "Note") (Text.utf8 document)
      s.Lawful ∧ s.HasWellKnown ∧ s.OfObjects
      ∧ (∀ inner, s.MayHold "Note" inner → (s.type inner).form = .members → (s.type inner).Legible)
      ∧ m.Typed s note ∧ m.Fits s note ∧ m.All Scalar.ReadsBack
      ∧ m.Everywhere s (Reproduces s mask (namedFields s mask note m)) .root note
      ∧ encode s {} mask note m = .ok document ∧ read.2 = .ok mask' ∧ read.1.All Scalar.Storable
      ∧ (∀ text, text ∈ mask'.paths ↔ text ∈ (namedFields s mask note m).paths)
      ∧ encode s {} mask' note read.1 = .ok document := by
  intro note s inner url m mask mask' document read
  have lawful : s.Lawful := lawful_schemaWith (by decide) (by decide) (by decide)
  have known : s.HasWellKnown := hasWellKnown lawful
  have kinds : s.OfObjects := ofObjects_schemaWith (by decide)
  have legible (inner : String) (_ : s.MayHold "Note" inner) (_ : (s.type inner).form = .members)
      : (s.type inner).Legible :=
    legible_schemaWith (by decide) inner
  have found : s.type "Note" = note := by decide
  have packed : s.type "google.protobuf.Any" = anyType := by decide
  have written : encode s {} mask note m = .ok document := by decide +kernel
  have captured : read.2 = .ok mask' := by decide +kernel
  have small : read.1.All Scalar.Storable := by decide +kernel
  have texts : m.All Scalar.ReadsBack :=
    ⟨trivial, trivial, ⟨⟨trivial, trivial, trivial, trivial, trivial⟩,
      ⟨trivial, trivial, trivial, trivial, trivial⟩, trivial⟩, ⟨trivial, trivial, trivial⟩, trivial⟩
  have innerTyped (text : String) : (inner text).Typed s (s.type "Note") := by
    rw [found]
    exact ⟨⟨rfl, trivial, trivial, trivial, rfl⟩, rfl⟩
  have anyTyped : Message.Typed s (s.type "google.protobuf.Any") ⟨anySlots url [8, 5], []⟩ := by
    rw [packed]
    exact ⟨⟨rfl, rfl, rfl⟩, rfl⟩
  have typed : m.Typed s note :=
    ⟨⟨rfl, trivial, ⟨innerTyped "a", innerTyped "b", trivial⟩, anyTyped, rfl⟩, rfl⟩
  have innerFits (text : String) : (inner text).Fits s (s.type "Note") := by
    rw [found]
    exact ⟨trivial, trivial, ⟨rfl, trivial⟩, trivial, trivial⟩
  have anyFits : Message.Fits s (s.type "google.protobuf.Any") ⟨anySlots url [8, 5], []⟩ := by
    rw [packed]
    exact ⟨trivial, trivial, trivial⟩
  have fits : m.Fits s note :=
    ⟨trivial, trivial, ⟨rfl, innerFits "a", innerFits "b", trivial⟩, anyFits, trivial⟩
  have named : namedFields s mask note m
      = ⟨["stars", "sub_notes", "sub_notes.text", "sub_notes.text", "info"]⟩ := by decide +kernel
  have returns : AnyReturns s url [8, 5] := by
    have own : s.type (wrapperType "Int32Value" .int32).name = wrapperType "Int32Value" .int32 := by
      decide
    have held := decode_encoding (m := ⟨[.one (.scalar (.int32 5))], []⟩) lawful own
      ⟨⟨rfl, rfl⟩, rfl⟩
      ⟨trivial, trivial⟩ (Nat.zero_le _) rfl (by decide +kernel)
    rw [show Message.encoding s _ _ = [8, 5] by decide +kernel] at held
    refine .message (by decide) (by decide) (by decide) held ⟨trivial, trivial⟩ (Nat.zero_le _) ?_
      nofun
    intro _ v same
    cases same
    rfl
  have noted {path : Path} {slots : List Slot}
      (shows : ∀ held ∈ note.members.zip slots, names (namedFields s mask note m) path held.1.name
        → Slot.isSet held.1 held.2 || names mask path held.1.name)
      : Reproduces s mask (namedFields s mask note m) path note slots :=
    ⟨fun _ held listed _ => shows held listed, nofun, nofun⟩
  have innerKept (text : String)
      (shows : ∀ held ∈ note.members.zip (inner text).slots,
        names (namedFields s mask note m) (Path.root.push "sub_notes") held.1.name
          → Slot.isSet held.1 held.2 || names mask (Path.root.push "sub_notes") held.1.name)
      : (inner text).Everywhere s (Reproduces s mask (namedFields s mask note m))
        (Path.root.push "sub_notes") (s.type "Note") := by
    rw [found]
    exact ⟨noted shows, trivial, trivial, trivial, trivial, trivial⟩
  have anyKept : Message.Everywhere s (Reproduces s mask (namedFields s mask note m))
      (Path.root.push "info") (s.type "google.protobuf.Any") ⟨anySlots url [8, 5], []⟩ := by
    rw [packed]
    refine ⟨⟨nofun, nofun, fun _ url' payload same => ?_⟩, trivial, trivial, trivial⟩
    cases same
    exact returns
  have kept : m.Everywhere s (Reproduces s mask (namedFields s mask note m)) .root note := by
    refine ⟨noted ?_, trivial, trivial, ⟨innerKept "a" ?_, innerKept "b" ?_, trivial⟩, anyKept,
      trivial⟩ <;>
      rw [named] <;> decide
  have accepted : decodeInto s none (s.type "Note") (s.empty "Note") (Text.utf8 document)
      = (read.1, .ok mask') := by
    rw [found]
    exact Prod.ext rfl captured
  rw [← found] at typed fits kept written ⊢
  exact ⟨lawful, known, kinds, legible, typed, fits, texts, kept, written, captured, small,
    encode_captured lawful known kinds legible typed fits texts kept written accepted small⟩

/-- Of two elements of a list one shows its number and the other, which has none, does not; but they
stand at one path, so with the mask that is captured both do.  A zero that is packed loses its sign.
-/
theorem captured_mask_spreads
    : let node : MessageType := ⟨"Node", [
        ⟨1, "value", "value", .single (.scalar .int32)⟩,
        ⟨3, "children", "children", .repeated (.message "Node") false none⟩], true, .members⟩
      let s := schemaWith [node]
      let leaf (v : Int32) : Value := .message ⟨[.one (.scalar (.int32 v)), .many []], []⟩
      let m : Message := ⟨[.one (.scalar (.int32 0)), .many [leaf 1, leaf 0]], []⟩
      let document := "\x7b\"children\":[\x7b\"value\":1\x7d,\x7b\x7d]\x7d"
      let again := "\x7b\"children\":[\x7b\"value\":1\x7d,\x7b\"value\":0\x7d]\x7d"
      let read := decodeInto s none node (s.empty "Node") (Text.utf8 document)
      let mask' : PathSet := ⟨["children", "children.value"]⟩
      let url := "type.googleapis.com/google.protobuf.DoubleValue"
      let packed (text : String) := "\x7b\"@type\":\"" ++ url ++ "\",\"value\":" ++ text ++ "\x7d"
      let readAny := decodeInto s none anyType (s.empty anyType.name) (Text.utf8 (packed "-0"))
      (encode s {} .empty node m = .ok document ∧ read.2 = .ok mask'
        ∧ encode s {} mask' node read.1 = .ok again ∧ again ≠ document)
      ∧ encode s {} .empty anyType ⟨anySlots url [9, 0, 0, 0, 0, 0, 0, 0, 128], []⟩
        = .ok (packed "-0")
      ∧ readAny.2 = .ok .empty ∧ encode s {} .empty anyType readAny.1 = .ok (packed "0")
      ∧ packed "0" ≠ packed "-0" := by
  intro node s leaf m document again read mask' url packed readAny
  refine ⟨⟨?_, ?_, ?_, ?_⟩, ?_, ?_, ?_, ?_⟩ <;> decide +kernel

end Json

end Protobuf
