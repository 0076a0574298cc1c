import Protobuf.Proofs.FieldMask.PathSet
import Protobuf.Proofs.Json.Documents

/-! What a mask shows of a message.  A tree shows a message if the object of each message inside it,
wherever it stands, has the members that are set or named there, in order, and each of them shows
what the message holds: elements by their index, and entries by their keys.
-/

namespace Protobuf

namespace Json

open FieldMask

variable {s : Schema} {config : Config} {tree : AnyTree} {mask : PathSet} {path : Path}

-----------------------------------------------------------------------------------------
-- Keys
-----------------------------------------------------------------------------------------

/-- The dotted form of the path is in the mask, and leads back to the path: no name holds a dot. -/
def namesPath (mask : PathSet) (path : Path) (field : String) : Bool :=
  (path.push field).Dotless ∧ (path.push field).dotted ∈ mask.paths

/-- The writer asks the mask for what is written in it. -/
theorem names_eq (mask : PathSet) (path : Path) (field : String)
    : names mask path field = namesPath mask path field := by
  rw [Bool.eq_iff_iff, names, namesPath, decide_eq_true_iff, ← PathSet.contains_iff]
  cases paths : mask.paths with
  | nil => simp [PathSet.contains, paths]
  | cons first others => simp

/-- The key under which what a member holds is written, if it is set or named; of a oneof it is the
key of the alternative.
-/
def shownKey (config : Config) (named : String → Bool) (m : Member) (slot : Slot)
    : Option String :=
  match m.shape, slot with
  | .oneof _, .choice tag _ =>
      (m.alternative? tag).map fun a => config.nameOf a.name a.jsonName
  | .oneof _, _ => none
  | _, slot =>
      if Slot.isSet m slot || named m.name then some (config.nameOf m.name m.jsonName) else none

/-- The keys of an object in the order of its members. -/
def shownKeys (config : Config) (named : String → Bool) (members : List Member)
    (slots : List Slot)
    : List String :=
  (members.zip slots).filterMap fun held => shownKey config named held.1 held.2

theorem shownKeys_cons (named : String → Bool) (m : Member) (members : List Member) (slot : Slot)
    (slots : List Slot)
    : shownKeys config named (m :: members) (slot :: slots)
        = (shownKey config named m slot).toList ++ shownKeys config named members slots := by
  simp only [shownKeys, List.zip_cons_cons, List.filterMap_cons]
  cases shownKey config named m slot <;> rfl

/-- More names show no fewer members. -/
theorem shownKey_of_named {named named' : String → Bool} {m : Member} {slot : Slot} {key : String}
    (more : ∀ field, named field → named' field) (h : shownKey config named m slot = some key)
    : shownKey config named' m slot = some key := by
  cases shape : m.shape with
  | oneof alternatives => cases slot <;> simpa only [shownKey, shape] using h
  | single _ | optional _ | repeated _ _ _ | map _ _ =>
      simp only [shownKey, shape, Bool.or_eq_true] at h ⊢
      split at h
      · rename_i shown
        rwa [if_pos (shown.imp_right (more m.name))]
      · cases h

/-- More names show no fewer members, in the same order. -/
theorem shownKeys_sublist {named named' : String → Bool} (members : List Member)
    (slots : List Slot) (more : ∀ field, named field → named' field)
    : (shownKeys config named members slots).Sublist (shownKeys config named' members slots) := by
  induction members generalizing slots with
  | nil => simp [shownKeys]
  | cons m members ih =>
      cases slots with
      | nil => simp [shownKeys]
      | cons slot slots =>
          rw [shownKeys_cons, shownKeys_cons]
          refine List.Sublist.append ?_ (ih slots)
          cases own : shownKey config named m slot with
          | none => exact List.nil_sublist _
          | some key => rw [shownKey_of_named more own]

end Json

-----------------------------------------------------------------------------------------
-- Messages and trees
-----------------------------------------------------------------------------------------

open FieldMask Json

section

variable (s : Schema) (config : Config) (mask : PathSet)

mutual

/-- The tree shows the message; nothing is asked of a scalar. -/
def Value.Shown (path : Path) (field : String) (type : ValueType) : Value → Node → Prop
  | .scalar _, _ => True
  | .message m, n =>
      match type with
      | .scalar _ => False
      | .message name => m.Shown (path.push field) (s.type name) n
termination_by structural v => v

/-- The tree is an object that shows the members.  Of types with a form of their own those show what
they hold that may hold messages.
-/
def Message.Shown (path : Path) (t : MessageType) : Message → Node → Prop
  | ⟨slots, _⟩, n =>
      match t.form with
      | .members => ∃ fields, n = .object fields ∧ slotsShown path t.members slots fields
      | .struct => structShown path slots n
      | .value => kindShown path t.members slots n
      | .listValue => listShown path slots n
      | _ => True
termination_by structural m => m

/-- The fields are those of the members that are set or that the mask names, one after the other. -/
def slotsShown (path : Path) (members : List Member) : List Slot → List Field → Prop
  | [], fields => fields = []
  | slot :: slots, fields =>
      match members with
      | [] => fields = []
      | m :: members =>
          match shownKey config (namesPath mask path) m slot with
          | none => slotsShown path members slots fields
          | some key => ∃ n others, fields = ⟨key, n⟩ :: others ∧ slot.Shown path m n
              ∧ slotsShown path members slots others
termination_by structural slots => slots

/-- The tree shows what the member holds. -/
def Slot.Shown (path : Path) (m : Member) : Slot → Node → Prop
  | .none, n => n = .null
  | .one v, n =>
      match m.shape with
      | .single type => v.Shown path m.name type n
      | .optional type => v.Shown path m.name type n
      | _ => False
  | .many vs, n =>
      match m.shape with
      | .repeated type _ _ =>
          ∃ items, n = .array items ∧ elementsShown path m.name type vs items
      | _ => False
  | .entries es, n =>
      match m.shape with
      | .map _ type => ∃ fields, n = .object fields ∧ entriesShown path m.name type es fields
      | _ => False
  | .choice tag v, n =>
      match m.alternative? tag with
      | some a => v.Shown path a.name a.type n
      | none => False
termination_by structural slot => slot

/-- Each item shows the element with its index. -/
def elementsShown (path : Path) (field : String) (type : ValueType)
    : List Value → List Node → Prop
  | [], items => items = []
  | v :: vs, items =>
      ∃ n others, items = n :: others ∧ v.Shown path field type n
        ∧ elementsShown path field type vs others
termination_by structural vs => vs

/-- Each field has the key of an entry and shows its value. -/
def entriesShown (path : Path) (field : String) (type : ValueType)
    : List Entry → List Field → Prop
  | [], fields => fields = []
  | ⟨key, v⟩ :: es, fields =>
      ∃ n others, fields = ⟨keyText key, n⟩ :: others ∧ v.Shown path field type n
        ∧ entriesShown path field type es others
termination_by structural es => es

def structShown (path : Path) : List Slot → Node → Prop
  | .entries es :: _, n => ∃ fields, n = .object fields ∧ structFieldsShown path es fields
  | _, _ => False
termination_by structural slots => slots

/-- Each field of a `Struct` shows its value at the path of its key. -/
def structFieldsShown (path : Path) : List Entry → List Field → Prop
  | [], fields => fields = []
  | ⟨key, v⟩ :: es, fields =>
      ∃ n others, fields = ⟨keyText key, n⟩ :: others
        ∧ v.Shown path (keyText key) (.message "google.protobuf.Value") n
        ∧ structFieldsShown path es others
termination_by structural es => es

/-- The kind of a `Value` is shown in its place. -/
def kindShown (path : Path) (members : List Member) : List Slot → Node → Prop
  | .choice tag (.message m) :: _, n =>
      match (members.findSome? fun member => member.alternative? tag).map Alternative.type with
      | some (.message name) => m.Shown path (s.type name) n
      | _ => False
  | _, _ => True
termination_by structural slots => slots

def listShown (path : Path) : List Slot → Node → Prop
  | .many vs :: _, n => ∃ items, n = .array items ∧ itemsShown path vs items
  | _, _ => False
termination_by structural slots => slots

/-- Each item shows the item of the `ListValue` with its index. -/
def itemsShown (path : Path) : List Value → List Node → Prop
  | [], items => items = []
  | .message m :: vs, items =>
      ∃ n others, items = n :: others ∧ m.Shown path (s.type "google.protobuf.Value") n
        ∧ itemsShown path vs others
  | .scalar _ :: vs, items => itemsShown path vs items
termination_by structural vs => vs

end

end

namespace Json

/-- The keys of an object that shows members. -/
theorem keys_slotsShown {members : List Member} {slots : List Slot} {fields : List Field}
    (h : slotsShown s config mask path members slots fields)
    : fields.map (·.key) = shownKeys config (namesPath mask path) members slots := by
  induction slots generalizing members fields with
  | nil =>
      simp only [slotsShown] at h
      simp [h, shownKeys]
  | cons slot slots ih =>
      cases members with
      | nil =>
          simp only [slotsShown] at h
          simp [h, shownKeys]
      | cons m members =>
          rw [shownKeys_cons]
          simp only [slotsShown] at h
          cases shown : shownKey config (namesPath mask path) m slot with
          | none =>
              simp only [shown] at h
              exact ih h
          | some key =>
              simp only [shown] at h
              obtain ⟨n, others, rfl, -, behind⟩ := h
              rw [List.map_cons, ih behind]
              rfl

-----------------------------------------------------------------------------------------
-- The tree of a message shows it
-----------------------------------------------------------------------------------------

mutual

/-- What is written for a value shows it, by induction on the value. -/
theorem shown_value (json : s.HasJson) {path : Path} {field : String} {type : ValueType}
    (v : Value) {n : Node} (typed : v.known.Conforms s type)
    (h : valueNode s config tree mask path field type v = some n)
    : v.Shown s config mask path field type n := by
  cases v with
  | scalar v => trivial
  | message m =>
      cases type with
      | scalar type => exact typed.elim
      | message name => exact shown_message json m (json.type name) typed h

/-- The tree of a message shows what is set in it and what the mask names, by induction on it. -/
theorem shown_message (json : s.HasJson) {t : MessageType} {path : Path} (m : Message) {n : Node}
    (form : t.HasJson) (typed : m.Typed s t)
    (h : messageNode s config tree mask path t m = some n)
    : m.Shown s config mask path t n := by
  cases m with
  | mk slots unknown =>
      have typed : slotsConform s t.members (slotsKnown slots) := typed.1
      unfold MessageType.HasJson at form
      generalize shapes : t.members.map (·.shape) = shape at form
      simp only [messageNode] at h
      simp only [Message.Shown]
      cases kind : t.form with
      | members =>
          simp only [kind] at h
          obtain ⟨fields, members, rfl⟩ := Option.map_eq_some_iff.mp h
          exact ⟨fields, rfl, shown_members json slots typed members⟩
      | struct =>
          rw [kind] at form
          cases form
          obtain ⟨m, members, shape⟩ := List.map_eq_singleton_iff.mp shapes
          rw [members] at typed
          simp only [kind] at h
          exact shown_struct json slots shape typed h
      | value =>
          rw [kind] at form
          cases form
          obtain ⟨m, members, shape⟩ := List.map_eq_singleton_iff.mp shapes
          rw [members] at typed
          simp only [kind, members] at h
          rw [members]
          exact shown_kind json slots typed h
      | listValue =>
          rw [kind] at form
          cases form
          obtain ⟨m, members, shape⟩ := List.map_eq_singleton_iff.mp shapes
          rw [members] at typed
          simp only [kind] at h
          exact shown_list json slots shape typed h
      | bare | wrapper | timestamp | duration | fieldMask | any | filler => trivial

theorem shown_members (json : s.HasJson) {members : List Member} {path : Path} (slots : List Slot)
    {fields : List Field} (typed : slotsConform s members (slotsKnown slots))
    (h : memberFields s config tree mask path members slots = some fields)
    : slotsShown s config mask path members slots fields := by
  cases slots with
  | nil =>
      cases h
      rfl
  | cons slot slots =>
      cases members with
      | nil =>
          cases h
          rfl
      | cons m members =>
          unfold memberFields at h
          simp only [slotsShown]
          cases shape : m.shape with
          | oneof alternatives =>
              simp only [shape] at h
              obtain ⟨first, own, h⟩ := Option.bind_eq_some_iff.mp h
              obtain ⟨others, behind, same⟩ := Option.bind_eq_some_iff.mp h
              cases same
              have others := shown_members json slots typed.2 behind
              cases slot with
              | none | one _ | many _ | entries _ =>
                  cases own
                  simpa only [shownKey, shape, List.nil_append] using others
              | choice tag v =>
                  have held := typed.1
                  simp only [Slot.known, Slot.Conforms] at held
                  simp only [choiceFields] at own
                  cases found : m.alternative? tag with
                  | none => simp only [found] at held
                  | some a =>
                      simp only [found] at held own
                      obtain ⟨n, node, same⟩ := Option.bind_eq_some_iff.mp own
                      cases same
                      simp only [shownKey, shape, found, Option.map_some]
                      refine ⟨n, _, rfl, ?_, others⟩
                      simp only [Slot.Shown, found]
                      exact shown_value json v held node
          | single _ | optional _ | repeated _ _ _ | map _ _ =>
              simp only [shape] at h
              split at h
              · rename_i shown
                obtain ⟨n, node, h⟩ := Option.bind_eq_some_iff.mp h
                obtain ⟨others, behind, same⟩ := Option.bind_eq_some_iff.mp h
                cases same
                simp only [shownKey, shape, ← names_eq, shown, if_true]
                exact ⟨n, others, rfl, shown_slot json slot typed.1 node,
                  shown_members json slots typed.2 behind⟩
              · rename_i hidden
                simp only [shownKey, shape, ← names_eq, hidden]
                exact shown_members json slots typed.2 h

theorem shown_slot (json : s.HasJson) {m : Member} {path : Path} (slot : Slot) {n : Node}
    (typed : slot.known.Conforms s m)
    (h : slotNode s config tree mask path m slot = some n)
    : slot.Shown s config mask path m n := by
  cases slot with
  | none =>
      cases h
      rfl
  | one v =>
      simp only [Slot.known, Slot.Conforms] at typed
      unfold slotNode at h
      simp only [Slot.Shown]
      cases shape : m.shape with
      | single type =>
          simp only [shape] at typed h
          cases v with
          | scalar v => trivial
          | message inner =>
              cases type with
              | scalar type => exact typed.elim
              | message name => exact shown_message json inner (json.type name) typed h
      | optional type =>
          simp only [shape] at typed h
          exact shown_value json v typed h
      | repeated _ _ _ | map _ _ | oneof _ => simp only [shape] at typed
  | many vs =>
      simp only [Slot.known, Slot.Conforms] at typed
      unfold slotNode at h
      simp only [Slot.Shown]
      cases shape : m.shape with
      | repeated type packed capacity =>
          simp only [shape] at typed h
          obtain ⟨items, nodes, rfl⟩ := Option.map_eq_some_iff.mp h
          exact ⟨items, rfl, shown_elements json vs typed nodes⟩
      | single _ | optional _ | map _ _ | oneof _ => simp only [shape] at typed
  | entries es =>
      simp only [Slot.known, Slot.Conforms] at typed
      simp only [Slot.Shown]
      cases shape : m.shape with
      | map key type =>
          simp only [shape] at typed
          rw [slotNode_entries shape (ordered_entriesKnown.mp typed.1)] at h
          obtain ⟨fields, nodes, rfl⟩ := Option.map_eq_some_iff.mp h
          exact ⟨fields, rfl, shown_entries json es typed.2 nodes⟩
      | single _ | optional _ | repeated _ _ _ | oneof _ => simp only [shape] at typed
  | choice tag v => cases h

theorem shown_elements (json : s.HasJson) {path : Path} {field : String} {type : ValueType}
    (vs : List Value) {items : List Node}
    (typed : elementsConform s type (elementsKnown vs))
    (h : elementNodes s config tree mask path field type vs = some items)
    : elementsShown s config mask path field type vs items := by
  cases vs with
  | nil =>
      cases h
      rfl
  | cons v vs =>
      obtain ⟨n, node, h⟩ := Option.bind_eq_some_iff.mp h
      obtain ⟨others, behind, same⟩ := Option.bind_eq_some_iff.mp h
      cases same
      exact ⟨n, others, rfl, shown_value json v typed.1 node,
        shown_elements json vs typed.2 behind⟩

theorem shown_entries (json : s.HasJson) {path : Path} {field : String} {type : ValueType}
    (es : List Entry) {fields : List Field}
    (typed : entriesConform s type (entriesKnown es))
    (h : entryFields s config tree mask path field type es = some fields)
    : entriesShown s config mask path field type es fields := by
  cases es with
  | nil =>
      cases h
      rfl
  | cons e es =>
      cases e with
      | mk key v =>
          obtain ⟨n, node, h⟩ := Option.bind_eq_some_iff.mp h
          obtain ⟨others, behind, same⟩ := Option.bind_eq_some_iff.mp h
          cases same
          exact ⟨n, others, rfl, shown_value json v typed.1 node,
            shown_entries json es typed.2 behind⟩

theorem shown_struct (json : s.HasJson) {m : Member} {path : Path} (slots : List Slot) {n : Node}
    (shape : m.shape = .map (.string none) (.message "google.protobuf.Value"))
    (typed : slotsConform s [m] (slotsKnown slots))
    (h : structNode s config tree mask path slots = some n)
    : structShown s config mask path slots n := by
  cases slots with
  | nil => cases h
  | cons slot others =>
      cases slot with
      | entries es =>
          have own := typed.1
          simp only [Slot.known, Slot.Conforms, shape] at own
          obtain ⟨fields, nodes, rfl⟩ := Option.map_eq_some_iff.mp h
          exact ⟨fields, rfl, shown_fields json es own.2 nodes⟩
      | none | one _ | many _ | choice _ _ => cases h

theorem shown_fields (json : s.HasJson) {path : Path} (es : List Entry) {fields : List Field}
    (typed : entriesConform s (.message "google.protobuf.Value") (entriesKnown es))
    (h : structFields s config tree mask path es = some fields)
    : structFieldsShown s config mask path es fields := by
  cases es with
  | nil =>
      cases h
      rfl
  | cons e es =>
      cases e with
      | mk key v =>
          obtain ⟨n, node, h⟩ := Option.bind_eq_some_iff.mp h
          obtain ⟨others, behind, same⟩ := Option.bind_eq_some_iff.mp h
          cases same
          exact ⟨n, others, rfl, shown_value json v typed.1 node,
            shown_fields json es typed.2 behind⟩

theorem shown_kind (json : s.HasJson) {m : Member} {path : Path} (slots : List Slot) {n : Node}
    (typed : slotsConform s [m] (slotsKnown slots))
    (h : kindNode s config tree mask path [m] slots = some n)
    : kindShown s config mask path [m] slots n := by
  cases slots with
  | nil => trivial
  | cons slot others =>
      cases slot with
      | none | one _ | many _ | entries _ => trivial
      | choice tag v =>
          cases v with
          | scalar v => trivial
          | message inner =>
              have own := typed.1
              simp only [Slot.known, Slot.Conforms] at own
              simp only [kindNode, List.findSome?_cons] at h
              simp only [kindShown, List.findSome?_cons]
              cases found : m.alternative? tag with
              | none => simp only [found] at own
              | some a =>
                  simp only [found] at own
                  cases type : a.type with
                  | scalar type =>
                      rw [type] at own
                      exact own.elim
                  | message name =>
                      rw [type] at own
                      simp only [found, Option.map_some, type] at h ⊢
                      exact shown_message json inner (json.type name) own h

theorem shown_list (json : s.HasJson) {m : Member} {path : Path} (slots : List Slot) {n : Node}
    (shape : m.shape = .repeated (.message "google.protobuf.Value") false none)
    (typed : slotsConform s [m] (slotsKnown slots))
    (h : listNode s config tree mask path slots = some n)
    : listShown s config mask path slots n := by
  cases slots with
  | nil => cases h
  | cons slot others =>
      cases slot with
      | many vs =>
          have own := typed.1
          simp only [Slot.known, Slot.Conforms, shape] at own
          obtain ⟨items, nodes, rfl⟩ := Option.map_eq_some_iff.mp h
          exact ⟨items, rfl, shown_items json vs own nodes⟩
      | none | one _ | entries _ | choice _ _ => cases h

theorem shown_items (json : s.HasJson) {path : Path} (vs : List Value) {items : List Node}
    (typed : elementsConform s (.message "google.protobuf.Value") (elementsKnown vs))
    (h : itemNodes s config tree mask path vs = some items)
    : itemsShown s config mask path vs items := by
  cases vs with
  | nil =>
      cases h
      rfl
  | cons v vs =>
      cases v with
      | scalar v => exact typed.1.elim
      | message m =>
          obtain ⟨n, node, h⟩ := Option.bind_eq_some_iff.mp h
          obtain ⟨others, behind, same⟩ := Option.bind_eq_some_iff.mp h
          cases same
          exact ⟨n, others, rfl, shown_message json m (json.type _) typed.1 node,
            shown_items json vs typed.2 behind⟩

end

end Json

end Protobuf
