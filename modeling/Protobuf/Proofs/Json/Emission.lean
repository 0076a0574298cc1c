import Protobuf.Proofs.Json.Shown
import Protobuf.Proofs.Schema.Derived

/-! Which members are written.  Every object in a document shows the members that are set in its
message and those that the mask names; more paths only add members, and whether a message can be
written does not depend on the mask at all.
-/

namespace Protobuf

open FieldMask

-----------------------------------------------------------------------------------------
-- Messages inside a message
-----------------------------------------------------------------------------------------

/-- The values that a slot holds, each with the field below whose path it stands and its type. -/
def Slot.held (m : Member) : Slot → List (String × ValueType × Value)
  | .none => []
  | .one v =>
      match m.shape with
      | .single type | .optional type => [(m.name, type, v)]
      | _ => []
  | .many vs =>
      match m.shape with
      | .repeated type _ _ => vs.map fun v => (m.name, type, v)
      | _ => []
  | .entries es =>
      match m.shape with
      | .map _ type => es.map fun e => (m.name, type, e.value)
      | _ => []
  | .choice tag v =>
      ((m.alternative? tag).map fun a => (a.name, a.type, v)).toList

/-- A message stands inside another one at a path: in a member of an object, or in a dynamic value.
-/
inductive Message.Inside (s : Schema) (root : MessageType) (whole : Message)
    : Path → MessageType → Message → Prop
  | self : Inside s root whole .root root whole
  | member {path : Path} {t : MessageType} {m inner : Message} {n : Member} {slot : Slot}
    {field name : String} (outer : Inside s root whole path t m) (form : t.form = .members)
    (slots : (n, slot) ∈ t.members.zip m.slots)
    (holds : (field, .message name, .message inner) ∈ slot.held n)
    : Inside s root whole (path.push field) (s.type name) inner
  | field {path : Path} {t : MessageType} {m inner : Message} {es : List Entry} {key : Scalar}
    {others : List Slot} (outer : Inside s root whole path t m) (form : t.form = .struct)
    (slots : m.slots = .entries es :: others) (holds : ⟨key, .message inner⟩ ∈ es)
    : Inside s root whole (path.push (Json.keyText key)) (s.type "google.protobuf.Value") inner
  | kind {path : Path} {t : MessageType} {m inner : Message} {tag : Nat} {name : String}
    {others : List Slot} (outer : Inside s root whole path t m) (form : t.form = .value)
    (slots : m.slots = .choice tag (.message inner) :: others)
    (type : (t.members.findSome? fun n => n.alternative? tag).map Alternative.type
      = some (.message name))
    : Inside s root whole path (s.type name) inner
  | item {path : Path} {t : MessageType} {m inner : Message} {vs : List Value}
    {others : List Slot} (outer : Inside s root whole path t m) (form : t.form = .listValue)
    (slots : m.slots = .many vs :: others) (holds : .message inner ∈ vs)
    : Inside s root whole path (s.type "google.protobuf.Value") inner

namespace Json

variable {s : Schema} {config : Config} {tree : AnyTree} {mask mask' : PathSet} {path : Path}

-----------------------------------------------------------------------------------------
-- Two masks
-----------------------------------------------------------------------------------------

/-- Each field is kept with its key, and others stand in front of it or behind it. -/
inductive FieldsWidened (R : Node → Node → Prop) : List Field → List Field → Prop
  | nil : FieldsWidened R [] []
  | kept {key : String} {n n' : Node} {fields fields' : List Field} (value : R n n')
    (others : FieldsWidened R fields fields')
    : FieldsWidened R (⟨key, n⟩ :: fields) (⟨key, n'⟩ :: fields')
  | added {fields fields' : List Field} (field : Field) (others : FieldsWidened R fields fields')
    : FieldsWidened R fields (field :: fields')

/-- The second value is the first one with more members in its objects: none is removed or moved. -/
inductive Node.Widened : Node → Node → Prop
  | same (n : Node) : Widened n n
  | array {items items' : List Node} (each : List.Forall₂ Widened items items')
    : Widened (.array items) (.array items')
  | object {fields fields' : List Field} (each : FieldsWidened Widened fields fields')
    : Widened (.object fields) (.object fields')

theorem FieldsWidened.refl (fields : List Field)
    : FieldsWidened Node.Widened fields fields := by
  induction fields with
  | nil => exact .nil
  | cons field fields ih =>
      obtain ⟨key, n⟩ := field
      exact .kept (.same n) ih

theorem FieldsWidened.append {R : Node → Node → Prop} {front front' fields fields' : List Field}
    (first : FieldsWidened R front front') (others : FieldsWidened R fields fields')
    : FieldsWidened R (front ++ fields) (front' ++ fields') := by
  induction first with
  | nil => exact others
  | kept value _ ih => exact .kept value ih
  | added field _ ih => exact .added field ih

theorem widened_items_refl (items : List Node)
    : List.Forall₂ Node.Widened items items :=
  List.forall₂_same.mpr fun n _ => .same n

/-- Both results are there or neither is; they are the same under one condition, and the second one
goes beyond the first under another.
-/
structure Paired {α : Type} (same more : Prop) (R : α → α → Prop) (a b : Option α) : Prop where
  both : a.isSome = b.isSome
  eq : same → a = b
  wider : more → ∀ x ∈ a, ∀ y ∈ b, R x y

namespace Paired

variable {α β γ : Type} {same more : Prop} {a b : Option α} {c d : Option β}
  {R : α → α → Prop} {S : β → β → Prop} {T : γ → γ → Prop}

theorem refl (reflexive : ∀ x, R x x) (a : Option α)
    : Paired same more R a a := by
  refine ⟨rfl, fun _ => rfl, fun _ x held y held' => ?_⟩
  rw [Option.mem_unique held held']
  exact reflexive y

theorem map (h : Paired same more R a b) (f : α → β) (keeps : ∀ x y, R x y → S (f x) (f y))
    : Paired same more S (a.map f) (b.map f) := by
  refine ⟨by rw [Option.isSome_map, Option.isSome_map, h.both], fun agree => by rw [h.eq agree],
    fun wide x held y held' => ?_⟩
  obtain ⟨x, own, rfl⟩ := Option.map_eq_some_iff.mp held
  obtain ⟨y, own', rfl⟩ := Option.map_eq_some_iff.mp held'
  exact keeps x y (h.wider wide x own y own')

theorem bind (h : Paired same more R a b) (f : α → β) (keeps : ∀ x y, R x y → S (f x) (f y))
    : Paired same more S (a.bind fun x => some (f x)) (b.bind fun x => some (f x)) := by
  have whole := h.map f keeps
  simpa only [Option.map_eq_bind, Function.comp_def] using whole

/-- Two results one after the other. -/
theorem zip (first : Paired same more R a b) (second : Paired same more S c d) (f : α → β → γ)
    (keeps : ∀ x y z w, R x y → S z w → T (f x z) (f y w))
    : Paired same more T (a.bind fun x => c.bind fun y => some (f x y))
        (b.bind fun x => d.bind fun y => some (f x y)) := by
  refine ⟨?_, fun agree => by rw [first.eq agree, second.eq agree], fun wide x held y held' => ?_⟩
  · have both := first.both
    have both' := second.both
    cases a <;> cases b <;> cases both <;> cases c <;> cases d <;> cases both' <;> rfl
  · obtain ⟨x, own, held⟩ := Option.bind_eq_some_iff.mp held
    obtain ⟨z, behind, same⟩ := Option.bind_eq_some_iff.mp held
    obtain ⟨y, own', held'⟩ := Option.bind_eq_some_iff.mp held'
    obtain ⟨w, behind', same'⟩ := Option.bind_eq_some_iff.mp held'
    cases same
    cases same'
    exact keeps x y z w (first.wider wide x own y own') (second.wider wide z behind w behind')

end Paired

/-- A member that one mask shows and the other may hide, and those behind it. -/
theorem Paired.shown {same more : Prop} {set named named' : Bool} {a b : Option Node}
    {c d : Option (List Field)} (own : Paired same more Node.Widened a b)
    (others : Paired same more (FieldsWidened Node.Widened) c d) (key : String)
    (agree : same → named = named') (adds : more → named → named')
    (hidden : set = false → a.isSome)
    : Paired same more (FieldsWidened Node.Widened)
        (if set || named then a.bind fun n => c.bind fun fields => some (⟨key, n⟩ :: fields) else c)
        (if set || named' then b.bind fun n => d.bind fun fields => some (⟨key, n⟩ :: fields)
          else d) := by
  have whole := own.zip others (T := FieldsWidened Node.Widened)
    (fun n fields => ⟨key, n⟩ :: fields) fun _ _ _ _ value fields => .kept value fields
  refine ⟨?_, fun holds => by rw [agree holds, own.eq holds, others.eq holds], fun wide => ?_⟩
  · cases set with
    | true => simpa using whole.both
    | false =>
        obtain ⟨v, rfl⟩ := Option.isSome_iff_exists.mp (hidden rfl)
        obtain ⟨w, rfl⟩ := Option.isSome_iff_exists.mp (own.both.symm.trans (hidden rfl))
        have both := others.both
        cases c <;> cases d <;> cases both <;> cases named <;> cases named' <;> rfl
  · cases shown : set || named with
    | true =>
        have shown' : set || named' := (Bool.or_eq_true _ _).mpr
          (((Bool.or_eq_true _ _).mp shown).imp_right (adds wide))
        rw [shown', if_pos rfl, if_pos rfl]
        exact whole.wider wide
    | false =>
        rw [if_neg Bool.false_ne_true]
        cases set || named' with
        | false => exact others.wider wide
        | true =>
            rw [if_pos rfl]
            intro fields held fields' held'
            obtain ⟨n, -, held'⟩ := Option.bind_eq_some_iff.mp held'
            obtain ⟨behind, found, same⟩ := Option.bind_eq_some_iff.mp held'
            cases same
            exact .added _ (others.wider wide fields held behind found)

/-- The masks name the same members of objects inside the message. -/
def NamesAlike (s : Schema) (root : MessageType) (whole : Message) (mask mask' : PathSet) : Prop :=
  ∀ path t m, Message.Inside s root whole path t m → t.form = .members → ∀ n ∈ t.members,
    (∀ alternatives, n.shape ≠ .oneof alternatives)
      → names mask path n.name = names mask' path n.name

/-- What one mask names the other one names too. -/
def NamesMore (mask mask' : PathSet) : Prop :=
  ∀ path field, names mask path field → names mask' path field

/-- What is not set has a tree all the same. -/
theorem isSome_slotNode_of_hidden {m : Member} {slot : Slot} (typed : slot.known.Conforms s m)
    (hidden : Slot.isSet m slot = false)
    : (slotNode s config tree mask path m slot).isSome := by
  cases slot with
  | none => rfl
  | one v =>
      simp only [Slot.known, Slot.Conforms] at typed
      cases shape : m.shape with
      | single type =>
          simp only [shape] at typed
          cases v with
          | scalar v =>
              cases type with
              | scalar type =>
                  unfold slotNode
                  rw [shape]
                  rfl
              | message name => exact typed.elim
          | message inner => simp [Slot.isSet, shape, Value.isOmitted] at hidden
      | optional type => simp [Slot.isSet, shape] at hidden
      | repeated _ _ _ | map _ _ | oneof _ => simp only [shape] at typed
  | many vs =>
      simp only [Slot.known, Slot.Conforms] at typed
      cases shape : m.shape with
      | repeated type packed capacity =>
          obtain rfl : vs = [] := by simpa [Slot.isSet] using hidden
          simp [slotNode, shape, elementNodes]
      | single _ | optional _ | map _ _ | oneof _ => simp only [shape] at typed
  | entries es =>
      simp only [Slot.known, Slot.Conforms] at typed
      cases shape : m.shape with
      | map key type =>
          obtain rfl : es = [] := by simpa [Slot.isSet] using hidden
          simp [slotNode_entries shape ordered_nil, entryFields]
      | single _ | optional _ | repeated _ _ _ | oneof _ => simp only [shape] at typed
  | choice tag v => cases hidden

section

variable {root : MessageType} {whole : Message}

mutual

/-- A value is written under two masks in the same way but for members that one of them adds, by
induction on the value.
-/
theorem paired_value (json : s.HasJson) {path : Path} {field : String} {type : ValueType}
    (v : Value)
    (inside : ∀ name inner, type = .message name → v = .message inner
      → Message.Inside s root whole (path.push field) (s.type name) inner)
    (typed : v.known.Conforms s type)
    : Paired (NamesAlike s root whole mask mask') (NamesMore mask mask')
        Node.Widened
        (valueNode s config tree mask path field type v)
        (valueNode s config tree mask' path field type v) := by
  cases v with
  | scalar v => exact .refl .same _
  | message m =>
      cases type with
      | scalar type => exact typed.elim
      | message name => exact paired_message json m (inside name m rfl rfl) (json.type name) typed

/-- Whether a message can be written does not depend on the mask, and what is written does not
either as long as the masks name the same members; by induction on the message.
-/
theorem paired_message (json : s.HasJson) {t : MessageType} {path : Path} (m : Message)
    (inside : Message.Inside s root whole path t m) (form : t.HasJson) (typed : m.Typed s t)
    : Paired (NamesAlike s root whole mask mask') (NamesMore mask mask')
        Node.Widened (messageNode s config tree mask path t m)
        (messageNode s config tree mask' path t m) := by
  cases m with
  | mk slots unknown =>
      have typed : slotsConform s t.members (slotsKnown slots) := typed.1
      unfold MessageType.HasJson at form
      generalize shapes : t.members.map (·.shape) = shape at form
      simp only [messageNode]
      cases kind : t.form with
      | members =>
          refine (paired_members json slots ?_ ?_ typed).map Node.object
            fun _ _ each => .object each
          · exact fun n slot listed field name inner holds => inside.member kind listed holds
          · exact fun alike n listed alone => alike path t _ inside kind n listed alone
      | struct =>
          rw [kind] at form
          cases form
          obtain ⟨n, members, shape⟩ := List.map_eq_singleton_iff.mp shapes
          rw [members] at typed
          refine paired_struct json slots (fun es others same key inner listed => ?_) shape typed
          exact inside.field kind same listed
      | value =>
          rw [kind] at form
          cases form
          obtain ⟨n, members, shape⟩ := List.map_eq_singleton_iff.mp shapes
          rw [members] at typed ⊢
          refine paired_kind json slots (fun tag inner others same name type => ?_) typed
          exact inside.kind kind same (members ▸ type)
      | listValue =>
          rw [kind] at form
          cases form
          obtain ⟨n, members, shape⟩ := List.map_eq_singleton_iff.mp shapes
          rw [members] at typed
          refine paired_list json slots (fun vs others same inner listed => ?_) shape typed
          exact inside.item kind same listed
      | bare | wrapper | timestamp | duration | fieldMask | any | filler => exact .refl .same _

theorem paired_members (json : s.HasJson) {members : List Member} {path : Path} (slots : List Slot)
    (inside : ∀ n slot, (n, slot) ∈ members.zip slots → ∀ field name inner,
      (field, .message name, .message inner) ∈ slot.held n
        → Message.Inside s root whole (path.push field) (s.type name) inner)
    (alike : NamesAlike s root whole mask mask' → ∀ n ∈ members,
      (∀ alternatives, n.shape ≠ .oneof alternatives)
        → names mask path n.name = names mask' path n.name)
    (typed : slotsConform s members (slotsKnown slots))
    : Paired (NamesAlike s root whole mask mask') (NamesMore mask mask')
        (FieldsWidened Node.Widened)
        (memberFields s config tree mask path members slots)
        (memberFields s config tree mask' path members slots) := by
  cases slots with
  | nil => exact .refl FieldsWidened.refl _
  | cons slot slots =>
      cases members with
      | nil => exact .refl FieldsWidened.refl _
      | cons n members =>
          have others := paired_members json slots
            (fun n slot listed => inside n slot (List.mem_cons_of_mem _ listed))
            (fun agree n listed => alike agree n (List.mem_cons_of_mem _ listed)) typed.2
          have own := inside n slot List.mem_cons_self
          cases shape : n.shape with
          | oneof alternatives =>
              simp only [memberFields, shape]
              exact (paired_choice json slot own typed.1).zip others
                (fun first others => first ++ others)
                fun _ _ _ _ => .append
          | single _ | optional _ | repeated _ _ _ | map _ _ =>
              simp only [memberFields, shape]
              exact (paired_slot json slot own typed.1).shown others
                (config.nameOf n.name n.jsonName)
                (fun agree => alike agree n List.mem_cons_self (by simp [shape]))
                (fun more => more path n.name)
                  fun hidden => isSome_slotNode_of_hidden typed.1 hidden

theorem paired_choice (json : s.HasJson) {n : Member} {path : Path} (slot : Slot)
    (inside : ∀ field name inner, (field, .message name, .message inner) ∈ slot.held n
      → Message.Inside s root whole (path.push field) (s.type name) inner)
    (typed : slot.known.Conforms s n)
    : Paired (NamesAlike s root whole mask mask') (NamesMore mask mask')
        (FieldsWidened Node.Widened) (choiceFields s config tree mask path n slot)
        (choiceFields s config tree mask' path n slot) := by
  cases slot with
  | none | one _ | many _ | entries _ => exact .refl FieldsWidened.refl _
  | choice tag v =>
      simp only [Slot.known, Slot.Conforms] at typed
      simp only [choiceFields]
      cases found : n.alternative? tag with
      | none => exact .refl FieldsWidened.refl _
      | some a =>
          simp only [found] at typed
          have value : Paired (NamesAlike s root whole mask mask') (NamesMore mask mask')
              Node.Widened
              (valueNode s config tree mask path a.name a.type v)
              (valueNode s config tree mask' path a.name a.type v) := by
            refine paired_value json v (fun name inner type holds => ?_) typed
            subst holds
            exact inside _ _ _ (by simp [Slot.held, found, type])
          exact value.bind (fun n => [(⟨config.nameOf a.name a.jsonName, n⟩ : Field)])
            fun _ _ value => .kept value .nil

theorem paired_slot (json : s.HasJson) {n : Member} {path : Path} (slot : Slot)
    (inside : ∀ field name inner, (field, .message name, .message inner) ∈ slot.held n
      → Message.Inside s root whole (path.push field) (s.type name) inner)
    (typed : slot.known.Conforms s n)
    : Paired (NamesAlike s root whole mask mask') (NamesMore mask mask')
        Node.Widened (slotNode s config tree mask path n slot)
        (slotNode s config tree mask' path n slot) := by
  cases slot with
  | none => exact .refl .same _
  | one v =>
      simp only [Slot.known, Slot.Conforms] at typed
      simp only [Slot.held] at inside
      unfold slotNode
      cases shape : n.shape with
      | single type =>
          simp only [shape] at typed inside
          cases type with
          | scalar type =>
              cases v with
              | scalar v => exact .refl .same _
              | message inner => exact typed.elim
          | message name =>
              cases v with
              | scalar v => exact typed.elim
              | message inner =>
                  exact paired_message json inner (inside _ _ _ List.mem_cons_self) (json.type name)
                    typed
      | optional type =>
          simp only [shape] at typed inside
          refine paired_value json v (fun name inner same holds => inside _ _ _ ?_) typed
          simp [same, holds]
      | repeated _ _ _ | map _ _ | oneof _ => exact .refl .same _
  | many vs =>
      simp only [Slot.known, Slot.Conforms] at typed
      simp only [Slot.held] at inside
      unfold slotNode
      cases shape : n.shape with
      | repeated type packed capacity =>
          simp only [shape] at typed inside
          refine (paired_elements json vs (fun name inner same listed => inside _ _ _ ?_)
            typed).map Node.array fun _ _ each => .array each
          exact List.mem_map.mpr ⟨_, listed, by rw [same]⟩
      | single _ | optional _ | map _ _ | oneof _ => exact .refl .same _
  | entries es =>
      simp only [Slot.known, Slot.Conforms] at typed
      simp only [Slot.held] at inside
      cases shape : n.shape with
      | map key type =>
          simp only [shape] at typed inside
          have ordered := ordered_entriesKnown.mp typed.1
          rw [slotNode_entries shape ordered, slotNode_entries shape ordered]
          refine (paired_entries json es (fun name inner key same listed => inside _ _ _ ?_)
            typed.2).map Node.object fun _ _ each => .object each
          exact List.mem_map.mpr ⟨_, listed, by rw [same]⟩
      | single _ | optional _ | repeated _ _ _ | oneof _ =>
          simp only [shape] at typed
  | choice tag v => exact .refl .same _

theorem paired_elements (json : s.HasJson) {path : Path} {field : String} {type : ValueType}
    (vs : List Value)
    (inside : ∀ name inner, type = .message name → .message inner ∈ vs
      → Message.Inside s root whole (path.push field) (s.type name) inner)
    (typed : elementsConform s type (elementsKnown vs))
    : Paired (NamesAlike s root whole mask mask') (NamesMore mask mask')
        (List.Forall₂ Node.Widened)
        (elementNodes s config tree mask path field type vs)
        (elementNodes s config tree mask' path field type vs) := by
  cases vs with
  | nil => exact .refl widened_items_refl _
  | cons v vs =>
      exact (paired_value json v (fun name inner same holds =>
        inside name inner same (by rw [holds]; exact List.mem_cons_self)) typed.1).zip
          (paired_elements json vs (fun name inner same listed =>
            inside name inner same (List.mem_cons_of_mem _ listed)) typed.2)
          (fun n others => n :: others)
            fun _ _ _ _ => .cons

theorem paired_entries (json : s.HasJson) {path : Path} {field : String} {type : ValueType}
    (es : List Entry)
    (inside : ∀ name inner key, type = .message name → (⟨key, .message inner⟩ : Entry) ∈ es
      → Message.Inside s root whole (path.push field) (s.type name) inner)
    (typed : entriesConform s type (entriesKnown es))
    : Paired (NamesAlike s root whole mask mask') (NamesMore mask mask')
        (FieldsWidened Node.Widened)
        (entryFields s config tree mask path field type es)
        (entryFields s config tree mask' path field type es) := by
  cases es with
  | nil => exact .refl FieldsWidened.refl _
  | cons e es =>
      cases e with
      | mk key v =>
          exact (paired_value json v (fun name inner same holds =>
            inside name inner key same (by rw [holds]; exact List.mem_cons_self)) typed.1).zip
              (paired_entries json es (fun name inner key same listed =>
                inside name inner key same (List.mem_cons_of_mem _ listed)) typed.2)
              (fun n others => ⟨keyText key, n⟩ :: others)
              fun _ _ _ _ => FieldsWidened.kept

theorem paired_struct (json : s.HasJson) {n : Member} {path : Path} (slots : List Slot)
    (inside : ∀ es others, slots = .entries es :: others → ∀ key inner,
      (⟨key, .message inner⟩ : Entry) ∈ es
      → Message.Inside s root whole (path.push (keyText key))
        (s.type "google.protobuf.Value") inner)
    (shape : n.shape = .map (.string none) (.message "google.protobuf.Value"))
    (typed : slotsConform s [n] (slotsKnown slots))
    : Paired (NamesAlike s root whole mask mask') (NamesMore mask mask')
        Node.Widened (structNode s config tree mask path slots)
        (structNode s config tree mask' path slots) := by
  cases slots with
  | nil => cases typed
  | cons slot others =>
      cases slot with
      | entries es =>
          have own := typed.1
          simp only [Slot.known, Slot.Conforms, shape] at own
          exact (paired_fields json es (inside es others rfl) own.2).map Node.object
            fun _ _ each => .object each
      | none | one _ | many _ | choice _ _ => exact .refl .same _

theorem paired_fields (json : s.HasJson) {path : Path} (es : List Entry)
    (inside : ∀ key inner, (⟨key, .message inner⟩ : Entry) ∈ es
      → Message.Inside s root whole (path.push (keyText key))
        (s.type "google.protobuf.Value") inner)
    (typed : entriesConform s (.message "google.protobuf.Value") (entriesKnown es))
    : Paired (NamesAlike s root whole mask mask') (NamesMore mask mask')
        (FieldsWidened Node.Widened) (structFields s config tree mask path es)
        (structFields s config tree mask' path es) := by
  cases es with
  | nil => exact .refl FieldsWidened.refl _
  | cons e es =>
      cases e with
      | mk key v =>
          have value : Paired (NamesAlike s root whole mask mask') (NamesMore mask mask')
              Node.Widened
              (valueNode s config tree mask path (keyText key) (.message "google.protobuf.Value") v)
              (valueNode s config tree mask' path (keyText key)
                (.message "google.protobuf.Value") v) := by
            refine paired_value json v (fun name inner same holds => ?_) typed.1
            cases same
            subst holds
            exact inside key inner List.mem_cons_self
          exact value.zip (paired_fields json es (fun key inner listed =>
            inside key inner (List.mem_cons_of_mem _ listed)) typed.2)
              (fun n others => ⟨keyText key, n⟩ :: others)
              fun _ _ _ _ => FieldsWidened.kept

theorem paired_kind (json : s.HasJson) {n : Member} {path : Path} (slots : List Slot)
    (inside : ∀ tag inner others, slots = .choice tag (.message inner) :: others → ∀ name,
      ([n].findSome? fun n => n.alternative? tag).map Alternative.type = some (.message name)
      → Message.Inside s root whole path (s.type name) inner)
    (typed : slotsConform s [n] (slotsKnown slots))
    : Paired (NamesAlike s root whole mask mask') (NamesMore mask mask')
        Node.Widened (kindNode s config tree mask path [n] slots)
        (kindNode s config tree mask' path [n] slots) := by
  cases slots with
  | nil => cases typed
  | cons slot others =>
      cases slot with
      | choice tag v =>
          cases v with
          | scalar v => exact .refl .same _
          | message inner =>
              have own := typed.1
              have inside := inside tag inner others rfl
              simp only [Slot.known, Slot.Conforms] at own
              simp only [kindNode, List.findSome?_cons] at inside ⊢
              cases found : n.alternative? tag with
              | none => simp only [found] at own
              | some a =>
                  simp only [found, Option.map_some] at own inside ⊢
                  cases type : a.type with
                  | scalar type => exact .refl .same _
                  | message name =>
                      rw [type] at own
                      exact paired_message json inner (inside name (by rw [type]))
                        (json.type name) own
      | none | one _ | many _ | entries _ => exact .refl .same _

theorem paired_list (json : s.HasJson) {n : Member} {path : Path} (slots : List Slot)
    (inside : ∀ vs others, slots = .many vs :: others → ∀ inner, .message inner ∈ vs
      → Message.Inside s root whole path (s.type "google.protobuf.Value") inner)
    (shape : n.shape = .repeated (.message "google.protobuf.Value") false none)
    (typed : slotsConform s [n] (slotsKnown slots))
    : Paired (NamesAlike s root whole mask mask') (NamesMore mask mask')
        Node.Widened (listNode s config tree mask path slots)
        (listNode s config tree mask' path slots) := by
  cases slots with
  | nil => cases typed
  | cons slot others =>
      cases slot with
      | many vs =>
          have own := typed.1
          simp only [Slot.known, Slot.Conforms, shape] at own
          exact (paired_items json vs (inside vs others rfl) own).map Node.array
            fun _ _ each => .array each
      | none | one _ | entries _ | choice _ _ => exact .refl .same _

theorem paired_items (json : s.HasJson) {path : Path} (vs : List Value)
    (inside : ∀ inner, .message inner ∈ vs
      → Message.Inside s root whole path (s.type "google.protobuf.Value") inner)
    (typed : elementsConform s (.message "google.protobuf.Value") (elementsKnown vs))
    : Paired (NamesAlike s root whole mask mask') (NamesMore mask mask')
        (List.Forall₂ Node.Widened) (itemNodes s config tree mask path vs)
        (itemNodes s config tree mask' path vs) := by
  cases vs with
  | nil => exact .refl widened_items_refl _
  | cons v vs =>
      cases v with
      | scalar v => exact typed.1.elim
      | message m =>
          exact (paired_message json m (inside m List.mem_cons_self) (json.type _) typed.1).zip
            (paired_items json vs (fun inner listed =>
              inside inner (List.mem_cons_of_mem _ listed)) typed.2) (fun n others => n :: others)
            fun _ _ _ _ => .cons

end

end

-----------------------------------------------------------------------------------------
-- Payloads
-----------------------------------------------------------------------------------------

section

variable (w : Writer) (mask : PathSet)

theorem raw_withMask (text : String)
    : (w.withMask mask).raw text = (w.raw text).withMask mask := by
  obtain ⟨fault, output, config, path, own⟩ := w
  cases fault <;> rfl

theorem latch_withMask (cause : Cause)
    : (w.withMask mask).latch cause = (w.latch cause).withMask mask := by
  obtain ⟨fault, output, config, path, own⟩ := w
  cases fault <;> rfl

theorem key_withMask (name : String)
    : (w.withMask mask).key name = (w.key name).withMask mask := by
  simp only [Writer.key, Writer.string, raw_withMask]

/-- A message that is not a field of the current one is written without the mask. -/
theorem subMessage_withMask
    : (w.withMask mask).subMessage = w.subMessage :=
  rfl

theorem join_withMask (inner : Writer)
    : (w.withMask mask).join inner = (w.join inner).withMask mask :=
  rfl

theorem writeWellKnown_withMask (any : AnyWriter) (name : String) (payload : List UInt8)
    : writeWellKnown s any name payload (w.withMask mask)
        = (writeWellKnown s any name payload w).withMask mask := by
  simp only [writeWellKnown, Writer.comma, Writer.endObject, raw_withMask, key_withMask,
    subMessage_withMask, join_withMask]

theorem writeRegistered_withMask (any : AnyWriter) (name : String) (payload : List UInt8)
    : writeRegistered s any name payload (w.withMask mask)
        = (writeRegistered s any name payload w).withMask mask := by
  simp only [writeRegistered, subMessage_withMask, join_withMask]
  have fault : ((w.join (writePayload s any name payload w.subMessage)).withMask mask).fault
      = (w.join (writePayload s any name payload w.subMessage)).fault := rfl
  rw [fault]
  split
  · rfl
  · split
    · split
      · exact raw_withMask _ _ _
      · rw [Writer.comma, Writer.comma, raw_withMask, raw_withMask]
    · exact latch_withMask _ _ _

/-- What is written for an `Any` does not depend on the mask. -/
theorem writeAnyWithin_withMask (depth : Nat) (url : String) (payload : List UInt8)
    : writeAnyWithin s depth url payload (w.withMask mask)
        = (writeAnyWithin s depth url payload w).withMask mask := by
  cases depth with
  | zero => rfl
  | succ depth =>
      have config : (w.withMask mask).config = w.config := rfl
      simp only [writeAnyWithin, config]
      split
      · simp only [Writer.beginObject, Writer.endObject, raw_withMask]
      · split
        · exact latch_withMask _ _ _
        · rename_i resolution _
          simp only [Writer.beginObject, Writer.string, raw_withMask, key_withMask]
          cases resolution with
          | wellKnown name => exact writeWellKnown_withMask _ _ _ _ _
          | registered name => exact writeRegistered_withMask _ _ _ _ _

end

-----------------------------------------------------------------------------------------
-- Documents
-----------------------------------------------------------------------------------------

theorem exists_type_of_inside {name : String} {t : MessageType} {whole m : Message}
    (inside : Message.Inside s (s.type name) whole path t m)
    : ∃ name, t = s.type name := by
  cases inside <;> exact ⟨_, rfl⟩

theorem derived_of_nil {t : MessageType} (members : t.members = [])
    : t.Derived :=
  ⟨⟨[], members⟩, by simp [members]⟩

/-- The types of objects are derived, apart from that without members. -/
theorem derived_type {own : List MessageType}
    (derived : ∀ t ∈ own, t.form = .members → t.Derived) {name : String}
    (form : ((WellKnown.schemaWith own).type name).form = .members)
    : ((WellKnown.schemaWith own).type name).Derived := by
  unfold Schema.type at form ⊢
  cases found : (WellKnown.schemaWith own).types.find? fun t => t.name == name with
  | none => exact derived_of_nil rfl
  | some t =>
      rw [found] at form
      rcases List.mem_append.mp (List.mem_of_find?_eq_some found) with listed | listed
      · exact derived t listed form
      · have none : ∀ t ∈ WellKnown.types, t.form = .members → t.members = [] := by decide
        exact derived_of_nil (none t listed form)

/-- Without a tree there is no document, and a tree is the document. -/
theorem encode_eq_ok_iff (lawful : s.Lawful) (json : s.HasJson) {t : MessageType} {m : Message}
    (form : t.HasJson) (typed : m.Typed s t) (document : String)
    : encode s config mask t m = .ok document
        ↔ ∃ n, treeOf s config mask t m = some n ∧ document = n.text := by
  have tree := encode_treeOf config mask lawful json form typed
  have ok : encode s config mask t m = .ok document
      ↔ (encode s config mask t m).toOption = some document := by
    cases encode s config mask t m <;> simp [Except.toOption]
  rw [ok, tree, Option.map_eq_some_iff]
  exact exists_congr fun n => and_congr_right fun _ => eq_comm

/-- A document shows the members of each message inside, wherever it stands: in the order of their
lowest field numbers, those that are set and those whose paths are in the mask and hold no dot in a
name, with the set alternatives of oneofs.  Paths that name none of them make no difference; with
more paths the document is the same but for members that are added; and what is written for an `Any`
is the same for all masks.
-/
theorem showsMembers_of_encode {own : List MessageType}
    (lawful : (WellKnown.schemaWith own).Lawful) (json : ∀ t ∈ own, t.HasJson)
    (derived : ∀ t ∈ own, t.form = .members → t.Derived) {name : String} {whole : Message}
    (typed : whole.Typed (WellKnown.schemaWith own) ((WellKnown.schemaWith own).type name))
    (config : Config) (mask : PathSet) {document : String}
    (written : encode (WellKnown.schemaWith own) config mask
      ((WellKnown.schemaWith own).type name) whole = .ok document)
    : let s := WellKnown.schemaWith own
      let root := s.type name
      ∃ n : Node, document = n.text ∧ whole.Shown s config mask .root root n
        ∧ (∀ path t m, Message.Inside s root whole path t m → t.form = .members
            → (t.members.map Member.lowest).Pairwise (· < ·))
        ∧ (∀ mask', (∀ path t m, Message.Inside s root whole path t m → t.form = .members
              → ∀ n ∈ t.members, (∀ alternatives, n.shape ≠ .oneof alternatives)
                → namesPath mask path n.name = namesPath mask' path n.name)
            → encode s config mask' root whole = .ok document)
        ∧ (∀ mask', mask.paths ⊆ mask'.paths
            → (∃ n' : Node, encode s config mask' root whole = .ok n'.text
              ∧ whole.Shown s config mask' .root root n' ∧ n.Widened n')
            ∧ ∀ path (t : MessageType) (m : Message),
              (shownKeys config (namesPath mask path) t.members m.slots).Sublist
                (shownKeys config (namesPath mask' path) t.members m.slots))
        ∧ ∀ url payload (w : Writer) (mask' : PathSet),
            writeAny s url payload { w with mask := mask' }
              = { writeAny s url payload w with mask := mask' } := by
  intro s root
  have hasJson : s.HasJson := hasJson_schemaWith json
  -- Documents are texts of trees, and the trees under two masks are compared place by place.
  have documents (mask : PathSet) (document : String)
      : encode s config mask root whole = .ok document
        ↔ ∃ n, treeOf s config mask root whole = some n ∧ document = n.text :=
    encode_eq_ok_iff lawful hasJson (hasJson.type name) typed document
  have shown {mask : PathSet} {n : Node} (tree : treeOf s config mask root whole = some n)
      : whole.Shown s config mask .root root n :=
    shown_message hasJson whole (hasJson.type name) typed tree
  obtain ⟨n, tree, rfl⟩ := (documents mask document).mp written
  have paired (mask' : PathSet) : Paired (NamesAlike s root whole mask mask')
      (NamesMore mask mask') Node.Widened
      (treeOf s config mask root whole) (treeOf s config mask' root whole) :=
    paired_message hasJson whole .self (hasJson.type name) typed
  refine ⟨n, rfl, shown tree, fun path t m inside form => ?_, fun mask' alike => ?_,
    fun mask' more => ?_, fun url payload w mask' => writeAnyWithin_withMask w mask' _ url payload⟩
  · obtain ⟨name, rfl⟩ := exists_type_of_inside inside
    exact (derived_type derived form).ascending (lawful.type name)
  · have same := (paired mask').eq fun path t m inside form n listed alone => by
      rw [names_eq, names_eq, alike path t m inside form n listed alone]
    exact (documents mask' n.text).mpr ⟨n, same.symm.trans tree, rfl⟩
  · have names (path : Path) (field : String) (named : namesPath mask path field)
        : namesPath mask' path field := by
      simp only [namesPath, decide_eq_true_eq] at named ⊢
      exact ⟨named.1, more named.2⟩
    refine ⟨?_, fun path t m => shownKeys_sublist _ _ (names path)⟩
    have both := (paired mask').both
    rw [tree] at both
    obtain ⟨n', tree'⟩ := Option.isSome_iff_exists.mp both.symm
    have wide : NamesMore mask mask' := fun path field named => by
      rw [names_eq] at named ⊢
      exact names path field named
    exact ⟨n', (documents mask' n'.text).mpr ⟨n', tree', rfl⟩, shown tree',
      (paired mask').wider wide n tree n' tree'⟩

/-- A oneof whose lowest alternative stands behind another member, two messages inside of which one
has a member that is set and both have one that only the mask shows, and an `Any`.
-/
theorem showsMembers_of_encode_note
    : let note : MessageType := .ofMembers "Note" [
        ⟨5, "sub_notes", "subNotes", .repeated (.message "Note") false none⟩,
        .ofAlternatives "title" [⟨7, .scalar (.string none), "long", "long"⟩,
          ⟨2, .scalar (.string none), "short", "short"⟩],
        ⟨3, "stars", "stars", .optional (.scalar .int32)⟩,
        ⟨4, "info", "info", .optional (.message "google.protobuf.Any")⟩,
        ⟨1, "text", "text", .single (.scalar (.string none))⟩] false
      let s := WellKnown.schemaWith [note]
      let inner : Message :=
        ⟨[.one (.scalar (.string "")), .choice 2 (.scalar (.string "s")), .none,
          .one (.message ⟨[.one (.scalar (.string "")), .one (.scalar (.bytes []))], []⟩),
            .many []],
        []⟩
      let bare : Message := ⟨[.one (.scalar (.string "")), .none, .none, .none, .many []], []⟩
      let m : Message := ⟨[.one (.scalar (.string "t")), .choice 7 (.scalar (.string "l")), .none,
        .none, .many [.message inner, .message bare]], []⟩
      let mask : PathSet := ⟨["sub_notes.stars", "nothing"]⟩
      let document := "\x7b\"text\":\"t\",\"long\":\"l\",\"sub_notes\":["
        ++ "\x7b\"short\":\"s\",\"stars\":null,\"info\":\x7b\x7d\x7d,\x7b\"stars\":null\x7d]\x7d"
      encode s {} mask note m = .ok document
      ∧ ∃ n : Node, document = n.text ∧ m.Shown s {} mask .root note n := by
  intro note s inner bare m mask document
  have lawful : s.Lawful := WellKnown.lawful_schemaWith (by decide) (by decide) (by decide)
  have json : ∀ t ∈ [note], t.HasJson := List.forall_mem_singleton.mpr .members
  have derived : ∀ t ∈ [note], t.form = .members → t.Derived :=
    List.forall_mem_singleton.mpr fun _ => ⟨⟨_, rfl⟩, by decide⟩
  have found : s.type "Note" = note := by decide
  have written : encode s {} mask note m = .ok document := by decide
  have packed : s.type "google.protobuf.Any" = WellKnown.anyType := by decide
  have empty : Message.Typed s (s.type "google.protobuf.Any")
      ⟨[.one (.scalar (.string "")), .one (.scalar (.bytes []))], []⟩ := by
    rw [packed]
    exact ⟨⟨rfl, rfl, rfl⟩, rfl⟩
  have first : inner.Typed s (s.type "Note") := by
    rw [found]
    exact ⟨⟨rfl, rfl, trivial, empty, trivial, rfl⟩, rfl⟩
  have second : bare.Typed s (s.type "Note") := by
    rw [found]
    exact ⟨⟨rfl, trivial, trivial, trivial, trivial, rfl⟩, rfl⟩
  have typed : m.Typed s (s.type "Note") := by
    rw [found]
    exact ⟨⟨rfl, rfl, trivial, trivial, ⟨first, second, trivial⟩, rfl⟩, rfl⟩
  rw [← found] at written ⊢
  obtain ⟨n, same, shown, -⟩ := showsMembers_of_encode lawful json derived typed {} mask written
  exact ⟨written, n, same, shown⟩

/-- A text of an object without members. -/
theorem eq_nil_of_objectText {fields : List Field}
    (h : (Node.object fields).text = "\x7b\x7d")
    : fields = [] := by
  cases fields with
  | nil => rfl
  | cons field fields =>
      obtain ⟨key, n⟩ := field
      have length := congrArg (fun text => text.toList.length) h
      simp only [Node.text, fieldsText, String.toList_append, List.length_append] at length
      simp at length

/-- A member whose name holds a dot is not found under its path, although the mask has it. -/
theorem hidden_member_dotted
    : let names : MessageType := ⟨"Names", [⟨9, "proto.dot", "", .single (.scalar .int32)⟩], false,
        .members⟩
      let s := WellKnown.schemaWith [names]
      let mask : PathSet := ⟨["proto.dot"]⟩
      encode s {} mask names (s.empty "Names") = .ok "\x7b\x7d"
      ∧ ∀ fields, (Node.object fields).text = "\x7b\x7d"
        → fields.map (·.key)
          ≠ shownKeys {} (fun field => (Path.root.push field).dotted ∈ mask.paths)
          names.members (s.empty "Names").slots := by
  intro names s mask
  have written : encode s {} mask names (s.empty "Names") = .ok "\x7b\x7d" := by decide
  refine ⟨written, fun fields text => ?_⟩
  rw [eq_nil_of_objectText text]
  decide

end Json

end Protobuf
