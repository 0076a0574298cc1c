import Protobuf.Proofs.Json.Capture
import Protobuf.Proofs.Json.Dynamic
import Protobuf.Proofs.Json.Writing
import Protobuf.Proofs.Message.Soundness

/-! What is read from JSON is of its type.  Whether a document is accepted or not, every slot of the
message that it was read into holds what its member declares, and lists stay within their capacity.
-/

namespace Protobuf

-----------------------------------------------------------------------------------------
-- Members
-----------------------------------------------------------------------------------------

/-- What a member of a type may be: its lists and maps are lawful, and its field numbers its own. -/
def Member.Legal (m : Member) : Prop :=
  m.shape.isLawful ∧ m.tags.Nodup

theorem MessageType.Lawful.legal_member {t : MessageType} (h : t.Lawful)
    : ∀ m ∈ t.members, m.Legal :=
  fun m member => ⟨h.shapes m member, (List.nodup_flatMap.mp h.distinct).1 m member⟩

/-- An alternative is found under its field number if no other one has it. -/
theorem find?_tag {alternatives : List Alternative} {a : Alternative}
    (distinct : (alternatives.map (·.tag)).Nodup) (listed : a ∈ alternatives)
    : alternatives.find? (fun b => b.tag == a.tag) = some a := by
  induction alternatives with
  | nil => cases listed
  | cons b alternatives ih =>
      obtain ⟨fresh, distinct⟩ := List.nodup_cons.mp distinct
      rw [List.find?_cons]
      rcases List.mem_cons.mp listed with rfl | behind
      · rw [beq_self_eq_true]
      · have other : (b.tag == a.tag) = false := by
          rw [beq_eq_false_iff_ne]
          intro same
          exact fresh (List.mem_map.mpr ⟨a, behind, same.symm⟩)
        rw [other]
        exact ih distinct behind

namespace Json

open WellKnown

variable {s : Schema} {read : MessageReader}

-----------------------------------------------------------------------------------------
-- Scalars
-----------------------------------------------------------------------------------------

theorem within_boundedBy {α : Type} {capacity : Option Nat} (length : α → Nat) {empty : α}
    (nothing : length empty = 0) (x : α × Reader)
    : withinCapacity capacity (length (boundedBy capacity length empty x).1) := by
  unfold boundedBy
  split
  · assumption
  · rw [nothing]
    cases capacity with
    | none => rfl
    | some limit => simp [withinCapacity]

theorem hasType_scalar (type : ScalarType) (r : Reader)
    : (readScalar type r).1.hasType type := by
  cases type with
  | string capacity => exact within_boundedBy (fun v => (Text.utf8 v).length) rfl r.string
  | bytes capacity => exact within_boundedBy List.length rfl r.bytes
  | _ => rfl

theorem hasType_integerKey {signed : Bool} {name : String} {low high : Int} {text : String}
    {type : ScalarType} {key : Scalar} {f : Int → Scalar} (typed : ∀ n, (f n).hasType type)
    (h : (integerKey signed name low high text).map f = .ok key)
    : key.hasType type := by
  obtain ⟨n, -, rfl⟩ := ok_of_map h
  exact typed n

/-- The key of an entry is of the type that it is read as, by cases on the type. -/
theorem hasType_keyOfText {type : ScalarType} {text : String} {key : Scalar}
    (h : keyOfText type text = .ok key)
    : key.hasType type := by
  cases type with
  | string capacity =>
      cases capacity with
      | none =>
          cases h
          rfl
      | some limit =>
          simp only [keyOfText] at h
          split at h
          · rename_i room
            cases h
            exact decide_eq_true room
          · cases h
  | bool =>
      simp only [keyOfText] at h
      split at h
      · cases h
        rfl
      · split at h <;> cases h
        rfl
  | float | double | bytes _ | enumeration _ => cases h
  | _ => exact hasType_integerKey (fun _ => rfl) h

-----------------------------------------------------------------------------------------
-- Values
-----------------------------------------------------------------------------------------

/-- The reader leaves sound messages sound. -/
def MessageReader.KeepsSound (s : Schema) (read : MessageReader) : Prop :=
  ∀ name m r, m.Sound s (s.type name) → (read (s.type name) m r).1.Sound s (s.type name)

section

variable (lawful : s.Lawful) (keeps : read.KeepsSound s)

include keeps

theorem sound_readValue (field : String) {type : ValueType} {current : Value}
    (sound : current.Sound s type) (r : Reader)
    : (readValue s read field type current r).1.Sound s type := by
  cases type with
  | scalar type => exact ⟨hasType_scalar type r, trivial⟩
  | message name =>
      cases current with
      | scalar v => exact absurd sound.1 id
      | message m => exact keeps name m _ sound

include lawful

theorem sound_readElement (field : String) {type : ValueType} {capacity : Option Nat}
    {vs : List Value} (room : withinCapacity capacity vs.length) (sound : ∀ v ∈ vs, v.Sound s type)
    (r : Reader)
    : let x := (readElement s read field type capacity vs r).1
      withinCapacity capacity x.length ∧ ∀ v ∈ x, v.Sound s type := by
  have value := sound_readValue keeps field (lawful.sound_emptyValue type) r
  simp only [readElement]
  rcases appended : appendValue capacity vs
      (readValue s read field type (s.emptyValue type) r).1 with ⟨all, _ | e⟩
  · obtain ⟨rfl, more⟩ := appendValue_success appended
    exact ⟨more, List.forall_mem_append.mpr ⟨sound, List.forall_mem_singleton.mpr value⟩⟩
  · have same : vs = all := by
      simp only [appendValue] at appended
      split at appended <;> cases appended
      rfl
    exact same ▸ ⟨room, sound⟩

theorem sound_readEntry (field : String) {keyType : ScalarType} {type : ValueType}
    (isKey : keyType.isKey) (key : String) {es : List Entry} (ordered : Ordered keyType es)
    (sound : ∀ e ∈ es, e.value.Sound s type) (r : Reader)
    : let x := (readEntry s read field keyType type key es r).1
      Ordered keyType x ∧ ∀ e ∈ x, e.value.Sound s type := by
  simp only [readEntry]
  cases spelled : keyOfText keyType key with
  | error refusal => exact ⟨ordered, sound⟩
  | ok key =>
      have typed := hasType_keyOfText spelled
      refine ⟨ordered.insertEntry isKey typed, fun e listed => ?_⟩
      rcases (mem_insertEntry isKey typed ordered e).mp listed with rfl | ⟨earlier, -⟩
      · exact sound_readValue keeps field (lawful.sound_emptyValue type) r
      · exact sound e earlier

end

-----------------------------------------------------------------------------------------
-- Arrays
-----------------------------------------------------------------------------------------

/-- What each element keeps is kept by the elements of an array, by induction on what is left of the
document.
-/
theorem Reader.elements_keeps {α : Type} {P : α → Prop} {read : α → Reader → α × Reader}
    (keeps : ∀ v (r : Reader), P v → P (read v r).1) {v : α} (h : P v) (r : Reader)
    : P (r.elements read v).1 := by
  fun_induction Reader.elements read v r with
  | case1 v r r' reached => exact h
  | case2 v r r' reached next _ ih => exact ih (keeps v r' h)
  | case3 v r r' reached next _ => exact keeps v r' h

theorem Reader.array_keeps {α : Type} {P : α → Prop} {read : α → Reader → α × Reader}
    (keeps : ∀ v (r : Reader), P v → P (read v r).1) {v : α} (h : P v) (r : Reader)
    : P (r.array read v).1 := by
  rw [array]
  split
  · exact h
  · exact elements_keeps keeps h _

-----------------------------------------------------------------------------------------
-- Slots
-----------------------------------------------------------------------------------------

theorem Slot.sound_empty (lawful : s.Lawful) {m : Member} {type : ValueType}
    (shape : m.shape = .single type)
    : (Slot.one (s.emptyValue type)).Sound s m :=
  (sound_one_iff (.inl shape)).mpr (lawful.sound_emptyValue type)

/-- The value of a key leaves the slot of its member sound, by cases on the shape. -/
theorem sound_readSlot (lawful : s.Lawful) (keeps : read.KeepsSound s) {m : Member}
    (legal : m.shape.isLawful) {slot : Slot} (sound : slot.Sound s m) (r : Reader)
    : (readSlot s read m slot r).1.Sound s m := by
  cases shape : m.shape with
  | single type =>
      obtain ⟨v, rfl, -⟩ := sound.1.of_single shape
      have value := (sound_one_iff (.inl shape)).mp sound
      simp only [readSlot, shape]
      split
      · exact Slot.sound_empty lawful shape
      · exact (sound_one_iff (.inl shape)).mpr (sound_readValue keeps m.name value _)
  | optional type =>
      simp only [readSlot, shape]
      split
      · simp only [Slot.Sound, Slot.Conforms, Slot.Fits, shape, and_self]
      · refine (sound_one_iff (.inr shape)).mpr (sound_readValue keeps m.name ?_ _)
        rcases sound.1.of_optional shape with rfl | ⟨v, rfl, -⟩
        · exact lawful.sound_emptyValue type
        · exact (sound_one_iff (.inr shape)).mp sound
  | repeated type packed capacity =>
      obtain ⟨vs, rfl, -⟩ := sound.1.of_repeated shape
      have elements := (sound_many_iff shape).mp sound
      simp only [readSlot, shape]
      split
      · refine (sound_many_iff shape).mpr ⟨?_, List.forall_mem_nil _⟩
        cases capacity <;> simp [withinCapacity]
      · refine (sound_many_iff shape).mpr ?_
        exact Reader.array_keeps
          (P := fun vs : List Value => withinCapacity capacity vs.length ∧ ∀ v ∈ vs, v.Sound s type)
          (fun vs r old => sound_readElement lawful keeps m.name old.1 old.2 r) elements _
  | map key type =>
      rw [shape] at legal
      obtain ⟨es, rfl, -⟩ := sound.1.of_map shape
      have entries := (sound_entries_iff shape).mp sound
      simp only [readSlot, shape]
      split
      · exact (sound_entries_iff shape).mpr ⟨ordered_nil, List.forall_mem_nil _⟩
      · refine (sound_entries_iff shape).mpr ?_
        exact Reader.object_keeps
          (P := fun es : List Entry => Ordered key es ∧ ∀ e ∈ es, e.value.Sound s type)
          (fun name es r old => sound_readEntry lawful keeps m.name legal name old.1 old.2 r)
            entries _
  | oneof alternatives =>
      simp only [readSlot, shape]
      exact sound

theorem alternative?_of_called {m : Member} {key : String} {a : Alternative}
    (distinct : m.tags.Nodup) (called : m.called? key = some a)
    : m.alternative? a.tag = some a := by
  unfold Member.called? at called
  unfold Member.alternative?
  cases shape : m.shape with
  | oneof alternatives =>
      simp only [shape] at called ⊢
      rw [Member.tags, shape] at distinct
      exact find?_tag distinct (List.mem_of_find?_eq_some called)
  | single _ | optional _ | repeated _ _ _ | map _ _ => simp [shape] at called

theorem sound_readAlternative (lawful : s.Lawful) (keeps : read.KeepsSound s) {m : Member}
    {a : Alternative} (own : m.alternative? a.tag = some a) {slot : Slot} (sound : slot.Sound s m)
    (r : Reader)
    : (readAlternative s read a slot r).1.Sound s m := by
  unfold readAlternative
  split
  · exact sound
  · rename_i r' _
    have value := sound_readValue keeps a.name (lawful.sound_emptyValue a.type) r'
    simpa only [Slot.Sound, Slot.Conforms, Slot.Fits, own, Value.Sound] using value

-----------------------------------------------------------------------------------------
-- Named members
-----------------------------------------------------------------------------------------

/-- Reads into the slot of the first member that has a reading. -/
def readNamed (F : Member → Option (Slot → Reader → Slot × Reader))
    : List Member → List Slot → Reader → Option (List Slot × Reader)
  | m :: members, slot :: slots, r =>
      match F m with
      | some read => some ((read slot r).1 :: slots, (read slot r).2)
      | none =>
          (readNamed F members slots r).map fun result => (slot :: result.1, result.2)
  | _, _, _ => none

theorem readMember_eq (s : Schema) (read : MessageReader) (key : String) (members : List Member)
    (slots : List Slot) (r : Reader)
    : readMember s read key members slots r
        = readNamed (fun m => if m.isCalled key then some (readSlot s read m) else none) members
          slots
            r := by
  induction members generalizing slots with
  | nil => rfl
  | cons m members ih =>
      cases slots with
      | nil => rfl
      | cons slot slots =>
          rw [readMember_cons, readNamed, ih]
          split <;> rfl

theorem readChoice_eq (s : Schema) (read : MessageReader) (key : String) (members : List Member)
    (slots : List Slot) (r : Reader)
    : readChoice s read key members slots r
        = readNamed (fun m => (m.called? key).map (readAlternative s read)) members slots r := by
  induction members generalizing slots with
  | nil => rfl
  | cons m members ih =>
      cases slots with
      | nil => rfl
      | cons slot slots =>
          rw [readChoice_cons, readNamed, ih]
          cases m.called? key <;> rfl

-----------------------------------------------------------------------------------------
-- Messages
-----------------------------------------------------------------------------------------

theorem sound_readNamed {F : Member → Option (Slot → Reader → Slot × Reader)}
    {members : List Member}
    (keeps : ∀ m ∈ members, ∀ read, F m = some read → ∀ slot r, slot.Sound s m
      → (read slot r).1.Sound s m) {slots slots' : List Slot}
    (sound : List.Forall₂ (fun m slot => slot.Sound s m) members slots) {r r' : Reader}
    (done : readNamed F members slots r = some (slots', r'))
    : List.Forall₂ (fun m slot => slot.Sound s m) members slots' := by
  induction sound generalizing slots' with
  | nil => cases done
  | @cons m slot members slots own others ih =>
      obtain ⟨first, behind⟩ := List.forall_mem_cons.mp keeps
      rw [readNamed] at done
      cases found : F m with
      | some read =>
          rw [found] at done
          cases done
          exact .cons (first read found slot r own) others
      | none =>
          rw [found] at done
          obtain ⟨⟨slots', _⟩, inner, same⟩ := Option.map_eq_some_iff.mp done
          cases same
          exact .cons own (ih behind inner)

theorem sound_readKey (lawful : s.Lawful) (keeps : read.KeepsSound s) {t : MessageType}
    (legal : ∀ m ∈ t.members, m.Legal) (key : String) {slots : List Slot}
    (sound : List.Forall₂ (fun m slot => slot.Sound s m) t.members slots) (r : Reader)
    : List.Forall₂ (fun m slot => slot.Sound s m) t.members (readKey s read t key slots r).1 := by
  rw [readKey, readMember_eq, readChoice_eq]
  split
  · rename_i done
    refine sound_readNamed (fun m member read found slot r own => ?_) sound done
    split at found
    · cases found
      exact sound_readSlot lawful keeps (legal m member).1 own r
    · cases found
  · split
    · rename_i done
      refine sound_readNamed (fun m member read found slot r own => ?_) sound done
      obtain ⟨a, called, rfl⟩ := Option.map_eq_some_iff.mp found
      exact sound_readAlternative lawful keeps (alternative?_of_called (legal m member).2 called)
        own r
    · exact sound

/-- The dynamic value that is read is sound. -/
theorem sound_readDynamic (lawful : s.Lawful) (keeps : read.KeepsSound s) (r : Reader)
    : (readDynamic s read r).1.Sound s (.message dynamicType) :=
  keeps dynamicType _ r (lawful.sound_empty dynamicType)

theorem hasType_wrapped (type : ScalarType) (r : Reader)
    : (r.wrapped type.default (readScalar type)).1.hasType type := by
  unfold Reader.wrapped
  split
  · refine Reader.object_keeps (P := fun v : Scalar => v.hasType type) (fun key v r typed => ?_)
      type.hasType_default _
    split
    · exact hasType_scalar type r
    · exact typed
  · exact hasType_scalar type _

theorem sound_readFields (lawful : s.Lawful) (keeps : read.KeepsSound s) {es : List Entry}
    (ordered : Ordered (.string none) es)
    (sound : ∀ e ∈ es, e.value.Sound s (.message dynamicType)) (r : Reader)
    : Ordered (.string none) (readFields s read es r).1
        ∧ ∀ e ∈ (readFields s read es r).1, e.value.Sound s (.message dynamicType) := by
  refine Reader.object_keeps
    (P := fun es : List Entry =>
      Ordered (.string none) es ∧ ∀ e ∈ es, e.value.Sound s (.message dynamicType))
    (fun key es r old => ?_) ⟨ordered, sound⟩ r
  have typed : (Scalar.string key).hasType (.string none) := rfl
  refine ⟨old.1.insertEntry rfl typed, fun e listed => ?_⟩
  rcases (mem_insertEntry rfl typed old.1 e).mp listed with rfl | ⟨earlier, -⟩
  · exact sound_readDynamic lawful keeps _
  · exact old.2 e earlier

theorem sound_readItems (lawful : s.Lawful) (keeps : read.KeepsSound s) {vs : List Value}
    (sound : ∀ v ∈ vs, v.Sound s (.message dynamicType)) (r : Reader)
    : ∀ v ∈ (readItems s read vs r).1, v.Sound s (.message dynamicType) := by
  refine Reader.array_keeps
    (P := fun vs : List Value => ∀ v ∈ vs, v.Sound s (.message dynamicType))
    (fun vs r old => ?_) sound r
  exact List.forall_mem_append.mpr
    ⟨old, List.forall_mem_singleton.mpr (sound_readDynamic lawful keeps r)⟩

theorem sound_struct (known : s.HasWellKnown) {es : List Entry}
    (ordered : Ordered (.string none) es)
    (sound : ∀ e ∈ es, e.value.Sound s (.message dynamicType))
    : (⟨[.entries es], []⟩ : Message).Sound s (s.type "google.protobuf.Struct") := by
  let fields : Member := ⟨1, "fields", "fields", .map (.string none) (.message dynamicType)⟩
  have own : (Slot.entries es).Sound s fields := (sound_entries_iff rfl).mpr ⟨ordered, sound⟩
  rw [type_struct known]
  exact ⟨⟨⟨own.1, rfl⟩, rfl⟩, own.2, trivial⟩

theorem sound_listValue (known : s.HasWellKnown) {vs : List Value}
    (sound : ∀ v ∈ vs, v.Sound s (.message dynamicType))
    : (⟨[.many vs], []⟩ : Message).Sound s (s.type "google.protobuf.ListValue") := by
  let values : Member := ⟨1, "values", "values", .repeated (.message dynamicType) false none⟩
  have own : (Slot.many vs).Sound s values := (sound_many_iff rfl).mpr ⟨rfl, sound⟩
  rw [type_listValue known]
  exact ⟨⟨⟨own.1, rfl⟩, rfl⟩, own.2, trivial⟩

/-- The kind of a dynamic value is sound, by cases on the kind. -/
theorem sound_readKind (lawful : s.Lawful) (known : s.HasWellKnown) (keeps : read.KeepsSound s)
    {slots : List Slot}
    (sound : List.Forall₂ (fun m slot => slot.Sound s m) valueType.members slots) (r : Reader)
    : List.Forall₂ (fun m slot => slot.Sound s m) valueType.members
      (readKind s read slots r).1 := by
  have none {α : Type} {P : α → Prop} : ∀ v ∈ [], P v :=
    fun v listed => absurd listed List.not_mem_nil
  unfold readKind
  split
  · exact sound
  · exact .cons ⟨rfl, trivial⟩ .nil
  · exact .cons ⟨rfl, trivial⟩ .nil
  · exact .cons ⟨rfl, trivial⟩ .nil
  · exact .cons ⟨rfl, trivial⟩ .nil
  · rename_i r' _
    obtain ⟨ordered, fields⟩ := sound_readFields lawful keeps ordered_nil none r'
    exact .cons (sound_struct known ordered fields) .nil
  · rename_i r' _
    exact .cons (sound_listValue known (sound_readItems lawful keeps none r')) .nil

theorem slot_of_single {m : Member} {slots : List Slot}
    (sound : List.Forall₂ (fun m slot => slot.Sound s m) [m] slots)
    : ∃ slot, slots = [slot] ∧ slot.Sound s m := by
  cases sound with
  | cons own others =>
      cases others
      exact ⟨_, rfl, own⟩

/-- The slots of a message stay sound, by cases on the form of its type. -/
theorem sound_readSlots (lawful : s.Lawful) (known : s.HasWellKnown) (keeps : read.KeepsSound s)
    {t : MessageType} (json : t.HasJson) (legal : t.Lawful) (only : t.form = .value → t = valueType)
    {slots : List Slot} (sound : List.Forall₂ (fun m slot => slot.Sound s m) t.members slots)
    (r : Reader)
    : List.Forall₂ (fun m slot => slot.Sound s m) t.members (readSlots s read t slots r).1 := by
  have scalar {m : Member} {type : ScalarType} {v : Scalar}
    (shape : m.shape = .single (.scalar type))
      (typed : v.hasType type) : (Slot.one (.scalar v)).Sound s m :=
    (sound_one_iff (.inl shape)).mpr ⟨typed, trivial⟩
  unfold MessageType.HasJson at json
  generalize shapes : t.members.map (·.shape) = shape at json
  cases form : t.form with
  | members =>
      simp only [readSlots, form]
      refine Reader.object_keeps
        (P := fun slots : List Slot => List.Forall₂ (fun m slot => slot.Sound s m) t.members slots)
        (fun key slots r old => ?_) sound r
      exact sound_readKey lawful keeps legal.legal_member key old r
  | bare =>
      rw [form] at json
      cases json
      obtain ⟨m, members, shape⟩ := List.map_eq_singleton_iff.mp shapes
      simp only [readSlots, form, readSole, soleType_of_shapes members shape, members]
      exact .cons (scalar shape (hasType_scalar _ r)) .nil
  | wrapper =>
      rw [form] at json
      cases json
      obtain ⟨m, members, shape⟩ := List.map_eq_singleton_iff.mp shapes
      simp only [readSlots, form, readSole, soleType_of_shapes members shape, members]
      exact .cons (scalar shape (hasType_wrapped _ r)) .nil
  | timestamp | duration =>
      rw [form] at json
      cases json
      obtain ⟨m, others, members, shape, rest⟩ := List.map_eq_cons_iff.mp shapes
      obtain ⟨n, rfl, shape'⟩ := List.map_eq_singleton_iff.mp rest
      simp only [readSlots, form, members]
      exact .cons (scalar shape rfl) (.cons (scalar shape' rfl) .nil)
  | fieldMask =>
      rw [form] at json
      cases json
      obtain ⟨m, members, shape⟩ := List.map_eq_singleton_iff.mp shapes
      simp only [readSlots, form, members]
      refine .cons ((sound_many_iff shape).mpr ⟨rfl, ?_⟩) .nil
      intro v listed
      obtain ⟨path, -, rfl⟩ := List.mem_map.mp listed
      exact ⟨rfl, trivial⟩
  | struct =>
      rw [form] at json
      cases json
      obtain ⟨m, members, shape⟩ := List.map_eq_singleton_iff.mp shapes
      rw [members] at sound ⊢
      obtain ⟨slot, rfl, own⟩ := slot_of_single sound
      obtain ⟨es, rfl, -⟩ := own.1.of_map shape
      obtain ⟨ordered, entries⟩ := (sound_entries_iff shape).mp own
      simp only [readSlots, form]
      exact .cons ((sound_entries_iff shape).mpr (sound_readFields lawful keeps ordered entries r))
        .nil
  | listValue =>
      rw [form] at json
      cases json
      obtain ⟨m, members, shape⟩ := List.map_eq_singleton_iff.mp shapes
      rw [members] at sound ⊢
      obtain ⟨slot, rfl, own⟩ := slot_of_single sound
      obtain ⟨vs, rfl, -⟩ := own.1.of_repeated shape
      have items := ((sound_many_iff shape).mp own).2
      simp only [readSlots, form]
      exact .cons ((sound_many_iff shape).mpr ⟨rfl, sound_readItems lawful keeps items r⟩) .nil
  | value =>
      rw [only form] at sound ⊢
      simp only [readSlots, valueType]
      exact sound_readKind lawful known keeps sound r
  | any =>
      rw [form] at json
      cases json
      obtain ⟨m, others, members, shape, rest⟩ := List.map_eq_cons_iff.mp shapes
      obtain ⟨n, rfl, shape'⟩ := List.map_eq_singleton_iff.mp rest
      simp only [readSlots, form, readAny, members] at sound ⊢
      split
      · exact sound
      · split
        · split
          · exact sound
          · exact .cons (scalar shape rfl) (.cons (scalar shape' rfl) .nil)
        · exact sound
  | filler => exact absurd form legal.form

/-- Reading leaves a message sound, whatever the document: by induction on the measure that bounds
the messages inside.
-/
theorem sound_readMessage (lawful : s.Lawful) (known : s.HasWellKnown) (json : s.HasJson)
    (only : ∀ name, (s.type name).form = .value → s.type name = valueType) {name : String}
    {m : Message} (sound : m.Sound s (s.type name)) (r : Reader)
    : (readMessage s (s.type name) m r).1.Sound s (s.type name) := by
  induction measure : readMeasure (s.type name) r using Nat.strongRecOn generalizing name m r with
  | ind n ih =>
      obtain ⟨slots, unknown⟩ := m
      rw [readMessage]
      have keeps : MessageReader.KeepsSound s fun t' m' r' =>
          if readMeasure t' r' < readMeasure (s.type name) r then readMessage s t' m' r'
          else (m', r') := by
        intro name' m' r' sound'
        dsimp only
        split
        · rename_i less
          exact ih _ (measure ▸ less) sound' r' rfl
        · exact sound'
      have slots := sound_readSlots lawful known keeps (json.type name) (lawful.type name)
        (only name) sound.slots r
      obtain ⟨conform, fit⟩ := slotsSound_iff.mpr slots
      exact ⟨⟨conform, sound.1.2⟩, fit⟩

end Json

end Protobuf
