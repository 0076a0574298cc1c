import Protobuf.Proofs.Json.Reread
import Protobuf.Proofs.Message.Known
import Protobuf.Proofs.Message.Sources

/-! The reader on the text of a message's tree.  It goes through the members in the order of the
writer and finds each by its key, so that the slots in front are those that are read back and the
slots behind are still empty.
-/

namespace Protobuf.Json

open FieldMask Number

variable {s : Schema} {config : Config} {mask : PathSet} {tree : AnyTree} {form : FormBack}
  {Q : Path → MessageType → List Slot → Prop} {root name : String} {slack limit : Nat}
    {read : MessageReader} {path : Path} {n : Node}

-----------------------------------------------------------------------------------------
-- Readers inside readers
-----------------------------------------------------------------------------------------

section

variable {α β : Type} {v : α} {fields : List Path} {step : Reader → α × Reader}

/-- What is read can be mapped. -/
theorem Takes.map (h : Takes slack limit step n path v fields) (f : α → β)
    : Takes slack limit (fun r => (f (step r).1, (step r).2)) n path (f v) fields := by
  intro r more faces short place
  rcases h r more faces short place with read | failed
  · exact .inl (by simp only [read])
  · exact .inr failed

/-- A field name stands around what is read. -/
theorem Takes.withField {field : String} (h : Takes slack limit step n (path.push field) v fields)
    : Takes slack limit (fun r => r.withField field step) n path v fields := by
  rintro r more faces short rfl
  rcases h { r with path := r.path.push field } more ⟨faces.sound, faces.text, faces.ends⟩ short rfl
    with read | failed
  · refine .inl ?_
    simp only [Reader.withField, read]
    rfl
  · exact .inr failed

/-- A field name that is added is recorded in front. -/
theorem Takes.addField (h : Takes slack limit step n path v fields) (field : String)
    : Takes slack limit (fun r => step (r.addField field)) n path v
      (path.push field :: fields) := by
  rintro r more faces short rfl
  rcases h (r.addField field) more ⟨faces.sound, faces.text, faces.ends⟩ short rfl with
    read | failed
  · exact .inl read
  · exact .inr failed

/-- Null is told from a value that is not null. -/
theorem clearingNull_of_ne {r : Reader} {more : List UInt8} (faces : r.Faces n more)
    (other : n.kind ≠ .null) (type : ValueType)
    : clearingNull s type r = (false, r) := by
  unfold clearingNull
  split
  · rfl
  · exact faces.null_of_ne other

end

/-- The messages are read as the schema's own reader does, while less than so many bytes are left.
-/
def Serves (s : Schema) (limit : Nat) (read : MessageReader) : Prop :=
  ∀ t m r, r.rest.length < limit → read t m r = readMessage s t m r

/-- Inside a message, fewer bytes are left than in front of it. -/
theorem serves_inside (t : MessageType) (r : Reader)
    : Serves s r.rest.length (fun t' m' r' =>
        if readMeasure t' r' < readMeasure t r then readMessage s t' m' r' else (m', r')) := by
  intro t' m' r' short
  refine if_pos ?_
  unfold readMeasure
  split <;> split <;> omega

/-- A message is read as its slots are, with a reader of messages that serves what is left. -/
theorem takes_slots {t : MessageType} {m : Message} {slots : List Slot} {fields : List Path}
    (h : ∀ read r more, r.Faces n more → r.path = path → Serves s r.rest.length read
      → readSlots s read t m.slots r = (slots, r.behind more fields)
        ∨ (readSlots s read t m.slots r).2.fault.isSome
          ∧ maxDepth < r.frames.length + n.nesting + slack)
    (limit : Nat)
    : Takes slack limit (readMessage s t m) n path ⟨slots, m.unknown⟩ fields := by
  intro r more faces short place
  rw [readMessage]
  rcases h _ r more faces place (serves_inside t r) with read | failed
  · exact .inl (by simp only [read])
  · exact .inr failed

/-- A reader of nested messages reads what the reader of messages does. -/
theorem Serves.takes {t : MessageType} {m v : Message} {fields : List Path}
    (h : Serves s limit read) (own : Takes slack limit (readMessage s t m) n path v fields)
    : Takes slack limit (read t m) n path v fields := by
  intro r more faces short place
  rw [h t m r short]
  exact own r more faces short place

-----------------------------------------------------------------------------------------
-- Members by key
-----------------------------------------------------------------------------------------

section

variable {t : MessageType} {m : Member} {front behind : List Member} {done rest : List Slot}
  {slot : Slot} {key : String} {r : Reader}

/-- A key names a member by either of its names. -/
theorem isNamed_iff (name jsonName key : String)
    : isNamed name jsonName key ↔ KeyNames.Has ⟨name, jsonName⟩ key := by
  simp [isNamed, KeyNames.Has]

/-- Any other key does not. -/
theorem isNamed_of_not_has {name jsonName : String} (h : ¬KeyNames.Has ⟨name, jsonName⟩ key)
    : isNamed name jsonName key = false :=
  Bool.eq_false_iff.mpr fun named => h ((isNamed_iff name jsonName key).mp named)

/-- Members without the key are passed over on the way to one with it, by induction on them. -/
theorem readMember_append (others : ∀ n ∈ front, ∀ names ∈ n.keyNames, ¬names.Has key)
    (length : done.length = front.length)
    : readMember s read key (front ++ behind) (done ++ rest) r
        = (readMember s read key behind rest r).map fun (slots, r) => (done ++ slots, r) := by
  induction front generalizing done with
  | nil =>
      obtain rfl := List.length_eq_zero_iff.mp length
      simp
  | cons n front ih =>
      obtain ⟨own, later⟩ := List.forall_mem_cons.mp others
      cases done with
      | nil => cases length
      | cons slot done =>
          have next := ih later (Nat.succ.inj length)
          cases shape : n.shape with
          | oneof alternatives =>
              simp only [List.cons_append, readMember, shape, next, Bool.not_true, Bool.false_and,
                Bool.false_eq_true, if_false, Option.map_map]
              rfl
          | single _ | optional _ | repeated _ _ _ | map _ _ =>
              have keys : n.keyNames = [⟨n.name, n.jsonName⟩] :=
                Member.keyNames_of_alone (by simp [shape])
              have apart := isNamed_of_not_has (own _ (keys ▸ List.mem_singleton_self _))
              simp only [List.cons_append, readMember, shape, next, apart, Bool.not_false,
                Bool.and_false, Bool.false_eq_true, if_false, Option.map_map]
              rfl

/-- Oneofs without the key are passed over on the way to one with it, by induction on the members.
-/
theorem readChoice_append (others : ∀ n ∈ front, ∀ names ∈ n.keyNames, ¬names.Has key)
    (length : done.length = front.length)
    : readChoice s read key (front ++ behind) (done ++ rest) r
        = (readChoice s read key behind rest r).map fun (slots, r) => (done ++ slots, r) := by
  induction front generalizing done with
  | nil =>
      obtain rfl := List.length_eq_zero_iff.mp length
      simp
  | cons n front ih =>
      obtain ⟨own, later⟩ := List.forall_mem_cons.mp others
      cases done with
      | nil => cases length
      | cons slot done =>
          have next := ih later (Nat.succ.inj length)
          cases shape : n.shape with
          | oneof alternatives =>
              have none : alternatives.find? (fun a => isNamed a.name a.jsonName key) = none := by
                refine List.find?_eq_none.mpr fun a listed => ?_
                have apart := own ⟨a.name, a.jsonName⟩ (by
                  rw [Member.keyNames, shape]
                  exact List.mem_map_of_mem listed)
                simp [isNamed_of_not_has apart]
              simp only [List.cons_append, readChoice, shape, next, none, Option.map_map]
              rfl
          | single _ | optional _ | repeated _ _ _ | map _ _ =>
              simp only [List.cons_append, readChoice, shape, next, Option.map_map]
              rfl

/-- The value of a member's key is read into its slot. -/
theorem readKey_member (legible : t.Legible) (split : t.members = front ++ m :: behind)
    (length : done.length = front.length) (alone : ∀ alternatives, m.shape ≠ .oneof alternatives)
    (has : KeyNames.Has ⟨m.name, m.jsonName⟩ key)
    : readKey s read t key (done ++ slot :: rest) r
        = (done ++ (readSlot s read m slot r).1 :: rest, (readSlot s read m slot r).2) := by
  have place : m.keyNames = [] ++ ⟨m.name, m.jsonName⟩ :: [] := Member.keyNames_of_alone alone
  have others := (legible.not_has split place has).1
  have named := (isNamed_iff m.name m.jsonName key).mpr has
  have own : readMember s read key (m :: behind) (slot :: rest) r
      = some ((readSlot s read m slot r).1 :: rest, (readSlot s read m slot r).2) := by
    cases shape : m.shape with
    | oneof alternatives => exact absurd shape (alone alternatives)
    | single _ | optional _ | repeated _ _ _ | map _ _ =>
        simp only [readMember, shape, named, Bool.not_false, Bool.and_self, if_true]
  rw [readKey, split, readMember_append
    (fun n earlier => others n (List.mem_append_left _ earlier)) length, own]
  rfl

/-- A key of no member other than a oneof is not found among those members, by induction on them. -/
theorem readMember_eq_none {members : List Member} {slots : List Slot}
    (others : ∀ n ∈ members, (∀ alternatives, n.shape ≠ .oneof alternatives)
      → ¬KeyNames.Has ⟨n.name, n.jsonName⟩ key)
    : readMember s read key members slots r = none := by
  induction members generalizing slots with
  | nil => cases slots <;> rfl
  | cons n members ih =>
      obtain ⟨own, later⟩ := List.forall_mem_cons.mp others
      cases slots with
      | nil => rfl
      | cons slot slots =>
          cases shape : n.shape with
          | oneof alternatives =>
              simp only [readMember, shape, ih later, Bool.not_true, Bool.false_and,
                Bool.false_eq_true, if_false, Option.map_none]
          | single _ | optional _ | repeated _ _ _ | map _ _ =>
              have apart := isNamed_of_not_has (own (by simp [shape]))
              simp only [readMember, shape, ih later, apart, Bool.not_false, Bool.and_false,
                Bool.false_eq_true, if_false, Option.map_none]

/-- The value of an alternative's key is read into the slot of its oneof. -/
theorem readKey_alternative (legible : t.Legible) (split : t.members = front ++ m :: behind)
    (length : done.length = front.length) {tag : Nat} {a : Alternative}
    (found : m.alternative? tag = some a) (has : KeyNames.Has ⟨a.name, a.jsonName⟩ key)
    : readKey s read t key (done ++ slot :: rest) r
        = (done ++ (readAlternative s read a slot r).1 :: rest,
            (readAlternative s read a slot r).2) := by
  obtain ⟨alternatives, shape⟩ := Member.shape_of_alternative found
  have listed : a ∈ alternatives := by
    unfold Member.alternative? at found
    rw [shape] at found
    exact List.mem_of_find?_eq_some found
  obtain ⟨before, after, place⟩ := List.append_of_mem listed
  have keys : m.keyNames = before.map (fun a => ⟨a.name, a.jsonName⟩)
      ++ ⟨a.name, a.jsonName⟩ :: after.map (fun a => ⟨a.name, a.jsonName⟩) := by
    rw [Member.keyNames, shape]
    simp [place]
  obtain ⟨members, others⟩ := legible.not_has split keys has
  have none : readMember s read key t.members (done ++ slot :: rest) r = none := by
    refine readMember_eq_none fun n listed alone => ?_
    rw [split] at listed
    rcases List.mem_append.mp listed with earlier | listed
    · exact members n (List.mem_append_left _ earlier) _ (by simp [Member.keyNames_of_alone alone])
    · rcases List.mem_cons.mp listed with rfl | later
      · exact absurd shape (alone alternatives)
      · exact members n (List.mem_append_right _ later) _ (by simp [Member.keyNames_of_alone alone])
  have first : alternatives.find? (fun a => isNamed a.name a.jsonName key) = some a := by
    have earlier : before.find? (fun a => isNamed a.name a.jsonName key) = Option.none :=
      List.find?_eq_none.mpr fun b earlier => by
        have apart := others ⟨b.name, b.jsonName⟩
          (List.mem_append_left _ (List.mem_map_of_mem earlier))
        simp [isNamed_of_not_has apart]
    have named := (isNamed_iff a.name a.jsonName key).mpr has
    rw [place, List.find?_append, earlier, Option.none_or]
    exact List.find?_cons_of_pos named
  have own : readChoice s read key (m :: behind) (slot :: rest) r
      = some ((readAlternative s read a slot r).1 :: rest,
        (readAlternative s read a slot r).2) := by
    simp only [readChoice, shape, first]
  rw [readKey, none, split, readChoice_append
    (fun n earlier => members n (List.mem_append_left _ earlier)) length, own]
  rfl

end

-----------------------------------------------------------------------------------------
-- Values that are not null
-----------------------------------------------------------------------------------------

/-- No float is written as `null`. -/
theorem kind_floatNode (f : Format) (bits : Nat)
    : (floatNode f bits).kind ≠ .null := by
  unfold floatNode
  split <;> nofun

/-- No scalar is written as `null`. -/
theorem kind_scalarNode (config : Config) (type : ScalarType) (v : Scalar)
    : (scalarNode config type v).kind ≠ .null := by
  have enumeration (e : EnumType) (v : Int32) : (enumNode config e v).kind ≠ .null := by
    unfold enumNode
    split
    · nofun
    · split <;> nofun
  unfold scalarNode
  split <;> first | exact enumeration _ _ | exact kind_floatNode _ _ | nofun

/-- No time is written as `null`. -/
theorem kind_timeNode {text : Except Time.TimeError String} (h : timeNode text = some n)
    : n.kind ≠ .null := by
  cases text with
  | ok text => cases h; nofun
  | error e => cases h

/-- No mask is written as `null`. -/
theorem kind_fieldMaskNode {paths : List String} (h : fieldMaskNode config paths = some n)
    : n.kind ≠ .null := by
  unfold fieldMaskNode at h
  split at h
  · cases h; nofun
  · split at h
    · cases h; nofun
    · cases h

/-- An `Any` is written as an object, so that it is not taken for null. -/
def AnyTree.Visible (tree : AnyTree) : Prop :=
  ∀ path url payload n, tree path url payload = some n → n.kind ≠ .null

/-- No message that holds only scalars is written as `null`. -/
theorem kind_scalarFormNode {t : MessageType} {slots : List Slot} (visible : tree.Visible)
    (h : scalarFormNode config tree path t slots = some n)
    : n.kind ≠ .null := by
  unfold scalarFormNode at h
  split at h
  · obtain ⟨type, -, rfl⟩ := Option.map_eq_some_iff.mp h
    exact kind_scalarNode _ _ _
  · obtain ⟨type, -, rfl⟩ := Option.map_eq_some_iff.mp h
    exact kind_scalarNode _ _ _
  · exact kind_timeNode h
  · exact kind_timeNode h
  · exact kind_fieldMaskNode h
  · exact visible _ _ _ _ h
  · cases h; nofun
  · cases h

/-- Null is written for no message but a `Value`. -/
theorem kind_messageNode {t : MessageType} {m : Message} (visible : tree.Visible)
    (form : t.form ≠ .value) (h : messageNode s config tree mask path t m = some n)
    : n.kind ≠ .null := by
  cases m with
  | mk slots unknown =>
      unfold messageNode at h
      split at h
      · obtain ⟨fields, -, rfl⟩ := Option.map_eq_some_iff.mp h
        nofun
      · unfold structNode at h
        split at h
        · obtain ⟨fields, -, rfl⟩ := Option.map_eq_some_iff.mp h
          nofun
        · cases h
      · exact absurd ‹_› form
      · unfold listNode at h
        split at h
        · obtain ⟨items, -, rfl⟩ := Option.map_eq_some_iff.mp h
          nofun
        · cases h
      · exact kind_scalarFormNode visible h

/-- A value that is written is not passed over as null. -/
theorem clearingNull_of_valueNode {field : String} {type : ValueType} {v : Value} {r : Reader}
    {more : List UInt8} (visible : tree.Visible)
    (node : valueNode s config tree mask path field type v = some n) (faces : r.Faces n more)
    : clearingNull s type r = (false, r) := by
  cases type with
  | scalar type =>
      cases v with
      | scalar v =>
          cases node
          exact clearingNull_of_ne faces (kind_scalarNode _ _ _) _
      | message m => cases node
  | message name =>
      by_cases form : (s.type name).form = .value
      · simp [clearingNull, nullIsValue, form]
      · cases v with
        | scalar v => cases node
        | message m => exact clearingNull_of_ne faces (kind_messageNode visible form node) _

-----------------------------------------------------------------------------------------
-- Steps
-----------------------------------------------------------------------------------------

/-- An element is read behind those in front of it, if there is room for it. -/
theorem Takes.element {field : String} {type : ValueType} {v : Value} {fields : List Path}
    (h : Takes slack limit (readValue s read field type (s.emptyValue type)) n path v fields)
    {capacity : Option Nat} {done : List Value}
    (room : withinCapacity capacity (done.length + 1))
    : Takes slack limit (readElement s read field type capacity done) n path
      (done ++ [v]) fields := by
  unfold readElement
  simp only [appendValue, room, if_true]
  exact h.map (done ++ [·])

/-- An entry is read into the entries in front of it. -/
theorem Takes.entry {field : String} {keyType : ScalarType} {type : ValueType} {v : Value}
    {fields : List Path}
    (h : Takes slack limit (readValue s read field type (s.emptyValue type)) n path v fields)
    {key : Scalar} (isKey : keyType.isKey) (typed : key.hasType keyType) (es : List Entry)
    : Takes slack limit (readEntry s read field keyType type (keyText key) es) n path
        (insertEntry key v es) fields := by
  unfold readEntry
  rw [keyOfText_keyText isKey typed]
  exact h.map (insertEntry key · es)

/-- Null is read as a `Value` of the null kind. -/
theorem takes_null {t : MessageType} (m : Message) (form : t.form = .value)
    : Takes slack limit (readMessage s t m) .null path
        ⟨[.choice 1 (.scalar (.int32 0))], m.unknown⟩ [] := by
  intro r more faces short place
  refine .inl ?_
  rw [readMessage]
  simp only [readSlots, form, readKind, faces.peekKind, Node.kind, reads_null r more faces]

section

variable {m : Member} {step : Reader → Value × Reader} {type : ValueType} {v w : Value}
  {fields : List Path}

/-- The value of a member without presence is read into its slot. -/
theorem Takes.single (h : Takes slack limit (readValue s read m.name type v) n path w fields)
    (shape : m.shape = .single type)
    (visible : ∀ r more, r.Faces n more → clearingNull s type r = (false, r))
    : Takes slack limit (readSlot s read m (.one v)) n path (.one w)
      (path.push m.name :: fields) := by
  have own := (h.map Slot.one).addField m.name
  intro r more faces short place
  have same : readSlot s read m (.one v) r
      = (fun r => (Slot.one (readValue s read m.name type v r).1,
          (readValue s read m.name type v r).2)) (r.addField m.name) := by
    simp only [readSlot, shape]
    rw [visible (r.addField m.name) more ⟨faces.sound, faces.text, faces.ends⟩]
  rw [same]
  exact own r more faces short place

/-- The value of a member with presence is read into its empty slot. -/
theorem Takes.optional
    (h : Takes slack limit (readValue s read m.name type (s.emptyValue type)) n path w fields)
    (shape : m.shape = .optional type)
    (visible : ∀ r more, r.Faces n more → clearingNull s type r = (false, r))
    : Takes slack limit (readSlot s read m .none) n path (.one w) (path.push m.name :: fields) := by
  have own := (h.map Slot.one).addField m.name
  intro r more faces short place
  have same : readSlot s read m .none r
      = (fun r => (Slot.one (readValue s read m.name type (s.emptyValue type) r).1,
          (readValue s read m.name type (s.emptyValue type) r).2)) (r.addField m.name) := by
    simp only [readSlot, shape]
    rw [visible (r.addField m.name) more ⟨faces.sound, faces.text, faces.ends⟩]
  rw [same]
  exact own r more faces short place

/-- Null is read as no value of a member that can do without. -/
theorem takes_cleared (shape : m.shape = .optional type) (cleared : nullIsValue s type = false)
    : Takes slack limit (readSlot s read m .none) .null path .none [path.push m.name] := by
  rintro r more faces short rfl
  refine .inl ?_
  have null := reads_null (r.addField m.name) more ⟨faces.sound, faces.text, faces.ends⟩
  simp only [readSlot, shape, clearingNull, cleared, Bool.false_eq_true, if_false, null]
  rfl

/-- Null is read as the default of a scalar. -/
theorem takes_default {type : ScalarType} (shape : m.shape = .single (.scalar type))
    : Takes slack limit (readSlot s read m (.one v)) .null path (.one (.scalar type.default))
        [path.push m.name] := by
  rintro r more faces short rfl
  refine .inl ?_
  have null := reads_null (r.addField m.name) more ⟨faces.sound, faces.text, faces.ends⟩
  simp only [readSlot, shape, clearingNull, nullIsValue, Bool.false_eq_true, if_false, null]
  rfl

/-- The elements are read into an empty list. -/
theorem TakesItems.repeated {items : List Node} {packed : Bool} {capacity : Option Nat}
    {vs : List Value}
    (h : TakesItems slack limit (readElement s read m.name type capacity) path items [] vs fields)
    (shape : m.shape = .repeated type packed capacity)
    : Takes slack limit (readSlot s read m (.many [])) (.array items) path (.many vs)
        (path.push m.name :: fields) := by
  have own := ((takes_array h).map Slot.many).addField m.name
  intro r more faces short place
  have other := Reader.Faces.null_of_ne (r := r.addField m.name)
    ⟨faces.sound, faces.text, faces.ends⟩ (by nofun)
  have same : readSlot s read m (.many []) r
      = (fun r => (Slot.many (r.array (readElement s read m.name type capacity) []).1,
          (r.array (readElement s read m.name type capacity) []).2)) (r.addField m.name) := by
    simp only [readSlot, shape, other]
  rw [same]
  exact own r more faces short place

/-- The entries are read into an empty map. -/
theorem TakesFields.map {members : List Field} {key : ScalarType} {es : List Entry}
    (h : TakesFields slack limit (readEntry s read m.name key type) path members [] es fields)
    (shape : m.shape = .map key type)
    : Takes slack limit (readSlot s read m (.entries [])) (.object members) path (.entries es)
        (path.push m.name :: fields) := by
  have own := ((takes_object h).map Slot.entries).addField m.name
  intro r more faces short place
  have other := Reader.Faces.null_of_ne (r := r.addField m.name)
    ⟨faces.sound, faces.text, faces.ends⟩ (by nofun)
  have same : readSlot s read m (.entries []) r
      = (fun r => (Slot.entries (r.object (readEntry s read m.name key type) []).1,
          (r.object (readEntry s read m.name key type) []).2)) (r.addField m.name) := by
    simp only [readSlot, shape, other]
  rw [same]
  exact own r more faces short place

/-- The value of an alternative is read into the slot of its oneof. -/
theorem Takes.alternative {a : Alternative}
    (h : Takes slack limit (readValue s read a.name a.type (s.emptyValue a.type)) n path w fields)
    (slot : Slot)
    (visible : ∀ r more, r.Faces n more → clearingNull s a.type r = (false, r))
    : Takes slack limit (readAlternative s read a slot) n path (.choice a.tag w)
        (path.push a.name :: fields) := by
  have own := (h.map (Slot.choice a.tag)).addField a.name
  intro r more faces short place
  have same : readAlternative s read a slot r
      = (fun r => (Slot.choice a.tag (readValue s read a.name a.type (s.emptyValue a.type) r).1,
          (readValue s read a.name a.type (s.emptyValue a.type) r).2)) (r.addField a.name) := by
    simp only [readAlternative]
    rw [visible (r.addField a.name) more ⟨faces.sound, faces.text, faces.ends⟩]
  rw [same]
  exact own r more faces short place

end

-----------------------------------------------------------------------------------------
-- Messages
-----------------------------------------------------------------------------------------

/-- Objects of the types that are reached have legible names, and messages of other forms are read
back as is said of them if they have the property.
-/
structure Rereads (slack : Nat) (s : Schema) (config : Config) (tree : AnyTree) (mask : PathSet)
    (form : FormBack) (Q : Path → MessageType → List Slot → Prop) (root : String) : Prop where
  visible : tree.Visible
  legible : ∀ name, s.MayHold root name → (s.type name).form = .members
    → (s.type name).Legible
  forms : ∀ name, s.MayHold root name → (s.type name).form ≠ .members → ∀ path m n,
    m.Typed s (s.type name) → m.Fits s (s.type name) → m.All Scalar.ReadsBack
    → Q path (s.type name) m.slots → messageNode s config tree mask path (s.type name) m = some n
    → ∀ limit, Takes slack limit (readMessage s (s.type name) (s.empty name)) n path
        ⟨form path (s.type name) m.slots, []⟩ []

/-- A message that is not written by its members comes back as its form says. -/
theorem messageBack_of_form {t : MessageType} (m : Message) (other : t.form ≠ .members)
    : messageBack s mask form path t m = ⟨form path t m.slots, []⟩ := by
  cases m with
  | mk slots unknown =>
      unfold messageBack
      split
      · exact absurd ‹_› other
      · rfl

/-- Such a message names no fields. -/
theorem messageNamed_of_form {t : MessageType} (m : Message) (other : t.form ≠ .members)
    : messageNamed s mask path t m = [] := by
  cases m with
  | mk slots unknown =>
      unfold messageNamed
      split
      · exact absurd ‹_› other
      · rfl

/-- A scalar that comes back is read from what was written for it. -/
theorem takes_scalar {field : String} {type : ScalarType} {v : Scalar} (typed : v.hasType type)
    (names : type.Legible) (back : v.ReadsBack) (current : Value)
    : Takes slack limit (readValue s read field (.scalar type) current)
      (scalarNode config type v) path
        (.scalar v.canonical) [] :=
  (reads_scalar typed names back config).takes.map Value.scalar

/-- A member that is not written is empty when it is read back. -/
theorem slotBack_of_unset {m : Member} {slot : Slot} (typed : slot.known.Conforms s m)
    (alone : ∀ alternatives, m.shape ≠ .oneof alternatives)
    (unset : ¬(Slot.isSet m slot || names mask path m.name))
    : slotBack s mask form path m slot = m.shape.emptySlot s.empty := by
  simp only [Bool.or_eq_true, not_or, Bool.not_eq_true] at unset
  obtain ⟨unset, unnamed⟩ := unset
  cases shape : m.shape with
  | single type =>
      obtain ⟨v, rfl, known⟩ := Slot.one_of_known typed shape
      simp only [Slot.isSet, shape, Bool.not_eq_false'] at unset
      cases v with
      | message inner => cases unset
      | scalar v =>
          cases type with
          | message name => exact known.elim
          | scalar type =>
              have omitted : v.isDefault = true := unset
              unfold slotBack
              simp only [shape, omitted, unnamed, Bool.not_false, Bool.and_self, if_true]
              rfl
  | optional type =>
      rcases Slot.optional_of_known typed shape with rfl | ⟨v, rfl, -⟩
      · unfold slotBack
        simp only [shape, unnamed, Bool.false_and, Bool.false_eq_true, if_false]
        rfl
      · simp [Slot.isSet, shape] at unset
  | repeated type packed capacity =>
      obtain ⟨vs, rfl, -⟩ := Slot.many_of_known typed shape
      simp only [Slot.isSet, Bool.not_eq_false', List.isEmpty_iff] at unset
      unfold slotBack
      simp only [unset, shape, elementsBack]
      rfl
  | map key type =>
      obtain ⟨es, rfl, -⟩ := Slot.entries_of_known typed shape
      simp only [Slot.isSet, Bool.not_eq_false', List.isEmpty_iff] at unset
      unfold slotBack
      simp only [unset, shape, entriesBack]
      rfl
  | oneof alternatives => exact absurd shape (alone alternatives)

/-- Null is read as a value of a type whose values may be null. -/
theorem takes_nullValue (lawful : s.Lawful) (serves : Serves s limit read) (field : String)
    {type : ValueType} (value : nullIsValue s type)
    : Takes slack limit (readValue s read field type (s.emptyValue type)) .null path
        (.message WellKnown.Tree.null.message) [] := by
  cases type with
  | scalar type => cases value
  | message name =>
      have inner : Takes slack limit (readMessage s (s.type name) (s.empty name)) .null
        (path.push field)
          WellKnown.Tree.null.message [] := by
        rw [lawful.empty_eq]
        exact takes_null _ (eq_of_beq value)
      exact ((serves.takes inner).map Value.message).withField

/-- A scalar without presence that is written is read back, be it the default or not. -/
theorem slotBack_of_set {m : Member} {type : ScalarType} {v : Scalar}
    (shape : m.shape = .single (.scalar type))
    (set : Slot.isSet m (.one (.scalar v)) || names mask path m.name)
    : slotBack s mask form path m (.one (.scalar v)) = .one (.scalar v.canonical) := by
  have kept : (v.isDefault && !names mask path m.name) = false := by
    simpa [Slot.isSet, shape, Value.isOmitted, ← Bool.not_eq_true, imp_iff_not_or, or_comm]
      using set
  unfold slotBack
  simp only [shape, kept, Bool.false_eq_true, if_false]

/-- An alternative that is set is read back into its slot. -/
theorem slotBack_choice {m : Member} {tag : Nat} {v : Value} {a : Alternative}
    (found : m.alternative? tag = some a)
    : slotBack s mask form path m (.choice tag v)
        = .choice tag (valueBack s mask form path a.name a.type v) := by
  unfold slotBack
  rw [found]

/-- Alternatives of which none is set stay so. -/
theorem slotBack_unchosen {m : Member} {alternatives : List Alternative}
    (shape : m.shape = .oneof alternatives)
    : slotBack s mask form path m .none = .none := by
  unfold slotBack
  simp only [shape]

/-- A scalar without presence is read into its slot; null is written for no bytes. -/
theorem takes_singular {m : Member} {type : ScalarType} {v : Scalar}
    (shape : m.shape = .single (.scalar type)) (typed : v.hasType type)
    (names' : type.Legible) (back : v.ReadsBack)
    (set : Slot.isSet m (.one (.scalar v)) || names mask path m.name)
    : Takes slack limit (readSlot s read m (m.shape.emptySlot s.empty))
      (singularNode config type v) path
        (slotBack s mask form path m (.one (.scalar v))) [path.push m.name] := by
  rw [slotBack_of_set shape set, shape]
  unfold singularNode
  split
  · cases type <;> try cases typed
    exact takes_default shape
  · exact (takes_scalar typed names' back _).single shape
      fun r more faces => clearingNull_of_ne faces (kind_scalarNode _ _ _) _

/-- The keys of a map come back as they are. -/
theorem map_key_entriesBack {field : String} {type : ValueType} (es : List Entry)
    : (entriesBack s mask form path field type es).map (·.key) = es.map (·.key) := by
  induction es with
  | nil => rfl
  | cons e es ih =>
      obtain ⟨key, v⟩ := e
      simp [entriesBack, ih]

/-- A member with a name of its own is written in front of the others. -/
theorem memberFields_alone {m : Member} (alone : ∀ alternatives, m.shape ≠ .oneof alternatives)
    (members : List Member) (slot : Slot) (slots : List Slot)
    : memberFields s config tree mask path (m :: members) (slot :: slots)
        = if Slot.isSet m slot || names mask path m.name then do
            let n ← slotNode s config tree mask path m slot
            let others ← memberFields s config tree mask path members slots
            return ⟨config.nameOf m.name m.jsonName, n⟩ :: others
          else memberFields s config tree mask path members slots := by
  simp only [memberFields]

/-- A oneof with nothing set is left out. -/
theorem memberFields_none {m : Member} {alternatives : List Alternative}
    (shape : m.shape = .oneof alternatives) (members : List Member) (slots : List Slot)
    : memberFields s config tree mask path (m :: members) (.none :: slots)
        = memberFields s config tree mask path members slots := by
  simp [memberFields, shape, choiceFields]

/-- A oneof is written under the name of its alternative. -/
theorem memberFields_choice {m : Member} {tag : Nat} {a : Alternative}
    (found : m.alternative? tag = some a) (members : List Member) (v : Value) (slots : List Slot)
    : memberFields s config tree mask path (m :: members) (.choice tag v :: slots) = do
        let n ← valueNode s config tree mask path a.name a.type v
        let others ← memberFields s config tree mask path members slots
        return ⟨config.nameOf a.name a.jsonName, n⟩ :: others := by
  obtain ⟨alternatives, shape⟩ := Member.shape_of_alternative found
  simp [memberFields, shape, choiceFields, found, Option.bind_assoc]

/-- A member with a name of its own is named in front of the others. -/
theorem slotsNamed_alone {m : Member} (alone : ∀ alternatives, m.shape ≠ .oneof alternatives)
    (members : List Member) (slot : Slot) (slots : List Slot)
    : slotsNamed s mask path (m :: members) (slot :: slots)
        = if Slot.isSet m slot || names mask path m.name then
            (path.push m.name :: slotNamed s mask path m slot)
              ++ slotsNamed s mask path members slots
          else slotsNamed s mask path members slots := by
  simp only [slotsNamed]

/-- Members are written under a name that they have. -/
theorem Config.has_nameOf (config : Config) (name jsonName : String)
    : KeyNames.Has ⟨name, jsonName⟩ (config.nameOf name jsonName) := by
  unfold Config.nameOf
  split
  · exact .inr rfl
  · exact .inl rfl

/-- The value of a member is read where the slots of the members in front are read already. -/
theorem Takes.member {t : MessageType} {front behind : List Member} {m : Member}
    {done rest : List Slot} {old new : Slot} {fields : List Path}
    (h : Takes slack limit (readSlot s read m old) n path new fields) (legible : t.Legible)
    (split : t.members = front ++ m :: behind) (length : done.length = front.length)
    (alone : ∀ alternatives, m.shape ≠ .oneof alternatives)
    : Takes slack limit (readKey s read t (config.nameOf m.name m.jsonName)
      (done ++ old :: rest)) n path
        (done ++ new :: rest) fields := by
  intro r more faces short place
  rw [readKey_member legible split length alone (config.has_nameOf _ _)]
  exact h.map (done ++ · :: rest) r more faces short place

/-- An alternative is read into the slot of its oneof. -/
theorem Takes.choice {t : MessageType} {front behind : List Member} {m : Member}
    {done rest : List Slot} {old new : Slot} {fields : List Path} {tag : Nat} {a : Alternative}
    (h : Takes slack limit (readAlternative s read a old) n path new fields) (legible : t.Legible)
    (split : t.members = front ++ m :: behind) (length : done.length = front.length)
    (found : m.alternative? tag = some a)
    : Takes slack limit (readKey s read t (config.nameOf a.name a.jsonName)
      (done ++ old :: rest)) n path
        (done ++ new :: rest) fields := by
  intro r more faces short place
  rw [readKey_alternative legible split length found (config.has_nameOf _ _)]
  exact h.map (done ++ · :: rest) r more faces short place

mutual

/-- A value is read back from what was written for it, by induction on the value. -/
theorem takes_value (lawful : s.Lawful) (rereads : Rereads slack s config tree mask form Q root)
    {limit : Nat} {read : MessageReader} (serves : Serves s limit read) (field : String)
    {path : Path} {type : ValueType} (v : Value)
    (reached : type.Reached s root) (typed : v.known.Conforms s type) (fits : v.Fits s type)
    (back : v.All Scalar.ReadsBack) (kept : v.Everywhere s Q path field type) {n : Node}
    (node : valueNode s config tree mask path field type v = some n)
    : Takes slack limit (readValue s read field type (s.emptyValue type)) n path
        (valueBack s mask form path field type v) (valueNamed s mask path field type v) := by
  cases v with
  | scalar v =>
      cases type with
      | scalar type =>
          cases node
          exact takes_scalar typed reached back _
      | message name => exact typed.elim
  | message m =>
      cases type with
      | scalar type => exact typed.elim
      | message name =>
          have inner := takes_message lawful rereads m reached typed fits back kept node limit
          exact ((serves.takes inner).map Value.message).withField

/-- A message is read from the text of its tree, by induction on it. -/
theorem takes_message (lawful : s.Lawful) (rereads : Rereads slack s config tree mask form Q root)
    {name : String} {path : Path} (m : Message) (reached : s.MayHold root name)
    (typed : m.Typed s (s.type name)) (fits : m.Fits s (s.type name))
    (back : m.All Scalar.ReadsBack) (kept : m.Everywhere s Q path (s.type name)) {n : Node}
    (node : messageNode s config tree mask path (s.type name) m = some n) (limit : Nat)
    : Takes slack limit (readMessage s (s.type name) (s.empty name)) n path
        (messageBack s mask form path (s.type name) m)
        (messageNamed s mask path (s.type name) m) := by
  by_cases objects : (s.type name).form = .members
  · cases m with
    | mk slots unknown =>
        simp only [messageNode, objects] at node
        obtain ⟨fields, members, rfl⟩ := Option.map_eq_some_iff.mp node
        intro r more faces short place
        have inside := takes_members lawful rereads (serves_inside (s.type name) r) reached objects
          [] rfl [] rfl slots typed.1 fits back kept.2 members
        rw [← place] at inside
        have read := object_of_faces faces inside
        rw [place] at read
        simp only [messageBack, messageNamed, objects]
        rw [readMessage, lawful.empty_eq]
        simp only [readSlots, objects]
        rcases read with read | failed
        · refine .inl ?_
          rw [List.nil_append, List.nil_append] at read
          simp only [read]
        · exact .inr failed
  · rw [messageBack_of_form m objects, messageNamed_of_form m objects]
    have own : Q path (s.type name) m.slots := by
      cases m
      exact kept.1
    exact rereads.forms name reached objects path m n typed fits back own node limit

/-- The members that are written are read into the slots that were empty before. -/
theorem takes_members (lawful : s.Lawful) (rereads : Rereads slack s config tree mask form Q root)
    {limit : Nat} {read : MessageReader} (serves : Serves s limit read) {name : String}
    {path : Path} (reached : s.MayHold root name) (objects : (s.type name).form = .members)
    (front : List Member) {members : List Member}
    (split : (s.type name).members = front ++ members) (done : List Slot)
    (length : done.length = front.length) (slots : List Slot)
    (typed : slotsConform s members (slotsKnown slots)) (fits : slotsFit s members slots)
    (back : slotsAll Scalar.ReadsBack slots) (kept : slotsEverywhere s Q path members slots)
    {fields : List Field}
    (node : memberFields s config tree mask path members slots = some fields)
    : TakesFields slack limit (readKey s read (s.type name)) path fields
        (done ++ members.map fun m => m.shape.emptySlot s.empty)
        (done ++ slotsBack s mask form path members slots)
        (slotsNamed s mask path members slots) := by
  cases slots with
  | nil =>
      cases typed
      cases node
      exact .nil _
  | cons slot slots =>
      cases members with
      | nil => exact typed.elim
      | cons m members =>
          obtain ⟨own, typed⟩ := typed
          obtain ⟨ownFits, fits⟩ := fits
          obtain ⟨ownBack, back⟩ := back
          obtain ⟨ownKept, kept⟩ := kept
          have legible := rereads.legible name reached objects
          have member : m ∈ (s.type name).members := by simp [split]
          have others {fields : List Field}
              (node : memberFields s config tree mask path members slots = some fields) :=
            takes_members lawful rereads serves reached objects (front ++ [m]) (by simp [split])
              (done ++ [slotBack s mask form path m slot]) (by simp [length]) slots typed fits back
              kept node
          simp only [List.append_assoc, List.singleton_append] at others
          simp only [slotsBack, List.map_cons]
          -- A oneof is written under the name of its alternative, or not at all.
          by_cases alone : ∀ alternatives, m.shape ≠ .oneof alternatives
          · rw [memberFields_alone alone] at node
            rw [slotsNamed_alone alone]
            by_cases shown : Slot.isSet m slot || names mask path m.name
            · rw [if_pos shown] at node ⊢
              obtain ⟨n, own', node⟩ := Option.bind_eq_some_iff.mp node
              obtain ⟨behind, node', same⟩ := Option.bind_eq_some_iff.mp node
              cases same
              have first := takes_slot lawful rereads serves reached objects member slot alone own
                ownFits ownBack ownKept shown own'
              exact .cons (first.member legible split length alone) (others node')
            · rw [if_neg shown] at node ⊢
              rw [← slotBack_of_unset own alone shown]
              exact others node
          · obtain ⟨alternatives, shape⟩ : ∃ alternatives, m.shape = .oneof alternatives := by
              simpa using alone
            simp only [slotsNamed, shape]
            cases slot with
            | one _ | many _ | entries _ => simp only [Slot.known, Slot.Conforms, shape] at own
            | none =>
                rw [memberFields_none shape] at node
                rw [slotBack_unchosen shape] at others ⊢
                exact others node
            | choice tag v =>
                simp only [Slot.known, Slot.Conforms] at own
                cases found : m.alternative? tag with
                | none => simp only [found] at own
                | some a =>
                    simp only [found] at own
                    simp only [Slot.Fits, found] at ownFits
                    simp only [Slot.Everywhere, found] at ownKept
                    rw [memberFields_choice found] at node
                    obtain ⟨n, own', node⟩ := Option.bind_eq_some_iff.mp node
                    obtain ⟨behind, node', same⟩ := Option.bind_eq_some_iff.mp node
                    cases same
                    have holds := Member.valueTypes_of_alternative found
                    have value := takes_value lawful rereads serves a.name v
                      (legible.reached reached member holds) own ownFits ownBack ownKept own'
                    have first := value.alternative (m.shape.emptySlot s.empty)
                      fun r more faces => clearingNull_of_valueNode rereads.visible own' faces
                    rw [(Member.tag_of_alternative found).1] at first
                    rw [← shape]
                    rw [slotBack_choice found] at others ⊢
                    have named : slotNamed s mask path m (.choice tag v)
                        = path.push a.name :: valueNamed s mask path a.name a.type v := by
                      unfold slotNamed
                      rw [found]
                    rw [named]
                    exact .cons (first.choice legible split length found) (others node')

theorem takes_slot (lawful : s.Lawful) (rereads : Rereads slack s config tree mask form Q root)
    {limit : Nat} {read : MessageReader} (serves : Serves s limit read) {name : String}
    {path : Path} (reached : s.MayHold root name) (objects : (s.type name).form = .members)
    {m : Member} (member : m ∈ (s.type name).members) (slot : Slot)
    (alone : ∀ alternatives, m.shape ≠ .oneof alternatives) (typed : slot.known.Conforms s m)
    (fits : slot.Fits s m) (back : slot.All Scalar.ReadsBack) (kept : slot.Everywhere s Q path m)
    (shown : Slot.isSet m slot || names mask path m.name) {n : Node}
    (node : slotNode s config tree mask path m slot = some n)
    : Takes slack limit (readSlot s read m (m.shape.emptySlot s.empty)) n path
        (slotBack s mask form path m slot) (path.push m.name :: slotNamed s mask path m slot) := by
  have reachedBy {type : ValueType} (holds : type ∈ m.valueTypes) : type.Reached s root :=
    (rereads.legible name reached objects).reached reached member holds
  cases slot with
  | none =>
      simp only [Slot.known, Slot.Conforms] at typed
      cases node
      unfold slotBack slotNamed
      cases shape : m.shape with
      | optional type =>
          by_cases value : nullIsValue s type
          · have named : names mask path m.name = true := by simpa [Slot.isSet] using shown
            simp only [named, value, Bool.and_self, if_true]
            exact (takes_nullValue lawful serves m.name value).optional shape
              fun r more _ => by simp [clearingNull, value]
          · simp only [value, Bool.and_false, Bool.false_eq_true, if_false]
            exact takes_cleared shape (Bool.eq_false_iff.mpr value)
      | oneof alternatives => exact absurd shape (alone alternatives)
      | single _ | repeated _ _ _ | map _ _ => simp only [shape] at typed
  | one v =>
      simp only [Slot.known, Slot.Conforms] at typed
      simp only [Slot.Fits] at fits
      simp only [Slot.Everywhere] at kept
      unfold slotNode at node
      unfold slotBack slotNamed
      cases shape : m.shape with
      | single type =>
          simp only [shape] at typed fits kept node
          have holds : type ∈ m.valueTypes := by simp [Member.valueTypes, shape]
          cases v with
          | scalar v =>
              cases type with
              | message inner => exact typed.elim
              | scalar type =>
                  cases node
                  have own : Takes slack limit (readSlot s read m (m.shape.emptySlot s.empty))
                      (singularNode config type v) path
                      (slotBack s mask form path m (.one (.scalar v))) [path.push m.name] :=
                    takes_singular shape typed (reachedBy holds) back shown
                  unfold slotBack at own
                  simpa only [shape, valueNamed] using own
          | message inner =>
              cases type with
              | scalar type => exact typed.elim
              | message inner' =>
                  exact (takes_value lawful rereads serves m.name (.message inner)
                    (reachedBy holds) typed fits back kept node).single shape fun r more faces =>
                      clearingNull_of_valueNode rereads.visible node faces
      | optional type =>
          simp only [shape] at typed fits kept node
          have holds : type ∈ m.valueTypes := by simp [Member.valueTypes, shape]
          exact (takes_value lawful rereads serves m.name v (reachedBy holds) typed fits back
            kept node).optional shape fun r more faces =>
              clearingNull_of_valueNode rereads.visible node faces
      | repeated _ _ _ | map _ _ | oneof _ => simp only [shape] at typed
  | many vs =>
      simp only [Slot.known, Slot.Conforms] at typed
      simp only [Slot.Fits] at fits
      simp only [Slot.Everywhere] at kept
      unfold slotNode at node
      unfold slotBack slotNamed
      cases shape : m.shape with
      | repeated type packed capacity =>
          simp only [shape] at typed fits kept node
          have holds : type ∈ m.valueTypes := by simp [Member.valueTypes, shape]
          obtain ⟨items, node', rfl⟩ := Option.map_eq_some_iff.mp node
          exact (takes_elements lawful rereads serves m.name vs (reachedBy holds) typed fits.2 back
            kept node' [] (by simpa using fits.1)).repeated shape
      | single _ | optional _ | map _ _ | oneof _ => simp only [shape] at typed
  | entries es =>
      simp only [Slot.known, Slot.Conforms] at typed
      simp only [Slot.Fits] at fits
      simp only [Slot.Everywhere] at kept
      unfold slotBack slotNamed
      cases shape : m.shape with
      | map key type =>
          simp only [shape] at typed fits kept
          have ordered := ordered_entriesKnown.mp typed.1
          rw [slotNode_entries shape ordered] at node
          have holds : type ∈ m.valueTypes := by simp [Member.valueTypes, shape]
          have isKey : key.isKey := by
            have lawfulShape := (lawful.type name).shapes m member
            rwa [shape] at lawfulShape
          obtain ⟨fields, node', rfl⟩ := Option.map_eq_some_iff.mp node
          have read := takes_entries lawful rereads serves m.name isKey es (reachedBy holds)
            ordered.typed typed.2 fits back kept node' []
          -- Entries are inserted as they come, and they come in the order of their keys.
          have sorted : Ordered key (entriesBack s mask form path m.name type es) := by
            rwa [ordered_iff_keys, map_key_entriesBack, ← ordered_iff_keys]
          rw [← sortEntries, sorted.sortEntries_eq isKey] at read
          exact read.map shape
      | single _ | optional _ | repeated _ _ _ | oneof _ => simp only [shape] at typed
  | choice tag v =>
      simp only [Slot.known, Slot.Conforms] at typed
      cases found : m.alternative? tag with
      | none => simp only [found] at typed
      | some a => exact absurd (Member.shape_of_alternative found).choose_spec (alone _)

theorem takes_elements (lawful : s.Lawful) (rereads : Rereads slack s config tree mask form Q root)
    {limit : Nat} {read : MessageReader} (serves : Serves s limit read) (field : String)
    {path : Path} {type : ValueType} (vs : List Value) (reached : type.Reached s root)
    (typed : elementsConform s type (elementsKnown vs)) (fits : elementsFit s type vs)
    (back : elementsAll Scalar.ReadsBack vs) (kept : elementsEverywhere s Q path field type vs)
    {items : List Node}
    (node : elementNodes s config tree mask path field type vs = some items)
    {capacity : Option Nat} (done : List Value)
    (room : withinCapacity capacity (done.length + vs.length))
    : TakesItems slack limit (readElement s read field type capacity) path items done
        (done ++ elementsBack s mask form path field type vs)
        (elementsNamed s mask path field type vs) := by
  cases vs with
  | nil =>
      cases node
      rw [elementsBack, elementsNamed, List.append_nil]
      exact .nil done
  | cons v vs =>
      obtain ⟨n, own, node⟩ := Option.bind_eq_some_iff.mp node
      obtain ⟨items, node', same⟩ := Option.bind_eq_some_iff.mp node
      cases same
      have first := takes_value lawful rereads serves field v reached typed.1 fits.1
        back.1 kept.1 own
      have others := takes_elements lawful rereads serves field vs reached typed.2 fits.2 back.2
        kept.2 node' (done ++ [valueBack s mask form path field type v])
        (by simpa [Nat.add_assoc, Nat.add_comm 1] using room)
      rw [List.append_assoc] at others
      exact .cons (first.element (withinCapacity_mono room (by simp))) others

theorem takes_entries (lawful : s.Lawful) (rereads : Rereads slack s config tree mask form Q root)
    {limit : Nat} {read : MessageReader} (serves : Serves s limit read) (field : String)
    {path : Path} {keyType : ScalarType} (isKey : keyType.isKey) {type : ValueType}
    (es : List Entry) (reached : type.Reached s root) (keys : ∀ e ∈ es, e.key.hasType keyType)
    (typed : entriesConform s type (entriesKnown es)) (fits : entriesFit s type es)
    (back : entriesAll Scalar.ReadsBack es) (kept : entriesEverywhere s Q path field type es)
    {fields : List Field}
    (node : entryFields s config tree mask path field type es = some fields) (done : List Entry)
    : TakesFields slack limit (readEntry s read field keyType type) path fields done
        (insertEntries done (entriesBack s mask form path field type es))
        (entriesNamed s mask path field type es) := by
  cases es with
  | nil =>
      cases node
      exact .nil done
  | cons e es =>
      cases e with
      | mk key v =>
          obtain ⟨own, keys⟩ := List.forall_mem_cons.mp keys
          obtain ⟨n, node', node⟩ := Option.bind_eq_some_iff.mp node
          obtain ⟨fields, behind, same⟩ := Option.bind_eq_some_iff.mp node
          cases same
          have first := takes_value lawful rereads serves field v reached typed.1
            fits.1 back.1 kept.1
            node'
          have others := takes_entries lawful rereads serves field isKey es reached keys typed.2
            fits.2 back.2 kept.2 behind
              (insertEntry key (valueBack s mask form path field type v) done)
          exact .cons (first.entry isKey own done) others

end

-----------------------------------------------------------------------------------------
-- Documents
-----------------------------------------------------------------------------------------

/-- The value of a message at the start of a document is all of it, unless it nests too deep. -/
theorem decodeInto_of_takes {t : MessageType} {m v : Message} {fields : List Path}
    (h : ∀ limit, Takes slack limit (readMessage s t m) n .root v fields)
    (registry : Option Registry)
    : decodeInto s registry t m (Text.utf8 n.text) = (v, .ok (fields.foldl PathSet.add .empty))
      ∨ (∃ m' fault, decodeInto s registry t m (Text.utf8 n.text) = (m', .error fault))
        ∧ maxDepth < n.nesting + slack := by
  have faces : (Reader.ofBytes (Text.utf8 n.text) registry).Faces n [] :=
    ⟨rfl, (List.append_nil _).symm, nofun⟩
  unfold decodeInto
  rcases h _ _ _ faces (Nat.lt_succ_self _) rfl with read | ⟨fault, deep⟩
  · refine .inl ?_
    rw [read]
    rfl
  · obtain ⟨fault, same⟩ := Option.isSome_iff_exists.mp fault
    refine .inr ⟨⟨(readMessage s t m (.ofBytes (Text.utf8 n.text) registry)).1, fault, ?_⟩,
      by simpa [Reader.ofBytes] using deep⟩
    simp only [Reader.finish, same]

end Protobuf.Json
