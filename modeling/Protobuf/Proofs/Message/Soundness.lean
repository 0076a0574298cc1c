import Protobuf.Proofs.Message.Absorption
import Protobuf.Proofs.Message.Dispatch

/-! Sound values, messages and slots: those that are of their type and keep all their lists within
capacity.  What is empty is sound, and a sound slot that takes a sound value stays sound.
-/

namespace Protobuf

open Wire

variable {s : Schema} {t : MessageType} {m : Message}

/-- The value is of the type, with all lists within their capacities. -/
def Value.Sound (s : Schema) (type : ValueType) (v : Value) : Prop :=
  v.Conforms s type ∧ v.Fits s type

/-- The message is of its type and within the capacities of its lists and texts. -/
def Message.Sound (s : Schema) (t : MessageType) (m : Message) : Prop :=
  m.Conforms s t ∧ m.Fits s t

/-- The slot is that of the member and within its capacity. -/
def Slot.Sound (s : Schema) (m : Member) (slot : Slot) : Prop :=
  slot.Conforms s m ∧ slot.Fits s m

-----------------------------------------------------------------------------------------
-- Scalars
-----------------------------------------------------------------------------------------

/-- Whatever the decoder reads has the property. -/
def Wire.Decoder.Yields {α : Type} (P : α → Prop) (d : Decoder α) : Prop :=
  ∀ bytes value rest, d bytes = .ok value rest → P value

/-- What decodes a last value decides what is yielded. -/
theorem Wire.Decoder.Yields.bind {α β : Type} {P : β → Prop} {f : α → Decoder β}
    (hf : ∀ value, (f value).Yields P) (d : Decoder α)
    : Yields P (d >>= f) := by
  intro bytes value rest run
  simp only [Bind.bind, EStateM.bind] at run
  cases read : d bytes with
  | error e rest' => simp [read] at run
  | ok a rest' =>
      simp only [read] at run
      exact hf a rest' value rest run

theorem Wire.Decoder.yields_pure {α : Type} {P : α → Prop} {value : α} (h : P value)
    : Yields P (pure value : Decoder α) := by
  intro bytes value' rest run
  cases run
  exact h

/-- What is read as a scalar of a type is one, by cases on the type. -/
theorem hasType_readScalar (type : ScalarType)
    : (readScalar type).Yields fun v => v.hasType type := by
  have within {fits : Prop} [Decidable fits] {v : Scalar} (typed : fits → v.hasType type)
      : Decoder.Yields (fun v => v.hasType type)
          (if fits then pure v else throw .capacityExceeded) := by
    split
    · rename_i enough
      exact Decoder.yields_pure (typed enough)
    · exact fun _ _ _ failed => by cases failed
  cases type with
  | string capacity =>
      refine Decoder.Yields.bind (fun text => ?_) Decoder.text
      exact within id
  | bytes capacity =>
      refine Decoder.Yields.bind (fun bytes => ?_) Decoder.lengthDelimited
      exact within id
  | fixed32 | sfixed32 | float =>
      refine Decoder.Yields.bind (fun v => ?_) Decoder.fixed32
      exact Decoder.yields_pure rfl
  | fixed64 | sfixed64 | double =>
      refine Decoder.Yields.bind (fun v => ?_) Decoder.fixed64
      exact Decoder.yields_pure rfl
  | _ =>
      refine Decoder.Yields.bind (fun v => ?_) Decoder.varint
      exact Decoder.yields_pure rfl

-----------------------------------------------------------------------------------------
-- Lists of values
-----------------------------------------------------------------------------------------

/-- Elements conform if each one does. -/
theorem elementsConform_iff {type : ValueType} {vs : List Value}
    : elementsConform s type vs ↔ ∀ v ∈ vs, v.Conforms s type := by
  induction vs with
  | nil => simp [elementsConform]
  | cons v vs ih => simp [elementsConform, ih]

/-- The values of a map conform if each one does. -/
theorem entriesConform_iff {value : ValueType} {es : List Entry}
    : entriesConform s value es ↔ ∀ e ∈ es, e.value.Conforms s value := by
  induction es with
  | nil => simp [entriesConform]
  | cons e es ih =>
      obtain ⟨k, v⟩ := e
      simp [entriesConform, ih]

/-- A packed run holds scalars of its type, by induction on the bytes. -/
theorem sound_readPacked {type : ScalarType} {data : List UInt8} {added : List Value}
    (h : readPacked type data = (added, none))
    : ∀ v ∈ added, v.Sound s (.scalar type) := by
  induction size : data.length using Nat.strongRecOn generalizing data added with
  | _ size ih =>
      cases data with
      | nil =>
          rw [readPacked] at h
          cases h
          exact fun v member => absurd member List.not_mem_nil
      | cons b tail =>
          rw [readPacked] at h
          split at h
          · cases h
          · rename_i v rest read
            have shorter := consumes_readScalar type (b :: tail)
            rw [read] at shorter
            simp only [Prod.mk.injEq] at h
            obtain ⟨rfl, success⟩ := h
            have others := ih _ (size ▸ shorter) (Prod.ext rfl success) rfl
            exact List.forall_mem_cons.mpr
              ⟨⟨hasType_readScalar type _ _ _ read, trivial⟩, others⟩

/-- Values that are appended without a failure stand behind the others, within the capacity. -/
theorem appendValues_success {capacity : Option Nat} {values added all : List Value}
    (h : appendValues capacity values added = (all, none))
    : all = values ++ added
        ∧ (withinCapacity capacity values.length → withinCapacity capacity all.length) := by
  cases capacity with
  | none =>
      cases h
      exact ⟨rfl, fun _ => rfl⟩
  | some limit =>
      simp only [appendValues] at h
      split at h
      · rename_i room
        cases h
        refine ⟨rfl, fun before => decide_eq_true ?_⟩
        have fits : values.length ≤ limit := of_decide_eq_true before
        simp only [List.length_append]
        omega
      · cases h

/-- A value that is appended without a failure stands behind the others, within the capacity. -/
theorem appendValue_success {capacity : Option Nat} {values all : List Value} {v : Value}
    (h : appendValue capacity values v = (all, none))
    : all = values ++ [v] ∧ withinCapacity capacity all.length := by
  simp only [appendValue] at h
  split at h
  · rename_i room
    cases h
    exact ⟨rfl, by simpa using room⟩
  · cases h

-----------------------------------------------------------------------------------------
-- Messages as they are before anything is read
-----------------------------------------------------------------------------------------

/-- The empty message of a type has no list that is too long, by induction on the types that it
embeds.
-/
theorem Schema.Lawful.fits_empty (h : s.Lawful) (name : String)
    : (s.empty name).Fits s (s.type name) := by
  refine h.embedded_induction (P := fun name => (s.empty name).Fits s (s.type name)) ?_ name
  intro name embedded
  have slots : ∀ members : List Member, (∀ m ∈ members, m ∈ (s.type name).members)
      → slotsFit s members (members.map fun m => m.shape.emptySlot s.empty) := by
    intro members
    induction members with
    | nil => exact fun _ => trivial
    | cons m members ih =>
        intro included
        obtain ⟨member, others⟩ := List.forall_mem_cons.mp included
        refine ⟨?_, ih others⟩
        cases shape : m.shape with
        | single type =>
            cases type with
            | scalar type => simp only [Shape.emptySlot, Slot.Fits, shape, Value.Fits]
            | message inner =>
                simp only [Shape.emptySlot, Slot.Fits, shape, Value.Fits]
                exact embedded inner (MessageType.embeds_of_mem member shape)
        | optional _ | oneof _ => simp only [Shape.emptySlot, shape, Slot.Fits]
        | repeated _ _ capacity =>
            cases capacity <;>
              simp [Shape.emptySlot, Slot.Fits, shape, elementsFit, withinCapacity]
        | map _ _ => simp only [Shape.emptySlot, Slot.Fits, shape, entriesFit]
  rw [h.empty_eq name]
  exact slots _ fun _ member => member

/-- An empty message is sound. -/
theorem Schema.Lawful.sound_empty (h : s.Lawful) (name : String)
    : (s.empty name).Sound s (s.type name) :=
  ⟨h.conforms_empty name, h.fits_empty name⟩

/-- The empty value of a type is sound. -/
theorem Schema.Lawful.sound_emptyValue (h : s.Lawful) (type : ValueType)
    : (s.emptyValue type).Sound s type := by
  cases type with
  | scalar type => exact ⟨type.hasType_default, trivial⟩
  | message name => exact h.sound_empty name

/-- An entry as a message is sound if its key and its value are. -/
theorem sound_entry_iff {key : ScalarType} {value : ValueType} {m : Message}
    : m.Sound s (.entry key value)
        ↔ ∃ k v, m = ⟨[.one (.scalar k), .one v], []⟩ ∧ k.hasType key ∧ v.Sound s value := by
  constructor
  · rintro ⟨conforms, fits⟩
    obtain ⟨slots, unknown⟩ := m
    obtain ⟨conform, rfl⟩ := conforms
    match slots, conform, fits with
    | [.one (.scalar k), .one v], ⟨typed, sound, rfl⟩, ⟨_, fits, _⟩ =>
        exact ⟨k, v, rfl, typed, sound, fits⟩
  · rintro ⟨k, v, rfl, typed, sound⟩
    exact ⟨⟨⟨typed, sound.1, rfl⟩, rfl⟩, ⟨trivial, sound.2, trivial⟩⟩

theorem Schema.Lawful.sound_emptyEntry (h : s.Lawful) (key : ScalarType) (value : ValueType)
    : (s.emptyEntry key value).Sound s (.entry key value) :=
  sound_entry_iff.mpr ⟨_, _, rfl, key.hasType_default, h.sound_emptyValue value⟩

-----------------------------------------------------------------------------------------
-- Slots
-----------------------------------------------------------------------------------------

variable {tag : Nat} {wire : WireType} {member : Member} {slot new : Slot}

/-- A slot with a single value is sound if the value is. -/
theorem sound_one_iff {type : ValueType}
    (shape : member.shape = .single type ∨ member.shape = .optional type) {v : Value}
    : (Slot.one v).Sound s member ↔ v.Sound s type := by
  rcases shape with shape | shape <;>
    simp only [Slot.Sound, Slot.Conforms, Slot.Fits, shape, Value.Sound]

/-- A list is sound if it is within its capacity and its values are sound. -/
theorem sound_many_iff {type : ValueType} {packed : Bool} {capacity : Option Nat}
    (shape : member.shape = .repeated type packed capacity) {vs : List Value}
    : (Slot.many vs).Sound s member
        ↔ withinCapacity capacity vs.length ∧ ∀ v ∈ vs, v.Sound s type := by
  simp only [Slot.Sound, Slot.Conforms, Slot.Fits, shape, elementsConform_iff, elementsFit_iff,
    Value.Sound]
  constructor
  · rintro ⟨conform, room, fit⟩
    exact ⟨room, fun v listed => ⟨conform v listed, fit v listed⟩⟩
  · rintro ⟨room, sound⟩
    exact ⟨fun v listed => (sound v listed).1, room, fun v listed => (sound v listed).2⟩

/-- A map is sound if its keys ascend and its values are sound. -/
theorem sound_entries_iff {key : ScalarType} {value : ValueType}
    (shape : member.shape = .map key value) {es : List Entry}
    : (Slot.entries es).Sound s member
        ↔ Ordered key es ∧ ∀ e ∈ es, e.value.Sound s value := by
  simp only [Slot.Sound, Slot.Conforms, Slot.Fits, shape, entriesConform_iff, entriesFit_iff,
    Value.Sound]
  constructor
  · rintro ⟨⟨ordered, conform⟩, fit⟩
    exact ⟨ordered, fun e listed => ⟨conform e listed, fit e listed⟩⟩
  · rintro ⟨ordered, sound⟩
    exact ⟨⟨ordered, fun e listed => (sound e listed).1⟩, fun e listed => (sound e listed).2⟩

/-- Putting a value keeps a singular member sound. -/
theorem sound_put_one {type : ValueType}
    (shape : member.shape = .single type ∨ member.shape = .optional type) {v : Value}
    (sound : v.Sound s type) (put : slot.put member tag v none = (new, none))
    : new.Sound s member := by
  have placed : new = .one v := by
    rcases shape with shape | shape <;>
      simpa only [Slot.put, shape, Prod.mk.injEq, and_true, eq_comm] using put
  rw [placed]
  exact (sound_one_iff shape).mpr sound

/-- Appending a value keeps a repeated member sound. -/
theorem sound_put_many {type : ValueType} {packed : Bool} {capacity : Option Nat}
    (shape : member.shape = .repeated type packed capacity) {vs : List Value} {v : Value}
    (old : (Slot.many vs).Sound s member) (sound : v.Sound s type)
    (put : (Slot.many vs).put member tag v none = (new, none))
    : new.Sound s member := by
  cases appended : appendValue capacity vs v with
  | mk all failure =>
      simp only [Slot.put, shape, appended, Prod.mk.injEq] at put
      obtain ⟨rfl, rfl⟩ := put
      obtain ⟨rfl, room⟩ := appendValue_success appended
      refine (sound_many_iff shape).mpr ⟨room, List.forall_mem_append.mpr ⟨?_, ?_⟩⟩
      · exact ((sound_many_iff shape).mp old).2
      · exact List.forall_mem_singleton.mpr sound

/-- Inserting an entry keeps a map sound. -/
theorem sound_put_entry {key : ScalarType} {value : ValueType} (isKey : key.isKey)
    (shape : member.shape = .map key value) {es : List Entry} {entry : Message}
    (old : (Slot.entries es).Sound s member) (sound : entry.Sound s (.entry key value))
    (put : (Slot.entries es).put member tag (.message entry) none = (new, none))
    : new.Sound s member := by
  obtain ⟨k, v, rfl, typed, sound⟩ := sound_entry_iff.mp sound
  obtain ⟨ordered, others⟩ := (sound_entries_iff shape).mp old
  simp only [Slot.put, shape, entryOfMessage?, Prod.mk.injEq, and_true] at put
  subst put
  refine (sound_entries_iff shape).mpr ⟨ordered.insertEntry isKey typed, fun e listed => ?_⟩
  rcases (mem_insertEntry isKey typed ordered e).mp listed with rfl | ⟨earlier, -⟩
  · exact sound
  · exact others e earlier

-----------------------------------------------------------------------------------------
-- Messages
-----------------------------------------------------------------------------------------

/-- The slots of a message are sound if each one is, for its member. -/
theorem slotsSound_iff {members : List Member} {slots : List Slot}
    : slotsConform s members slots ∧ slotsFit s members slots
        ↔ List.Forall₂ (fun member slot => slot.Sound s member) members slots := by
  induction members generalizing slots with
  | nil => cases slots <;> simp [slotsConform, slotsFit]
  | cons member members ih =>
      cases slots with
      | nil => simp [slotsConform]
      | cons slot slots =>
          rw [List.forall₂_cons, ← ih]
          exact and_and_and_comm

/-- The slot that a number leads to is sound. -/
theorem sound_memberSlot {members : List Member} {slots : List Slot}
    (sound : List.Forall₂ (fun member slot => slot.Sound s member) members slots)
    (found : memberSlot? tag members slots = some (member, slot))
    : slot.Sound s member := by
  induction sound with
  | nil => cases found
  | cons first others ih =>
      simp only [memberSlot?] at found
      split at found
      · cases found
        exact first
      · exact ih found

/-- Replacing a slot by a sound one keeps the slots sound. -/
theorem sound_replaceSlot {members : List Member} {slots : List Slot}
    (sound : List.Forall₂ (fun member slot => slot.Sound s member) members slots)
    (found : memberSlot? tag members slots = some (member, slot)) (h : new.Sound s member)
    : List.Forall₂ (fun member slot => slot.Sound s member) members
        (replaceSlot tag new members slots) := by
  induction sound with
  | nil => cases found
  | cons first others ih =>
      simp only [memberSlot?, replaceSlot] at found ⊢
      split at found
      · rename_i own
        cases found
        rw [if_pos own]
        exact .cons h others
      · rename_i foreign
        rw [if_neg foreign]
        exact .cons first (ih found)

/-- Unknown records behind unknown records are unknown records. -/
theorem UnknownRecords.append {first second : List UInt8} (h : UnknownRecords t first)
    (h' : UnknownRecords t second)
    : UnknownRecords t (first ++ second) := by
  induction h with
  | nil => exact h'
  | cons legal undeclared complete _ ih =>
      rw [List.append_assoc]
      exact .cons legal undeclared complete ih

theorem Message.Sound.slots (h : m.Sound s t)
    : List.Forall₂ (fun member slot => slot.Sound s member) t.members m.slots := by
  obtain ⟨slots, unknown⟩ := m
  exact slotsSound_iff.mp ⟨h.1.1, h.2⟩

/-- A sound message has no slot for a field only if its type does not declare it. -/
theorem Message.Sound.undeclared (h : m.Sound s t)
    (missing : memberSlot? tag t.members m.slots = none)
    : t.declares tag = false := by
  obtain ⟨slots, unknown⟩ := m
  simpa [MessageType.declares] using (memberSlot?_eq_none h.1.1).mp missing

/-- A record that is kept or dropped as a whole leaves the message sound. -/
theorem Message.Sound.keepUnknown {record behind : List UInt8} (h : m.Sound s t)
    (legal : Decoder.key record = .ok (tag, wire) behind)
    (missing : memberSlot? tag t.members m.slots = none)
    (complete : passRecord 0 record = .ok [])
    : (keepUnknown t m record).Sound s t := by
  have undeclared := h.undeclared missing
  obtain ⟨slots, unknown⟩ := m
  obtain ⟨⟨conform, records⟩, fits⟩ := h
  unfold Protobuf.keepUnknown
  split
  · rename_i keeps
    rw [if_pos keeps] at records
    have last : UnknownRecords t (record ++ []) := .cons legal undeclared complete .nil
    rw [List.append_nil] at last
    exact ⟨⟨conform, by rw [if_pos keeps]; exact records.append last⟩, fits⟩
  · exact ⟨⟨conform, records⟩, fits⟩

end Protobuf
