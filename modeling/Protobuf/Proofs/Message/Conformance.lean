import Protobuf.Message.Merge
import Protobuf.Proofs.Message.Entries

/-! When a message is one of a type: every slot holds what its member declares, bounded lists stay
within their capacity, and the unknown bytes are whole records of other fields.  Nesting counts the
length-delimited records that stand inside one another when the message is encoded.
-/

namespace Protobuf

open Wire

/-- The type has a member with the field number. -/
def MessageType.declares (t : MessageType) (tag : Nat) : Bool :=
  t.members.any fun m => m.hasTag tag

/-- Whole records with legal keys, none of them of a declared field. -/
inductive UnknownRecords (t : MessageType) : List UInt8 → Prop
  | nil : UnknownRecords t []
  | cons {record payload rest : List UInt8} {tag : Nat} {wire : WireType}
    (legal : Decoder.key record = .ok (tag, wire) payload)
    (undeclared : t.declares tag = false)
    (complete : passRecord 0 record = .ok [])
    (others : UnknownRecords t rest)
    : UnknownRecords t (record ++ rest)

mutual

/-- The value is of the type. -/
def Value.Conforms (s : Schema) (type : ValueType) : Value → Prop
  | .scalar v =>
      match type with
      | .scalar type => v.hasType type
      | .message _ => False
  | .message m =>
      match type with
      | .scalar _ => False
      | .message name => m.Conforms s (s.type name)

/-- The message is of the type, and its unknown bytes are records that the type does not declare. -/
def Message.Conforms (s : Schema) (t : MessageType) : Message → Prop
  | ⟨slots, unknown⟩ =>
      slotsConform s t.members slots
      ∧ if t.keepsUnknown then UnknownRecords t unknown else unknown = []

def slotsConform (s : Schema) (members : List Member) : List Slot → Prop
  | [] => members = []
  | slot :: slots =>
      match members with
      | [] => False
      | m :: members => slot.Conforms s m ∧ slotsConform s members slots

def Slot.Conforms (s : Schema) (m : Member) : Slot → Prop
  | .none =>
      match m.shape with
      | .optional _ | .oneof _ => True
      | _ => False
  | .one v =>
      match m.shape with
      | .single type | .optional type => v.Conforms s type
      | _ => False
  | .many vs =>
      match m.shape with
      | .repeated type _ _ => elementsConform s type vs
      | _ => False
  | .entries es =>
      match m.shape with
      | .map key value => Ordered key es ∧ entriesConform s value es
      | _ => False
  | .choice tag v =>
      match m.alternative? tag with
      | some a => v.Conforms s a.type
      | none => False

def elementsConform (s : Schema) (type : ValueType) : List Value → Prop
  | [] => True
  | v :: vs => v.Conforms s type ∧ elementsConform s type vs

def entriesConform (s : Schema) (value : ValueType) : List Entry → Prop
  | [] => True
  | ⟨_, v⟩ :: es => v.Conforms s value ∧ entriesConform s value es

end

mutual

/-- Lists inside the value stay within their capacity. -/
def Value.Fits (s : Schema) (type : ValueType) : Value → Prop
  | .scalar _ => True
  | .message m =>
      match type with
      | .scalar _ => True
      | .message name => m.Fits s (s.type name)

/-- Lists inside the message stay within their capacity. -/
def Message.Fits (s : Schema) (t : MessageType) : Message → Prop
  | ⟨slots, _⟩ => slotsFit s t.members slots

def slotsFit (s : Schema) (members : List Member) : List Slot → Prop
  | [] => True
  | slot :: slots =>
      match members with
      | [] => True
      | m :: members => slot.Fits s m ∧ slotsFit s members slots

/-- A list that the slot holds stays within the capacity of the member, and so do those inside. -/
def Slot.Fits (s : Schema) (m : Member) : Slot → Prop
  | .none => True
  | .one v =>
      match m.shape with
      | .single type | .optional type => v.Fits s type
      | _ => True
  | .many vs =>
      match m.shape with
      | .repeated type _ capacity => withinCapacity capacity vs.length ∧ elementsFit s type vs
      | _ => True
  | .entries es =>
      match m.shape with
      | .map _ value => entriesFit s value es
      | _ => True
  | .choice tag v =>
      match m.alternative? tag with
      | some a => v.Fits s a.type
      | none => True

def elementsFit (s : Schema) (type : ValueType) : List Value → Prop
  | [] => True
  | v :: vs => v.Fits s type ∧ elementsFit s type vs

def entriesFit (s : Schema) (value : ValueType) : List Entry → Prop
  | [] => True
  | ⟨_, v⟩ :: es => v.Fits s value ∧ entriesFit s value es

end

mutual

/-- How many length-delimited records with a nesting level stand inside one another in the value,
its own included: an embedded message has one, a map entry has one.
-/
def Value.nesting : Value → Nat
  | .scalar _ => 0
  | .message m => m.nesting + 1

def Message.nesting : Message → Nat
  | ⟨slots, _⟩ => slotsNesting slots

def slotsNesting : List Slot → Nat
  | [] => 0
  | slot :: slots => max slot.nesting (slotsNesting slots)

def Slot.nesting : Slot → Nat
  | .none => 0
  | .one v => v.nesting
  | .many vs => elementsNesting vs
  | .entries es => entriesNesting es
  | .choice _ v => v.nesting

def elementsNesting : List Value → Nat
  | [] => 0
  | v :: vs => max v.nesting (elementsNesting vs)

def entriesNesting : List Entry → Nat
  | [] => 0
  | ⟨_, v⟩ :: es => max (v.nesting + 1) (entriesNesting es)

end

-----------------------------------------------------------------------------------------
-- Lists of values
-----------------------------------------------------------------------------------------

variable {s : Schema}

attribute [grind =] Value.Conforms slotsConform Slot.Conforms elementsConform entriesConform

/-- Elements fit one by one. -/
theorem elementsFit_iff {type : ValueType} {vs : List Value}
    : elementsFit s type vs ↔ ∀ v ∈ vs, v.Fits s type := by
  induction vs with
  | nil => simp [elementsFit]
  | cons v vs ih => simp [elementsFit, ih]

/-- Entries fit one by one. -/
theorem entriesFit_iff {value : ValueType} {es : List Entry}
    : entriesFit s value es ↔ ∀ e ∈ es, e.value.Fits s value := by
  induction es with
  | nil => simp [entriesFit]
  | cons e es ih =>
      obtain ⟨k, v⟩ := e
      simp [entriesFit, ih]

-----------------------------------------------------------------------------------------
-- What a member holds, by its shape
-----------------------------------------------------------------------------------------

namespace Slot.Conforms

variable {m : Member} {slot : Slot} {type : ValueType}

/-- A member that always holds a value. -/
theorem of_single (h : slot.Conforms s m) (shape : m.shape = .single type)
    : ∃ v, slot = .one v ∧ v.Conforms s type := by
  cases slot with
  | one v =>
      simp only [Slot.Conforms, shape] at h
      exact ⟨v, rfl, h⟩
  | none | many _ | entries _ => simp only [Slot.Conforms, shape] at h
  | choice _ _ => simp only [Slot.Conforms, Member.alternative?, shape] at h

/-- A member that may hold a value. -/
theorem of_optional (h : slot.Conforms s m) (shape : m.shape = .optional type)
    : slot = .none ∨ ∃ v, slot = .one v ∧ v.Conforms s type := by
  cases slot with
  | none => exact .inl rfl
  | one v =>
      simp only [Slot.Conforms, shape] at h
      exact .inr ⟨v, rfl, h⟩
  | many _ | entries _ => simp only [Slot.Conforms, shape] at h
  | choice _ _ => simp only [Slot.Conforms, Member.alternative?, shape] at h

/-- A member that holds a list. -/
theorem of_repeated (h : slot.Conforms s m) {packed : Bool} {capacity : Option Nat}
    (shape : m.shape = .repeated type packed capacity)
    : ∃ vs, slot = .many vs ∧ elementsConform s type vs := by
  cases slot with
  | many vs =>
      simp only [Slot.Conforms, shape] at h
      exact ⟨vs, rfl, h⟩
  | none | one _ | entries _ => simp only [Slot.Conforms, shape] at h
  | choice _ _ => simp only [Slot.Conforms, Member.alternative?, shape] at h

/-- A member that holds a map. -/
theorem of_map (h : slot.Conforms s m) {key : ScalarType} (shape : m.shape = .map key type)
    : ∃ es, slot = .entries es ∧ Ordered key es ∧ entriesConform s type es := by
  cases slot with
  | entries es =>
      simp only [Slot.Conforms, shape] at h
      exact ⟨es, rfl, h⟩
  | none | one _ | many _ => simp only [Slot.Conforms, shape] at h
  | choice _ _ => simp only [Slot.Conforms, Member.alternative?, shape] at h

/-- A member that holds one of several alternatives. -/
theorem of_oneof (h : slot.Conforms s m) {alternatives : List Alternative}
    (shape : m.shape = .oneof alternatives)
    : slot = .none
      ∨ ∃ tag v a, slot = .choice tag v ∧ m.alternative? tag = some a ∧ v.Conforms s a.type := by
  cases slot with
  | none => exact .inl rfl
  | one _ | many _ | entries _ => simp only [Slot.Conforms, shape] at h
  | choice tag v =>
      cases found : m.alternative? tag with
      | none => simp only [Slot.Conforms, found] at h
      | some a =>
          simp only [Slot.Conforms, found] at h
          exact .inr ⟨tag, v, a, rfl, found, h⟩

end Slot.Conforms

-----------------------------------------------------------------------------------------
-- Empty messages
-----------------------------------------------------------------------------------------

/-- A default has its type. -/
theorem ScalarType.hasType_default (type : ScalarType)
    : type.default.hasType type := by
  cases type with
  | string capacity =>
      have nothing : Text.utf8 "" = [] := rfl
      cases capacity <;> simp [Scalar.hasType, default, withinCapacity, nothing]
  | bytes capacity => cases capacity <;> simp [Scalar.hasType, default, withinCapacity]
  | _ => rfl

/-- What a member holds before it is set is what it declares. -/
theorem Shape.conforms_emptySlot {m : Member}
    (embedded : ∀ name, m.shape = .single (.message name)
      → (s.empty name).Conforms s (s.type name))
    : (m.shape.emptySlot s.empty).Conforms s m := by
  cases shape : m.shape with
  | single type =>
      cases type with
      | scalar type =>
          simp only [emptySlot, Slot.Conforms, shape, Value.Conforms]
          exact type.hasType_default
      | message name =>
          simp only [emptySlot, Slot.Conforms, shape, Value.Conforms]
          exact embedded name shape
  | optional _ | oneof _ => simp only [emptySlot, Slot.Conforms, shape]
  | repeated _ _ _ => simp only [emptySlot, Slot.Conforms, shape, elementsConform]
  | map _ _ => simp only [emptySlot, Slot.Conforms, shape, entriesConform, ordered_nil, and_self]

/-- The empty message of a type is of the type, by induction on the types that it embeds. -/
theorem Schema.Lawful.conforms_empty (h : s.Lawful) (name : String)
    : (s.empty name).Conforms s (s.type name) := by
  refine h.embedded_induction (P := fun name => (s.empty name).Conforms s (s.type name)) ?_ name
  intro name embedded
  have slots : ∀ members : List Member, (∀ m ∈ members, m ∈ (s.type name).members)
      → slotsConform s members (members.map fun m => m.shape.emptySlot s.empty) := by
    intro members
    induction members with
    | nil => exact fun _ => rfl
    | cons m members ih =>
        intro included
        obtain ⟨member, others⟩ := List.forall_mem_cons.mp included
        have first := Shape.conforms_emptySlot fun inner shape =>
          embedded inner (MessageType.embeds_of_mem member shape)
        exact ⟨first, ih others⟩
  rw [h.empty_eq name]
  refine ⟨slots _ fun _ member => member, ?_⟩
  split
  · exact .nil
  · rfl

/-- The default of a type conforms. -/
theorem Schema.Lawful.conforms_emptyValue (h : s.Lawful) (type : ValueType)
    : (s.emptyValue type).Conforms s type := by
  cases type with
  | scalar type => exact type.hasType_default
  | message name => exact h.conforms_empty name

end Protobuf
