import Protobuf.Proofs.Message.Conformance

/-! Messages apart from their unknown bytes.  A program may put any bytes where unknown records are
kept; what it can not do is to put a value of another type into a slot.
-/

namespace Protobuf

mutual

/-- The value without unknown bytes at any depth. -/
def Value.known : Value → Value
  | .scalar v => .scalar v
  | .message m => .message m.known

/-- The message without unknown bytes at any depth. -/
def Message.known : Message → Message
  | ⟨slots, _⟩ => ⟨slotsKnown slots, []⟩

/-- The slots without the unknown bytes of the messages inside them. -/
def slotsKnown : List Slot → List Slot
  | [] => []
  | slot :: slots => slot.known :: slotsKnown slots

/-- What is stored in a slot, without the unknown bytes of messages. -/
def Slot.known : Slot → Slot
  | .none => .none
  | .one v => .one v.known
  | .many vs => .many (elementsKnown vs)
  | .entries es => .entries (entriesKnown es)
  | .choice tag v => .choice tag v.known

def elementsKnown : List Value → List Value
  | [] => []
  | v :: vs => v.known :: elementsKnown vs

def entriesKnown : List Entry → List Entry
  | [] => []
  | ⟨key, v⟩ :: es => ⟨key, v.known⟩ :: entriesKnown es

end

/-- The message is of the type, whatever its unknown bytes are. -/
def Message.Typed (s : Schema) (t : MessageType) (m : Message) : Prop :=
  m.known.Conforms s t

variable {s : Schema} {t : MessageType}

-----------------------------------------------------------------------------------------
-- Messages of their type
-----------------------------------------------------------------------------------------

/-- Dropping unknown bytes keeps the keys of a map. -/
theorem map_key_entriesKnown (es : List Entry)
    : (entriesKnown es).map (·.key) = es.map (·.key) := by
  induction es with
  | nil => rfl
  | cons e es ih =>
      obtain ⟨key, v⟩ := e
      simp [entriesKnown, ih]

/-- Order is a matter of the keys. -/
theorem ordered_iff_keys {type : ScalarType} {es : List Entry}
    : Ordered type es ↔ (∀ key ∈ es.map (·.key), key.hasType type)
        ∧ (es.map (·.key)).Pairwise fun a b => Scalar.compareKeys a b = .lt := by
  rw [List.forall_mem_map, List.pairwise_map]
  exact ⟨fun h => ⟨h.typed, h.ascending⟩, fun h => ⟨h.1, h.2⟩⟩

/-- Dropping unknown bytes keeps the order of a map. -/
theorem ordered_entriesKnown {type : ScalarType} {es : List Entry}
    : Ordered type (entriesKnown es) ↔ Ordered type es := by
  rw [ordered_iff_keys, ordered_iff_keys, map_key_entriesKnown]

mutual

/-- A value of a type stays one without unknown bytes, by induction on it. -/
theorem Value.Conforms.known {type : ValueType} (v : Value) (h : v.Conforms s type)
    : v.known.Conforms s type := by
  cases v with
  | scalar v => exact h
  | message m =>
      cases type with
      | scalar type => exact h
      | message name => exact Message.Conforms.typed m h

/-- A message that conforms is of its type. -/
theorem Message.Conforms.typed {t : MessageType} (m : Message) (h : m.Conforms s t)
    : m.Typed s t := by
  cases m with
  | mk slots unknown =>
      refine ⟨slotsConform_known t.members slots h.1, ?_⟩
      split
      · exact .nil
      · rfl

/-- Slots conform without unknown bytes if they do with them. -/
theorem slotsConform_known (members : List Member) (slots : List Slot)
    (h : slotsConform s members slots)
    : slotsConform s members (slotsKnown slots) := by
  cases slots with
  | nil => exact h
  | cons slot slots =>
      cases members with
      | nil => exact h
      | cons m members =>
          exact ⟨Slot.Conforms.known m slot h.1, slotsConform_known members slots h.2⟩

theorem Slot.Conforms.known (m : Member) (slot : Slot) (h : slot.Conforms s m)
    : slot.known.Conforms s m := by
  cases slot with
  | none => exact h
  | one v =>
      simp only [Slot.known, Slot.Conforms] at h ⊢
      split at h
      · exact Value.Conforms.known v h
      · exact Value.Conforms.known v h
      · exact h
  | many vs =>
      simp only [Slot.known, Slot.Conforms] at h ⊢
      split at h
      · exact elementsConform_known _ vs h
      · exact h
  | entries es =>
      simp only [Slot.known, Slot.Conforms] at h ⊢
      split at h
      · exact ⟨ordered_entriesKnown.mpr h.1, entriesConform_known _ es h.2⟩
      · exact h
  | choice tag v =>
      simp only [Slot.known, Slot.Conforms] at h ⊢
      split at h
      · exact Value.Conforms.known v h
      · exact h

theorem elementsConform_known (type : ValueType) (vs : List Value)
    (h : elementsConform s type vs)
    : elementsConform s type (elementsKnown vs) := by
  cases vs with
  | nil => exact h
  | cons v vs => exact ⟨Value.Conforms.known v h.1, elementsConform_known type vs h.2⟩

theorem entriesConform_known (type : ValueType) (es : List Entry)
    (h : entriesConform s type es)
    : entriesConform s type (entriesKnown es) := by
  cases es with
  | nil => exact h
  | cons e es =>
      cases e with
      | mk key v => exact ⟨Value.Conforms.known v h.1, entriesConform_known type es h.2⟩

end

-----------------------------------------------------------------------------------------
-- What a member holds, by its shape
-----------------------------------------------------------------------------------------

namespace Slot

variable {m : Member} {slot : Slot} {type : ValueType}

/-- A singular member holds a value of its type. -/
theorem one_of_known (h : slot.known.Conforms s m) (shape : m.shape = .single type)
    : ∃ v, slot = .one v ∧ v.known.Conforms s type := by
  obtain ⟨v, same, typed⟩ := h.of_single shape
  cases slot <;> cases same
  exact ⟨_, rfl, typed⟩

/-- An optional member holds a value of its type or nothing. -/
theorem optional_of_known (h : slot.known.Conforms s m) (shape : m.shape = .optional type)
    : slot = .none ∨ ∃ v, slot = .one v ∧ v.known.Conforms s type := by
  rcases h.of_optional shape with same | ⟨v, same, typed⟩
  · cases slot <;> cases same
    exact .inl rfl
  · cases slot <;> cases same
    exact .inr ⟨_, rfl, typed⟩

/-- A repeated member holds a list of values of its type. -/
theorem many_of_known (h : slot.known.Conforms s m) {packed : Bool} {capacity : Option Nat}
    (shape : m.shape = .repeated type packed capacity)
    : ∃ vs, slot = .many vs ∧ elementsConform s type (elementsKnown vs) := by
  obtain ⟨vs, same, typed⟩ := h.of_repeated shape
  cases slot <;> cases same
  exact ⟨_, rfl, typed⟩

/-- A map holds entries in ascending order of their keys. -/
theorem entries_of_known (h : slot.known.Conforms s m) {key : ScalarType}
    (shape : m.shape = .map key type)
    : ∃ es, slot = .entries es ∧ Ordered key es ∧ entriesConform s type (entriesKnown es) := by
  obtain ⟨es, same, ordered, typed⟩ := h.of_map shape
  cases slot <;> cases same
  exact ⟨_, rfl, ordered_entriesKnown.mp ordered, typed⟩

/-- A choice holds nothing or a value of the alternative that has its number. -/
theorem choice_of_known (h : slot.known.Conforms s m) {alternatives : List Alternative}
    (shape : m.shape = .oneof alternatives)
    : slot = .none ∨ ∃ tag v a, slot = .choice tag v ∧ m.alternative? tag = some a
        ∧ v.known.Conforms s a.type := by
  rcases h.of_oneof shape with same | ⟨tag, v, a, same, found, typed⟩
  · cases slot <;> cases same
    exact .inl rfl
  · cases slot <;> cases same
    exact .inr ⟨_, _, a, rfl, found, typed⟩

end Slot

/-- A scalar type has scalars for its values. -/
theorem scalar_of_known {type : ScalarType} {v : Value}
    (h : v.known.Conforms s (.scalar type))
    : ∃ w, v = .scalar w ∧ w.hasType type := by
  cases v with
  | scalar w => exact ⟨w, rfl, h⟩
  | message m => exact h.elim

/-- A message type has messages for its values. -/
theorem message_of_known {name : String} {v : Value}
    (h : v.known.Conforms s (.message name))
    : ∃ m : Message, v = .message m ∧ m.Typed s (s.type name) := by
  cases v with
  | scalar w => exact h.elim
  | message m => exact ⟨m, rfl, h⟩

/-- There is a slot for the first member. -/
theorem slotsKnown_cons {m : Member} {members : List Member} {slots : List Slot}
    (h : slotsConform s (m :: members) (slotsKnown slots))
    : ∃ slot others, slots = slot :: others ∧ slot.known.Conforms s m
        ∧ slotsConform s members (slotsKnown others) := by
  cases slots with
  | nil => cases h
  | cons slot others => exact ⟨slot, others, rfl, h.1, h.2⟩

/-- There are no slots beyond the members. -/
theorem slotsKnown_nil {slots : List Slot} (h : slotsConform s [] (slotsKnown slots))
    : slots = [] := by
  cases slots with
  | nil => rfl
  | cons slot others => exact h.elim

end Protobuf
