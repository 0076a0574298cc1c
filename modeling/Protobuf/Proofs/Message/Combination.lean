import Protobuf.Message.Write
import Protobuf.Proofs.Message.Conformance

/-! What two messages are together, and the normal form in which a message comes back from its
bytes.  A combination takes the set parts of the second message, and recurses into messages that
both hold; the normal form drops the sign of zeros that are not written.
-/

namespace Protobuf

-----------------------------------------------------------------------------------------
-- Normal forms
-----------------------------------------------------------------------------------------

/-- The value with a positive zero in the place of a negative one. -/
def Scalar.positiveZero : Scalar → Scalar
  | .float bits => .float (if floatIsZero bits then 0 else bits)
  | .double bits => .double (if doubleIsZero bits then 0 else bits)
  | v => v

/-- A scalar with a positive zero in the place of a negative one. -/
def Value.positiveZero : Value → Value
  | .scalar v => .scalar v.positiveZero
  | .message m => .message m

mutual

/-- The value as it comes back from its bytes. -/
def Value.normal (s : Schema) (type : ValueType) : Value → Value
  | .scalar v => .scalar v
  | .message m =>
      match type with
      | .scalar _ => .message m
      | .message name => .message (m.normal s (s.type name))

/-- The message as it comes back from its bytes: a scalar without presence that is a negative zero
comes back as a positive one, everything else as it is.
-/
def Message.normal (s : Schema) (t : MessageType) : Message → Message
  | ⟨slots, unknown⟩ => ⟨slotsNormal s t.members slots, unknown⟩

def slotsNormal (s : Schema) (members : List Member) : List Slot → List Slot
  | [] => []
  | slot :: slots =>
      match members with
      | [] => slot :: slots
      | m :: members => slot.normal s m :: slotsNormal s members slots

def Slot.normal (s : Schema) (m : Member) : Slot → Slot
  | .none => .none
  | .one v =>
      match m.shape with
      | .single type => .one (v.normal s type).positiveZero
      | .optional type => .one (v.normal s type)
      | _ => .one v
  | .many vs =>
      match m.shape with
      | .repeated type _ _ => .many (elementsNormal s type vs)
      | _ => .many vs
  | .entries es =>
      match m.shape with
      | .map _ value => .entries (entriesNormal s value es)
      | _ => .entries es
  | .choice tag v =>
      match m.alternative? tag with
      | some a => .choice tag (v.normal s a.type)
      | none => .choice tag v

def elementsNormal (s : Schema) (type : ValueType) : List Value → List Value
  | [] => []
  | v :: vs => v.normal s type :: elementsNormal s type vs

def entriesNormal (s : Schema) (value : ValueType) : List Entry → List Entry
  | [] => []
  | ⟨k, v⟩ :: es => ⟨k, v.normal s value⟩ :: entriesNormal s value es

end

-----------------------------------------------------------------------------------------
-- Combinations
-----------------------------------------------------------------------------------------

mutual

/-- A scalar is the second one, messages are combined. -/
def Value.combine (s : Schema) (type : ValueType) (x : Value) : Value → Value
  | .scalar v => .scalar v
  | .message m =>
      match type, x with
      | .message name, .message n => .message (n.combine s (s.type name) m)
      | _, _ => .message m
termination_by structural y => y

/-- The second message on top of the first: members one by one, and the unknown records of both. -/
def Message.combine (s : Schema) (t : MessageType) (x : Message) : Message → Message
  | ⟨slots, unknown⟩ => ⟨slotsCombine s t.members x.slots slots, x.unknown ++ unknown⟩
termination_by structural y => y

def slotsCombine (s : Schema) (members : List Member) (xs : List Slot) : List Slot → List Slot
  | [] => []
  | slot :: slots =>
      match members, xs with
      | m :: members, x :: xs => x.combine s m slot :: slotsCombine s members xs slots
      | _, _ => slot :: slots
termination_by structural ys => ys

/-- A scalar without presence is the second one unless that is a default; what is optional is the
second one if it is set.  Elements are appended and maps united.  Alternatives of a oneof are
combined if they are the same; otherwise the second one counts, if one is set.
-/
def Slot.combine (s : Schema) (m : Member) (x : Slot) : Slot → Slot
  | .none => x
  | .one v =>
      match m.shape, x with
      | .single type, .one u => .one (if v.isOmitted then u else u.combine s type v)
      | .optional type, .one u => .one (u.combine s type v)
      | _, _ => .one v
  | .many vs =>
      match x with
      | .many us => .many (us ++ vs)
      | _ => .many vs
  | .entries es =>
      match x with
      | .entries ds => .entries (sortEntries (unionEntries ds es))
      | _ => .entries es
  | .choice tag v =>
      match m.alternative? tag, x with
      | some a, .choice old u => .choice tag (if old = tag then u.combine s a.type v else v)
      | _, _ => .choice tag v
termination_by structural y => y

end

-----------------------------------------------------------------------------------------
-- Lists of values
-----------------------------------------------------------------------------------------

variable {s : Schema}

theorem elementsNormal_append {type : ValueType} (us vs : List Value)
    : elementsNormal s type (us ++ vs) = elementsNormal s type us ++ elementsNormal s type vs := by
  induction us with
  | nil => rfl
  | cons u us ih => simp only [List.cons_append, elementsNormal, ih]

@[simp]
theorem length_elementsNormal {type : ValueType} (vs : List Value)
    : (elementsNormal s type vs).length = vs.length := by
  induction vs with
  | nil => rfl
  | cons v vs ih => simp only [elementsNormal, List.length_cons, ih]

theorem entriesNormal_insert {value : ValueType} (k : Scalar) (v : Value) (es : List Entry)
    : entriesNormal s value (insertEntry k v es)
        = insertEntry k (v.normal s value) (entriesNormal s value es) := by
  induction es with
  | nil => rfl
  | cons e es ih =>
      obtain ⟨k', v'⟩ := e
      simp only [insertEntry, entriesNormal]
      split <;> simp only [entriesNormal, ih]

theorem entriesNormal_insertEntries {value : ValueType} (xs es : List Entry)
    : entriesNormal s value (insertEntries xs es)
        = insertEntries (entriesNormal s value xs) (entriesNormal s value es) := by
  induction es generalizing xs with
  | nil => rfl
  | cons e es ih =>
      obtain ⟨k, v⟩ := e
      have later := ih (insertEntry k v xs)
      rw [entriesNormal_insert] at later
      exact later

theorem Scalar.positiveZero_of_isDefault {type : ScalarType} {v : Scalar} (typed : v.hasType type)
    (h : v.isDefault)
    : v.positiveZero = type.default := by
  cases type <;> cases v <;> try cases typed
  all_goals simp_all [isDefault, positiveZero, ScalarType.default]

theorem Scalar.positiveZero_of_not_isDefault {v : Scalar} (h : v.isDefault = false)
    : v.positiveZero = v := by
  cases v <;> simp_all [isDefault, positiveZero]

theorem ScalarType.positiveZero_default (type : ScalarType)
    : type.default.positiveZero = type.default := by
  cases type <;> rfl

-----------------------------------------------------------------------------------------
-- Empty messages
-----------------------------------------------------------------------------------------

theorem Shape.normal_emptySlot {m : Member}
    (embedded : ∀ name, m.shape = .single (.message name)
      → (s.empty name).normal s (s.type name) = s.empty name)
    : (m.shape.emptySlot s.empty).normal s m = m.shape.emptySlot s.empty := by
  cases shape : m.shape with
  | single type =>
      cases type with
      | scalar type =>
          simp only [emptySlot, Slot.normal, shape, Value.normal, Value.positiveZero,
            type.positiveZero_default]
      | message name =>
          simp only [emptySlot, Slot.normal, shape, Value.normal, embedded name shape,
            Value.positiveZero]
  | optional _ | repeated _ _ _ | map _ _ | oneof _ =>
      simp only [emptySlot, Slot.normal, shape, elementsNormal, entriesNormal]

/-- An empty message is in normal form, by induction on the types that it embeds. -/
theorem Schema.Lawful.normal_empty (h : s.Lawful) (name : String)
    : (s.empty name).normal s (s.type name) = s.empty name := by
  refine h.embedded_induction
    (P := fun name => (s.empty name).normal s (s.type name) = s.empty name) ?_ name
  intro name embedded
  have slots : ∀ members : List Member, (∀ m ∈ members, m ∈ (s.type name).members)
      → slotsNormal s members (members.map fun m => m.shape.emptySlot s.empty)
        = members.map fun m => m.shape.emptySlot s.empty := by
    intro members
    induction members with
    | nil => exact fun _ => rfl
    | cons m members ih =>
        intro included
        obtain ⟨member, others⟩ := List.forall_mem_cons.mp included
        have first := Shape.normal_emptySlot fun inner shape =>
          embedded inner (MessageType.embeds_of_mem member shape)
        simp only [List.map_cons, slotsNormal, first, ih others]
  rw [h.empty_eq name]
  simp only [Message.normal, slots _ fun _ member => member]

theorem Schema.Lawful.normal_emptyValue (h : s.Lawful) (type : ValueType)
    : (s.emptyValue type).normal s type = s.emptyValue type := by
  cases type with
  | scalar type => rfl
  | message name => simp only [Schema.emptyValue, Value.normal, h.normal_empty name]

/-- Only a member that always holds a value keeps something of the empty message. -/
theorem Slot.combine_emptySlot {m : Member} {slot : Slot} (lawful : m.shape.isLawful)
    (conforms : slot.Conforms s m) (h : ∀ type, m.shape ≠ .single type)
    : (m.shape.emptySlot s.empty).combine s m slot = slot := by
  cases shape : m.shape with
  | single type => exact absurd shape (h type)
  | optional type =>
      rcases conforms.of_optional shape with rfl | ⟨v, rfl, -⟩
      · simp only [Shape.emptySlot, combine]
      · simp only [Shape.emptySlot, combine, shape]
  | repeated type packed capacity =>
      obtain ⟨vs, rfl, -⟩ := conforms.of_repeated shape
      simp only [Shape.emptySlot, combine, List.nil_append]
  | map key value =>
      obtain ⟨es, rfl, ordered, -⟩ := conforms.of_map shape
      rw [shape] at lawful
      simp only [Shape.emptySlot, combine, unionEntries, List.filter_nil, List.nil_append,
        ordered.sortEntries_eq lawful]
  | oneof alternatives =>
      rcases conforms.of_oneof shape with rfl | ⟨tag, v, a, rfl, found, -⟩
      · simp only [Shape.emptySlot, combine]
      · simp only [Shape.emptySlot, combine, found]

mutual

/-- A message on top of an empty one is the message itself, up to zeros that are not written. -/
theorem Message.normal_combine_empty (h : s.Lawful) (name : String) (y : Message)
    (conforms : y.Conforms s (s.type name))
    : ((s.empty name).combine s (s.type name) y).normal s (s.type name)
        = y.normal s (s.type name) := by
  cases y with
  | mk slots unknown =>
      have members := slotsNormal_combine_empty h (s.type name).members (h.type name).shapes slots
        conforms.1
      rw [h.empty_eq name]
      simp only [Message.combine, Message.normal, members, List.nil_append]

theorem slotsNormal_combine_empty (h : s.Lawful) (members : List Member)
    (lawful : ∀ m ∈ members, m.shape.isLawful) (slots : List Slot)
    (conforms : slotsConform s members slots)
    : slotsNormal s members
          (slotsCombine s members (members.map fun m => m.shape.emptySlot s.empty) slots)
        = slotsNormal s members slots := by
  cases slots with
  | nil => rfl
  | cons slot slots =>
      cases members with
      | nil => cases conforms
      | cons m members =>
          obtain ⟨first, others⟩ := List.forall_mem_cons.mp lawful
          simp only [List.map_cons, slotsCombine, slotsNormal,
            slot.normal_combine_empty h m first conforms.1,
            slotsNormal_combine_empty h members others slots conforms.2]

theorem Slot.normal_combine_empty (h : s.Lawful) (m : Member) (lawful : m.shape.isLawful)
    (slot : Slot) (conforms : slot.Conforms s m)
    : ((m.shape.emptySlot s.empty).combine s m slot).normal s m = slot.normal s m := by
  by_cases single : ∀ type, m.shape ≠ .single type
  · rw [slot.combine_emptySlot lawful conforms single]
  obtain ⟨type, shape⟩ : ∃ type, m.shape = .single type := by simpa using single
  cases slot with
  | one v =>
      simp only [Slot.Conforms, shape] at conforms
      cases v with
      | scalar v =>
          cases type with
          | message name => cases conforms
          | scalar type =>
              cases omitted : v.isDefault with
              | false =>
                  simp only [shape, Shape.emptySlot, Slot.combine, Value.isOmitted, omitted,
                    Bool.false_eq_true, if_false, Value.combine]
              | true =>
                  simp only [shape, Shape.emptySlot, Slot.combine, Value.isOmitted, omitted,
                    if_true, Slot.normal, Value.normal, Value.positiveZero,
                    Scalar.positiveZero_of_isDefault conforms omitted,
                    type.positiveZero_default]
      | message y =>
          cases type with
          | scalar type => cases conforms
          | message name =>
              simp only [shape, Shape.emptySlot, Slot.combine, Value.isOmitted,
                Bool.false_eq_true, if_false, Value.combine, Slot.normal, Value.normal,
                y.normal_combine_empty h name conforms]
  | none | many _ | entries _ => simp only [Slot.Conforms, shape] at conforms
  | choice tag v => simp only [Slot.Conforms, Member.alternative?, shape] at conforms

end

mutual

/-- An empty message does not make the lists of a message longer. -/
theorem Message.fits_combine_empty (h : s.Lawful) (name : String) (y : Message)
    (conforms : y.Conforms s (s.type name)) (fits : y.Fits s (s.type name))
    : ((s.empty name).combine s (s.type name) y).Fits s (s.type name) := by
  cases y with
  | mk slots unknown =>
      rw [h.empty_eq name]
      simp only [Message.combine, Message.Fits] at fits ⊢
      exact slotsFit_combine_empty h (s.type name).members (h.type name).shapes slots conforms.1
        fits

theorem slotsFit_combine_empty (h : s.Lawful) (members : List Member)
    (lawful : ∀ m ∈ members, m.shape.isLawful) (slots : List Slot)
    (conforms : slotsConform s members slots) (fits : slotsFit s members slots)
    : slotsFit s members
        (slotsCombine s members (members.map fun m => m.shape.emptySlot s.empty) slots) := by
  cases slots with
  | nil => trivial
  | cons slot slots =>
      cases members with
      | nil => cases conforms
      | cons m members =>
          obtain ⟨first, others⟩ := List.forall_mem_cons.mp lawful
          exact ⟨slot.fits_combine_empty h m first conforms.1 fits.1,
            slotsFit_combine_empty h members others slots conforms.2 fits.2⟩

theorem Slot.fits_combine_empty (h : s.Lawful) (m : Member) (lawful : m.shape.isLawful)
    (slot : Slot) (conforms : slot.Conforms s m) (fits : slot.Fits s m)
    : ((m.shape.emptySlot s.empty).combine s m slot).Fits s m := by
  by_cases single : ∀ type, m.shape ≠ .single type
  · rw [slot.combine_emptySlot lawful conforms single]
    exact fits
  obtain ⟨type, shape⟩ : ∃ type, m.shape = .single type := by simpa using single
  cases slot with
  | one v =>
      simp only [Slot.Conforms, Slot.Fits, shape] at conforms fits
      cases v with
      | scalar v =>
          cases type with
          | message name => cases conforms
          | scalar type =>
              cases omitted : v.isDefault <;>
                simp only [shape, Shape.emptySlot, Slot.combine, Value.isOmitted, omitted,
                  if_true, Bool.false_eq_true, if_false, Value.combine, Slot.Fits, Value.Fits]
      | message y =>
          cases type with
          | scalar type => cases conforms
          | message name =>
              simp only [shape, Shape.emptySlot, Slot.combine, Value.isOmitted,
                Bool.false_eq_true, if_false, Value.combine, Slot.Fits, Value.Fits]
              exact y.fits_combine_empty h name conforms fits
  | none | many _ | entries _ => simp only [Slot.Conforms, shape] at conforms
  | choice tag v => simp only [Slot.Conforms, Member.alternative?, shape] at conforms

end

/-- The same for a value on top of the one before it is set. -/
theorem Value.normal_combine_empty (h : s.Lawful) {type : ValueType} {v : Value}
    (conforms : v.Conforms s type)
    : ((s.emptyValue type).combine s type v).normal s type = v.normal s type := by
  cases v with
  | scalar v => rfl
  | message y =>
      cases type with
      | scalar type => cases conforms
      | message name =>
          simp only [Schema.emptyValue, Value.combine, Value.normal,
            y.normal_combine_empty h name conforms]

theorem Value.fits_combine_empty (h : s.Lawful) {type : ValueType} {v : Value}
    (conforms : v.Conforms s type) (fits : v.Fits s type)
    : ((s.emptyValue type).combine s type v).Fits s type := by
  cases v with
  | scalar v => trivial
  | message y =>
      cases type with
      | scalar type => cases conforms
      | message name =>
          simp only [Schema.emptyValue, Value.combine, Value.Fits]
          exact y.fits_combine_empty h name conforms fits

end Protobuf
