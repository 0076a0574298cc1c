import Protobuf.Proofs.Json.SideBySide

/-! Reading on top of a message.  A document that is read into a message gives what it gives for an
empty one, put on top of the message as the bytes of another one would be; unless it takes back or
replaces what is set there.
-/

namespace Protobuf.Json

open WellKnown

-----------------------------------------------------------------------------------------
-- Documents that go on top of a message
-----------------------------------------------------------------------------------------

section

variable (s : Schema)

/-- The document gives a value of the type; a null does so only where it is a value. -/
def Node.Gives (type : ValueType) (n : Node) : Prop :=
  n.kind ≠ .null ∨ nullIsValue s type = true

/-- Whatever is read from the document without a fault has the property. -/
def Node.Brings {α : Type} (n : Node) (read : Reader → α × Reader) (P : α → Prop) : Prop :=
  ∀ r : Reader, r.Fronts n → (read r).2.fault = none → P (read r).1

mutual

/-- What the document gives for the message is put on top of what is set there, as bytes are. -/
inductive Admits : MessageType → Message → Node → Prop
  /-- Nothing is set that could be in the way. -/
  | unset {t : MessageType} {m : Message} {n : Node}
    (unset : List.Forall₂ (Slot.Unset s) t.members m.slots)
    : Admits t m n
  /-- Fields and items are put behind those that are there. -/
  | collection {t : MessageType} {m : Message} {n : Node}
    (form : t.form = .struct ∨ t.form = .listValue)
    : Admits t m n
  /-- Scalars replace those that are there, unless they are defaults. -/
  | scalars {t : MessageType} {m : Message} {n : Node}
    (form : t.form ∈ [.bare, .wrapper, .timestamp, .duration])
    (way : n.Brings (readSlots s (readMessage s) t m.slots) (List.Forall₂ Slot.GivesWay m.slots))
    : Admits t m n
  /-- A dynamic value is replaced, unless an object or array meets another one. -/
  | dynamic {t : MessageType} {m : Message} {n : Node} (form : t.form = .value)
    (object : n.kind = .object → ∀ inner, m.slots ≠ [.choice 5 (.message inner)])
    (array : n.kind = .array → ∀ inner, m.slots ≠ [.choice 6 (.message inner)])
    : Admits t m n
  /-- Each key goes on top of the members that it names. -/
  | members {t : MessageType} {m : Message} {fields : List Field} (form : t.form = .members)
    (named : ∀ field ∈ fields, ∀ pair ∈ t.members.zip m.slots,
      SlotAdmits pair.1 field.key pair.2 field.value)
    : Admits t m (.object fields)

/-- What the value of the key gives for the member is put on top of the slot, as bytes are. -/
inductive SlotAdmits : Member → String → Slot → Node → Prop
  | unnamed {m : Member} {key : String} {slot : Slot} {n : Node} (member : ¬m.isCalled key)
    (alternative : m.called? key = none)
    : SlotAdmits m key slot n
  | unset {m : Member} {key : String} {slot : Slot} {n : Node} (unset : slot.Unset s m)
    : SlotAdmits m key slot n
  | single {m : Member} {key : String} {slot : Slot} {n : Node} {type : ScalarType}
    (shape : m.shape = .single (.scalar type)) (given : n.kind ≠ .null)
    (way : n.Brings (readScalar type) fun v => slot.GivesWay (.one (.scalar v)))
    : SlotAdmits m key slot n
  | optional {m : Member} {key : String} {slot : Slot} {n : Node} {type : ScalarType}
    (shape : m.shape = .optional (.scalar type)) (given : n.kind ≠ .null)
    : SlotAdmits m key slot n
  | elements {m : Member} {key : String} {slot : Slot} {n : Node} {type : ValueType} {packed : Bool}
    {capacity : Option Nat} (shape : m.shape = .repeated type packed capacity)
      (given : n.kind ≠ .null)
    : SlotAdmits m key slot n
  | entries {m : Member} {key : String} {slot : Slot} {n : Node} {keyType : ScalarType}
    {type : ValueType} (shape : m.shape = .map keyType type) (given : n.kind ≠ .null)
    : SlotAdmits m key slot n
  | message {m : Member} {key : String} {n : Node} {name : String} {inner : Message}
    (shape : m.shape = .single (.message name) ∨ m.shape = .optional (.message name))
    (given : n.Gives s (.message name)) (admits : Admits (s.type name) inner n)
    : SlotAdmits m key (.one (.message inner)) n
  /-- An alternative is replaced, unless it is a message that meets another one. -/
  | choice {m : Member} {key : String} {slot : Slot} {n : Node}
    (other : ∀ a, m.called? key = some a → n.Gives s a.type
      → ∀ inner, slot ≠ .choice a.tag (.message inner))
    (alternatives : ∃ alternatives, m.shape = .oneof alternatives)
    : SlotAdmits m key slot n

end

end

section

variable {s : Schema} {m : Member} {key : String} {n : Node} {x y z : Slot} {r : Reader}

/-- Every document goes on top of an empty message. -/
theorem admits_empty (lawful : s.Lawful) (name : String) (n : Node)
    : Admits s (s.type name) (s.empty name) n := by
  refine .unset ?_
  rw [lawful.empty_eq name]
  generalize (s.type name).members = members
  induction members with
  | nil => exact .nil
  | cons m members ih => exact .cons (.inl rfl) ih

/-- A null that stands for no value finds nothing set. -/
theorem SlotAdmits.unset_of_null (admits : SlotAdmits s m key x n) (called : m.isCalled key)
    (null : n.kind = .null)
    (cleared : ∀ type, m.shape = .single type ∨ m.shape = .optional type → ¬n.Gives s type)
    : x.Unset s m := by
  cases admits with
  | unset unset => exact unset
  | unnamed other _ => exact absurd called other
  | single _ given _ | optional _ given | elements _ given | entries _ given =>
      exact absurd null given
  | message shape given _ => exact absurd given (cleared _ shape)
  | choice _ alternatives =>
      obtain ⟨alternatives, shape⟩ := alternatives
      simp [Member.isCalled, shape] at called

theorem SlotAdmits.message_below (lawful : s.Lawful) (admits : SlotAdmits s m key x n)
    (called : m.isCalled key) {name : String}
    (shape : m.shape = .single (.message name) ∨ m.shape = .optional (.message name))
    : Admits s (s.type name) (x.message s name) n := by
  cases admits with
  | unset unset =>
      rcases unset with rfl | ⟨⟨type, scalar⟩, -⟩
      · rcases shape with shape | shape <;>
        · rw [shape]
          exact admits_empty lawful name n
      · rcases shape with shape | shape <;> simp [scalar] at shape
  | message own _ admits =>
      rcases shape with shape | shape <;> rcases own with own | own <;>
        cases shape.symm.trans own
      · exact admits
      · exact admits
  | unnamed other _ => exact absurd called other
  | single own _ _ | optional own _ | elements own _ | entries own _ =>
      rcases shape with shape | shape <;> cases shape.symm.trans own
  | choice _ alternatives =>
      obtain ⟨alternatives, own⟩ := alternatives
      rcases shape with shape | shape <;> cases shape.symm.trans own

theorem SlotAdmits.givesWay (admits : SlotAdmits s m key x n) (called : m.isCalled key)
    {type : ScalarType} (shape : m.shape = .single (.scalar type))
    : n.Brings (readScalar type) fun v => x.GivesWay (.one (.scalar v)) := by
  cases admits with
  | unset unset => exact fun _ _ _ => unset.givesWay shape _
  | single own _ way =>
      cases shape.symm.trans own
      exact way
  | unnamed other _ => exact absurd called other
  | optional own _ | elements own _ | entries own _ => cases shape.symm.trans own
  | message own _ _ => rcases own with own | own <;> cases shape.symm.trans own
  | choice _ alternatives =>
      obtain ⟨alternatives, own⟩ := alternatives
      cases shape.symm.trans own

theorem shape_of_called {a : Alternative} (called : m.called? key = some a)
    : ∃ alternatives, m.shape = .oneof alternatives := by
  unfold Member.called? at called
  split at called
  · exact ⟨_, ‹_›⟩
  · cases called

theorem SlotAdmits.apart (admits : SlotAdmits s m key x n) {a : Alternative}
    (called : m.called? key = some a) (given : n.Gives s a.type) (inner : Message)
    : x ≠ .choice a.tag (.message inner) := by
  obtain ⟨alternatives, shape⟩ := shape_of_called called
  cases admits with
  | choice other _ => exact other a called given inner
  | unset unset =>
      rcases unset with rfl | ⟨⟨type, single⟩, -⟩
      · simp [shape, Shape.emptySlot]
      · cases shape.symm.trans single
  | unnamed _ other => cases called.symm.trans other
  | single own _ _ | optional own _ | elements own _ | entries own _ => cases shape.symm.trans own
  | message own _ _ => rcases own with own | own <;> cases shape.symm.trans own

-----------------------------------------------------------------------------------------
-- Slots
-----------------------------------------------------------------------------------------

/-- Messages are read side by side at the document. -/
def LayersAt (s : Schema) (n : Node) : Prop :=
  ∀ name x y z (r : Reader), x.Conforms s (s.type name) → y.Sound s (s.type name)
    → Admits s (s.type name) x n → r.Fronts n
    → Layered (x.Room s (s.type name)) (x.Joins s (s.type name)) y z
        (readMessage s (s.type name) y r) (readMessage s (s.type name) z r)

theorem null_of_fronts (front : r.Fronts n)
    : n.kind ≠ .null ∧ r.null = (false, r) ∨ n.kind = .null ∧ ∃ q, r.null = (true, q) := by
  obtain ⟨more, faces⟩ := front.faces
  by_cases null : n.kind = .null
  · obtain rfl : n = .null := by
      cases n with
      | null => rfl
      | bool | number | string | array | object => cases null
    exact .inr ⟨null, _, reads_null r more faces⟩
  · exact .inl ⟨null, faces.null_of_ne null⟩

/-- A null is cleared away unless it is a value of the type. -/
theorem clearingNull_of_fronts (type : ValueType) (front : r.Fronts n)
    : n.Gives s type ∧ clearingNull s type r = (false, r)
      ∨ ¬n.Gives s type ∧ ∃ q, clearingNull s type r = (true, q) := by
  unfold clearingNull Node.Gives
  cases value : nullIsValue s type with
  | true => exact .inl ⟨.inr rfl, rfl⟩
  | false =>
      rcases null_of_fronts front with ⟨given, same⟩ | ⟨null, cleared⟩
      · exact .inl ⟨.inl given, same⟩
      · exact .inr ⟨by simp [null], cleared⟩

/-- The slot is set back in both readings. -/
theorem layered_cleared (lawful : s.Lawful) (legal : m.shape.isLawful) (conforms : x.Conforms s m)
    (sound : y.Sound s m) (unset : x.Unset s m) (q : Reader)
    : Layered (x.Room s m) (x.Joins s m) y z (m.shape.emptySlot s.empty, q)
        (m.shape.emptySlot s.empty, q) :=
  layered_settled (unset.room lawful legal sound)
    (unset.normal_combine lawful legal conforms
      (Shape.conforms_emptySlot fun name _ => lawful.conforms_empty name)).symm

theorem layered_single_scalar (lawful : s.Lawful) {type : ScalarType}
    (shape : m.shape = .single (.scalar type)) (conforms : x.Conforms s m) (sound : y.Sound s m)
    (cleared : ¬n.Gives s (.scalar type) → x.Unset s m)
    (way : n.Brings (readScalar type) fun v => x.GivesWay (.one (.scalar v)))
    (front : r.Fronts n) (joined : x.Joins s m y z)
    : Layered (x.Room s m) (x.Joins s m) y z (readSlot s (readMessage s) m y r)
        (readSlot s (readMessage s) m z r) := by
  have legal : m.shape.isLawful := by rw [shape]; rfl
  have front : (r.addField m.name).Fronts n := front.congr rfl rfl rfl
  obtain ⟨w, rfl⟩ := joined.one_of_single shape conforms sound.1
  obtain ⟨v, rfl, -⟩ := sound.1.scalar shape
  rcases clearingNull_of_fronts (s := s) (.scalar type) front with ⟨-, given⟩ | ⟨null, q, given⟩
  · simp only [readSlot, shape, given, readValue]
    cases fault : (readScalar type (r.addField m.name)).2.fault with
    | some fault => exact layered_of_failed (by simp [fault])
    | none =>
        have typed : (Slot.one (.scalar (readScalar type (r.addField m.name)).1)).Conforms s m := by
          simp only [Slot.Conforms, shape]
          exact hasType_scalar type _
        exact layered_settled trivial ((way _ front fault).normal_combine shape conforms typed).symm
  · simp only [readSlot, shape, given]
    have cleared := layered_cleared (z := .one w) lawful legal conforms sound (cleared null) q
    rwa [shape] at cleared

theorem layered_optional_scalar (lawful : s.Lawful) {type : ScalarType}
    (shape : m.shape = .optional (.scalar type)) (conforms : x.Conforms s m) (sound : y.Sound s m)
    (cleared : ¬n.Gives s (.scalar type) → x.Unset s m) (front : r.Fronts n)
    : Layered (x.Room s m) (x.Joins s m) y z (readSlot s (readMessage s) m y r)
        (readSlot s (readMessage s) m z r) := by
  have legal : m.shape.isLawful := by rw [shape]; rfl
  have front : (r.addField m.name).Fronts n := front.congr rfl rfl rfl
  rcases clearingNull_of_fronts (s := s) (.scalar type) front with ⟨-, given⟩ | ⟨null, q, given⟩
  · simp only [readSlot, shape, given, readValue]
    generalize readScalar type (r.addField m.name) = read
    have room : x.Room s m y := by
      rcases sound.1.of_optional shape with rfl | ⟨v, rfl, typed⟩
      · trivial
      · cases v with
        | scalar v => trivial
        | message inner => cases typed
    refine layered_settled room ?_
    rcases conforms.of_optional shape with rfl | ⟨u, rfl, -⟩
    · rw [Slot.Joins, Slot.none_combine_one shape]
    · simp only [Slot.Joins, Slot.combine, shape, Value.combine]
  · simp only [readSlot, shape, given]
    have cleared := layered_cleared (z := z) lawful legal conforms sound (cleared null) q
    rwa [shape] at cleared

/-- A slot for a message reads into the message that it holds. -/
theorem readSlot_message {name : String}
    (shape : m.shape = .single (.message name) ∨ m.shape = .optional (.message name))
    (bears : z.Bears m name) {q : Reader}
    (given : clearingNull s (.message name) (r.addField m.name) = (false, q))
    : readSlot s (readMessage s) m z r
        = q.withField m.name fun r =>
            (.one (.message (readMessage s (s.type name) (z.message s name) r).1),
              (readMessage s (s.type name) (z.message s name) r).2) := by
  rcases bears with ⟨w, rfl⟩ | ⟨rfl, shape⟩
  · rcases shape with shape | shape <;>
    · simp only [readSlot, shape, given, readValue]
      rfl
  · simp only [readSlot, shape, given, readValue]
    rfl

theorem readSlot_cleared {name : String}
    (shape : m.shape = .single (.message name) ∨ m.shape = .optional (.message name))
    (bears : z.Bears m name) {q : Reader}
    (given : clearingNull s (.message name) (r.addField m.name) = (true, q))
    : readSlot s (readMessage s) m z r = (m.shape.emptySlot s.empty, q) := by
  rcases bears with ⟨w, rfl⟩ | ⟨rfl, shape⟩
  · rcases shape with shape | shape <;>
    · simp only [readSlot, shape, given]
      rfl
  · simp only [readSlot, shape, given]
    rfl

/-- A message in a slot is read into as one. -/
theorem layered_message (lawful : s.Lawful) (keeps : MessageReader.KeepsSound s (readMessage s))
    (inner : LayersAt s n) {name : String}
    (shape : m.shape = .single (.message name) ∨ m.shape = .optional (.message name))
    (conforms : x.Conforms s m) (sound : y.Sound s m)
    (cleared : ¬n.Gives s (.message name) → x.Unset s m)
    (admits : n.Gives s (.message name) → Admits s (s.type name) (x.message s name) n)
    (front : r.Fronts n) (joined : x.Joins s m y z)
    : Layered (x.Room s m) (x.Joins s m) y z (readSlot s (readMessage s) m y r)
        (readSlot s (readMessage s) m z r) := by
  have legal : m.shape.isLawful := by rcases shape with shape | shape <;> rw [shape] <;> rfl
  have front : (r.addField m.name).Fronts n := front.congr rfl rfl rfl
  have own := sound.1.bears shape
  obtain ⟨bears, below⟩ := joined.message shape lawful conforms sound.1
  rcases clearingNull_of_fronts (s := s) (.message name) front with ⟨given, kept⟩ | ⟨null, q, away⟩
  · rw [readSlot_message shape own kept, readSlot_message shape bears kept]
    have above : (y.message s name).Sound s (s.type name) := by
      rcases own with ⟨y, rfl⟩ | ⟨rfl, -⟩
      · exact (sound_one_iff shape).mp sound
      · exact lawful.sound_empty name
    have reading := inner name (x.message s name) (y.message s name) (z.message s name)
      { r.addField m.name with path := (r.addField m.name).path.push m.name }
      (conforms.message shape lawful) above (admits given) (front.congr rfl rfl rfl)
    have sound' := keeps name _
      { r.addField m.name with path := (r.addField m.name).path.push m.name }
      above
    refine Layered.field ⟨fun fault fit => ?_, fun fault fit _ => ?_⟩
    · exact Slot.room_of_message shape conforms sound.1
        (reading.back fault (Slot.room_message shape lawful conforms sound' fit))
    · obtain ⟨same, joins⟩ :=
        reading.onward fault (Slot.room_message shape lawful conforms sound' fit)
        below
      exact ⟨same, Slot.joins_of_message shape lawful conforms sound'.1 joins⟩
  · rw [readSlot_cleared shape own away, readSlot_cleared shape bears away]
    exact layered_cleared lawful legal conforms sound (cleared null) q

/-- One more element goes behind those of both lists, if there is room for all. -/
theorem layered_element (field : String) (type : ValueType) (capacity : Option Nat)
    (xs : List Value) (ys zs : List Value) (r : Reader)
    : Layered (fun ys : List Value => withinCapacity capacity (xs.length + ys.length))
        (fun ys zs => elementsNormal s type zs = elementsNormal s type (xs ++ ys)) ys zs
        (readElement s (readMessage s) field type capacity ys r)
        (readElement s (readMessage s) field type capacity zs r) := by
  simp only [readElement]
  generalize readValue s (readMessage s) field type (s.emptyValue type) r = read
  rcases appended : appendValue capacity ys read.1 with ⟨all, _ | e⟩
  · obtain ⟨rfl, -⟩ := appendValue_success appended
    have longer : xs.length + (ys ++ [read.1]).length = xs.length + ys.length + 1 := by
      simp [Nat.add_assoc]
    refine ⟨fun _ fit => withinCapacity_mono fit (longer ▸ Nat.le_succ _), fun _ fit joined => ?_⟩
    have length := congrArg List.length joined
    simp only [length_elementsNormal, List.length_append] at length
    dsimp only at fit
    rw [appendValue, length, if_pos (longer ▸ fit)]
    refine ⟨rfl, ?_⟩
    rw [elementsNormal_append, joined, ← elementsNormal_append, List.append_assoc]
  · exact layered_of_failed (Reader.isSome_latch _ _)

/-- One more entry goes into both maps. -/
theorem layered_insert {keyType : ScalarType} (isKey : keyType.isKey) {xs ys : List Entry}
    (below : Ordered keyType xs) (above : Ordered keyType ys) (type : ValueType) {k : Scalar}
    (typed : k.hasType keyType) (v : Value) (zs : List Entry) (q : Reader)
    : Layered (fun _ => True)
        (fun ys zs => entriesNormal s type zs = entriesNormal s type (insertEntries xs ys)) ys zs
        (insertEntry k v ys, q) (insertEntry k v zs, q) := by
  refine ⟨fun _ _ => trivial, fun _ _ joined => ⟨rfl, ?_⟩⟩
  dsimp only
  rw [insertEntries_insertEntry isKey typed v below above, entriesNormal_insert,
    entriesNormal_insert, joined]

theorem layered_entry {keyType : ScalarType} (isKey : keyType.isKey) {xs : List Entry}
    (below : Ordered keyType xs) (field : String) (type : ValueType) (key : String)
    {ys : List Entry} (above : Ordered keyType ys) (zs : List Entry) (r : Reader)
    : Layered (fun _ => True)
        (fun ys zs => entriesNormal s type zs = entriesNormal s type (insertEntries xs ys)) ys zs
        (readEntry s (readMessage s) field keyType type key ys r)
        (readEntry s (readMessage s) field keyType type key zs r) := by
  simp only [readEntry]
  cases spelled : keyOfText keyType key with
  | error refusal => exact layered_of_failed (Reader.isSome_latch _ _)
  | ok k => exact layered_insert isKey below above type (hasType_keyOfText spelled) _ zs _

/-- The value of an alternative's key takes the place of the one in the slot. -/
theorem layered_readAlternative {a : Alternative} (own : m.alternative? a.tag = some a)
    (called : m.called? key = some a) (conforms : x.Conforms s m) (sound : y.Sound s m)
    (admits : SlotAdmits s m key x n) (front : r.Fronts n)
    : Layered (x.Room s m) (x.Joins s m) y z (readAlternative s (readMessage s) a y r)
        (readAlternative s (readMessage s) a z r) := by
  have front : (r.addField a.name).Fronts n := front.congr rfl rfl rfl
  obtain ⟨alternatives, shape⟩ := shape_of_called called
  rcases clearingNull_of_fronts (s := s) a.type front with ⟨given, kept⟩ | ⟨-, q, away⟩
  · simp only [readAlternative, kept]
    generalize readValue s (readMessage s) a.name a.type (s.emptyValue a.type) _ = read
    have room : x.Room s m y := by
      rcases sound.1.of_oneof shape with rfl | ⟨tag, v, b, rfl, -⟩ <;> trivial
    exact layered_settled room (Slot.joins_choice own conforms fun inner same =>
      absurd same (admits.apart called given inner))
  · simp only [readAlternative, away]
    exact ⟨fun _ fit => fit, fun _ _ joined => ⟨rfl, joined⟩⟩

-----------------------------------------------------------------------------------------
-- Forms without members
-----------------------------------------------------------------------------------------

/-- What replaces all slots does so in both readings. -/
theorem layered_replaced {members : List Member} {xs ys zs : List Slot} {a b : List Slot × Reader}
    (same : b = a) (room : slotsRoom s members xs ys)
    (joins : a.2.fault = none → SlotsJoin s members xs a.1 a.1)
    : Layered (slotsRoom s members xs) (SlotsJoin s members xs) ys zs a b :=
  ⟨fun _ _ => room, fun fault _ _ => ⟨congrArg Prod.snd same, same ▸ joins fault⟩⟩

/-- Scalars that are all there is in a message are read on top of those below. -/
theorem layered_scalars (lawful : s.Lawful) {t : MessageType} (legal : t.Lawful)
    (scalars : ∀ m ∈ t.members, ∃ type, m.shape = .single (.scalar type))
    (form : t.form ∈ [.bare, .wrapper, .timestamp, .duration]) {x : Message} {ys zs : List Slot}
    (conform : slotsConform s t.members x.slots) (sound : slotsConform s t.members ys)
    (after : slotsConform s t.members (readSlots s (readMessage s) t ys r).1)
    (same : ∀ zs, readSlots s (readMessage s) t zs r = readSlots s (readMessage s) t ys r)
    (admits : Admits s t x n) (front : r.Fronts n)
    : Layered (slotsRoom s t.members x.slots) (SlotsJoin s t.members x.slots) ys zs
        (readSlots s (readMessage s) t ys r) (readSlots s (readMessage s) t zs r) := by
  refine layered_replaced (same zs) (slotsRoom_of_scalars scalars sound) fun fault => ?_
  cases admits with
  | unset unset => exact slotsJoin_of_unset lawful legal.shapes unset conform after
  | scalars _ way =>
      rw [← same x.slots] at fault after ⊢
      exact slotsJoin_of_givesWay scalars (way r front fault) conform after
  | collection other => rcases other with other | other <;> simp [other] at form
  | dynamic other _ _ => simp [other] at form
  | members other _ => simp [other] at form

theorem layered_item (type : ValueType) (xs ys zs : List Value) (v : Value) (q : Reader)
    : Layered (fun _ => True)
        (fun ys zs => elementsNormal s type zs = elementsNormal s type (xs ++ ys)) ys zs
        (ys ++ [v], q) (zs ++ [v], q) := by
  refine ⟨fun _ _ => trivial, fun _ _ joined => ⟨rfl, ?_⟩⟩
  dsimp only
  rw [elementsNormal_append, joined, ← elementsNormal_append, List.append_assoc]

/-- A dynamic value takes the place of the one below. -/
theorem layered_kind (lawful : s.Lawful) (legal : valueType.Lawful) {x : Message}
    {ys zs : List Slot} (conform : slotsConform s valueType.members x.slots)
    (sound : slotsConform s valueType.members ys)
    (after : slotsConform s valueType.members (readKind s (readMessage s) ys r).1)
    (admits : Admits s valueType x n) (front : r.Fronts n)
    : Layered (slotsRoom s valueType.members x.slots) (SlotsJoin s valueType.members x.slots) ys zs
        (readKind s (readMessage s) ys r) (readKind s (readMessage s) zs r) := by
  obtain ⟨more, faces⟩ := front.faces
  have same : readKind s (readMessage s) zs r = readKind s (readMessage s) ys r := by
    rw [readKind, readKind, faces.peekKind]
    cases n.kind <;> rfl
  obtain ⟨slots, unknown⟩ := x
  obtain ⟨x, rfl, below⟩ := conforms_of_sole conform
  obtain ⟨y, rfl, above⟩ := conforms_of_sole sound
  have room : slotsRoom s valueType.members [x] [y] := by
    rcases above.of_oneof rfl with rfl | ⟨tag, v, a, rfl, -⟩ <;> exact ⟨trivial, trivial⟩
  refine layered_replaced same room fun _ => ?_
  cases admits with
  | unset unset => exact slotsJoin_of_unset lawful legal.shapes unset conform after
  | dynamic _ object array =>
      rw [readKind, faces.peekKind]
      cases kind : n.kind with
      | null | number | string | bool =>
          exact .cons (Slot.joins_choice rfl below fun _ _ => ⟨_, rfl⟩) .nil
      | object =>
          exact .cons (Slot.joins_choice rfl below fun inner set =>
            absurd (congrArg ([·]) set) (object kind inner)) .nil
      | array =>
          exact .cons (Slot.joins_choice rfl below fun inner set =>
            absurd (congrArg ([·]) set) (array kind inner)) .nil
  | collection other => rcases other with other | other <;> cases other
  | scalars other _ => simp [valueType] at other
  | members other _ => cases other

/-- An `Any` is read into another one only where it is empty. -/
theorem layered_any (lawful : s.Lawful) {t : MessageType} (legal : t.Lawful) (form : t.form = .any)
    {url payload : Member} (members : t.members = [url, payload])
    (text : url.shape = .single (.scalar (.string none)))
    (bytes : payload.shape = .single (.scalar (.bytes none))) {x : Message} {ys zs : List Slot}
    (conform : slotsConform s t.members x.slots)
    (sound : List.Forall₂ (fun m slot => slot.Sound s m) t.members ys)
    (after : slotsConform s t.members (readSlots s (readMessage s) t ys r).1)
    (admits : Admits s t x n)
    : Layered (slotsRoom s t.members x.slots) (SlotsJoin s t.members x.slots) ys zs
        (readSlots s (readMessage s) t ys r) (readSlots s (readMessage s) t zs r) := by
  have new := (slotsSound_iff.mpr sound).1
  have own : SlotsJoin s t.members x.slots ys (slotsCombine s t.members x.slots ys) :=
    (slotsJoin_iff conform new).mpr rfl
  refine layered_of_joins (b := fun zs => readSlots s (readMessage s) t zs r) own
    (fun zs joined => ?_) zs
  have unset : List.Forall₂ (Slot.Unset s) t.members x.slots := by
    cases admits with
    | unset unset => exact unset
    | collection other => rcases other with other | other <;> cases form.symm.trans other
    | scalars other _ => simp [form] at other
    | dynamic other _ _ | members other _ => cases form.symm.trans other
  have same : zs = ys := by
    have lawfuls := legal.shapes
    generalize x.slots = xs at unset conform joined
    rw [members] at unset conform new joined lawfuls
    obtain ⟨first, second⟩ := List.forall_mem_cons.mp lawfuls
    cases joined with
    | cons joins others =>
        cases others with
        | cons joins' others =>
            cases others
            cases unset with
            | cons unset others =>
                cases others with
                | cons unset' _ =>
                    rw [Slot.eq_of_joins text (.inl rfl) lawful first unset conform.1 new.1 joins,
                      Slot.eq_of_joins bytes (.inr rfl) lawful
                        (second _ (List.mem_singleton_self _)) unset'
                        conform.2.1 new.2.1 joins']
  rw [same]
  exact layered_replaced rfl (slotsRoom_of_unset lawful legal.shapes unset sound)
    fun _ => slotsJoin_of_unset lawful legal.shapes unset conform after

-----------------------------------------------------------------------------------------
-- Objects and arrays
-----------------------------------------------------------------------------------------

section

variable (flat : ∀ name, name ∉ wellKnownNames → (s.type name).form ≠ .any)

include flat

theorem layered_repeated (lawful : s.Lawful) (legal : m.shape.isLawful) {type : ValueType}
    {packed : Bool} {capacity : Option Nat} (shape : m.shape = .repeated type packed capacity)
    (conforms : x.Conforms s m) (sound : y.Sound s m) (cleared : n.kind = .null → x.Unset s m)
    (front : r.Fronts n) (joined : x.Joins s m y z)
    : Layered (x.Room s m) (x.Joins s m) y z (readSlot s (readMessage s) m y r)
        (readSlot s (readMessage s) m z r) := by
  have front : (r.addField m.name).Fronts n := front.congr rfl rfl rfl
  obtain ⟨xs, rfl, -⟩ := conforms.of_repeated shape
  obtain ⟨ys, rfl, -⟩ := sound.1.of_repeated shape
  obtain ⟨zs, rfl, same⟩ := (Slot.joins_many_iff shape).mp joined
  rcases null_of_fronts front with ⟨-, given⟩ | ⟨null, q, given⟩
  · simp only [readSlot, shape, given]
    have elements := layered_array (y := ys) (z := zs) (P := fun _ => True)
      (fun vs r => outcome_program flat (program_element s m.name type capacity vs))
      (fun _ _ _ => trivial)
      (fun n ys zs r _ _ => layered_element (s := s) m.name type capacity xs ys zs r) front trivial
    refine elements.lift Slot.many (fun v => ?_) (fun _ => same) fun after => ?_
    · simp only [Slot.Room, shape]
    · exact (Slot.joins_many_iff shape).mpr ⟨_, rfl, after⟩
  · simp only [readSlot, shape, given]
    have away := layered_cleared (z := .many zs) lawful legal conforms sound (cleared null) q
    rwa [shape] at away

theorem layered_map (lawful : s.Lawful) (keeps : MessageReader.KeepsSound s (readMessage s))
    (legal : m.shape.isLawful) {key : ScalarType} {type : ValueType}
    (shape : m.shape = .map key type) (conforms : x.Conforms s m) (sound : y.Sound s m)
    (cleared : n.kind = .null → x.Unset s m) (front : r.Fronts n) (joined : x.Joins s m y z)
    : Layered (x.Room s m) (x.Joins s m) y z (readSlot s (readMessage s) m y r)
        (readSlot s (readMessage s) m z r) := by
  have front : (r.addField m.name).Fronts n := front.congr rfl rfl rfl
  have isKey : key.isKey := by rwa [shape] at legal
  obtain ⟨xs, rfl, below, -⟩ := conforms.of_map shape
  obtain ⟨ys, rfl, -⟩ := sound.1.of_map shape
  obtain ⟨above, values⟩ := (sound_entries_iff shape).mp sound
  obtain ⟨zs, rfl, same⟩ := (Slot.joins_entries_iff shape isKey below above).mp joined
  rcases null_of_fronts front with ⟨-, given⟩ | ⟨null, q, given⟩
  · simp only [readSlot, shape, given]
    have program (name : String) (es : List Entry) := program_entry s m.name key type name es
    have kept (name : String) (es : List Entry) (r : Reader)
        (old : Ordered key es ∧ ∀ e ∈ es, e.value.Sound s type) :=
      sound_readEntry lawful keeps m.name isKey name old.1 old.2 r
    have entries := layered_object (y := ys) (z := zs)
      (fun name es r => (program name es).onward (onward_readMessage flat) r)
      (fun name es r => outcome_program flat (program name es)) kept
      (fun _ _ field _ ys zs r old _ =>
        layered_entry isKey below m.name type field.key old.1 zs r) front ⟨above, values⟩
    have ordered := (Reader.object_keeps kept ⟨above, values⟩ (r.addField m.name)).1
    refine entries.lift Slot.entries (fun v => ?_) (fun _ => same) fun after => ?_
    · simp only [Slot.Room]
    · exact (Slot.joins_entries_iff shape isKey below ordered).mpr ⟨_, rfl, after⟩
  · simp only [readSlot, shape, given]
    have away := layered_cleared (z := .entries zs) lawful legal conforms sound (cleared null) q
    rwa [shape] at away

/-- The value of a key is read on top of the slot of its member, by cases on the shape. -/
theorem layered_readSlot (lawful : s.Lawful) (keeps : MessageReader.KeepsSound s (readMessage s))
    (inner : LayersAt s n) (legal : m.shape.isLawful) (conforms : x.Conforms s m)
    (sound : y.Sound s m) (called : m.isCalled key) (admits : SlotAdmits s m key x n)
    (front : r.Fronts n)
    : Layered (x.Room s m) (x.Joins s m) y z (readSlot s (readMessage s) m y r)
        (readSlot s (readMessage s) m z r) := by
  have own : x.Joins s m y (x.combine s m y) := rfl
  refine layered_of_joins (b := fun z => readSlot s (readMessage s) m z r) own
    (fun z joined => ?_) z
  have value (type : ValueType) (never : ¬n.Gives s type)
      (only : ∀ type', m.shape = .single type' ∨ m.shape = .optional type' → type' = type)
      : x.Unset s m := by
    refine admits.unset_of_null called (by simpa using (not_or.mp never).1) fun type' shape => ?_
    rwa [only type' shape]
  have list (plain : ∀ type, m.shape ≠ .single type ∧ m.shape ≠ .optional type)
      (null : n.kind = .null) : x.Unset s m :=
    admits.unset_of_null called null fun type shape =>
      absurd shape (not_or.mpr (plain type))
  cases shape : m.shape with
  | single type =>
      have cleared := (value type · (by simp [shape]))
      cases type with
      | scalar type =>
          exact layered_single_scalar lawful shape conforms sound cleared
            (admits.givesWay called shape) front joined
      | message name =>
          exact layered_message lawful keeps inner (.inl shape) conforms sound cleared
            (fun _ => admits.message_below lawful called (.inl shape)) front joined
  | optional type =>
      have cleared := (value type · (by simp [shape]))
      cases type with
      | scalar type => exact layered_optional_scalar lawful shape conforms sound cleared front
      | message name =>
          exact layered_message lawful keeps inner (.inr shape) conforms sound cleared
            (fun _ => admits.message_below lawful called (.inr shape)) front joined
  | repeated type packed capacity =>
      exact layered_repeated flat lawful legal shape conforms sound (list (by simp [shape])) front
        joined
  | map keyType type =>
      exact layered_map flat lawful keeps legal shape conforms sound (list (by simp [shape])) front
        joined
  | oneof alternatives => simp [Member.isCalled, shape] at called

-----------------------------------------------------------------------------------------
-- Keys
-----------------------------------------------------------------------------------------

/-- A key is read on top of the members that it names; any other one changes nothing. -/
theorem layered_readKey (lawful : s.Lawful) (keeps : MessageReader.KeepsSound s (readMessage s))
    (inner : LayersAt s n) {t : MessageType} (legal : ∀ m ∈ t.members, m.Legal)
    {xs ys zs : List Slot} (conform : slotsConform s t.members xs)
    (sound : List.Forall₂ (fun m slot => slot.Sound s m) t.members ys)
    (admits : ∀ pair ∈ t.members.zip xs, SlotAdmits s pair.1 key pair.2 n) (front : r.Fronts n)
    : Layered (slotsRoom s t.members xs) (SlotsJoin s t.members xs) ys zs
        (readKey s (readMessage s) t key ys r) (readKey s (readMessage s) t key zs r) := by
  have own : SlotsJoin s t.members xs ys (slotsCombine s t.members xs ys) :=
    (slotsJoin_iff conform (slotsSound_iff.mpr sound).1).mpr rfl
  refine layered_of_joins (b := fun zs => readKey s (readMessage s) t key zs r) own
    (fun zs joined => ?_) zs
  have each : List.Forall₂ (fun m x => m.Legal ∧ x.Conforms s m ∧ SlotAdmits s m key x n)
      t.members xs := by
    have each := List.forall₂_iff_zip.mp (slotsConform_iff.mp conform)
    refine List.forall₂_iff_zip.mpr ⟨each.1, fun {m x} listed => ?_⟩
    exact ⟨legal m (List.of_mem_zip listed).1, each.2 listed, admits (m, x) listed⟩
  simp only [readKey, readMember_eq, readChoice_eq]
  have members := layered_readNamed (r := r)
    (F := fun m => if m.isCalled key then some (readSlot s (readMessage s) m) else none)
    (each.imp fun m x h read found y z sound => by
      obtain ⟨called, rfl⟩ : m.isCalled key ∧ readSlot s (readMessage s) m = read := by
        split at found
        · cases found
          exact ⟨‹_›, rfl⟩
        · cases found
      exact layered_readSlot flat lawful keeps inner h.1.1 h.2.1 sound called h.2.2 front) sound
        joined
  have choices := layered_readNamed (r := r)
    (F := fun m => (m.called? key).map (readAlternative s (readMessage s)))
    (each.imp fun m x h read found y z sound => by
      obtain ⟨a, called, rfl⟩ := Option.map_eq_some_iff.mp found
      exact layered_readAlternative (alternative?_of_called h.1.2 called) called h.2.1 sound h.2.2
        front) sound joined
  rcases members with ⟨missing, missing'⟩ | ⟨a, b, done, done', layered⟩
  · rw [missing, missing']
    rcases choices with ⟨missing, missing'⟩ | ⟨a, b, done, done', layered⟩
    · rw [missing, missing']
      exact ⟨fun _ fit => fit, fun _ _ joined => ⟨rfl, joined⟩⟩
    · rw [done, done']
      exact layered
  · rw [done, done']
    exact layered

-----------------------------------------------------------------------------------------
-- Messages
-----------------------------------------------------------------------------------------

/-- The members of a message are read key by key. -/
theorem layered_members (lawful : s.Lawful) (keeps : MessageReader.KeepsSound s (readMessage s))
    {t : MessageType} (legal : t.Lawful) (form : t.form = .members)
    (inner : ∀ n' : Node, n'.nesting < n.nesting → LayersAt s n') {x : Message} {ys zs : List Slot}
    (conform : slotsConform s t.members x.slots)
    (sound : List.Forall₂ (fun m slot => slot.Sound s m) t.members ys) (admits : Admits s t x n)
    (front : r.Fronts n)
    : Layered (slotsRoom s t.members x.slots) (SlotsJoin s t.members x.slots) ys zs
        (r.object (readKey s (readMessage s) t) ys)
        (r.object (readKey s (readMessage s) t) zs) := by
  have named : ∀ fields, n = .object fields → ∀ field ∈ fields,
      ∀ pair ∈ t.members.zip x.slots, SlotAdmits s pair.1 field.key pair.2 field.value := by
    rintro fields rfl field member pair listed
    cases admits with
    | members _ named => exact named field member pair listed
    | unset unset => exact .unset ((List.forall₂_iff_zip.mp unset).2 listed)
    | collection other => rcases other with other | other <;> cases form.symm.trans other
    | scalars other _ => simp [form] at other
    | dynamic other _ _ => cases form.symm.trans other
  refine layered_object
    (P := fun slots => List.Forall₂ (fun m slot => slot.Sound s m) t.members slots)
    (fun key slots r => (program_key s t key slots).onward (onward_readMessage flat) r)
    (fun key slots r => outcome_program flat (program_key s t key slots))
    (fun key slots r sound => sound_readKey lawful keeps legal.legal_member key sound r)
    (fun fields same field member ys zs r sound front => ?_) front sound
  have deeper : field.value.nesting < n.nesting := same ▸ nesting_lt_of_field member
  exact layered_readKey flat lawful keeps (inner _ deeper) legal.legal_member conform sound
    (named fields same field member) front

/-- Fields go behind those of the object below. -/
theorem layered_struct (lawful : s.Lawful) (keeps : MessageReader.KeepsSound s (readMessage s))
    {t : MessageType} (form : t.form = .struct)
    (shape : m.shape = .map (.string none) (.message dynamicType)) {x y : Slot} {zs : List Slot}
    (conforms : x.Conforms s m) (sound : y.Sound s m) (front : r.Fronts n)
    : Layered (slotsRoom s [m] [x]) (SlotsJoin s [m] [x]) [y] zs
        (readSlots s (readMessage s) t [y] r) (readSlots s (readMessage s) t zs r) := by
  refine layered_of_joins (b := fun zs => readSlots s (readMessage s) t zs r)
    (joins_sole conforms sound)
    (fun zs joined => ?_) zs
  obtain ⟨xs, rfl, below, -⟩ := conforms.of_map shape
  obtain ⟨ys, rfl, -⟩ := sound.1.of_map shape
  obtain ⟨above, values⟩ := (sound_entries_iff shape).mp sound
  cases joined with
  | cons own others =>
      cases others
      obtain ⟨zs, rfl, same⟩ := (Slot.joins_entries_iff shape rfl below above).mp own
      simp only [readSlots, form, readFields]
      have program (key : String) (es : List Entry) :=
        ((program_dynamic s).field key).map fun v => insertEntry (Scalar.string key) v es
      have kept (key : String) (es : List Entry) (r : Reader) (old : Ordered (.string none) es)
          : Ordered (.string none) (insertEntry (.string key)
              (r.withField key (readDynamic s (readMessage s))).1 es) := old.insertEntry rfl rfl
      have fields := layered_object (y := ys) (z := zs)
        (fun key es r => (program key es).onward (onward_readMessage flat) r)
        (fun key es r => outcome_program flat (program key es)) kept
        (fun _ _ field _ ys zs r old _ =>
          layered_insert (s := s) rfl below old (.message dynamicType) rfl _ zs _) front above
      have ordered := (sound_readFields lawful keeps above values r).1
      refine fields.lift (fun es => [Slot.entries es]) (fun v => ?_) (fun _ => same) fun after => ?_
      · simp only [slotsRoom, Slot.Room, and_true]
      · exact .cons ((Slot.joins_entries_iff shape rfl below ordered).mpr ⟨_, rfl, after⟩) .nil

/-- Items go behind those of the array below. -/
theorem layered_listValue {t : MessageType} (form : t.form = .listValue) {type : ValueType}
    (shape : m.shape = .repeated type false none) {x y : Slot} {zs : List Slot}
    (conforms : x.Conforms s m) (sound : y.Sound s m) (front : r.Fronts n)
    : Layered (slotsRoom s [m] [x]) (SlotsJoin s [m] [x]) [y] zs
        (readSlots s (readMessage s) t [y] r) (readSlots s (readMessage s) t zs r) := by
  refine layered_of_joins (b := fun zs => readSlots s (readMessage s) t zs r)
    (joins_sole conforms sound)
    (fun zs joined => ?_) zs
  obtain ⟨xs, rfl, -⟩ := conforms.of_repeated shape
  obtain ⟨ys, rfl, -⟩ := sound.1.of_repeated shape
  cases joined with
  | cons own others =>
      cases others
      obtain ⟨zs, rfl, same⟩ := (Slot.joins_many_iff shape).mp own
      simp only [readSlots, form, readItems]
      have program (vs : List Value) := (program_dynamic s).map fun v => vs ++ [v]
      have items := layered_array (y := ys) (z := zs) (P := fun _ => True)
        (fun vs r => outcome_program flat (program vs)) (fun _ _ _ => trivial)
        (fun n ys zs r _ _ => layered_item (s := s) type xs ys zs _ _) front trivial
      refine items.lift (fun vs => [Slot.many vs]) (fun v => ?_) (fun _ => same) fun after => ?_
      · simp only [slotsRoom, Slot.Room, shape, withinCapacity, and_true]
      · exact .cons ((Slot.joins_many_iff shape).mpr ⟨_, rfl, after⟩) .nil

/-- The slots of a message are read on top of those below, by cases on the form of its type. -/
theorem layered_readSlots (lawful : s.Lawful) (known : s.HasWellKnown)
    (keeps : MessageReader.KeepsSound s (readMessage s)) {t : MessageType} (legal : t.Lawful)
    (json : t.HasJson) (only : t.form = .value → t = valueType)
    (inner : ∀ n' : Node, n'.nesting < n.nesting → LayersAt s n') {x : Message} {ys : List Slot}
    (conform : slotsConform s t.members x.slots)
    (sound : List.Forall₂ (fun m slot => slot.Sound s m) t.members ys) (admits : Admits s t x n)
    (front : r.Fronts n) (zs : List Slot)
    : Layered (slotsRoom s t.members x.slots) (SlotsJoin s t.members x.slots) ys zs
        (readSlots s (readMessage s) t ys r) (readSlots s (readMessage s) t zs r) := by
  have after := sound_readSlots lawful known keeps json legal only sound r
  have conform' := (slotsSound_iff.mpr sound).1
  have conform'' := (slotsSound_iff.mpr after).1
  have unsetCase (unset : List.Forall₂ (Slot.Unset s) t.members x.slots)
      (same : readSlots s (readMessage s) t zs r = readSlots s (readMessage s) t ys r)
      : Layered (slotsRoom s t.members x.slots) (SlotsJoin s t.members x.slots) ys zs
          (readSlots s (readMessage s) t ys r) (readSlots s (readMessage s) t zs r) :=
    layered_replaced same (slotsRoom_of_unset lawful legal.shapes unset sound)
      fun _ => slotsJoin_of_unset lawful legal.shapes unset conform conform''
  unfold MessageType.HasJson at json
  generalize shapes : t.members.map (·.shape) = shape at json
  cases form : t.form with
  | members =>
      simp only [readSlots, form]
      exact layered_members flat lawful keeps legal form inner conform sound admits front
  | bare | wrapper =>
      rw [form] at json
      cases json
      obtain ⟨m, members, shape⟩ := List.map_eq_singleton_iff.mp shapes
      refine layered_scalars lawful legal ?_ (by simp [form]) conform conform'
        conform'' (fun _ => ?_)
        admits front
      · rw [members]
        exact List.forall_mem_singleton.mpr ⟨_, shape⟩
      · simp only [readSlots, form, readSole, soleType_of_shapes members shape]
  | timestamp | duration =>
      rw [form] at json
      cases json
      obtain ⟨m, others, members, shape, rest⟩ := List.map_eq_cons_iff.mp shapes
      obtain ⟨n, rfl, shape'⟩ := List.map_eq_singleton_iff.mp rest
      refine layered_scalars lawful legal ?_ (by simp [form]) conform conform'
        conform'' (fun _ => ?_)
        admits front
      · rw [members]
        exact List.forall_mem_cons.mpr ⟨⟨_, shape⟩, List.forall_mem_singleton.mpr ⟨_, shape'⟩⟩
      · simp only [readSlots, form]
  | fieldMask =>
      cases admits with
      | unset unset => exact unsetCase unset (by simp only [readSlots, form])
      | collection other => rcases other with other | other <;> cases form.symm.trans other
      | scalars other _ => simp [form] at other
      | dynamic other _ _ | members other _ => cases form.symm.trans other
  | struct =>
      rw [form] at json
      cases json
      obtain ⟨m, members, shape⟩ := List.map_eq_singleton_iff.mp shapes
      rw [members] at conform sound ⊢
      obtain ⟨x', slots, below⟩ := conforms_of_sole conform
      obtain ⟨y, rfl, above⟩ := slot_of_single sound
      rw [slots]
      exact layered_struct flat lawful keeps form shape below above front
  | listValue =>
      rw [form] at json
      cases json
      obtain ⟨m, members, shape⟩ := List.map_eq_singleton_iff.mp shapes
      rw [members] at conform sound ⊢
      obtain ⟨x', slots, below⟩ := conforms_of_sole conform
      obtain ⟨y, rfl, above⟩ := slot_of_single sound
      rw [slots]
      exact layered_listValue flat form shape below above front
  | value =>
      obtain rfl := only form
      exact layered_kind lawful legal conform conform' conform'' admits front
  | any =>
      rw [form] at json
      cases json
      obtain ⟨m, others, members, shape, rest⟩ := List.map_eq_cons_iff.mp shapes
      obtain ⟨n, rfl, shape'⟩ := List.map_eq_singleton_iff.mp rest
      exact layered_any lawful legal form members shape shape' conform sound conform'' admits
  | filler => exact absurd form legal.form

/-- A message is read on top of the one below: what comes out is what comes out for an empty
message, put on top.  By induction on how deep the document nests.
-/
theorem layered_readMessage (lawful : s.Lawful) (known : s.HasWellKnown) (json : s.HasJson)
    (only : ∀ name, (s.type name).form = .value → s.type name = valueType) (n : Node)
    : LayersAt s n := by
  have keeps : MessageReader.KeepsSound s (readMessage s) := fun name m r sound =>
    sound_readMessage lawful known json only sound r
  induction nesting : n.nesting using Nat.strongRecOn generalizing n with
  | ind depth ih =>
      intro name x y z r conforms sound admits front
      have inner (n' : Node) (deeper : n'.nesting < n.nesting) := ih _ (nesting ▸ deeper) n' rfl
      obtain ⟨xs, before⟩ := x
      obtain ⟨ys, behind⟩ := y
      obtain ⟨zs, unknown⟩ := z
      have slots := layered_readSlots flat lawful known keeps (lawful.type name) (json.type name)
        (only name) inner conforms.1 sound.slots admits front zs
      have after := keeps name _ r sound
      rw [readMessage_unfold flat] at after
      rw [readMessage_unfold flat, readMessage_unfold flat]
      refine ⟨slots.back, fun fault fit joined => ?_⟩
      obtain ⟨joined, kept⟩ := (Message.joins_iff conforms.1 sound.1.1).mp joined
      obtain ⟨same, joins⟩ := slots.onward fault fit joined
      exact ⟨same, (Message.joins_iff conforms.1 after.1.1).mpr ⟨joins, kept⟩⟩

end

end

end Protobuf.Json
