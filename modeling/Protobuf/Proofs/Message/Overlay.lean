import Protobuf.Proofs.Message.Soundness

/-! A message that is put on top of another one, member by member.  What is put on top counts alone
where nothing is set below it or where what is below gives way; and nothing changes where nothing is
put on top.
-/

namespace Protobuf

variable {s : Schema} {t : MessageType} {m : Member}

-----------------------------------------------------------------------------------------
-- Nothing on top
-----------------------------------------------------------------------------------------

theorem ScalarType.isDefault_default (type : ScalarType)
    : type.default.isDefault := by
  cases type <;> rfl

mutual

/-- Combining with the empty message changes nothing, by induction on the message. -/
theorem Message.combine_empty (h : s.Lawful) (name : String) (x : Message)
    (conforms : x.Conforms s (s.type name))
    : x.combine s (s.type name) (s.empty name) = x := by
  cases x with
  | mk slots unknown =>
      have members := slotsCombine_empty h (s.type name).members (h.type name).shapes
        slots conforms.1
      rw [h.empty_eq name]
      simp only [Message.combine, members, List.append_nil]

theorem slotsCombine_empty (h : s.Lawful) (members : List Member)
    (lawful : ∀ m ∈ members, m.shape.isLawful) (slots : List Slot)
    (conforms : slotsConform s members slots)
    : slotsCombine s members slots (members.map fun m => m.shape.emptySlot s.empty) = slots := by
  cases slots with
  | nil =>
      cases (show members = [] from conforms)
      rfl
  | cons slot slots =>
      cases members with
      | nil => cases conforms
      | cons m members =>
          obtain ⟨first, others⟩ := List.forall_mem_cons.mp lawful
          simp only [List.map_cons, slotsCombine, slot.combine_empty h m first conforms.1,
            slotsCombine_empty h members others slots conforms.2]

theorem Slot.combine_empty (h : s.Lawful) (m : Member) (lawful : m.shape.isLawful) (slot : Slot)
    (conforms : slot.Conforms s m)
    : slot.combine s m (m.shape.emptySlot s.empty) = slot := by
  cases slot with
  | none =>
      cases shape : m.shape with
      | optional _ | oneof _ => simp only [Shape.emptySlot, Slot.combine]
      | single _ | repeated _ _ _ | map _ _ => simp only [Slot.Conforms, shape] at conforms
  | one v =>
      cases shape : m.shape with
      | single type =>
          simp only [Slot.Conforms, shape] at conforms
          cases v with
          | scalar v =>
              cases type with
              | scalar type =>
                  simp only [Shape.emptySlot, Slot.combine, shape, Value.isOmitted,
                    type.isDefault_default, if_true]
              | message name => cases conforms
          | message y =>
              cases type with
              | scalar type => cases conforms
              | message name =>
                  simp only [Shape.emptySlot, Slot.combine, shape, Value.isOmitted,
                    Bool.false_eq_true, if_false, Value.combine, y.combine_empty h name conforms]
      | optional type => simp only [Shape.emptySlot, Slot.combine]
      | repeated _ _ _ | map _ _ | oneof _ => simp only [Slot.Conforms, shape] at conforms
  | many vs =>
      obtain ⟨type, packed, capacity, shape⟩ : ∃ type packed capacity,
          m.shape = .repeated type packed capacity := by
        simp only [Slot.Conforms] at conforms
        split at conforms
        · exact ⟨_, _, _, ‹_›⟩
        · cases conforms
      simp only [shape, Shape.emptySlot, Slot.combine, List.append_nil]
  | entries es =>
      obtain ⟨key, value, shape⟩ : ∃ key value, m.shape = .map key value := by
        simp only [Slot.Conforms] at conforms
        split at conforms
        · exact ⟨_, _, ‹_›⟩
        · cases conforms
      simp only [Slot.Conforms, shape] at conforms
      rw [shape] at lawful
      simp [shape, Shape.emptySlot, Slot.combine, unionEntries, conforms.1.sortEntries_eq lawful]
  | choice tag v =>
      obtain ⟨alternatives, shape⟩ : ∃ alternatives, m.shape = .oneof alternatives := by
        cases found : m.alternative? tag with
        | none => simp only [Slot.Conforms, found] at conforms
        | some a => exact Member.shape_of_alternative found
      simp only [shape, Shape.emptySlot, Slot.combine]

end

-----------------------------------------------------------------------------------------
-- What counts alone
-----------------------------------------------------------------------------------------

/-- Nothing is set in the slot; the default of a member without presence is nothing, too. -/
def Slot.Unset (s : Schema) (m : Member) (slot : Slot) : Prop :=
  slot = m.shape.emptySlot s.empty
    ∨ (∃ type, m.shape = .single (.scalar type)) ∧ ∃ v, slot = .one (.scalar v) ∧ v.isDefault

/-- A scalar gives way to one on top of it that is no default, and a default to each one. -/
def Slot.GivesWay (x y : Slot) : Prop :=
  ∀ u v, x = .one (.scalar u) → y = .one (.scalar v) → u.isDefault ∨ v.isDefault = false

/-- A member that always holds a scalar holds one. -/
theorem Slot.Conforms.scalar {type : ScalarType} {slot : Slot} (h : slot.Conforms s m)
    (shape : m.shape = .single (.scalar type))
    : ∃ v, slot = .one (.scalar v) ∧ v.hasType type := by
  obtain ⟨v, rfl, conforms⟩ := h.of_single shape
  cases v with
  | scalar v => exact ⟨v, rfl, conforms⟩
  | message m => cases conforms

/-- Where a scalar gives way, the one on top of it counts. -/
theorem Slot.GivesWay.normal_combine {type : ScalarType} {x y : Slot} (h : x.GivesWay y)
    (shape : m.shape = .single (.scalar type)) (old : x.Conforms s m) (new : y.Conforms s m)
    : (x.combine s m y).normal s m = y.normal s m := by
  obtain ⟨u, rfl, isOld⟩ := old.scalar shape
  obtain ⟨v, rfl, isNew⟩ := new.scalar shape
  cases omitted : v.isDefault with
  | false =>
      simp only [Slot.combine, shape, Value.isOmitted, omitted, Bool.false_eq_true, if_false,
        Value.combine]
  | true =>
      have below : u.isDefault := (h u v rfl rfl).resolve_right (by simp [omitted])
      simp only [Slot.combine, shape, Value.isOmitted, omitted, if_true, Slot.normal, Value.normal,
        Value.positiveZero, Scalar.positiveZero_of_isDefault isOld below,
        Scalar.positiveZero_of_isDefault isNew omitted]

/-- Where nothing is set there is at most a default, which gives way. -/
theorem Slot.Unset.givesWay {x : Slot} (h : x.Unset s m) {type : ScalarType}
    (shape : m.shape = .single (.scalar type)) (y : Slot)
    : x.GivesWay y := by
  rintro u v rfl -
  rcases h with same | ⟨-, w, same, default⟩
  · rw [shape] at same
    cases same
    exact .inl type.isDefault_default
  · cases same
    exact .inl default

/-- Where nothing is set, what is on top counts. -/
theorem Slot.Unset.normal_combine (h : s.Lawful) {x y : Slot} (unset : x.Unset s m)
    (lawful : m.shape.isLawful) (old : x.Conforms s m) (new : y.Conforms s m)
    : (x.combine s m y).normal s m = y.normal s m := by
  have way := @Slot.Unset.givesWay s m x unset
  rcases unset with rfl | ⟨⟨type, shape⟩, -⟩
  · exact y.normal_combine_empty h m lawful new
  · exact (way shape y).normal_combine shape old new

/-- Where nothing is set, what fits alone fits on top. -/
theorem Slot.Unset.fits_combine (h : s.Lawful) {x y : Slot} (unset : x.Unset s m)
    (lawful : m.shape.isLawful) (sound : y.Sound s m)
    : (x.combine s m y).Fits s m := by
  rcases unset with rfl | ⟨⟨type, shape⟩, v, rfl, -⟩
  · exact y.fits_combine_empty h m lawful sound.1 sound.2
  · obtain ⟨w, rfl, -⟩ := sound.1.scalar shape
    cases omitted : w.isDefault <;>
      simp only [Slot.combine, shape, Value.isOmitted, omitted, Bool.false_eq_true, if_false,
        if_true, Value.combine, Slot.Fits, Value.Fits]

-----------------------------------------------------------------------------------------
-- Room for both
-----------------------------------------------------------------------------------------

mutual

/-- The lists of both messages together stay within their capacities. -/
def Message.Room (s : Schema) (t : MessageType) (x : Message) : Message → Prop
  | ⟨slots, _⟩ => slotsRoom s t.members x.slots slots
termination_by structural y => y

/-- The members' lists stay within their capacities, member by member. -/
def slotsRoom (s : Schema) (members : List Member) (xs : List Slot) : List Slot → Prop
  | [] => True
  | slot :: slots =>
      match members, xs with
      | m :: members, x :: xs => x.Room s m slot ∧ slotsRoom s members xs slots
      | _, _ => True
termination_by structural ys => ys

/-- What an alternative of a oneof holds is not looked at. -/
def Slot.Room (s : Schema) (m : Member) (x : Slot) : Slot → Prop
  | .one (.message y) =>
      match m.shape, x with
      | .single (.message name), .one (.message x) | .optional (.message name), .one (.message x) =>
          x.Room s (s.type name) y
      | _, _ => True
  | .many ys =>
      match m.shape, x with
      | .repeated _ _ capacity, .many xs => withinCapacity capacity (xs.length + ys.length)
      | _, _ => True
  | _ => True
termination_by structural y => y

end

mutual

/-- There is room for messages whose combination fits, by induction on the second one. -/
theorem Message.room_of_fits {t : MessageType} {x : Message} (y : Message)
    (fits : (x.combine s t y).Fits s t)
    : x.Room s t y := by
  cases y with
  | mk slots unknown => exact slotsRoom_of_fit slots fits

theorem slotsRoom_of_fit {members : List Member} {xs : List Slot} (ys : List Slot)
    (fit : slotsFit s members (slotsCombine s members xs ys))
    : slotsRoom s members xs ys := by
  cases ys with
  | nil => trivial
  | cons y ys =>
      cases members with
      | nil => trivial
      | cons m members =>
          cases xs with
          | nil => trivial
          | cons x xs => exact ⟨Slot.room_of_fits y fit.1, slotsRoom_of_fit ys fit.2⟩

theorem Slot.room_of_fits {m : Member} {x : Slot} (y : Slot) (fits : (x.combine s m y).Fits s m)
    : x.Room s m y := by
  cases y with
  | one v =>
      cases v with
      | scalar v => trivial
      | message y =>
          unfold Slot.Room
          split
          · rename_i name x shape
            simp only [Slot.combine, shape, Value.isOmitted, Bool.false_eq_true, if_false,
              Value.combine, Slot.Fits, Value.Fits] at fits
            exact Message.room_of_fits y fits
          · rename_i name x shape
            simp only [Slot.combine, shape, Value.combine, Slot.Fits, Value.Fits] at fits
            exact Message.room_of_fits y fits
          · trivial
  | many ys =>
      unfold Slot.Room
      split
      · rename_i type packed capacity xs shape
        simp only [Slot.combine, Slot.Fits, shape, List.length_append] at fits
        exact fits.1
      · trivial
  | none | entries _ | choice _ _ => trivial

end

/-- Where nothing is set there is room for what fits. -/
theorem Slot.Unset.room (h : s.Lawful) {x y : Slot} (unset : x.Unset s m)
    (lawful : m.shape.isLawful) (sound : y.Sound s m)
    : x.Room s m y :=
  Slot.room_of_fits y (unset.fits_combine h lawful sound)

-----------------------------------------------------------------------------------------
-- Joined messages
-----------------------------------------------------------------------------------------

/-- The third slot is the second one on top of the first, up to zeros that are not written. -/
def Slot.Joins (s : Schema) (m : Member) (x y z : Slot) : Prop :=
  z.normal s m = (x.combine s m y).normal s m

/-- The third message is the second one on top of the first, up to zeros that are not written. -/
def Message.Joins (s : Schema) (t : MessageType) (x y z : Message) : Prop :=
  z.normal s t = (x.combine s t y).normal s t

/-- The slots of three messages join, one after the other. -/
inductive SlotsJoin (s : Schema) : List Member → List Slot → List Slot → List Slot → Prop
  | nil : SlotsJoin s [] [] [] []
  | cons {m : Member} {x y z : Slot} {members : List Member} {xs ys zs : List Slot}
    (own : x.Joins s m y z) (others : SlotsJoin s members xs ys zs)
    : SlotsJoin s (m :: members) (x :: xs) (y :: ys) (z :: zs)

/-- Slots join just when the combination has the same normal form. -/
theorem slotsJoin_iff {members : List Member} {xs ys zs : List Slot}
    (old : slotsConform s members xs) (new : slotsConform s members ys)
    : SlotsJoin s members xs ys zs
        ↔ slotsNormal s members zs = slotsNormal s members (slotsCombine s members xs ys) := by
  induction members generalizing xs ys zs with
  | nil =>
      cases xs with
      | cons x xs => cases old
      | nil =>
          cases ys with
          | cons y ys => cases new
          | nil =>
              cases zs with
              | nil => exact ⟨fun _ => rfl, fun _ => .nil⟩
              | cons z zs =>
                  constructor
                  · intro joins
                    cases joins
                  · intro same
                    cases same
  | cons m members ih =>
      cases xs with
      | nil => cases old
      | cons x xs =>
          cases ys with
          | nil => cases new
          | cons y ys =>
              cases zs with
              | nil =>
                  constructor
                  · intro joins
                    cases joins
                  · intro same
                    cases same
              | cons z zs =>
                  simp only [slotsCombine, slotsNormal, List.cons.injEq, ← ih old.2 new.2]
                  constructor
                  · intro joins
                    cases joins with
                    | cons own others => exact ⟨own, others⟩
                  · exact fun joins => .cons joins.1 joins.2

/-- Messages join just when their slots and unknown bytes do. -/
theorem Message.joins_iff {x y z : Message} (old : slotsConform s t.members x.slots)
    (new : slotsConform s t.members y.slots)
    : x.Joins s t y z
        ↔ SlotsJoin s t.members x.slots y.slots z.slots ∧ z.unknown = x.unknown ++ y.unknown := by
  obtain ⟨xs, before⟩ := x
  obtain ⟨ys, behind⟩ := y
  obtain ⟨zs, unknown⟩ := z
  rw [slotsJoin_iff old new]
  simp only [Joins, normal, combine, mk.injEq]

/-- An empty message on top changes nothing. -/
theorem Message.joins_empty (h : s.Lawful) {name : String} {x : Message}
    (conforms : x.Conforms s (s.type name))
    : x.Joins s (s.type name) (s.empty name) x := by
  rw [Joins, x.combine_empty h name conforms]

/-- On top of an empty message the second one counts. -/
theorem Message.empty_joins_iff (h : s.Lawful) {name : String} {y z : Message}
    (conforms : y.Conforms s (s.type name))
    : (s.empty name).Joins s (s.type name) y z
        ↔ z.normal s (s.type name) = y.normal s (s.type name) := by
  rw [Joins, y.normal_combine_empty h name conforms]

/-- Slots conform member by member. -/
theorem slotsConform_iff {members : List Member} {slots : List Slot}
    : slotsConform s members slots
      ↔ List.Forall₂ (fun m slot => slot.Conforms s m) members slots := by
  induction members generalizing slots with
  | nil => cases slots <;> simp [slotsConform]
  | cons m members ih =>
      cases slots with
      | nil => simp [slotsConform]
      | cons slot slots => rw [List.forall₂_cons, ← ih, slotsConform]

/-- A message with one member has one slot. -/
theorem conforms_of_sole {slots : List Slot} (conform : slotsConform s [m] slots)
    : ∃ x, slots = [x] ∧ x.Conforms s m := by
  cases slotsConform_iff.mp conform with
  | cons own others =>
      cases others
      exact ⟨_, rfl, own⟩

/-- The slots of one member join to their combination. -/
theorem joins_sole {x y : Slot} (conforms : x.Conforms s m) (sound : y.Sound s m)
    : SlotsJoin s [m] [x] [y] (slotsCombine s [m] [x] [y]) := by
  refine (slotsJoin_iff ?_ ?_).mpr rfl
  · exact ⟨conforms, rfl⟩
  · exact ⟨sound.1, rfl⟩

/-- Where nothing is set below, what is on top joins to itself. -/
theorem slotsJoin_of_unset (h : s.Lawful) {members : List Member}
    (lawful : ∀ m ∈ members, m.shape.isLawful) {xs ys : List Slot}
    (unset : List.Forall₂ (Slot.Unset s) members xs) (old : slotsConform s members xs)
    (new : slotsConform s members ys)
    : SlotsJoin s members xs ys ys := by
  induction unset generalizing ys with
  | nil =>
      cases ys with
      | nil => exact .nil
      | cons y ys => cases new
  | cons own _ ih =>
      obtain ⟨first, others⟩ := List.forall_mem_cons.mp lawful
      cases ys with
      | nil => cases new
      | cons y ys =>
          exact .cons (own.normal_combine h first old.1 new.1).symm (ih others old.2 new.2)

/-- Where scalars give way, those on top join to themselves. -/
theorem slotsJoin_of_givesWay {members : List Member}
    (scalars : ∀ m ∈ members, ∃ type, m.shape = .single (.scalar type)) {xs ys : List Slot}
    (way : List.Forall₂ Slot.GivesWay xs ys) (old : slotsConform s members xs)
    (new : slotsConform s members ys)
    : SlotsJoin s members xs ys ys := by
  induction way generalizing members with
  | nil =>
      cases members with
      | nil => exact .nil
      | cons m members => cases old
  | cons own _ ih =>
      cases members with
      | nil => cases old
      | cons m members =>
          obtain ⟨⟨type, shape⟩, others⟩ := List.forall_mem_cons.mp scalars
          exact .cons (own.normal_combine shape old.1 new.1).symm (ih others old.2 new.2)

/-- Scalars always have room. -/
theorem slotsRoom_of_scalars {members : List Member}
    (scalars : ∀ m ∈ members, ∃ type, m.shape = .single (.scalar type)) {xs ys : List Slot}
    (conform : slotsConform s members ys)
    : slotsRoom s members xs ys := by
  induction ys generalizing members xs with
  | nil => trivial
  | cons y ys ih =>
      cases members with
      | nil => trivial
      | cons m members =>
          obtain ⟨⟨type, shape⟩, others⟩ := List.forall_mem_cons.mp scalars
          cases xs with
          | nil => trivial
          | cons x xs =>
              obtain ⟨v, rfl, -⟩ := conform.1.scalar shape
              exact ⟨trivial, ih others conform.2⟩

/-- There is room where nothing is set below. -/
theorem slotsRoom_of_unset (h : s.Lawful) {members : List Member}
    (lawful : ∀ m ∈ members, m.shape.isLawful) {xs ys : List Slot}
    (unset : List.Forall₂ (Slot.Unset s) members xs)
    (sound : List.Forall₂ (fun m slot => slot.Sound s m) members ys)
    : slotsRoom s members xs ys := by
  induction sound generalizing xs with
  | nil => trivial
  | cons own _ ih =>
      obtain ⟨first, others⟩ := List.forall_mem_cons.mp lawful
      cases unset with
      | cons below unset => exact ⟨below.room h first own, ih others unset⟩

-----------------------------------------------------------------------------------------
-- Joined slots, by what they hold
-----------------------------------------------------------------------------------------

/-- An entry that is inserted into the upper map is inserted into both. -/
theorem insertEntries_insertEntry {type : ScalarType} (isKey : type.isKey) {k : Scalar}
    (typed : k.hasType type) (v : Value) {xs ys : List Entry} (below : Ordered type xs)
    (above : Ordered type ys)
    : insertEntries xs (insertEntry k v ys) = insertEntry k v (insertEntries xs ys) := by
  have inserted : Ordered type (insertEntry k v ys) := above.insertEntry isKey typed
  have both := below.insertEntries isKey above.typed
  refine (below.insertEntries isKey inserted.typed).ascending.eq_of_mem_iff
    (both.insertEntry isKey typed).ascending fun e => ?_
  have named (key : Scalar) : key ∈ (insertEntry k v ys).map (·.key)
      ↔ key = k ∨ key ∈ ys.map (·.key) := by
    simp only [List.mem_map, mem_insertEntry isKey typed above]
    constructor
    · rintro ⟨e, rfl | ⟨listed, -⟩, rfl⟩
      · exact .inl rfl
      · exact .inr ⟨e, listed, rfl⟩
    · rintro (rfl | ⟨e, listed, rfl⟩)
      · exact ⟨_, .inl rfl, rfl⟩
      · by_cases same : e.key = k
        · exact ⟨_, .inl rfl, same.symm⟩
        · exact ⟨e, .inr ⟨listed, same⟩, rfl⟩
  rw [mem_insertEntries isKey below inserted.typed inserted.distinct,
    mem_insertEntry isKey typed above, named, mem_insertEntry isKey typed both,
    mem_insertEntries isKey below above.typed above.distinct]
  tauto

namespace Slot

variable {name : String} {type : ValueType} {z : Slot}

/-- Normal forms of other slots hold no single value. -/
theorem one_of_normal {v : Value} (h : z.normal s m = one v)
    : ∃ w, z = one w := by
  cases z with
  | one w => exact ⟨w, rfl⟩
  | none | many _ | entries _ | choice _ _ =>
      simp only [normal] at h
      first | cases h | (split at h <;> cases h)

/-- Normal forms of other slots hold no list. -/
theorem many_of_normal {vs : List Value} (h : z.normal s m = many vs)
    : ∃ ws, z = many ws := by
  cases z with
  | many ws => exact ⟨ws, rfl⟩
  | none | one _ | entries _ | choice _ _ =>
      simp only [normal] at h
      first | cases h | (split at h <;> cases h)

/-- Normal forms of other slots hold no entries. -/
theorem entries_of_normal {es : List Entry} (h : z.normal s m = entries es)
    : ∃ ds, z = entries ds := by
  cases z with
  | entries ds => exact ⟨ds, rfl⟩
  | none | one _ | many _ | choice _ _ =>
      simp only [normal] at h
      first | cases h | (split at h <;> cases h)

/-- A member that always holds a value holds one when slots join. -/
theorem Joins.one_of_single {x y : Slot} (h : x.Joins s m y z) (shape : m.shape = .single type)
    (old : x.Conforms s m) (new : y.Conforms s m)
    : ∃ w, z = one w := by
  obtain ⟨u, rfl, -⟩ := old.of_single shape
  obtain ⟨v, rfl, -⟩ := new.of_single shape
  simp only [Joins, combine, normal, shape] at h
  exact one_of_normal h

/-- The normal form of a message field holds the normal form of the message. -/
theorem normal_message (shape : m.shape = .single (.message name)
    ∨ m.shape = .optional (.message name))
    (x : Message)
    : (one (.message x)).normal s m = one (.message (x.normal s (s.type name))) := by
  rcases shape with shape | shape <;>
    simp only [normal, shape, Value.normal, Value.positiveZero]

/-- A normal form that holds a message comes from a message. -/
theorem message_of_normal {x : Message}
    (shape : m.shape = .single (.message name) ∨ m.shape = .optional (.message name))
    (h : z.normal s m = one (.message x))
    : ∃ w, z = one (.message w) ∧ w.normal s (s.type name) = x := by
  obtain ⟨v, rfl⟩ := one_of_normal h
  cases v with
  | scalar v =>
      rcases shape with shape | shape <;>
        simp [normal, shape, Value.normal, Value.positiveZero] at h
  | message w =>
      rw [normal_message shape] at h
      simp only [one.injEq, Value.message.injEq] at h
      exact ⟨w, rfl, h⟩

/-- Only an empty slot has an empty normal form. -/
theorem none_of_normal (h : z.normal s m = none)
    : z = none := by
  cases z with
  | none => rfl
  | one _ | many _ | entries _ | choice _ _ =>
      simp only [normal] at h
      split at h <;> cases h

/-- The message that the slot holds; an empty one if it holds none. -/
def message (s : Schema) (name : String) : Slot → Message
  | one (.message x) => x
  | _ => s.empty name

/-- The slot holds a message, or nothing where that may be. -/
def Bears (m : Member) (name : String) (slot : Slot) : Prop :=
  (∃ x, slot = one (.message x)) ∨ slot = none ∧ m.shape = .optional (.message name)

/-- A value on top of nothing counts. -/
theorem none_combine_one (isOptional : m.shape = .optional type) (v : Value)
    : none.combine s m (one v) = one v := by
  simp only [combine, isOptional]

section

variable (shape : m.shape = .single (.message name) ∨ m.shape = .optional (.message name))

include shape

/-- Message fields combine by combining their messages. -/
theorem combine_message (x y : Message)
    : (one (.message x)).combine s m (one (.message y))
        = one (.message (x.combine s (s.type name) y)) := by
  rcases shape with shape | shape <;>
    simp only [combine, shape, Value.isOmitted, Bool.false_eq_true, if_false, Value.combine]

/-- A message field conforms just as its message does. -/
theorem conforms_message_iff {x : Message}
    : (one (.message x)).Conforms s m ↔ x.Conforms s (s.type name) := by
  rcases shape with shape | shape <;> simp only [Conforms, shape, Value.Conforms]

/-- A slot of a message member bears a message. -/
theorem Conforms.bears {x : Slot} (h : x.Conforms s m)
    : x.Bears m name := by
  have held {v : Value} (conforms : v.Conforms s (.message name))
      : ∃ y, one v = one (.message y) := by
    cases v with
    | scalar v => cases conforms
    | message y => exact ⟨y, rfl⟩
  rcases shape with shape | shape
  · obtain ⟨v, rfl, conforms⟩ := h.of_single shape
    exact .inl (held conforms)
  · rcases h.of_optional shape with rfl | ⟨v, rfl, conforms⟩
    · exact .inr ⟨rfl, shape⟩
    · exact .inl (held conforms)

/-- The message that a conforming slot bears conforms. -/
theorem Conforms.message (lawful : s.Lawful) {x : Slot} (h : x.Conforms s m)
    : (x.message s name).Conforms s (s.type name) := by
  rcases h.bears shape with ⟨x, rfl⟩ | ⟨rfl, -⟩
  · exact (conforms_message_iff shape).mp h
  · exact lawful.conforms_empty name

/-- Where slots of messages join, the messages in them do. -/
theorem Joins.message (lawful : s.Lawful) {x y : Slot} (h : x.Joins s m y z) (old : x.Conforms s m)
    (new : y.Conforms s m)
    : z.Bears m name
        ∧ (x.message s name).Joins s (s.type name) (y.message s name) (z.message s name) := by
  have below := old.message shape lawful
  have above := new.message shape lawful
  rw [Joins] at h
  rcases old.bears shape with ⟨x, rfl⟩ | ⟨rfl, isOptional⟩
  · rcases new.bears shape with ⟨y, rfl⟩ | ⟨rfl, -⟩
    · rw [combine_message shape, normal_message shape] at h
      obtain ⟨w, rfl, same⟩ := message_of_normal shape h
      exact ⟨.inl ⟨w, rfl⟩, same⟩
    · rw [combine, normal_message shape] at h
      obtain ⟨w, rfl, same⟩ := message_of_normal shape h
      refine ⟨.inl ⟨w, rfl⟩, ?_⟩
      show w.normal s (s.type name)
        = (x.combine s (s.type name) (s.empty name)).normal s (s.type name)
      rw [x.combine_empty lawful name below, same]
  · rcases new.bears shape with ⟨y, rfl⟩ | ⟨rfl, -⟩
    · rw [none_combine_one isOptional, normal_message shape] at h
      obtain ⟨w, rfl, same⟩ := message_of_normal shape h
      exact ⟨.inl ⟨w, rfl⟩, (Message.empty_joins_iff lawful above).mpr same⟩
    · obtain rfl := none_of_normal h
      exact ⟨.inr ⟨rfl, isOptional⟩, Message.joins_empty lawful below⟩

/-- Where messages join, slots that hold the second and the third one do. -/
theorem joins_of_message (lawful : s.Lawful) {x : Slot} (old : x.Conforms s m) {y w : Message}
    (new : y.Conforms s (s.type name)) (h : (x.message s name).Joins s (s.type name) y w)
    : x.Joins s m (one (.message y)) (one (.message w)) := by
  rw [Joins, normal_message shape]
  rcases old.bears shape with ⟨x, rfl⟩ | ⟨rfl, isOptional⟩
  · rw [combine_message shape, normal_message shape]
    exact congrArg (fun m => one (.message m)) h
  · rw [none_combine_one isOptional, normal_message shape]
    exact congrArg (fun m => one (.message m)) ((Message.empty_joins_iff lawful new).mp h)

/-- There is room in the slot where there is room for the messages in it. -/
theorem room_of_message {x y : Slot} (old : x.Conforms s m) (new : y.Conforms s m)
    (h : (x.message s name).Room s (s.type name) (y.message s name))
    : x.Room s m y := by
  rcases new.bears shape with ⟨y, rfl⟩ | ⟨rfl, -⟩
  · rcases old.bears shape with ⟨x, rfl⟩ | ⟨rfl, isOptional⟩
    · have inner : x.Room s (s.type name) y := h
      rcases shape with shape | shape <;> simpa only [Room, shape] using inner
    · simp only [Room, isOptional]
  · trivial

/-- There is room on top of the message that the slot bears. -/
theorem room_message (lawful : s.Lawful) {x : Slot} (old : x.Conforms s m) {y : Message}
    (sound : y.Conforms s (s.type name) ∧ y.Fits s (s.type name))
    (h : x.Room s m (one (.message y)))
    : (x.message s name).Room s (s.type name) y := by
  rcases old.bears shape with ⟨x, rfl⟩ | ⟨rfl, -⟩
  · show x.Room s (s.type name) y
    rcases shape with shape | shape <;> simpa only [Room, shape] using h
  · exact Message.room_of_fits y (y.fits_combine_empty lawful name sound.1 sound.2)

end

/-- Lists join if the third one holds the elements of the first, and behind them the others. -/
theorem joins_many_iff {packed : Bool} {capacity : Option Nat}
    (shape : m.shape = .repeated type packed capacity) {xs ys : List Value}
    : (many xs).Joins s m (many ys) z
        ↔ ∃ zs, z = many zs ∧ elementsNormal s type zs = elementsNormal s type (xs ++ ys) := by
  simp only [Joins, combine, normal, shape]
  constructor
  · intro same
    obtain ⟨zs, rfl⟩ := many_of_normal same
    simp only [normal, shape, many.injEq] at same
    exact ⟨zs, rfl, same⟩
  · rintro ⟨zs, rfl, same⟩
    simp only [normal, shape, same]

/-- Maps join if the third one holds the entries of the first, with the others inserted. -/
theorem joins_entries_iff {key : ScalarType} (shape : m.shape = .map key type) (isKey : key.isKey)
    {xs ys : List Entry} (below : Ordered key xs) (above : Ordered key ys)
    : (entries xs).Joins s m (entries ys) z
        ↔ ∃ zs, z = entries zs
            ∧ entriesNormal s type zs = entriesNormal s type (insertEntries xs ys) := by
  simp only [Joins, combine, normal, shape, ← below.insertEntries_eq isKey above]
  constructor
  · intro same
    obtain ⟨zs, rfl⟩ := entries_of_normal same
    simp only [normal, shape, entries.injEq] at same
    exact ⟨zs, rfl, same⟩
  · rintro ⟨zs, rfl, same⟩
    simp only [normal, shape, same]

/-- What is set in a oneof counts, unless it is a message on top of another one. -/
theorem joins_choice {tag : Nat} {a : Alternative} (found : m.alternative? tag = some a) {x : Slot}
    (conforms : x.Conforms s m) {v : Value}
    (apart : ∀ inner, x = choice tag (.message inner) → ∃ u, v = .scalar u)
    : x.Joins s m (choice tag v) (choice tag v) := by
  obtain ⟨alternatives, shape⟩ := Member.shape_of_alternative found
  rw [Joins]
  congr 1
  rcases conforms.of_oneof shape with rfl | ⟨old, u, b, rfl, -⟩
  · simp only [combine, found]
  · simp only [combine, found]
    split
    · rename_i same
      subst same
      cases u with
      | message inner =>
          obtain ⟨u, rfl⟩ := apart inner rfl
          rfl
      | scalar u => cases v <;> simp [Value.combine]
    · rfl

/-- A text or a byte string that joins to one on top of nothing is that one. -/
theorem eq_of_joins {x y : Slot} {type : ScalarType} (shape : m.shape = .single (.scalar type))
    (plain : type = .string Option.none ∨ type = .bytes Option.none) (lawful : s.Lawful)
    (legal : m.shape.isLawful) (unset : x.Unset s m) (old : x.Conforms s m) (new : y.Conforms s m)
    (joined : x.Joins s m y z)
    : z = y := by
  have same := joined.trans (unset.normal_combine lawful legal old new)
  obtain ⟨v, rfl, typed⟩ := new.scalar shape
  obtain ⟨w, rfl⟩ := joined.one_of_single shape old new
  cases w with
  | message w => simp [normal, shape, Value.normal, Value.positiveZero] at same
  | scalar w =>
      simp only [normal, shape, Value.normal, Value.positiveZero, one.injEq,
        Value.scalar.injEq] at same
      rcases plain with rfl | rfl <;> cases v <;> cases typed <;> cases w <;>
        simp_all [Scalar.positiveZero]

end Slot

end Protobuf
