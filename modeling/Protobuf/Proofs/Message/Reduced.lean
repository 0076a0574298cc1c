import Protobuf.Message.Equal
import Protobuf.Proofs.Message.Combination
import Protobuf.Proofs.Message.KeyOrder
import Protobuf.Proofs.Message.Known
import Protobuf.Proofs.Message.Sources

/-! Equality as equality of reduced forms.  The reduced form of a message has positive zeros only
and leaves out an optional message that is empty; messages without NaNs are equal if and only if
they have the same reduced form.
-/

namespace Protobuf

variable {s : Schema} {t : MessageType}

-----------------------------------------------------------------------------------------
-- Scalars
-----------------------------------------------------------------------------------------

namespace Scalar

/-- The value is a NaN. -/
def isNaN : Scalar → Bool
  | .float bits => floatIsNaN bits
  | .double bits => doubleIsNaN bits
  | _ => false

variable {a b : Scalar}

/-- Scalars that are equal differ by the sign of zero at most. -/
theorem positiveZero_of_equal (h : a.equal b)
    : a.positiveZero = b.positiveZero := by
  cases a <;> cases b <;> simp only [equal, beq_iff_eq, reduceCtorEq] at h
  case float.float x y =>
    simp only [Bool.and_eq_true, Bool.or_eq_true, beq_iff_eq] at h
    rcases h with ⟨-, rfl | ⟨first, second⟩⟩
    · rfl
    · simp [positiveZero, first, second]
  case double.double x y =>
    simp only [Bool.and_eq_true, Bool.or_eq_true, beq_iff_eq] at h
    rcases h with ⟨-, rfl | ⟨first, second⟩⟩
    · rfl
    · simp [positiveZero, first, second]
  all_goals rw [h]

/-- Zero is a number. -/
theorem not_floatIsNaN_of_isZero {bits : UInt32} (h : floatIsZero bits)
    : floatIsNaN bits = false := by
  simp only [floatIsZero, floatIsNaN, beq_iff_eq] at h ⊢
  simp [h]

/-- Zero is a number. -/
theorem not_doubleIsNaN_of_isZero {bits : UInt64} (h : doubleIsZero bits)
    : doubleIsNaN bits = false := by
  simp only [doubleIsZero, doubleIsNaN, beq_iff_eq] at h ⊢
  simp [h]

/-- Scalars with the same positive form are equal unless they are NaNs. -/
theorem equal_of_positiveZero (h : a.positiveZero = b.positiveZero) (number : a.isNaN = false)
    : a.equal b := by
  cases a <;> cases b <;> simp only [positiveZero, reduceCtorEq] at h
  case float.float x y =>
    simp only [float.injEq] at h
    simp only [equal, Bool.and_eq_true, Bool.or_eq_true, beq_iff_eq, Bool.not_eq_true']
    by_cases first : floatIsZero x <;> by_cases second : floatIsZero y
      <;> simp only [first, second, if_true, if_false, Bool.false_eq_true] at h
    · exact ⟨⟨number, not_floatIsNaN_of_isZero second⟩, .inr ⟨first, second⟩⟩
    · exact absurd rfl (h ▸ second)
    · exact absurd rfl (h ▸ first)
    · subst h
      exact ⟨⟨number, number⟩, .inl rfl⟩
  case double.double x y =>
    simp only [double.injEq] at h
    simp only [equal, Bool.and_eq_true, Bool.or_eq_true, beq_iff_eq, Bool.not_eq_true']
    by_cases first : doubleIsZero x <;> by_cases second : doubleIsZero y
      <;> simp only [first, second, if_true, if_false, Bool.false_eq_true] at h
    · exact ⟨⟨number, not_doubleIsNaN_of_isZero second⟩, .inr ⟨first, second⟩⟩
    · exact absurd rfl (h ▸ second)
    · exact absurd rfl (h ▸ first)
    · subst h
      exact ⟨⟨number, number⟩, .inl rfl⟩
  all_goals simp [equal, h]

/-- A scalar is a default if its positive form is. -/
theorem isDefault_iff {type : ScalarType} (typed : a.hasType type)
    : a.isDefault ↔ a.positiveZero = type.default.positiveZero := by
  rw [type.positiveZero_default]
  constructor
  · exact positiveZero_of_isDefault typed
  · intro same
    by_cases zero : a.isDefault
    · exact zero
    · rw [positiveZero_of_not_isDefault (Bool.eq_false_iff.mpr zero)] at same
      subst same
      cases type <;> rfl

end Scalar

-----------------------------------------------------------------------------------------
-- Reduced forms
-----------------------------------------------------------------------------------------

mutual

/-- The value with positive zeros and without optional messages that are empty. -/
def Value.reduced (s : Schema) (type : ValueType) : Value → Value
  | .scalar v => .scalar v.positiveZero
  | .message m =>
      match type with
      | .scalar _ => .message m
      | .message name => .message (m.reduced s (s.type name))

def Message.reduced (s : Schema) (t : MessageType) : Message → Message
  | ⟨slots, unknown⟩ => ⟨slotsReduced s t.members slots, unknown⟩

def slotsReduced (s : Schema) (members : List Member) : List Slot → List Slot
  | [] => []
  | slot :: slots =>
      match members with
      | [] => slot :: slots
      | m :: members => slot.reduced s m :: slotsReduced s members slots

def Slot.reduced (s : Schema) (m : Member) : Slot → Slot
  | .none => .none
  | .one v =>
      match m.shape with
      | .single type => .one (v.reduced s type)
      | .optional type => if v.isBlank s m.shape then .none else .one (v.reduced s type)
      | _ => .one v
  | .many vs =>
      match m.shape with
      | .repeated type _ _ => .many (elementsReduced s type vs)
      | _ => .many vs
  | .entries es =>
      match m.shape with
      | .map _ value => .entries (entriesReduced s value es)
      | _ => .entries es
  | .choice tag v =>
      match m.alternative? tag with
      | some a => .choice tag (v.reduced s a.type)
      | none => .choice tag v

def elementsReduced (s : Schema) (type : ValueType) : List Value → List Value
  | [] => []
  | v :: vs => v.reduced s type :: elementsReduced s type vs

def entriesReduced (s : Schema) (value : ValueType) : List Entry → List Entry
  | [] => []
  | ⟨key, v⟩ :: es => ⟨key, v.reduced s value⟩ :: entriesReduced s value es

end

-----------------------------------------------------------------------------------------
-- Blank messages
-----------------------------------------------------------------------------------------

mutual

/-- A message is blank if its reduced form is that of the empty message, by induction on it. -/
theorem Message.isBlank_iff (h : s.Lawful) {name : String} (m : Message)
    (typed : m.Typed s (s.type name))
    : m.isBlank s (s.type name)
      ↔ m.reduced s (s.type name) = (s.empty name).reduced s (s.type name) := by
  cases m with
  | mk slots unknown =>
      rw [h.empty_eq name]
      simp only [Message.isBlank, Message.reduced, Bool.and_eq_true, List.isEmpty_iff,
        Message.mk.injEq]
      exact and_congr_left fun _ =>
        slotsBlank_iff h (s.type name).members slots typed.1

theorem slotsBlank_iff (h : s.Lawful) (members : List Member) (slots : List Slot)
    (typed : slotsConform s members (slotsKnown slots))
    : slotsBlank s members slots
      ↔ slotsReduced s members slots
        = slotsReduced s members (members.map fun m => m.shape.emptySlot s.empty) := by
  cases slots with
  | nil =>
      cases typed
      simp [slotsBlank, slotsReduced]
  | cons slot slots =>
      cases members with
      | nil => exact typed.elim
      | cons m members =>
          simp only [slotsBlank, slotsReduced, List.map_cons, Bool.and_eq_true, List.cons.injEq]
          exact and_congr (Slot.isBlank_iff h m slot typed.1)
            (slotsBlank_iff h members slots typed.2)

/-- A slot is blank if its reduced form is that of a slot that was never set, by cases on its shape.
-/
theorem Slot.isBlank_iff (h : s.Lawful) (m : Member) (slot : Slot) (typed : slot.known.Conforms s m)
    : slot.isBlank s m
      ↔ slot.reduced s m = (m.shape.emptySlot s.empty).reduced s m := by
  cases slot with
  | none =>
      simp only [Slot.known, Slot.Conforms] at typed
      simp only [Slot.isBlank, Slot.reduced, true_iff]
      split at typed
      · rename_i shape
        simp only [shape, Shape.emptySlot, Slot.reduced]
      · rename_i shape
        simp only [shape, Shape.emptySlot, Slot.reduced]
      · exact typed.elim
  | one v =>
      simp only [Slot.known, Slot.Conforms] at typed
      split at typed
      · rename_i type shape
        cases v with
        | scalar w =>
            cases type with
            | message name => exact typed.elim
            | scalar type =>
                simp only [Slot.isBlank, Value.isBlank, Slot.reduced, Value.reduced, shape,
                  Shape.emptySlot, Slot.one.injEq, Value.scalar.injEq]
                exact Scalar.isDefault_iff typed
        | message n =>
            cases type with
            | scalar type => exact typed.elim
            | message name =>
                simp only [Slot.isBlank, Value.isBlank, Slot.reduced, Value.reduced, shape,
                  Shape.emptySlot, Slot.one.injEq, Value.message.injEq]
                exact n.isBlank_iff h typed
      · rename_i type shape
        simp only [Slot.isBlank, Slot.reduced, shape, Shape.emptySlot]
        split <;> simp_all
      · exact typed.elim
  | many vs =>
      simp only [Slot.known, Slot.Conforms] at typed
      split at typed
      · rename_i shape
        simp only [Slot.isBlank, Slot.reduced, shape, Shape.emptySlot, elementsReduced]
        cases vs <;> simp [elementsReduced]
      · exact typed.elim
  | entries es =>
      simp only [Slot.known, Slot.Conforms] at typed
      split at typed
      · rename_i shape
        simp only [Slot.isBlank, Slot.reduced, shape, Shape.emptySlot, entriesReduced]
        cases es with
        | nil => simp [entriesReduced]
        | cons e es =>
            obtain ⟨k, v⟩ := e
            simp [entriesReduced]
      · exact typed.elim
  | choice tag v =>
      simp only [Slot.known, Slot.Conforms] at typed
      split at typed
      · rename_i a found
        obtain ⟨alternatives, shape⟩ := Member.shape_of_alternative found
        simp [Slot.isBlank, Slot.reduced, shape, found, Shape.emptySlot]
      · exact typed.elim

end

/-- Whether an optional value is blank depends on its reduced form. -/
theorem Value.isBlank_eq (h : s.Lawful) {type : ValueType} {v w : Value}
    (typed : v.known.Conforms s type) (typed' : w.known.Conforms s type)
    (same : v.reduced s type = w.reduced s type)
    : v.isBlank s (.optional type) = w.isBlank s (.optional type) := by
  cases type with
  | scalar type =>
      obtain ⟨a, rfl, -⟩ := scalar_of_known typed
      obtain ⟨b, rfl, -⟩ := scalar_of_known typed'
      rfl
  | message name =>
      obtain ⟨m, rfl, typed⟩ := message_of_known typed
      obtain ⟨n, rfl, typed'⟩ := message_of_known typed'
      simp only [Value.reduced, Value.message.injEq] at same
      rw [Bool.eq_iff_iff, Value.isBlank, Value.isBlank, m.isBlank_iff h typed,
        n.isBlank_iff h typed', same]

/-- A blank optional value has the reduced form of the value before one is set. -/
theorem Value.reduced_of_isBlank (h : s.Lawful) {type : ValueType} {v : Value}
    (typed : v.known.Conforms s type) (blank : v.isBlank s (.optional type))
    : v.reduced s type = (s.emptyValue type).reduced s type := by
  cases type with
  | scalar type =>
      obtain ⟨a, rfl, -⟩ := scalar_of_known typed
      simp [Value.isBlank] at blank
  | message name =>
      obtain ⟨m, rfl, typed⟩ := message_of_known typed
      simp only [Schema.emptyValue, Value.reduced, (m.isBlank_iff h typed).mp blank]

/-- Optional values whose slots have the same reduced form have the same themselves. -/
theorem Slot.reduced_optional (h : s.Lawful) {m : Member} {type : ValueType}
    (shape : m.shape = .optional type) {v w : Value} (typed : v.known.Conforms s type)
    (typed' : w.known.Conforms s type)
    (same : (Slot.one v).reduced s m = (Slot.one w).reduced s m)
    : v.reduced s type = w.reduced s type := by
  simp only [Slot.reduced, shape] at same
  split at same
  · rename_i blank
    split at same
    · rename_i blank'
      rw [Value.reduced_of_isBlank h typed blank, Value.reduced_of_isBlank h typed' blank']
    · cases same
  · split at same
    · cases same
    · exact Slot.one.inj same

-----------------------------------------------------------------------------------------
-- Maps by key
-----------------------------------------------------------------------------------------

/-- Entries are reduced one by one. -/
theorem entriesReduced_eq_map (value : ValueType) (es : List Entry)
    : entriesReduced s value es = es.map fun e => ⟨e.key, e.value.reduced s value⟩ := by
  induction es with
  | nil => rfl
  | cons e es ih =>
      obtain ⟨k, v⟩ := e
      simp [entriesReduced, ih]

/-- Elements are reduced one by one. -/
theorem elementsReduced_eq_map (type : ValueType) (vs : List Value)
    : elementsReduced s type vs = vs.map (·.reduced s type) := by
  induction vs with
  | nil => rfl
  | cons v vs ih => simp [elementsReduced, ih]

/-- Reduced entries have the same keys. -/
theorem map_key_entriesReduced (value : ValueType) (es : List Entry)
    : (entriesReduced s value es).map (·.key) = es.map (·.key) := by
  simp [entriesReduced_eq_map]

/-- Reduced entries stand in the same order. -/
theorem Ordered.entriesReduced {key : ScalarType} {value : ValueType} {es : List Entry}
    (ordered : Ordered key es)
    : Ordered key (Protobuf.entriesReduced s value es) := by
  rw [ordered_iff_keys, map_key_entriesReduced, ← ordered_iff_keys]
  exact ordered

/-- Two maps of as many entries are the same if each entry of the first is one of the second. -/
theorem Ordered.eq_of_subset {key : ScalarType} {ds es : List Entry} (first : Ordered key ds)
    (second : Ordered key es) (length : ds.length = es.length) (all : ∀ d ∈ ds, d ∈ es)
    : ds = es := by
  have distinct : ds.Nodup := List.Nodup.of_map _ first.distinct
  have perm := (List.subperm_of_subset distinct all).perm_of_length_le length.ge
  exact first.ascending.eq_of_mem_iff second.ascending fun x => perm.mem_iff

/-- Entries conform one by one. -/
theorem entriesConform_known_iff {value : ValueType} {es : List Entry}
    : entriesConform s value (entriesKnown es) ↔ ∀ e ∈ es, e.value.known.Conforms s value := by
  induction es with
  | nil => simp [entriesKnown, entriesConform]
  | cons e es ih =>
      obtain ⟨k, v⟩ := e
      simp [entriesKnown, entriesConform, ih]

/-- Elements conform one by one. -/
theorem elementsConform_known_iff {type : ValueType} {vs : List Value}
    : elementsConform s type (elementsKnown vs) ↔ ∀ v ∈ vs, v.known.Conforms s type := by
  induction vs with
  | nil => simp [elementsKnown, elementsConform]
  | cons v vs ih => simp [elementsKnown, elementsConform, ih]

/-- Every entry is found in the other map under its key. -/
def entriesEqual (s : Schema) (value : ValueType) : List Entry → List Entry → Bool
  | [], _ => true
  | ⟨key, a⟩ :: as, others =>
      (entryValue? key others).any (fun b => a.equal s value b) && entriesEqual s value as others

/-- The tests of the entries come to comparing them one by one. -/
theorem all_entryTests (value : ValueType) (ds es : List Entry)
    : (entryTests s value ds).all (fun test => test.2 es) = entriesEqual s value ds es := by
  induction ds with
  | nil => simp only [entryTests, entriesEqual, List.all_nil]
  | cons d ds ih =>
      obtain ⟨k, v⟩ := d
      simp only [entryTests, entriesEqual, List.all_cons, ih]

/-- The order in which the entries of a map are tested does not matter. -/
theorem Slot.equal_entries {m : Member} {key : ScalarType} {value : ValueType}
    (shape : m.shape = .map key value) (ds es : List Entry)
    : (Slot.entries ds).equal s m (.entries es)
        = (ds.length == es.length && entriesEqual s value ds es) := by
  have same : ((inKeyOrder (entryTests s value ds)).all fun test => test es)
      = (entryTests s value ds).all fun test => test.2 es := by
    rw [(inKeyOrder_perm (entryTests s value ds)).all_eq, List.all_map]
    rfl
  simp only [Slot.equal, shape, same, all_entryTests]

-----------------------------------------------------------------------------------------
-- Equal messages
-----------------------------------------------------------------------------------------

mutual

/-- Equal values have the same reduced form, by induction on the first. -/
theorem Value.reduced_eq_of_equal (h : s.Lawful) {type : ValueType} (v w : Value)
    (typed : v.known.Conforms s type) (typed' : w.known.Conforms s type) (equal : v.equal s type w)
    : v.reduced s type = w.reduced s type := by
  cases v with
  | scalar a =>
      cases w with
      | message n => simp [Value.equal] at equal
      | scalar b =>
          simp only [Value.equal] at equal
          simp only [Value.reduced, Scalar.positiveZero_of_equal equal]
  | message m =>
      cases w with
      | scalar b => simp [Value.equal] at equal
      | message n =>
          cases type with
          | scalar type => exact typed.elim
          | message name =>
              simp only [Value.equal] at equal
              simp only [Value.reduced, m.reduced_eq_of_equal h (h.type name) n typed typed' equal]
termination_by structural v

/-- Equal messages reduce to the same, by induction on the first one. -/
theorem Message.reduced_eq_of_equal (h : s.Lawful) {t : MessageType} (lawful : t.Lawful)
    (m n : Message) (typed : m.Typed s t) (typed' : n.Typed s t) (equal : m.equal s t n)
    : m.reduced s t = n.reduced s t := by
  cases m with
  | mk slots unknown =>
      cases n with
      | mk others unknown' =>
          simp only [Message.equal, Bool.and_eq_true, beq_iff_eq] at equal
          simp only [Message.reduced, equal.2, slotsReduced_eq_of_equal h t.members lawful.shapes
            slots others typed.1 typed'.1 equal.1]
termination_by structural m

theorem slotsReduced_eq_of_equal (h : s.Lawful) (members : List Member)
    (lawful : ∀ m ∈ members, m.shape.isLawful) (slots others : List Slot)
    (typed : slotsConform s members (slotsKnown slots))
    (typed' : slotsConform s members (slotsKnown others))
    (equal : slotsEqual s members slots others)
    : slotsReduced s members slots = slotsReduced s members others := by
  cases slots with
  | nil =>
      cases typed
      rw [slotsKnown_nil typed']
  | cons slot slots =>
      cases members with
      | nil => exact typed.elim
      | cons m members =>
          obtain ⟨other, others, rfl, first, behind⟩ := slotsKnown_cons typed'
          obtain ⟨shape, shapes⟩ := List.forall_mem_cons.mp lawful
          simp only [slotsEqual, Bool.and_eq_true] at equal
          simp only [slotsReduced, slot.reduced_eq_of_equal h m shape other typed.1 first equal.1,
            slotsReduced_eq_of_equal h members shapes slots others typed.2 behind equal.2]
termination_by structural slots

/-- Equal slots have the same reduced form, by cases on what they hold. -/
theorem Slot.reduced_eq_of_equal (h : s.Lawful) (m : Member) (lawful : m.shape.isLawful)
    (slot other : Slot) (typed : slot.known.Conforms s m) (typed' : other.known.Conforms s m)
    (equal : slot.equal s m other)
    : slot.reduced s m = other.reduced s m := by
  cases slot with
  | none =>
      cases other with
      | none => rfl
      | one w =>
          simp only [Slot.equal] at equal
          simp only [Slot.known, Slot.Conforms] at typed typed'
          split at typed'
          · rename_i shape
            simp only [shape] at typed
          · rename_i shape
            simp only [Slot.reduced, shape] at equal ⊢
            rw [if_pos equal]
          · exact typed'.elim
      | many _ | entries _ | choice _ _ => simp [Slot.equal] at equal
  | one v =>
      cases other with
      | none =>
          simp only [Slot.equal] at equal
          simp only [Slot.known, Slot.Conforms] at typed typed'
          split at typed
          · rename_i shape
            simp only [shape] at typed'
          · rename_i shape
            simp only [Slot.reduced, shape] at equal ⊢
            rw [if_pos equal]
          · exact typed.elim
      | one w =>
          simp only [Slot.known, Slot.Conforms] at typed typed'
          split at typed
          · rename_i type shape
            simp only [Slot.equal, shape] at equal typed'
            simp only [Slot.reduced, shape, v.reduced_eq_of_equal h w typed typed' equal]
          · rename_i type shape
            simp only [Slot.equal, shape] at equal typed'
            have same := v.reduced_eq_of_equal h w typed typed' equal
            simp only [Slot.reduced, shape, same, Value.isBlank_eq h typed typed' same]
          · exact typed.elim
      | many _ | entries _ | choice _ _ => simp [Slot.equal] at equal
  | many vs =>
      cases other with
      | many ws =>
          simp only [Slot.known, Slot.Conforms] at typed typed'
          split at typed
          · rename_i shape
            simp only [Slot.equal, shape] at equal typed'
            simp only [Slot.reduced, shape,
              elementsReduced_eq_of_equal h vs ws typed typed' equal]
          · exact typed.elim
      | none | one _ | entries _ | choice _ _ => simp [Slot.equal] at equal
  | entries ds =>
      cases other with
      | entries es =>
          simp only [Slot.known, Slot.Conforms] at typed typed'
          split at typed
          · rename_i key value shape
            simp only [Slot.equal_entries shape, shape, Bool.and_eq_true, beq_iff_eq]
              at equal typed'
            have isKey : key.isKey := by simpa [Shape.isLawful, shape] using lawful
            have first := ordered_entriesKnown.mp typed.1
            have second := ordered_entriesKnown.mp typed'.1
            have found := entriesReduced_of_equal h isKey ds es first.typed second typed.2 typed'.2
              equal.2
            have length : (entriesReduced s value ds).length
              = (entriesReduced s value es).length := by
              simp only [entriesReduced_eq_map, List.length_map, equal.1]
            simp only [Slot.reduced, shape,
              first.entriesReduced.eq_of_subset second.entriesReduced length found]
          · exact typed.elim
      | none | one _ | many _ | choice _ _ => simp [Slot.equal] at equal
  | choice tag v =>
      cases other with
      | choice tag' w =>
          simp only [Slot.known, Slot.Conforms] at typed typed'
          split at typed
          · rename_i a found
            simp only [Slot.equal, found, Bool.and_eq_true, beq_iff_eq] at equal
            obtain ⟨rfl, equal⟩ := equal
            simp only [found] at typed'
            simp only [Slot.reduced, found, v.reduced_eq_of_equal h w typed typed' equal]
          · exact typed.elim
      | none | one _ | many _ | entries _ => simp [Slot.equal] at equal
termination_by structural slot

theorem elementsReduced_eq_of_equal (h : s.Lawful) {type : ValueType} (vs ws : List Value)
    (typed : elementsConform s type (elementsKnown vs))
    (typed' : elementsConform s type (elementsKnown ws)) (equal : elementsEqual s type vs ws)
    : elementsReduced s type vs = elementsReduced s type ws := by
  cases vs with
  | nil =>
      cases ws with
      | nil => rfl
      | cons w ws => simp [elementsEqual] at equal
  | cons v vs =>
      cases ws with
      | nil => simp [elementsEqual] at equal
      | cons w ws =>
          simp only [elementsEqual, Bool.and_eq_true] at equal
          simp only [elementsReduced, v.reduced_eq_of_equal h w typed.1 typed'.1 equal.1,
            elementsReduced_eq_of_equal h vs ws typed.2 typed'.2 equal.2]
termination_by structural vs

/-- Each entry stands in the other map with a value of the same reduced form. -/
theorem entriesReduced_of_equal (h : s.Lawful) {key : ScalarType} (isKey : key.isKey)
    {value : ValueType} (ds es : List Entry) (keys : ∀ d ∈ ds, d.key.hasType key)
    (ordered : Ordered key es) (typed : entriesConform s value (entriesKnown ds))
    (typed' : entriesConform s value (entriesKnown es)) (equal : entriesEqual s value ds es)
    : ∀ d ∈ entriesReduced s value ds, d ∈ entriesReduced s value es := by
  cases ds with
  | nil => exact nofun
  | cons d ds =>
      cases d with
      | mk k v =>
          obtain ⟨own, others⟩ := List.forall_mem_cons.mp keys
          simp only [entriesEqual, Bool.and_eq_true] at equal
          refine List.forall_mem_cons.mpr ⟨?_,
            entriesReduced_of_equal h isKey ds es others ordered typed.2 typed' equal.2⟩
          cases found : entryValue? k es with
          | none => simp [found] at equal
          | some w =>
              simp only [found, Option.any_some] at equal
              have member := (ordered.entryValue?_eq_some isKey own).mp found
              have same := v.reduced_eq_of_equal h w typed.1
                (entriesConform_known_iff.mp typed' _ member)
                equal.1
              rw [same, entriesReduced_eq_map]
              exact List.mem_map_of_mem member
termination_by structural ds

end

/-- No scalar in the message is a NaN; keys of maps never are. -/
abbrev Message.NaNFree (m : Message) : Prop :=
  m.All fun v => v.isNaN = false

mutual

/-- Values with the same reduced form are equal unless they hold a NaN, by induction on the first.
-/
theorem Value.equal_of_reduced_eq (h : s.Lawful) {type : ValueType} (v w : Value)
    (typed : v.known.Conforms s type) (typed' : w.known.Conforms s type)
    (number : v.All fun v => v.isNaN = false) (same : v.reduced s type = w.reduced s type)
    : v.equal s type w := by
  cases v with
  | scalar a =>
      cases type with
      | message name => exact typed.elim
      | scalar type =>
          obtain ⟨b, rfl, -⟩ := scalar_of_known typed'
          simp only [Value.reduced, Value.scalar.injEq] at same
          simp only [Value.equal]
          exact Scalar.equal_of_positiveZero same number
  | message m =>
      cases type with
      | scalar type => exact typed.elim
      | message name =>
          obtain ⟨n, rfl, held⟩ := message_of_known typed'
          simp only [Value.reduced, Value.message.injEq] at same
          simp only [Value.equal]
          exact m.equal_of_reduced_eq h (h.type name) n typed held number same
termination_by structural v

/-- Messages that reduce to the same are equal, by induction on the first one. -/
theorem Message.equal_of_reduced_eq (h : s.Lawful) {t : MessageType} (lawful : t.Lawful)
    (m n : Message) (typed : m.Typed s t) (typed' : n.Typed s t) (number : m.NaNFree)
    (same : m.reduced s t = n.reduced s t)
    : m.equal s t n := by
  cases m with
  | mk slots unknown =>
      cases n with
      | mk others unknown' =>
          simp only [Message.reduced, Message.mk.injEq] at same
          simp only [Message.equal, same.2, BEq.rfl, Bool.and_true]
          exact slotsEqual_of_reduced_eq h t.members lawful.shapes slots others typed.1
            typed'.1 number
            same.1
termination_by structural m

theorem slotsEqual_of_reduced_eq (h : s.Lawful) (members : List Member)
    (lawful : ∀ m ∈ members, m.shape.isLawful) (slots others : List Slot)
    (typed : slotsConform s members (slotsKnown slots))
    (typed' : slotsConform s members (slotsKnown others))
    (number : slotsAll (fun v => v.isNaN = false) slots)
    (same : slotsReduced s members slots = slotsReduced s members others)
    : slotsEqual s members slots others := by
  cases slots with
  | nil =>
      cases typed
      simp only [slotsKnown_nil typed', slotsEqual, List.isEmpty_nil]
  | cons slot slots =>
      cases members with
      | nil => exact typed.elim
      | cons m members =>
          obtain ⟨other, others, rfl, first, behind⟩ := slotsKnown_cons typed'
          obtain ⟨shape, shapes⟩ := List.forall_mem_cons.mp lawful
          simp only [slotsReduced, List.cons.injEq] at same
          simp only [slotsEqual,
            slot.equal_of_reduced_eq h m shape other typed.1 first number.1 same.1,
              slotsEqual_of_reduced_eq h members shapes slots others typed.2 behind number.2 same.2,
            Bool.and_self]
termination_by structural slots

/-- Slots with the same reduced form are equal, by the shape of the member. -/
theorem Slot.equal_of_reduced_eq (h : s.Lawful) (m : Member) (lawful : m.shape.isLawful)
    (slot other : Slot) (typed : slot.known.Conforms s m) (typed' : other.known.Conforms s m)
    (number : slot.All fun v => v.isNaN = false) (same : slot.reduced s m = other.reduced s m)
    : slot.equal s m other := by
  cases slot with
  | none =>
      simp only [Slot.known, Slot.Conforms] at typed
      split at typed
      · rename_i type shape
        rcases other.optional_of_known typed' shape with rfl | ⟨w, rfl, -⟩
        · simp only [Slot.equal]
        · simp only [Slot.reduced, shape] at same
          simp only [Slot.equal, shape]
          split at same
          · assumption
          · cases same
      · rename_i alternatives shape
        rcases other.choice_of_known typed' shape with rfl | ⟨tag, w, a, rfl, found, -⟩
        · simp only [Slot.equal]
        · simp [Slot.reduced, found] at same
      · exact typed.elim
  | one v =>
      simp only [Slot.known, Slot.Conforms] at typed
      split at typed
      · rename_i type shape
        obtain ⟨w, rfl, held⟩ := other.one_of_known typed' shape
        simp only [Slot.reduced, shape, Slot.one.injEq] at same
        simp only [Slot.equal, shape]
        exact v.equal_of_reduced_eq h w typed held number same
      · rename_i type shape
        rcases other.optional_of_known typed' shape with rfl | ⟨w, rfl, held⟩
        · simp only [Slot.reduced, shape] at same
          simp only [Slot.equal, shape]
          split at same
          · assumption
          · cases same
        · simp only [Slot.equal, shape]
          exact v.equal_of_reduced_eq h w typed held number
            (Slot.reduced_optional h shape typed held same)
      · exact typed.elim
  | many vs =>
      simp only [Slot.known, Slot.Conforms] at typed
      split at typed
      · rename_i type packed capacity shape
        obtain ⟨ws, rfl, held⟩ := other.many_of_known typed' shape
        simp only [Slot.reduced, shape, Slot.many.injEq] at same
        simp only [Slot.equal, shape]
        exact elementsEqual_of_reduced_eq h vs ws typed held number same
      · exact typed.elim
  | entries ds =>
      simp only [Slot.known, Slot.Conforms] at typed
      split at typed
      · rename_i key value shape
        obtain ⟨es, rfl, ordered, held⟩ := other.entries_of_known typed' shape
        have isKey : key.isKey := by simpa [Shape.isLawful, shape] using lawful
        simp only [Slot.reduced, shape, Slot.entries.injEq] at same
        have length : ds.length = es.length := by
          simpa [entriesReduced_eq_map] using congrArg List.length same
        have first := ordered_entriesKnown.mp typed.1
        simp only [Slot.equal_entries shape, length, BEq.rfl, Bool.true_and]
        exact entriesEqual_of_reduced_eq h isKey ds es first.typed ordered typed.2 held number
          fun d member => same ▸ member
      · exact typed.elim
  | choice tag v =>
      simp only [Slot.known, Slot.Conforms] at typed
      split at typed
      · rename_i a found
        obtain ⟨alternatives, shape⟩ := Member.shape_of_alternative found
        rcases other.choice_of_known typed' shape with rfl | ⟨tag', w, a', rfl, found', held⟩
        · simp [Slot.reduced, found] at same
        · simp only [Slot.reduced, found, found', Slot.choice.injEq] at same
          obtain ⟨rfl, same⟩ := same
          cases found.symm.trans found'
          simp only [Slot.equal, found, BEq.rfl, Bool.true_and]
          exact v.equal_of_reduced_eq h w typed held number same
      · exact typed.elim
termination_by structural slot

theorem elementsEqual_of_reduced_eq (h : s.Lawful) {type : ValueType} (vs ws : List Value)
    (typed : elementsConform s type (elementsKnown vs))
    (typed' : elementsConform s type (elementsKnown ws))
    (number : elementsAll (fun v => v.isNaN = false) vs)
    (same : elementsReduced s type vs = elementsReduced s type ws)
    : elementsEqual s type vs ws := by
  cases vs with
  | nil =>
      cases ws with
      | nil => simp only [elementsEqual, List.isEmpty_nil]
      | cons w ws => cases same
  | cons v vs =>
      cases ws with
      | nil => cases same
      | cons w ws =>
          simp only [elementsReduced, List.cons.injEq] at same
          simp only [elementsEqual, v.equal_of_reduced_eq h w typed.1 typed'.1 number.1 same.1,
            elementsEqual_of_reduced_eq h vs ws typed.2 typed'.2 number.2 same.2, Bool.and_self]
termination_by structural vs

/-- Each entry is found in the other map if its reduced form stands there. -/
theorem entriesEqual_of_reduced_eq (h : s.Lawful) {key : ScalarType} (isKey : key.isKey)
    {value : ValueType} (ds es : List Entry) (keys : ∀ d ∈ ds, d.key.hasType key)
    (ordered : Ordered key es) (typed : entriesConform s value (entriesKnown ds))
    (typed' : entriesConform s value (entriesKnown es))
    (number : entriesAll (fun v => v.isNaN = false) ds)
    (same : ∀ d ∈ entriesReduced s value ds, d ∈ entriesReduced s value es)
    : entriesEqual s value ds es := by
  cases ds with
  | nil => simp only [entriesEqual]
  | cons d ds =>
      cases d with
      | mk k v =>
          obtain ⟨own, others⟩ := List.forall_mem_cons.mp keys
          obtain ⟨here, behind⟩ := List.forall_mem_cons.mp same
          rw [entriesReduced_eq_map] at here
          obtain ⟨⟨k', w⟩, member, equal⟩ := List.mem_map.mp here
          simp only [Entry.mk.injEq] at equal
          obtain ⟨rfl, equal⟩ := equal
          have found := (ordered.entryValue?_eq_some isKey own).mpr member
          have first := v.equal_of_reduced_eq h w typed.1
            (entriesConform_known_iff.mp typed' _ member)
            number.1 equal.symm
          have later := entriesEqual_of_reduced_eq h isKey ds es others ordered typed.2 typed'
            number.2 behind
          simp only [entriesEqual, found, Option.any_some, first, later, Bool.and_self]
termination_by structural ds

end

/-- Messages of the type that can be compared with themselves. -/
structure Message.Comparable (s : Schema) (t : MessageType) (m : Message) : Prop where
  typed : m.Typed s t
  number : m.NaNFree

/-- Equality is having the same reduced form. -/
theorem Message.Comparable.equal_iff (h : s.Lawful) (lawful : t.Lawful) {m n : Message}
    (first : m.Comparable s t) (typed : n.Typed s t)
    : m.equal s t n ↔ m.reduced s t = n.reduced s t :=
  ⟨m.reduced_eq_of_equal h lawful n first.typed typed,
    m.equal_of_reduced_eq h lawful n first.typed typed first.number⟩

/-- Equality is an equivalence because having the same reduced form is one. -/
theorem equivalence_equal (h : s.Lawful) (lawful : t.Lawful)
    : Equivalence fun a b : {m : Message // m.Comparable s t} => a.val.equal s t b.val = true where
  refl a := (a.property.equal_iff h lawful a.property.typed).mpr rfl
  symm {a b} first := by
    rw [a.property.equal_iff h lawful b.property.typed] at first
    exact (b.property.equal_iff h lawful a.property.typed).mpr first.symm
  trans {a b c} first second := by
    rw [a.property.equal_iff h lawful b.property.typed] at first
    rw [b.property.equal_iff h lawful c.property.typed] at second
    exact (a.property.equal_iff h lawful c.property.typed).mpr (first.trans second)

end Protobuf
