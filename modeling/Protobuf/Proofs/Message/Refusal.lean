import Protobuf.Proofs.Message.Preservation
import Protobuf.Proofs.Message.RoundTrip

/-! Messages that nest deeper than a reader goes.  Their bytes are refused for that reason and for
no other: everything in front of the first record that is too deep is merged, and what stands
behind it is not looked at.
-/

namespace Protobuf

open Wire

variable {s : Schema} {embed : Option Embed} {t : MessageType} {m : Member}

-----------------------------------------------------------------------------------------
-- Records that are refused
-----------------------------------------------------------------------------------------

/-- In a message of the type whose member holds the slot, the bytes nest too deep. -/
def Refuses (s : Schema) (embed : Option Embed) (t : MessageType) (m : Member)
    (bytes : List UInt8) (slot : Slot)
    : Prop :=
  ∀ before behind done rest unknown more, t.members = before ++ m :: behind
    → done.length = before.length
    → (mergeRecords s embed t ⟨done ++ slot :: rest, unknown⟩ (bytes ++ more)).2
      = some .recursionLimitExceeded

theorem Refuses.append {first : List UInt8} {slot : Slot} (h : Refuses s embed t m first slot)
    (second : List UInt8)
    : Refuses s embed t m (first ++ second) slot := by
  intro before behind done rest unknown more members place
  rw [List.append_assoc]
  exact h before behind done rest unknown (second ++ more) members place

theorem Absorbs.refuses {first second : List UInt8} {a b : Slot}
    (h : Absorbs s embed t m first a b) (h' : Refuses s embed t m second b)
    : Refuses s embed t m (first ++ second) a := by
  intro before behind done rest unknown more members place
  rw [List.append_assoc, mergeRecords_append (h before behind done rest unknown members place)]
  exact h' before behind done rest unknown more members place

theorem refuses_record (h : t.Lawful) {tag : Nat} {wire : WireType} {payload : List UInt8}
    {slot : Slot} (own : tag ∈ m.tags) (closed : wire ≠ .endGroup)
    (failed : ∀ more, (mergeSlot s embed m tag wire slot (payload ++ more)).failure
      = some .recursionLimitExceeded)
    : Refuses s embed t m (keyBytes tag wire ++ payload) slot :=
  fails_record h own closed failed

/-- Where nothing is set yet, the bytes of the value nest too deep. -/
def Value.Refused (s : Schema) (embed : Option Embed) (type : ValueType) (v : Value) : Prop :=
  ∀ more, (mergeValue s embed type (s.emptyValue type) (v.encoding s type ++ more)).failure
    = some .recursionLimitExceeded

/-- A member that reads the value afresh refuses it. -/
theorem refuses_value (h : t.Lawful) {tag : Nat} {type : ValueType} {v : Value} {slot : Slot}
    (own : tag ∈ m.tags)
    (target : slot.target s m tag type.wireType
      = s.target tag type.wireType type (s.emptyValue type))
    (refused : v.Refused s embed type)
    : Refuses s embed t m (keyBytes tag type.wireType ++ v.encoding s type) slot := by
  refine refuses_record h own type.wireType_ne fun more => ?_
  rw [mergeSlot_eq, target, merge_target _ (.inr rfl), if_pos rfl]
  simp only [refused more, put_failure]

/-- A record nests too deep if no level is left for it, or if what is inside does. -/
theorem mergeNested_deep {budget : Nat} {c : Message} {data : List UInt8}
    (small : data.length < 2 ^ 63)
    (deep : ∀ inner, budget = inner + 1
      → (mergeRecords s (embedWithin s inner) t c data).2 = some .recursionLimitExceeded)
    (more : List UInt8)
    : (mergeNested (embedWithin s budget) t c (delimit data ++ more)).failure
        = some .recursionLimitExceeded := by
  cases budget with
  | zero => rfl
  | succ inner =>
      simp only [embedWithin, mergeNested, Decoder.reads_lengthDelimited small more]
      exact deep inner rfl

-----------------------------------------------------------------------------------------
-- Values that nest too deep
-----------------------------------------------------------------------------------------

theorem not_isOmitted_of_nesting {v : Value} {budget : Nat} (deep : budget < v.nesting)
    : v.isOmitted = false := by
  cases v with
  | scalar v => cases deep
  | message y => rfl

/-- What a member held before it was set, and the bytes of a slot that does not nest too deep. -/
theorem Slot.absorbs_fresh (h : s.Lawful) (lawful : t.Lawful) {budget : Nat}
    (member : m ∈ t.members) {slot : Slot} (sound : slot.Sound s m)
    (shallow : slot.nesting ≤ budget) (small : (slot.encoding s m).length < 2 ^ 63)
    : ∃ slot', Absorbs s (embedWithin s budget) t m (slot.encoding s m)
        (m.shape.emptySlot s.empty) slot' := by
  have fits := slot.fits_combine_empty h m (lawful.shapes m member) sound.1 sound.2
  have merged := slot.merges_encoding h lawful m member sound.1 shallow small
    (m.shape.emptySlot s.empty) (Shape.conforms_emptySlot fun name _ => h.conforms_empty name) fits
  rw [Shape.normal_emptySlot fun name _ => h.normal_empty name] at merged
  exact ⟨_, merged⟩

theorem elementsNesting_scalar {type : ScalarType} {vs : List Value}
    (sound : ∀ v ∈ vs, v.Sound s (.scalar type))
    : elementsNesting vs = 0 := by
  induction vs with
  | nil => rfl
  | cons v vs ih =>
      obtain ⟨first, others⟩ := List.forall_mem_cons.mp sound
      cases v with
      | message y => exact first.1.elim
      | scalar v => rw [elementsNesting, ih others, Value.nesting, Nat.max_self]

/-- An entry is refused if no level is left for it, or if its records are. -/
theorem refuses_entry (h : t.Lawful) {key : ScalarType} {value : ValueType} {budget : Nat}
    {data : List UInt8} {xs : List Entry} (shape : m.shape = .map key value)
    (small : data.length < 2 ^ 63)
    (deep : ∀ inner, budget = inner + 1
      → (mergeRecords s (embedWithin s inner) (.entry key value) (s.emptyEntry key value) data).2
        = some .recursionLimitExceeded)
    : Refuses s (embedWithin s budget) t m (keyBytes m.tag .lengthDelimited ++ delimit data)
        (.entries xs) := by
  refine refuses_record h (Member.tag_mem (by simp [shape])) WireType.noConfusion fun more => ?_
  have target : (Slot.entries xs).target s m m.tag .lengthDelimited
      = .message (.entry key value) (s.emptyEntry key value) := by
    simp only [Slot.target, shape, if_true]
  rw [mergeSlot_eq, target]
  simp only [Target.merge, mergeNested_deep small deep more, put_failure]

/-- The key of an entry is read before its value is refused. -/
theorem mergeRecords_entry_refused {key : ScalarType} {value : ValueType}
    {k : Scalar} {v : Value} (typed : k.hasType key)
    (small : (payload key k).encoding.length < 2 ^ 63) (refused : v.Refused s embed value)
    : (mergeRecords s embed (.entry key value) (s.emptyEntry key value)
          (keyBytes 1 key.wireType ++ (payload key k).encoding
            ++ keyBytes 2 value.wireType ++ v.encoding s value)).2
        = some .recursionLimitExceeded := by
  let keyMember : Member := ⟨1, "key", "key", .single (.scalar key)⟩
  let valueMember : Member := ⟨2, "value", "value", .single value⟩
  have lawful := MessageType.lawful_entry key value
  have keyRead : mergeValue s embed (.scalar key) (.scalar key.default) (payload key k).encoding
      = ⟨.scalar k, none, []⟩ :=
    mergeValue_scalar key.default typed small
  have first := absorbs_one (m := keyMember) lawful (.inl rfl) keyRead
  have second : Refuses s embed (.entry key value) valueMember
      (keyBytes 2 value.wireType ++ v.encoding s value) (.one (s.emptyValue value)) :=
    refuses_value lawful (Member.tag_mem nofun) rfl refused
  have afterKey := first [] [valueMember] [] [.one (s.emptyValue value)] [] rfl rfl
  have afterValue := second [keyMember] [] [.one (.scalar k)] [] [] [] rfl rfl
  rw [List.append_nil] at afterValue
  rw [List.append_assoc _ (keyBytes 2 _)]
  exact (congrArg Prod.snd (mergeRecords_append afterKey _)).trans afterValue

mutual

/-- A value that nests too deep is refused, by induction on it. -/
theorem Value.refused (h : s.Lawful) {budget : Nat} {type : ValueType} (v : Value)
    (sound : v.Sound s type) (deep : budget < v.nesting)
    (small : (v.encoding s type).length < 2 ^ 63)
    : v.Refused s (embedWithin s budget) type := by
  intro more
  cases v with
  | scalar v => cases deep
  | message y =>
      cases type with
      | scalar type => exact sound.1.elim
      | message name =>
          simp only [Value.encoding, length_delimit] at small
          have short : (y.encoding s (s.type name)).length < 2 ^ 63 := by omega
          refine mergeNested_deep short (fun inner level => ?_) more
          have deeper : inner < y.nesting := by
            simp only [Value.nesting] at deep
            omega
          have refused := y.refused h name sound deeper short []
          rwa [List.append_nil] at refused
termination_by structural v

/-- A message that nests too deep is refused by the empty one of its type. -/
theorem Message.refused (h : s.Lawful) {budget : Nat} (name : String) (y : Message)
    (sound : y.Sound s (s.type name)) (deep : budget < y.nesting)
    (small : (y.encoding s (s.type name)).length < 2 ^ 63) (more : List UInt8)
    : (mergeRecords s (embedWithin s budget) (s.type name) (s.empty name)
        (y.encoding s (s.type name) ++ more)).2 = some .recursionLimitExceeded := by
  cases y with
  | mk slots unknown =>
      have lawful := h.type name
      rw [Message.encoding, if_neg lawful.form] at small ⊢
      rw [List.length_append] at small
      have refused := slots_refused h lawful [] (s.type name).members rfl [] rfl slots
        ⟨sound.1.1, sound.2⟩ deep (by omega) [] (unknown ++ more)
      rw [h.empty_eq name, List.append_assoc]
      exact refused
termination_by structural y

/-- The first slot that nests too deep is refused; those in front of it are merged. -/
theorem slots_refused (h : s.Lawful) {t : MessageType} (lawful : t.Lawful) {budget : Nat}
    (before behind : List Member) (members : t.members = before ++ behind) (done : List Slot)
    (place : done.length = before.length) (slots : List Slot)
    (sound : slotsConform s behind slots ∧ slotsFit s behind slots)
    (deep : budget < slotsNesting slots)
    (small : (slotsEncoding s behind slots).length < 2 ^ 63) (unknown more : List UInt8)
    : (mergeRecords s (embedWithin s budget) t
          ⟨done ++ behind.map fun m => m.shape.emptySlot s.empty, unknown⟩
          (slotsEncoding s behind slots ++ more)).2
        = some .recursionLimitExceeded := by
  cases slots with
  | nil => cases deep
  | cons slot slots =>
      cases behind with
      | nil => exact sound.1.elim
      | cons m behind =>
          obtain ⟨⟨conforms, others⟩, fits, fit⟩ := sound
          simp only [slotsEncoding, List.length_append] at small ⊢
          rw [slotsNesting] at deep
          have member : m ∈ t.members := by simp [members]
          by_cases here : budget < slot.nesting
          · have refused := slot.refused h lawful m member ⟨conforms, fits⟩ here (by omega)
            exact (refused.append _) before behind done _ unknown more members place
          · obtain ⟨slot', absorbed⟩ := Slot.absorbs_fresh h lawful member ⟨conforms, fits⟩
              (Nat.le_of_not_lt here) (by omega)
            have deeper : budget < slotsNesting slots := by omega
            have later := slots_refused h lawful (before ++ [m]) behind (by simp [members])
              (done ++ [slot']) (by simp [place]) slots ⟨others, fit⟩ deeper (by omega)
              unknown more
            rw [List.append_assoc, List.map_cons,
              mergeRecords_append (absorbed before behind done _ unknown members place)]
            simpa only [List.append_assoc, List.singleton_append] using later
termination_by structural slots

/-- A slot that nests too deep is refused, by cases on the slot and on the shape. -/
theorem Slot.refused (h : s.Lawful) {t : MessageType} (lawful : t.Lawful) {budget : Nat}
    (m : Member) (member : m ∈ t.members) (slot : Slot) (sound : slot.Sound s m)
    (deep : budget < slot.nesting) (small : (slot.encoding s m).length < 2 ^ 63)
    : Refuses s (embedWithin s budget) t m (slot.encoding s m) (m.shape.emptySlot s.empty) := by
  cases slot with
  | none => cases deep
  | one v =>
      cases shape : m.shape with
      | single type =>
          have inner := (sound_one_iff (.inl shape)).mp sound
          simp only [Slot.encoding, shape, not_isOmitted_of_nesting deep, Bool.false_eq_true,
            if_false, List.length_append] at small ⊢
          refine refuses_value lawful (Member.tag_mem (by simp [shape])) ?_
            (v.refused h inner deep (by omega))
          cases type <;> simp only [Shape.emptySlot, Slot.target, shape] <;> rfl
      | optional type =>
          have inner := (sound_one_iff (.inr shape)).mp sound
          simp only [Slot.encoding, shape, List.length_append] at small ⊢
          refine refuses_value lawful (Member.tag_mem (by simp [shape])) ?_
            (v.refused h inner deep (by omega))
          simp only [Shape.emptySlot, Slot.target, shape]
      | repeated _ _ _ | map _ _ | oneof _ =>
          have conforms := sound.1
          simp only [Slot.Conforms, shape] at conforms
  | many vs =>
      cases shape : m.shape with
      | repeated type packed capacity =>
          obtain ⟨room, inner⟩ := (sound_many_iff shape).mp sound
          have legal := lawful.shapes m member
          rw [shape] at legal
          obtain ⟨name, rfl⟩ : ∃ name, type = .message name := by
            cases type with
            | message name => exact ⟨name, rfl⟩
            | scalar type =>
                rw [Slot.nesting, elementsNesting_scalar inner] at deep
                cases deep
          have apart : packed = false := by simpa [Shape.isLawful] using legal
          have nonempty : ¬vs.isEmpty := by
            intro empty
            rw [List.isEmpty_iff.mp empty] at deep
            cases deep
          simp only [Slot.encoding, shape, if_neg nonempty, apart, Bool.false_eq_true,
            if_false] at small ⊢
          exact refuses_elements h lawful shape vs inner deep small [] (by simpa using room)
      | single _ | optional _ | map _ _ | oneof _ =>
          have conforms := sound.1
          simp only [Slot.Conforms, shape] at conforms
  | entries es =>
      cases shape : m.shape with
      | map key value =>
          obtain ⟨ordered, inner⟩ := (sound_entries_iff shape).mp sound
          rw [Slot.encoding_entries shape ordered] at small ⊢
          exact refuses_entries h lawful shape es ordered.typed inner deep small []
      | single _ | optional _ | repeated _ _ _ | oneof _ =>
          have conforms := sound.1
          simp only [Slot.Conforms, shape] at conforms
  | choice tag v =>
      obtain ⟨conforms, fits⟩ := sound
      cases found : m.alternative? tag with
      | none => simp only [Slot.Conforms, found] at conforms
      | some a =>
          simp only [Slot.Conforms, Slot.Fits, found] at conforms fits
          simp only [Slot.encoding, found, List.length_append] at small ⊢
          obtain ⟨same, own⟩ := Member.tag_of_alternative found
          obtain ⟨alternatives, shape⟩ := Member.shape_of_alternative found
          refine refuses_value lawful own ?_ (v.refused h ⟨conforms, fits⟩ deep (by omega))
          simp only [shape, Shape.emptySlot, Slot.target, found, same]
          rfl
termination_by structural slot

/-- The first element that nests too deep is refused; those in front of it are appended. -/
theorem refuses_elements (h : s.Lawful) {t : MessageType} (lawful : t.Lawful) {budget : Nat}
    {m : Member} {name : String} {packed : Bool} {capacity : Option Nat}
    (shape : m.shape = .repeated (.message name) packed capacity) (vs : List Value)
    (sound : ∀ v ∈ vs, v.Sound s (.message name)) (deep : budget < elementsNesting vs)
    (small : (elementsEncoding s m.tag (.message name) vs).length < 2 ^ 63) (us : List Value)
    (room : withinCapacity capacity (us.length + vs.length))
    : Refuses s (embedWithin s budget) t m (elementsEncoding s m.tag (.message name) vs)
        (.many us) := by
  cases vs with
  | nil => cases deep
  | cons v vs =>
      obtain ⟨first, others⟩ := List.forall_mem_cons.mp sound
      simp only [elementsEncoding, List.length_append] at small ⊢
      rw [elementsNesting] at deep
      rw [List.length_cons] at room
      by_cases here : budget < v.nesting
      · refine Refuses.append (refuses_value lawful (Member.tag_mem (by simp [shape])) ?_
          (v.refused h first here (by omega))) _
        simp only [Slot.target, shape]
      · have deeper : budget < elementsNesting vs := by omega
        have merges : v.Merges s (embedWithin s budget) (.message name) :=
          v.merges_encoding h first.1 (Nat.le_of_not_lt here) (by omega)
        have next : withinCapacity capacity (us.length + 1) := withinCapacity_mono room (by omega)
        have absorbed := absorbs_element lawful shape next (merges.fresh h first.1 first.2)
        have left : (us ++ [v.normal s (.message name)]).length + vs.length
            = us.length + (vs.length + 1) := by
          rw [List.length_append, List.length_singleton]
          omega
        have later := refuses_elements h lawful shape vs others deeper (by omega)
          (us ++ [v.normal s (.message name)]) (left ▸ room)
        exact absorbed.refuses later
termination_by structural vs

/-- The first entry that nests too deep is refused; those in front of it are inserted. -/
theorem refuses_entries (h : s.Lawful) {t : MessageType} (lawful : t.Lawful) {budget : Nat}
    {m : Member} {key : ScalarType} {value : ValueType} (shape : m.shape = .map key value)
    (es : List Entry) (typed : ∀ e ∈ es, e.key.hasType key)
    (sound : ∀ e ∈ es, e.value.Sound s value) (deep : budget < entriesNesting es)
    (small : (entriesEncoding s m.tag key value es).length < 2 ^ 63) (xs : List Entry)
    : Refuses s (embedWithin s budget) t m (entriesEncoding s m.tag key value es)
        (.entries xs) := by
  cases es with
  | nil => cases deep
  | cons e es =>
      cases e with
      | mk k v =>
          obtain ⟨own, keys⟩ : k.hasType key ∧ ∀ e ∈ es, e.key.hasType key :=
            List.forall_mem_cons.mp typed
          obtain ⟨first, others⟩ : v.Sound s value ∧ ∀ e ∈ es, e.value.Sound s value :=
            List.forall_mem_cons.mp sound
          simp only [entriesEncoding_cons, entryBytes, List.length_append, length_delimit]
            at small ⊢
          rw [entriesNesting] at deep
          by_cases here : budget < v.nesting + 1
          · refine Refuses.append (refuses_entry lawful shape (by
              simp only [List.length_append]; omega) fun inner level => ?_) _
            have deeper : inner < v.nesting := by omega
            have refused := v.refused h first deeper (by omega)
            exact mergeRecords_entry_refused own (by omega) refused
          · obtain ⟨inner, rfl⟩ : ∃ inner, budget = inner + 1 := ⟨budget - 1, by omega⟩
            have merges : v.Merges s (embedWithin s inner) value :=
              v.merges_encoding h first.1 (by omega) (by omega)
            have entry := mergeRecords_entry h own (by omega) merges first.1 first.2
            have inserted := absorbs_entry lawful xs shape
              (by simp only [List.length_append]; omega) entry
            have deeper : inner + 1 < entriesNesting es := by omega
            have later := refuses_entries h lawful shape es keys others deeper (by omega)
              (insertEntry k (v.normal s value) xs)
            exact inserted.refuses later
termination_by structural es

end

namespace Schema

/-- The bytes of a sound message are read as the message, or refused if it nests too deep. -/
theorem decode_encoding (h : s.Lawful) {name : String} {m : Message}
    (sound : m.Sound s (s.type name)) (size : m.size s (s.type name) < 2 ^ 63)
    : s.decode name (m.encoding s (s.type name))
        = if m.nesting ≤ recursionLimit then .ok (m.normal s (s.type name))
          else .error .recursionLimitExceeded := by
  split
  · rename_i shallow
    rw [decode, merge_empty h ⟨sound.1, sound.2, shallow, size⟩]
  · rename_i deep
    rw [← m.length_encoding h.sized (h.type name).form] at size
    have refused := m.refused h name sound (Nat.lt_of_not_le deep) size []
    rw [List.append_nil] at refused
    unfold decode merge
    split
    · rename_i merged
      rw [merged] at refused
      cases refused
    · rename_i merged
      rw [merged] at refused
      cases refused
      rfl

end Schema

end Protobuf
