import Protobuf.Proofs.Message.Records

/-! Merging the bytes of a message into another one of its type gives the combination of both, in
normal form.  The induction goes over the message that was encoded; the nesting budget covers its
depth, and no length in it reaches the sign bit.
-/

namespace Protobuf

open Wire

variable {s : Schema} {embed : Option Embed} {t : MessageType} {m : Member}

-----------------------------------------------------------------------------------------
-- Scalars
-----------------------------------------------------------------------------------------

theorem mergeValue_scalar {type : ScalarType} {v : Scalar} (u : Scalar) (typed : v.hasType type)
    (small : (payload type v).encoding.length < 2 ^ 63)
    : mergeValue s embed (.scalar type) (.scalar u) (payload type v).encoding
        = ⟨.scalar v, none, []⟩ := by
  simp only [mergeValue, mergeScalar, (reads_readScalar typed small).whole]

theorem readPacked_of_reads {type : ScalarType} {bytes : List UInt8} {v : Scalar}
    (h : (readScalar type).Reads bytes v) (more : List UInt8)
    : readPacked type (bytes ++ more)
        = (.scalar v :: (readPacked type more).1, (readPacked type more).2) := by
  have read := h more
  have consumed := consumes_readScalar type (bytes ++ more)
  rw [read] at consumed
  obtain ⟨b, tail, cons⟩ := List.exists_cons_of_length_pos (Nat.zero_lt_of_lt consumed)
  rw [cons] at read ⊢
  rw [readPacked]
  split
  · rename_i failed
    rw [read] at failed
    cases failed
  · rename_i found
    rw [read] at found
    cases found
    rfl

/-- A packed run is read element by element. -/
theorem readPacked_packedEncoding {type : ScalarType} {vs : List Value}
    (conforms : elementsConform s (.scalar type) vs)
    (small : (packedEncoding s (.scalar type) vs).length < 2 ^ 63)
    : readPacked type (packedEncoding s (.scalar type) vs) = (vs, none) := by
  induction vs with
  | nil => rw [packedEncoding, readPacked]
  | cons v vs ih =>
      obtain ⟨first, others⟩ := conforms
      rw [packedEncoding, List.length_append] at small
      cases v with
      | message m => cases first
      | scalar v =>
          have read := reads_readScalar first (Nat.lt_of_le_of_lt (Nat.le_add_right _ _) small)
          rw [packedEncoding, Value.encoding, readPacked_of_reads read,
            ih others (Nat.lt_of_le_of_lt (Nat.le_add_left _ _) small)]

theorem elementsNormal_scalar {type : ScalarType} {vs : List Value}
    (conforms : elementsConform s (.scalar type) vs)
    : elementsNormal s (.scalar type) vs = vs := by
  induction vs with
  | nil => rfl
  | cons v vs ih =>
      obtain ⟨first, others⟩ := conforms
      cases v with
      | message m => cases first
      | scalar v => rw [elementsNormal, Value.normal, ih others]

-----------------------------------------------------------------------------------------
-- Slots
-----------------------------------------------------------------------------------------

/-- The bytes of the value merge into every value of the type that leaves room for it. -/
def Value.Merges (s : Schema) (embed : Option Embed) (type : ValueType) (v : Value) : Prop :=
  ∀ u : Value, u.Conforms s type → (u.combine s type v).Fits s type
    → mergeValue s embed type (u.normal s type) (v.encoding s type)
      = ⟨(u.combine s type v).normal s type, none, []⟩

/-- The bytes of the slot merge into every slot of the member that leaves room for it. -/
def Slot.Merges (s : Schema) (embed : Option Embed) (t : MessageType) (m : Member) (slot : Slot)
    : Prop :=
  ∀ c : Slot, c.Conforms s m → (c.combine s m slot).Fits s m
    → Absorbs s embed t m (slot.encoding s m) (c.normal s m) ((c.combine s m slot).normal s m)

/-- Where nothing is set yet, a value is read as it is, up to its normal form. -/
theorem Value.Merges.fresh (h : s.Lawful) {type : ValueType} {v : Value}
    (merges : v.Merges s embed type) (conforms : v.Conforms s type) (fits : v.Fits s type)
    : mergeValue s embed type (s.emptyValue type) (v.encoding s type)
        = ⟨v.normal s type, none, []⟩ := by
  have read := merges (s.emptyValue type) (h.conforms_emptyValue type)
    (v.fits_combine_empty h conforms fits)
  rwa [h.normal_emptyValue, v.normal_combine_empty h conforms] at read

/-- The sign of a zero does not matter to the value that replaces it. -/
theorem mergeValue_positiveZero {type : ValueType} {u v : Value} {bytes : List UInt8}
    (old : u.Conforms s type)
    (h : mergeValue s embed type (u.normal s type) bytes = ⟨v, none, []⟩)
    : mergeValue s embed type (u.normal s type).positiveZero bytes = ⟨v, none, []⟩ := by
  cases u with
  | message n => cases type <;> exact h
  | scalar u =>
      cases type with
      | message name => cases old
      | scalar type =>
          simp only [mergeValue, mergeScalar, Value.normal, Value.positiveZero] at h ⊢
          cases read : readScalar type bytes with
          | ok value rest => simpa only [read] using h
          | error e rest => simp [read] at h

theorem Value.positiveZero_combine {type : ValueType} {u v : Value} (h : v.isOmitted = false)
    : ((u.combine s type v).normal s type).positiveZero = (u.combine s type v).normal s type := by
  cases v with
  | scalar v =>
      simp only [combine, normal, positiveZero, Scalar.positiveZero_of_not_isDefault h]
  | message y =>
      cases type with
      | scalar type => cases u <;> rfl
      | message name => cases u <;> rfl

theorem merges_omitted {type : ValueType} {v : Value} (shape : m.shape = .single type)
    (omitted : v.isOmitted)
    : (Slot.one v).Merges s embed t m := by
  intro c old fits
  obtain ⟨u, rfl, -⟩ := old.of_single shape
  simp only [Slot.encoding, Slot.combine, Slot.normal, shape, omitted, if_true]
  exact Absorbs.refl _

theorem merges_single (lawful : t.Lawful) {type : ValueType} {v : Value}
    (shape : m.shape = .single type) (written : v.isOmitted = false)
    (merges : v.Merges s embed type)
    : (Slot.one v).Merges s embed t m := by
  intro c old fits
  obtain ⟨u, rfl, current⟩ := old.of_single shape
  simp only [Slot.combine, Slot.Fits, shape, written, Bool.false_eq_true, if_false] at fits
  simp only [Slot.encoding, Slot.combine, Slot.normal, shape, written, Bool.false_eq_true,
    if_false, Value.positiveZero_combine written]
  exact absorbs_one lawful (.inl shape) (mergeValue_positiveZero current (merges u current fits))

theorem merges_optional (h : s.Lawful) (lawful : t.Lawful) {type : ValueType} {v : Value}
    (shape : m.shape = .optional type) (conforms : v.Conforms s type)
    (merges : v.Merges s embed type)
    : (Slot.one v).Merges s embed t m := by
  intro c old fits
  rcases old.of_optional shape with rfl | ⟨u, rfl, current⟩
  · simp only [Slot.combine, Slot.Fits, shape] at fits
    simp only [Slot.encoding, Slot.combine, Slot.normal, shape]
    exact absorbs_unset lawful shape (merges.fresh h conforms fits)
  · simp only [Slot.combine, Slot.Fits, shape] at fits
    simp only [Slot.encoding, Slot.combine, Slot.normal, shape]
    exact absorbs_one lawful (.inr shape) (merges u current fits)

theorem merges_choice (h : s.Lawful) (lawful : t.Lawful) {tag : Nat} {a : Alternative} {v : Value}
    (found : m.alternative? tag = some a) (conforms : v.Conforms s a.type)
    (merges : v.Merges s embed a.type)
    : (Slot.choice tag v).Merges s embed t m := by
  intro c old fits
  obtain ⟨alternatives, shape⟩ := Member.shape_of_alternative found
  rcases old.of_oneof shape with rfl | ⟨other, u, b, rfl, known, current⟩
  · simp only [Slot.combine, found, Slot.Fits] at fits
    simp only [Slot.encoding, Slot.combine, Slot.normal, found]
    exact absorbs_other_choice lawful found nofun (merges.fresh h conforms fits)
  simp only [Slot.combine, found, Slot.Fits] at fits
  by_cases same : other = tag
  · subst same
    cases found.symm.trans known
    simp only [if_true] at fits
    simp only [Slot.encoding, Slot.combine, Slot.normal, found, if_true]
    exact absorbs_same_choice lawful found (merges u current fits)
  · simp only [if_neg same] at fits
    simp only [Slot.encoding, Slot.combine, Slot.normal, known, found, if_neg same]
    refine absorbs_other_choice lawful found (fun w kept => ?_) (merges.fresh h conforms fits)
    cases kept
    exact same rfl

/-- Elements of a packed run are scalars, their own normal form; others come one by one. -/
theorem merges_many (lawful : t.Lawful) (member : m ∈ t.members) {type : ValueType} {packed : Bool}
    {capacity : Option Nat} {vs : List Value} (shape : m.shape = .repeated type packed capacity)
    (conforms : elementsConform s type vs) (small : ((Slot.many vs).encoding s m).length < 2 ^ 63)
    (apart : elementsFit s type vs → (elementsEncoding s m.tag type vs).length < 2 ^ 63
      → ∀ us, withinCapacity capacity (us.length + vs.length)
      → Absorbs s embed t m (elementsEncoding s m.tag type vs) (.many us)
          (.many (us ++ elementsNormal s type vs)))
    : (Slot.many vs).Merges s embed t m := by
  intro c old fits
  obtain ⟨us, rfl, -⟩ := old.of_repeated shape
  simp only [Slot.combine, Slot.Fits, shape, List.length_append, elementsFit_iff,
    List.mem_append] at fits
  obtain ⟨room, all⟩ := fits
  have fit : elementsFit s type vs :=
    elementsFit_iff.mpr fun v added => all v (.inr added)
  simp only [Slot.encoding, shape] at small
  simp only [Slot.encoding, Slot.combine, Slot.normal, shape, elementsNormal_append]
  split
  · rename_i empty
    rw [List.isEmpty_iff.mp empty, elementsNormal, List.append_nil]
    exact Absorbs.refl _
  rename_i nonempty
  rw [if_neg nonempty] at small
  have normal : (elementsNormal s type us).length = us.length := length_elementsNormal us
  rw [← normal] at room
  -- A packed run is one record, whose elements have no keys of their own.
  cases packed with
  | false => exact apart fit (by simpa using small) _ room
  | true =>
      have legal := lawful.shapes m member
      rw [shape] at legal
      cases type with
      | message name => cases legal
      | scalar type =>
          simp only [if_true, List.length_append, length_delimit] at small ⊢
          have short : (packedEncoding s (.scalar type) vs).length < 2 ^ 63 := by omega
          rw [elementsNormal_scalar conforms]
          exact absorbs_run lawful shape (by simpa [Shape.isLawful] using legal) room short
            (readPacked_packedEncoding conforms short)

theorem merges_entries (lawful : t.Lawful) (member : m ∈ t.members) {key : ScalarType}
    {value : ValueType} {es : List Entry} (shape : m.shape = .map key value)
    (ordered : Ordered key es)
    (inserted : entriesFit s value es → ∀ xs, Absorbs s embed t m
      (entriesEncoding s m.tag key value es) (.entries xs)
      (.entries (insertEntries xs (entriesNormal s value es))))
    : (Slot.entries es).Merges s embed t m := by
  intro c old fits
  obtain ⟨ds, rfl, before, -⟩ := old.of_map shape
  have isKey := lawful.shapes m member
  rw [shape] at isKey
  simp only [Slot.combine, Slot.Fits, shape, entriesFit_iff] at fits
  have fit : entriesFit s value es := by
    refine entriesFit_iff.mpr fun e added => fits e ?_
    rw [mem_sortEntries isKey (typed_unionEntries before.typed ordered.typed)
      (nodup_unionEntries before.distinct ordered.distinct) e]
    exact List.mem_append_right _ added
  have union : insertEntries (entriesNormal s value ds) (entriesNormal s value es)
      = entriesNormal s value (sortEntries (unionEntries ds es)) := by
    rw [← before.insertEntries_eq isKey ordered, entriesNormal_insertEntries]
  simp only [Slot.encoding_entries shape ordered, Slot.combine, Slot.normal, shape, ← union]
  exact inserted fit _

-----------------------------------------------------------------------------------------
-- Entries as messages
-----------------------------------------------------------------------------------------

theorem MessageType.lawful_entry (key : ScalarType) (value : ValueType)
    : (entry key value).Lawful := by
  have fields : (entry key value).tags = [1, 2] := rfl
  refine ⟨JsonForm.noConfusion, ?_, ?_, ?_⟩
  · intro tag own
    rw [fields] at own
    unfold maxTag
    rcases List.mem_pair.mp own with rfl | rfl <;> omega
  · rw [fields]
    decide
  · intro m member
    rcases List.mem_pair.mp member with rfl | rfl <;> rfl

/-- An entry is read in two records, its key first. -/
theorem mergeRecords_entry (h : s.Lawful) {key : ScalarType} {value : ValueType} {k : Scalar}
    {v : Value} (typed : k.hasType key) (small : (payload key k).encoding.length < 2 ^ 63)
    (merges : v.Merges s embed value) (conforms : v.Conforms s value) (fits : v.Fits s value)
    : mergeRecords s embed (.entry key value) (s.emptyEntry key value)
          (keyBytes 1 key.wireType ++ (payload key k).encoding
            ++ keyBytes 2 value.wireType ++ v.encoding s value)
        = (⟨[.one (.scalar k), .one (v.normal s value)], []⟩, none) := by
  let keyMember : Member := ⟨1, "key", "key", .single (.scalar key)⟩
  let valueMember : Member := ⟨2, "value", "value", .single value⟩
  have lawful := MessageType.lawful_entry key value
  have keyRead : mergeValue s embed (.scalar key) (.scalar key.default) (payload key k).encoding
      = ⟨.scalar k, none, []⟩ :=
    mergeValue_scalar key.default typed small
  have valueRead := merges.fresh h conforms fits
  have first := absorbs_one (m := keyMember) lawful (.inl rfl) keyRead
  have second := absorbs_one (m := valueMember) lawful (.inl rfl) valueRead
  have afterKey := first [] [valueMember] [] [.one (s.emptyValue value)] [] rfl rfl
  have afterValue := second [keyMember] [] [.one (.scalar k)] [] [] rfl rfl
  rw [List.append_assoc _ (keyBytes 2 _)]
  exact (mergeRecords_append afterKey _).trans afterValue

-----------------------------------------------------------------------------------------
-- Messages
-----------------------------------------------------------------------------------------

mutual

/-- The bytes of a value merge into other values of its type, by induction on it. -/
theorem Value.merges_encoding (h : s.Lawful) {budget : Nat} {type : ValueType} (v : Value)
    (conforms : v.Conforms s type) (deep : v.nesting ≤ budget)
    (small : (v.encoding s type).length < 2 ^ 63)
    : v.Merges s (embedWithin s budget) type := by
  intro u old fits
  cases v with
  | scalar v =>
      cases type with
      | message name => cases conforms
      | scalar type =>
          cases u with
          | message n => cases old
          | scalar u => exact mergeValue_scalar u conforms small
  | message y =>
      cases type with
      | scalar type => cases conforms
      | message name =>
          cases u with
          | scalar u => cases old
          | message x =>
              cases budget with
              | zero => cases deep
              | succ budget =>
                  -- The record takes one level; what is inside has the others.
                  rw [Value.encoding, length_delimit] at small
                  have short : (y.encoding s (s.type name)).length < 2 ^ 63 := by omega
                  have merged := y.merge_encoding h (h.type name) conforms
                    (Nat.le_of_succ_le_succ deep) short x old fits
                  simp only [mergeValue, Value.normal, Value.encoding, Value.combine, embedWithin,
                    mergeNested_delimit short merged]
termination_by structural v

/-- The bytes of a message merge into another one of its type: the members first, then the unknown
records.
-/
theorem Message.merge_encoding (h : s.Lawful) {t : MessageType} (lawful : t.Lawful) {budget : Nat}
    (y : Message) (conforms : y.Conforms s t) (deep : y.nesting ≤ budget)
    (small : (y.encoding s t).length < 2 ^ 63) (x : Message) (old : x.Conforms s t)
    (fits : (x.combine s t y).Fits s t)
    : mergeRecords s (embedWithin s budget) t (x.normal s t) (y.encoding s t)
        = ((x.combine s t y).normal s t, none) := by
  cases x with
  | mk slots unknown =>
      cases y with
      | mk slots' unknown' =>
          obtain ⟨conforms, kept⟩ := conforms
          simp only [Message.encoding, if_neg lawful.form, List.length_append] at small ⊢
          have members := mergeRecords_slotsEncoding h lawful [] t.members rfl [] rfl slots'
            conforms deep (by omega) slots old.1 fits unknown
          simp only [List.nil_append] at members
          simp only [Message.normal, Message.combine]
          rw [mergeRecords_append members]
          split at kept
          · rename_i keeps
            exact mergeRecords_unknown lawful.form keeps kept _ _
          · rw [kept, mergeRecords_nil, List.append_nil]
termination_by structural y

/-- The bytes of the members change one slot after the other, by induction on the slots. -/
theorem mergeRecords_slotsEncoding (h : s.Lawful) {t : MessageType} (lawful : t.Lawful)
    {budget : Nat} (before behind : List Member) (members : t.members = before ++ behind)
    (done : List Slot) (place : done.length = before.length) (slots : List Slot)
    (conforms : slotsConform s behind slots) (deep : slotsNesting slots ≤ budget)
    (small : (slotsEncoding s behind slots).length < 2 ^ 63) (cs : List Slot)
    (old : slotsConform s behind cs) (fits : slotsFit s behind (slotsCombine s behind cs slots))
    (unknown : List UInt8)
    : mergeRecords s (embedWithin s budget) t ⟨done ++ slotsNormal s behind cs, unknown⟩
          (slotsEncoding s behind slots)
        = (⟨done ++ slotsNormal s behind (slotsCombine s behind cs slots), unknown⟩, none) := by
  cases slots with
  | nil =>
      cases conforms
      cases cs with
      | cons c cs => cases old
      | nil => exact mergeRecords_nil _ _ _ _
  | cons slot slots =>
      cases behind with
      | nil => cases conforms
      | cons m behind =>
          cases cs with
          | nil => cases old
          | cons c cs =>
              -- The slots in `done` have taken their bytes; they belong to the members `before`.
              simp only [slotsEncoding, List.length_append] at small ⊢
              have here := slot.merges_encoding h lawful m (by simp [members]) conforms.1
                (Nat.le_trans (Nat.le_max_left _ _) deep) (by omega) c old.1 fits.1
                before behind done (slotsNormal s behind cs) unknown members place
              have next := mergeRecords_slotsEncoding h lawful (before ++ [m]) behind
                (by simp [members]) (done ++ [(c.combine s m slot).normal s m]) (by simp [place])
                slots conforms.2 (Nat.le_trans (Nat.le_max_right _ _) deep) (by omega) cs old.2
                fits.2 unknown
              simp only [slotsNormal, slotsCombine]
              rw [mergeRecords_append here]
              simpa only [List.append_assoc, List.singleton_append] using next
termination_by structural slots

/-- The bytes of a slot merge into what the member holds, by cases on the slot and on the shape. -/
theorem Slot.merges_encoding (h : s.Lawful) {t : MessageType} (lawful : t.Lawful) {budget : Nat}
    (m : Member) (member : m ∈ t.members) (slot : Slot) (conforms : slot.Conforms s m)
    (deep : slot.nesting ≤ budget) (small : (slot.encoding s m).length < 2 ^ 63)
    : slot.Merges s (embedWithin s budget) t m := by
  cases slot with
  | none => exact fun c _ _ => Absorbs.refl _
  | one v =>
      cases shape : m.shape with
      | single type =>
          simp only [Slot.Conforms, shape] at conforms
          simp only [Slot.encoding, shape] at small
          cases omitted : v.isOmitted with
          | true => exact merges_omitted shape omitted
          | false =>
              rw [omitted, if_neg Bool.false_ne_true, List.length_append] at small
              exact merges_single lawful shape omitted
                (v.merges_encoding h conforms deep (by omega))
      | optional type =>
          simp only [Slot.Conforms, shape] at conforms
          simp only [Slot.encoding, shape, List.length_append] at small
          exact merges_optional h lawful shape conforms
            (v.merges_encoding h conforms deep (by omega))
      | repeated _ _ _ | map _ _ | oneof _ => simp only [Slot.Conforms, shape] at conforms
  | many vs =>
      cases shape : m.shape with
      | repeated type packed capacity =>
          simp only [Slot.Conforms, shape] at conforms
          exact merges_many lawful member shape conforms small fun fit short us room =>
            absorbs_elements h lawful shape vs conforms deep short fit us room
      | single _ | optional _ | map _ _ | oneof _ => simp only [Slot.Conforms, shape] at conforms
  | entries es =>
      cases shape : m.shape with
      | map key value =>
          simp only [Slot.Conforms, shape] at conforms
          obtain ⟨ordered, conforms⟩ := conforms
          rw [Slot.encoding_entries shape ordered] at small
          exact merges_entries lawful member shape ordered fun fit xs =>
            absorbs_entries h lawful shape es ordered.typed conforms deep small fit xs
      | single _ | optional _ | repeated _ _ _ | oneof _ =>
          simp only [Slot.Conforms, shape] at conforms
  | choice tag v =>
      cases found : m.alternative? tag with
      | none => simp only [Slot.Conforms, found] at conforms
      | some a =>
          simp only [Slot.Conforms, found] at conforms
          simp only [Slot.encoding, found, List.length_append] at small
          exact merges_choice h lawful found conforms
            (v.merges_encoding h conforms deep (by omega))
termination_by structural slot

/-- Elements that stand apart are appended one after the other, by induction on them. -/
theorem absorbs_elements (h : s.Lawful) {t : MessageType} (lawful : t.Lawful) {budget : Nat}
    {m : Member} {type : ValueType} {packed : Bool} {capacity : Option Nat}
    (shape : m.shape = .repeated type packed capacity) (vs : List Value)
    (conforms : elementsConform s type vs) (deep : elementsNesting vs ≤ budget)
    (small : (elementsEncoding s m.tag type vs).length < 2 ^ 63) (fits : elementsFit s type vs)
    (us : List Value) (room : withinCapacity capacity (us.length + vs.length))
    : Absorbs s (embedWithin s budget) t m (elementsEncoding s m.tag type vs) (.many us)
        (.many (us ++ elementsNormal s type vs)) := by
  cases vs with
  | nil =>
      rw [elementsNormal, List.append_nil]
      exact Absorbs.refl _
  | cons v vs =>
      simp only [elementsEncoding, List.length_append] at small ⊢
      rw [List.length_cons] at room
      have merges : v.Merges s (embedWithin s budget) type :=
        v.merges_encoding h conforms.1 (Nat.le_trans (Nat.le_max_left _ _) deep) (by omega)
      have next : withinCapacity capacity (us.length + 1) := withinCapacity_mono room (by omega)
      have first := absorbs_element lawful shape next (merges.fresh h conforms.1 fits.1)
      have later : withinCapacity capacity ((us ++ [v.normal s type]).length + vs.length) := by
        rw [List.length_append, List.length_singleton, Nat.add_assoc, Nat.add_comm 1]
        exact room
      have others := absorbs_elements h lawful shape vs conforms.2
        (Nat.le_trans (Nat.le_max_right _ _) deep) (by omega) fits.2 (us ++ [v.normal s type]) later
      rw [elementsNormal, List.append_cons]
      exact first.trans others
termination_by structural vs

/-- Entries are inserted one after the other, by induction on them. -/
theorem absorbs_entries (h : s.Lawful) {t : MessageType} (lawful : t.Lawful) {budget : Nat}
    {m : Member} {key : ScalarType} {value : ValueType} (shape : m.shape = .map key value)
    (es : List Entry) (typed : ∀ e ∈ es, e.key.hasType key) (conforms : entriesConform s value es)
    (deep : entriesNesting es ≤ budget)
    (small : (entriesEncoding s m.tag key value es).length < 2 ^ 63)
    (fits : entriesFit s value es) (xs : List Entry)
    : Absorbs s (embedWithin s budget) t m (entriesEncoding s m.tag key value es) (.entries xs)
        (.entries (insertEntries xs (entriesNormal s value es))) := by
  cases es with
  | nil => exact Absorbs.refl _
  | cons e es =>
      cases e with
      | mk k v =>
          cases budget with
          | zero =>
              rw [entriesNesting] at deep
              omega
          | succ budget =>
              -- The entry takes one level, so its value is one level further down.
              obtain ⟨first, others⟩ := conforms
              have own : k.hasType key := typed ⟨k, v⟩ (by simp)
              rw [entriesNesting] at deep
              simp only [entriesEncoding_cons, entryBytes, List.length_append, length_delimit]
                at small ⊢
              have merges : v.Merges s (embedWithin s budget) value :=
                v.merges_encoding h first (by omega) (by omega)
              have entry := mergeRecords_entry h own (by omega) merges first fits.1
              have inserted := absorbs_entry lawful xs shape
                (by simp only [List.length_append]; omega) entry
              have rest := absorbs_entries h lawful shape es
                (fun x member => typed x (List.mem_cons_of_mem _ member)) others
                (Nat.le_trans (Nat.le_max_right _ _) deep) (by omega) fits.2
                (insertEntry k (v.normal s value) xs)
              exact inserted.trans rest
termination_by structural es

end

end Protobuf
