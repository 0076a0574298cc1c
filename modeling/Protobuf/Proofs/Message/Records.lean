import Protobuf.Proofs.Message.Combination
import Protobuf.Proofs.Message.Concatenation
import Protobuf.Proofs.Message.Encoding

/-! Merging one record at a time.  A record of a declared field changes the slot of its member and
nothing else, by the shape of the member; other records are kept as they are.
-/

namespace Protobuf

open Wire

theorem ValueType.wireType_ne (type : ValueType)
    : type.wireType ≠ .endGroup := by
  cases type with
  | scalar type => cases type <;> exact WireType.noConfusion
  | message name => exact WireType.noConfusion

variable {s : Schema} {embed : Option Embed} {t : MessageType} {m : Member}

-----------------------------------------------------------------------------------------
-- Records of a member
-----------------------------------------------------------------------------------------

/-- In a message of the type, the bytes change what the member holds and nothing else. -/
def Absorbs (s : Schema) (embed : Option Embed) (t : MessageType) (m : Member)
    (bytes : List UInt8) (slot slot' : Slot)
    : Prop :=
  ∀ before behind done rest unknown, t.members = before ++ m :: behind
    → done.length = before.length
    → mergeRecords s embed t ⟨done ++ slot :: rest, unknown⟩ bytes
      = (⟨done ++ slot' :: rest, unknown⟩, none)

theorem Absorbs.refl (slot : Slot)
    : Absorbs s embed t m [] slot slot :=
  fun _ _ _ _ _ _ _ => mergeRecords_nil _ _ _ _

theorem Absorbs.trans {first second : List UInt8} {a b c : Slot}
    (h : Absorbs s embed t m first a b) (h' : Absorbs s embed t m second b c)
    : Absorbs s embed t m (first ++ second) a c := by
  intro before behind done rest unknown members place
  rw [mergeRecords_append (h before behind done rest unknown members place)]
  exact h' before behind done rest unknown members place

/-- A record reaches the first member with its field number, by induction on the members in front
of it.
-/
theorem mergeMember_own {tag : Nat} {wire : WireType} {bytes : List UInt8}
    {before behind : List Member} {done rest : List Slot} (slot : Slot)
    (own : m.hasTag tag) (others : ∀ n ∈ before, n.hasTag tag = false)
    (place : done.length = before.length)
    : mergeMember s embed tag wire bytes (before ++ m :: behind) (done ++ slot :: rest)
        = some ⟨done ++ (mergeSlot s embed m tag wire slot bytes).value :: rest,
            (mergeSlot s embed m tag wire slot bytes).failure,
            (mergeSlot s embed m tag wire slot bytes).rest⟩ := by
  induction before generalizing done with
  | nil =>
      cases List.length_eq_zero_iff.mp place
      simp only [List.nil_append, mergeMember, own, if_true]
  | cons n before ih =>
      cases done with
      | nil => cases place
      | cons first done =>
          have other : n.hasTag tag = false := others n (by simp)
          have later := ih (fun k member => others k (List.mem_cons_of_mem n member))
            (Nat.succ.inj place)
          simp only [List.cons_append, mergeMember, other, Bool.false_eq_true, if_false, later]

theorem absorbs_record (h : t.Lawful) {tag : Nat} {wire : WireType} {payload : List UInt8}
    {slot slot' : Slot} (own : tag ∈ m.tags) (closed : wire ≠ .endGroup)
    (merged : mergeSlot s embed m tag wire slot payload = ⟨slot', none, []⟩)
    : Absorbs s embed t m (keyBytes tag wire ++ payload) slot slot' := by
  intro before behind done rest unknown members place
  have legal := h.legal_of_mem (by simp [members]) own
  have read := Decoder.reads_key legal.1 legal.2 closed payload
  have nonempty : keyBytes tag wire ++ payload ≠ [] := by
    simp [keyBytes, varint_ne_nil]
  have found : mergeMember s embed tag wire payload t.members (done ++ slot :: rest)
      = some ⟨done ++ slot' :: rest, none, []⟩ := by
    rw [members, mergeMember_own slot ((m.hasTag_iff tag).mpr own) (h.not_hasTag members own) place,
      merged]
  have record : mergeRecord s embed t ⟨done ++ slot :: rest, unknown⟩ (keyBytes tag wire ++ payload)
      = ⟨⟨done ++ slot' :: rest, unknown⟩, none, []⟩ := by
    simp only [mergeRecord, read, mergeField, if_neg h.form, found]
  rw [mergeRecords_of_success nonempty (by rw [record]), record, mergeRecords_nil]

/-- In a message of the type whose member holds the slot, the bytes fail for the given reason,
whatever stands behind them.
-/
def Fails (s : Schema) (embed : Option Embed) (t : MessageType) (m : Member) (e : DecodeError)
    (bytes : List UInt8) (slot : Slot)
    : Prop :=
  ∀ before behind done rest unknown more, t.members = before ++ m :: behind
    → done.length = before.length
    → (mergeRecords s embed t ⟨done ++ slot :: rest, unknown⟩ (bytes ++ more)).2 = some e

theorem fails_record (h : t.Lawful) {tag : Nat} {wire : WireType} {payload : List UInt8}
    {slot : Slot} {e : DecodeError} (own : tag ∈ m.tags) (closed : wire ≠ .endGroup)
    (failed : ∀ more, (mergeSlot s embed m tag wire slot (payload ++ more)).failure = some e)
    : Fails s embed t m e (keyBytes tag wire ++ payload) slot := by
  intro before behind done rest unknown more members place
  have legal := h.legal_of_mem (by simp [members]) own
  have read := Decoder.reads_key legal.1 legal.2 closed (payload ++ more)
  rw [← List.append_assoc] at read
  have nonempty : keyBytes tag wire ++ payload ++ more ≠ [] := by
    simp [keyBytes, varint_ne_nil]
  have record : (mergeRecord s embed t ⟨done ++ slot :: rest, unknown⟩
        (keyBytes tag wire ++ payload ++ more)).failure = some e := by
    simp only [mergeRecord, read, mergeField, if_neg h.form]
    rw [members, mergeMember_own slot ((m.hasTag_iff tag).mpr own) (h.not_hasTag members own) place]
    exact failed more
  rw [mergeRecords_of_failure nonempty record]

-----------------------------------------------------------------------------------------
-- Records by the shape of the member
-----------------------------------------------------------------------------------------

variable {type : ValueType} {bytes : List UInt8} {u v : Value}

theorem mergeChecked_own (tag : Nat)
    : mergeChecked s embed tag type.wireType type u bytes = mergeValue s embed type u bytes :=
  if_pos rfl

theorem Member.tag_mem {m : Member} (h : ∀ alternatives, m.shape ≠ .oneof alternatives)
    : m.tag ∈ m.tags := by
  unfold tags
  split
  · rename_i alternatives shape
    exact absurd shape (h alternatives)
  · exact List.mem_singleton_self _

theorem absorbs_one (h : t.Lawful) (shape : m.shape = .single type ∨ m.shape = .optional type)
    (read : mergeValue s embed type u bytes = ⟨v, none, []⟩)
    : Absorbs s embed t m (keyBytes m.tag type.wireType ++ bytes) (.one u) (.one v) := by
  refine absorbs_record h (Member.tag_mem ?_) type.wireType_ne ?_
  · rcases shape with shape | shape <;> simp [shape]
  · rcases shape with shape | shape <;> simp only [mergeSlot, shape, mergeChecked_own, read]

theorem absorbs_unset (h : t.Lawful) (shape : m.shape = .optional type)
    (read : mergeValue s embed type (s.emptyValue type) bytes = ⟨v, none, []⟩)
    : Absorbs s embed t m (keyBytes m.tag type.wireType ++ bytes) .none (.one v) := by
  refine absorbs_record h (Member.tag_mem (by simp [shape])) type.wireType_ne ?_
  simp only [mergeSlot, shape, if_true, read]

/-- The alternative that is set already is merged. -/
theorem absorbs_same_choice (h : t.Lawful) {tag : Nat} {a : Alternative}
    (found : m.alternative? tag = some a)
    (read : mergeValue s embed a.type u bytes = ⟨v, none, []⟩)
    : Absorbs s embed t m (keyBytes tag a.type.wireType ++ bytes) (.choice tag u)
        (.choice tag v) := by
  obtain ⟨same, own⟩ := Member.tag_of_alternative found
  obtain ⟨alternatives, shape⟩ := Member.shape_of_alternative found
  refine absorbs_record h own a.type.wireType_ne ?_
  simp only [mergeSlot, shape, found, mergeAlternative, same, if_true, mergeChecked_own, read]

/-- Another alternative is replaced. -/
theorem absorbs_other_choice (h : t.Lawful) {tag : Nat} {a : Alternative} {slot : Slot}
    (found : m.alternative? tag = some a) (other : ∀ u, slot ≠ .choice tag u)
    (read : mergeValue s embed a.type (s.emptyValue a.type) bytes = ⟨v, none, []⟩)
    : Absorbs s embed t m (keyBytes tag a.type.wireType ++ bytes) slot (.choice tag v) := by
  obtain ⟨same, own⟩ := Member.tag_of_alternative found
  obtain ⟨alternatives, shape⟩ := Member.shape_of_alternative found
  refine absorbs_record h own a.type.wireType_ne ?_
  cases slot with
  | choice old u =>
      have different : old ≠ tag := by
        rintro rfl
        exact other u rfl
      simp only [mergeSlot, shape, found, mergeAlternative, same, if_neg different,
        mergeChecked_own, read, Option.isNone_none, if_true]
  | none | one _ | many _ | entries _ =>
      simp only [mergeSlot, shape, found, mergeAlternative, same, mergeChecked_own, read,
        Option.isNone_none, if_true]

theorem withinCapacity_mono {capacity : Option Nat} {n k : Nat} (h : withinCapacity capacity k)
    (shorter : n ≤ k)
    : withinCapacity capacity n := by
  cases capacity with
  | none => rfl
  | some limit =>
      have room : k ≤ limit := of_decide_eq_true h
      exact decide_eq_true (Nat.le_trans shorter room)

theorem absorbs_element (h : t.Lawful) {packed : Bool} {capacity : Option Nat} {us : List Value}
    (shape : m.shape = .repeated type packed capacity)
    (room : withinCapacity capacity (us.length + 1))
    (read : mergeValue s embed type (s.emptyValue type) bytes = ⟨v, none, []⟩)
    : Absorbs s embed t m (keyBytes m.tag type.wireType ++ bytes) (.many us)
        (.many (us ++ [v])) := by
  refine absorbs_record h (Member.tag_mem (by simp [shape])) type.wireType_ne ?_
  have element : mergeElement s embed m.tag type.wireType type capacity us bytes
      = ⟨us ++ [v], none, []⟩ := by
    simp only [mergeElement, mergeChecked_own, read, appendValue, room, if_true]
  cases type with
  | message name => simp only [mergeSlot, shape, mergeRepeated, element]
  | scalar type =>
      have apart : ¬((ValueType.scalar type).wireType = .lengthDelimited
          ∧ type.wireType ≠ .lengthDelimited) :=
        fun run => run.2 run.1
      simp only [mergeSlot, shape, mergeRepeated, if_neg apart, element]

theorem appendValues_eq {capacity : Option Nat} {us vs : List Value}
    (room : withinCapacity capacity (us.length + vs.length))
    : appendValues capacity us vs = (us ++ vs, none) := by
  cases capacity with
  | none => rfl
  | some limit =>
      have fits : us.length + vs.length ≤ limit := of_decide_eq_true room
      simp only [appendValues]
      rw [if_pos (by omega)]

/-- A packed run is appended as a whole. -/
theorem absorbs_run (h : t.Lawful) {scalar : ScalarType} {packed : Bool} {capacity : Option Nat}
    {us vs : List Value} (shape : m.shape = .repeated (.scalar scalar) packed capacity)
    (number : scalar.wireType ≠ .lengthDelimited)
    (room : withinCapacity capacity (us.length + vs.length)) (small : bytes.length < 2 ^ 63)
    (read : readPacked scalar bytes = (vs, none))
    : Absorbs s embed t m (keyBytes m.tag .lengthDelimited ++ delimit bytes) (.many us)
        (.many (us ++ vs)) := by
  refine absorbs_record h (Member.tag_mem (by simp [shape])) WireType.noConfusion ?_
  simp only [mergeSlot, shape, mergeRepeated, if_pos (And.intro trivial number),
    (Decoder.reads_lengthDelimited small).whole, mergePacked, read, appendValues_eq room]

theorem mergeNested_delimit {merge : Embed} {current merged : Message}
    (small : bytes.length < 2 ^ 63) (h : merge t current bytes = (merged, none))
    : mergeNested (some merge) t current (delimit bytes) = ⟨merged, none, []⟩ := by
  simp only [mergeNested, (Decoder.reads_lengthDelimited small).whole, h]

/-- An entry is inserted once its key and its value have been read. -/
theorem absorbs_entry (h : t.Lawful) {key : ScalarType} {k : Scalar} (es : List Entry)
    {merge : Embed} {unknown : List UInt8} (shape : m.shape = .map key type)
    (small : bytes.length < 2 ^ 63)
    (read : merge (.entry key type) (s.emptyEntry key type) bytes
      = (⟨[.one (.scalar k), .one v], unknown⟩, none))
    : Absorbs s (some merge) t m (keyBytes m.tag .lengthDelimited ++ delimit bytes) (.entries es)
        (.entries (insertEntry k v es)) := by
  refine absorbs_record h (Member.tag_mem (by simp [shape])) WireType.noConfusion ?_
  simp only [mergeSlot, shape, mergeMap, if_true, mergeNested_delimit small read,
    entryOfMessage?]

-----------------------------------------------------------------------------------------
-- Unknown records
-----------------------------------------------------------------------------------------

theorem mergeMember_undeclared {tag : Nat} {wire : WireType} {members : List Member}
    {slots : List Slot} (undeclared : ∀ n ∈ members, n.hasTag tag = false)
    : mergeMember s embed tag wire bytes members slots = none := by
  induction members generalizing slots with
  | nil => simp only [mergeMember]
  | cons n members ih =>
      have later (slots : List Slot) : mergeMember s embed tag wire bytes members slots = none :=
        ih fun k member => undeclared k (List.mem_cons_of_mem n member)
      cases slots with
      | nil => simp only [mergeMember]
      | cons slot slots =>
          simp only [mergeMember, undeclared n (by simp), Bool.false_eq_true, if_false, later]

/-- Records that the type does not declare are kept one after the other. -/
theorem mergeRecords_unknown (form : t.form ≠ .filler) (keeps : t.keepsUnknown)
    (h : UnknownRecords t bytes) (slots : List Slot) (unknown : List UInt8)
    : mergeRecords s embed t ⟨slots, unknown⟩ bytes = (⟨slots, unknown ++ bytes⟩, none) := by
  induction h generalizing unknown with
  | nil => rw [mergeRecords_nil, List.append_nil]
  | @cons record payload rest tag wire legal undeclared complete others ih =>
      have nonempty : record ≠ [] := by
        rintro rfl
        have fewer := Decoder.consumes_key []
        rw [legal] at fewer
        exact absurd fewer (Nat.not_lt_zero _)
      have foreign : ∀ n ∈ t.members, n.hasTag tag = false := by
        simpa [MessageType.declares] using undeclared
      have kept : mergeRecord s embed t ⟨slots, unknown⟩ record
          = ⟨⟨slots, unknown ++ record⟩, none, []⟩ := by
        simp only [mergeRecord, legal, mergeField, if_neg form, mergeMember_undeclared foreign,
          complete, keepUnknown, keeps, if_true, List.length_nil, Nat.sub_zero, List.take_length]
      have first : mergeRecords s embed t ⟨slots, unknown⟩ record
          = (⟨slots, unknown ++ record⟩, none) := by
        rw [mergeRecords_of_success nonempty (by rw [kept]), kept, mergeRecords_nil]
      rw [mergeRecords_append first, ih, List.append_assoc]

end Protobuf
