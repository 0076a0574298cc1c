import Protobuf.Proofs.Message.Conformance
import Protobuf.Proofs.Wire.Extent

/-! Merging a record in three steps: the key picks a member, the shape of the member says what the
record is read into, and what was read is put into the slot of the member.  Only the second step
enters an embedded message, so what is proved of merging is proved once for each kind of target.
-/

namespace Protobuf

open Wire

variable {s : Schema} {embed : Option Embed} {t : MessageType} {m : Message}

-----------------------------------------------------------------------------------------
-- The member of a record
-----------------------------------------------------------------------------------------

/-- The first member with the field number and what it holds. -/
def memberSlot? (tag : Nat) : List Member → List Slot → Option (Member × Slot)
  | m :: members, slot :: slots =>
      if m.hasTag tag then some (m, slot) else memberSlot? tag members slots
  | _, _ => none

/-- The slots with another one for the first member with the field number. -/
def replaceSlot (tag : Nat) (new : Slot) : List Member → List Slot → List Slot
  | m :: members, slot :: slots =>
      if m.hasTag tag then new :: slots else slot :: replaceSlot tag new members slots
  | _, slots => slots

theorem mergeMember_eq (tag : Nat) (wire : WireType) (bytes : List UInt8) (members : List Member)
    (slots : List Slot)
    : mergeMember s embed tag wire bytes members slots
        = (memberSlot? tag members slots).map fun (m, slot) =>
            let merged := mergeSlot s embed m tag wire slot bytes
            ⟨replaceSlot tag merged.value members slots, merged.failure, merged.rest⟩ := by
  induction members generalizing slots with
  | nil => simp [mergeMember, memberSlot?]
  | cons m members ih =>
      cases slots with
      | nil => simp [mergeMember, memberSlot?]
      | cons slot slots =>
          simp only [mergeMember, memberSlot?, replaceSlot]
          split
          · rfl
          · rw [ih]
            cases memberSlot? tag members slots <;> rfl

theorem mem_of_memberSlot? {tag : Nat} {members : List Member} {slots : List Slot}
    {member : Member} {slot : Slot} (h : memberSlot? tag members slots = some (member, slot))
    : member ∈ members ∧ slot ∈ slots ∧ member.hasTag tag := by
  induction members generalizing slots with
  | nil => simp [memberSlot?] at h
  | cons m members ih =>
      cases slots with
      | nil => simp [memberSlot?] at h
      | cons first slots =>
          simp only [memberSlot?] at h
          split at h
          · rename_i own
            cases h
            exact ⟨by simp, by simp, own⟩
          · obtain ⟨behind, later, own⟩ := ih h
            exact ⟨List.mem_cons_of_mem _ behind, List.mem_cons_of_mem _ later, own⟩

/-- The slot of a member stands behind those of the members in front of it. -/
theorem memberSlot?_split {tag : Nat} {members : List Member} {slots : List Slot}
    {member : Member} {slot : Slot}
    (found : memberSlot? tag members slots = some (member, slot))
    : ∃ before behind done rest, members = before ++ member :: behind
        ∧ slots = done ++ slot :: rest ∧ done.length = before.length
        ∧ ∀ new, replaceSlot tag new members slots = done ++ new :: rest := by
  induction members generalizing slots with
  | nil => simp [memberSlot?] at found
  | cons first members ih =>
      cases slots with
      | nil => simp [memberSlot?] at found
      | cons held slots =>
          simp only [memberSlot?] at found
          split at found
          · rename_i own
            cases found
            exact ⟨[], members, [], slots, rfl, rfl, rfl, fun new => by simp [replaceSlot, own]⟩
          · rename_i foreign
            obtain ⟨before, behind, done, rest, rfl, rfl, place, replaced⟩ := ih found
            refine ⟨first :: before, behind, held :: done, rest, rfl, rfl, by simp [place], ?_⟩
            intro new
            simp only [replaceSlot, if_neg foreign, replaced, List.cons_append]

theorem replaceSlot_self {tag : Nat} {members : List Member} {slots : List Slot}
    {member : Member} {slot : Slot}
    (found : memberSlot? tag members slots = some (member, slot))
    : replaceSlot tag slot members slots = slots := by
  obtain ⟨_, _, _, _, _, same, _, replaced⟩ := memberSlot?_split found
  rw [replaced, same]

/-- A message of the type has a slot for each field that the type declares. -/
theorem memberSlot?_eq_none {tag : Nat} {members : List Member} {slots : List Slot}
    (conform : slotsConform s members slots)
    : memberSlot? tag members slots = none ↔ ∀ m ∈ members, m.hasTag tag = false := by
  induction members generalizing slots with
  | nil => simp [memberSlot?]
  | cons m members ih =>
      cases slots with
      | nil => cases conform
      | cons slot slots =>
          simp only [memberSlot?, List.forall_mem_cons, ← ih conform.2]
          cases m.hasTag tag <;> simp

-----------------------------------------------------------------------------------------
-- The target of a record
-----------------------------------------------------------------------------------------

/-- What the record of a member is read into. -/
inductive Target where
  | scalar (type : ScalarType) (current : Scalar)
  /-- An embedded message, or the entry of a map. -/
  | message (t : MessageType) (current : Message)
  /-- The list that takes all elements of a packed record. -/
  | run (type : ScalarType) (capacity : Option Nat) (values : List Value)
  /-- The record has another wire type than the member. -/
  | refused (e : DecodeError)
  /-- The slot holds nothing that the member declares. -/
  | nothing

/-- The target of a value that comes with its own wire type. -/
def Schema.target (s : Schema) (tag : Nat) (wire : WireType) (type : ValueType) (current : Value)
    : Target :=
  if wire = type.wireType then
    match type, current with
    | .scalar type, .scalar v => .scalar type v
    | .message name, .message m => .message (s.type name) m
    | _, _ => .nothing
  else .refused (.wrongWireType tag type.wireType.code wire.code)

theorem message_of_target {own : Nat} {wire : WireType} {type : ValueType} {current : Value}
    {c : Message} (h : s.target own wire type current = .message t c)
    : ∃ name, type = .message name ∧ t = s.type name ∧ current = .message c
        ∧ wire = .lengthDelimited := by
  unfold Schema.target at h
  split at h
  · rename_i expected
    split at h
    · cases h
    · cases h
      exact ⟨_, rfl, rfl, rfl, expected⟩
    · cases h
  · cases h

/-- A value with its own wire type is never read as a packed run. -/
theorem target_ne_run {own : Nat} {wire : WireType} {type : ValueType} {current : Value}
    {element : ScalarType} {capacity : Option Nat} {values : List Value}
    : s.target own wire type current ≠ .run element capacity values := by
  unfold Schema.target
  split
  · split <;> exact Target.noConfusion
  · exact Target.noConfusion

/-- The value that the record of an alternative continues. -/
def Slot.alternative (s : Schema) (a : Alternative) : Slot → Value
  | .choice tag v => if tag = a.tag then v else s.emptyValue a.type
  | _ => s.emptyValue a.type

/-- The target of a record, by the shape of its member. -/
def Slot.target (s : Schema) (m : Member) (tag : Nat) (wire : WireType) (slot : Slot) : Target :=
  match m.shape, slot with
  | .single type, .one v => s.target tag wire type v
  | .optional type, .one v => s.target tag wire type v
  | .optional type, .none => s.target tag wire type (s.emptyValue type)
  | .repeated (.scalar type) _ capacity, .many vs =>
      if wire = .lengthDelimited ∧ type.wireType ≠ .lengthDelimited then .run type capacity vs
      else s.target tag wire (.scalar type) (s.emptyValue (.scalar type))
  | .repeated (.message name) _ _, .many _ =>
      s.target tag wire (.message name) (s.emptyValue (.message name))
  | .map key value, .entries _ =>
      if wire = .lengthDelimited then .message (.entry key value) (s.emptyEntry key value)
      else .refused (.wrongWireType tag WireType.lengthDelimited.code wire.code)
  | .oneof _, slot =>
      match m.alternative? tag with
      | some a => s.target a.tag wire a.type (slot.alternative s a)
      | .none => .nothing
  | _, _ => .nothing

/-- A packed run goes into the list that the slot holds. -/
theorem many_of_target_run {member : Member} {tag : Nat} {wire : WireType} {slot : Slot}
    {type : ScalarType} {capacity : Option Nat} {values : List Value}
    (h : slot.target s member tag wire = .run type capacity values)
    : slot = .many values ∧ ∃ packed, member.shape = .repeated (.scalar type) packed capacity := by
  unfold Slot.target at h
  split at h
  · exact absurd h target_ne_run
  · exact absurd h target_ne_run
  · exact absurd h target_ne_run
  · rename_i shape
    split at h
    · cases h
      exact ⟨rfl, _, shape⟩
    · exact absurd h target_ne_run
  · exact absurd h target_ne_run
  · split at h <;> cases h
  · split at h
    · exact absurd h target_ne_run
    · cases h
  · cases h

/-- The slot holds the alternative with the field number. -/
def Slot.holds (tag : Nat) : Slot → Bool
  | .choice old _ => old == tag
  | _ => false

/-- What a member holds once a value has been read for it.  A value that could not be read whole
stays where it was merged into; it is not added to a list or a map, and sets no alternative.
-/
def Slot.put (m : Member) (tag : Nat) (slot : Slot) (v : Value) (failure : Option DecodeError)
    : Slot × Option DecodeError :=
  match m.shape, slot with
  | .repeated _ _ capacity, .many vs =>
      match failure with
      | some e => (.many vs, some e)
      | .none =>
          let (values, failure) := appendValue capacity vs v
          (.many values, failure)
  | .map _ _, .entries es =>
      match v with
      | .message entry =>
          match failure, entryOfMessage? entry with
          | .none, some e => (.entries (insertEntry e.key e.value es), .none)
          | failure, _ => (.entries es, failure)
      | .scalar _ => (.entries es, failure)
  | .oneof _, slot =>
      (if failure.isNone || slot.holds tag then .choice tag v else slot, failure)
  | _, _ => (.one v, failure)

/-- Reads into the target and puts what was read into the slot. -/
def Target.merge (embed : Option Embed) (m : Member) (tag : Nat) (slot : Slot)
    (bytes : List UInt8) : Target → Merged Slot
  | .scalar type v =>
      let merged := mergeScalar type v bytes
      let (slot, failure) := slot.put m tag (.scalar merged.value) merged.failure
      ⟨slot, failure, merged.rest⟩
  | .message t c =>
      let merged := mergeNested embed t c bytes
      let (slot, failure) := slot.put m tag (.message merged.value) merged.failure
      ⟨slot, failure, merged.rest⟩
  | .run type capacity values =>
      match Decoder.lengthDelimited bytes with
      | .error e rest => ⟨.many values, some e, rest⟩
      | .ok payload rest =>
          let (values, failure) := mergePacked type capacity values payload
          ⟨.many values, failure, rest⟩
  | .refused e => ⟨slot, some e, bytes⟩
  | .nothing => ⟨slot, none, bytes⟩

theorem merge_target {member : Member} {slot : Slot} {tag own : Nat} {wire : WireType}
    {type : ValueType} {current : Value} (bytes : List UInt8)
    (h : slot.put member tag current none = (slot, none) ∨ current = s.emptyValue type)
    : (s.target own wire type current).merge embed member tag slot bytes
        = if wire = type.wireType then
            let merged := mergeValue s embed type current bytes
            let put := slot.put member tag merged.value merged.failure
            ⟨put.1, put.2, merged.rest⟩
          else ⟨slot, some (.wrongWireType own type.wireType.code wire.code), bytes⟩ := by
  unfold Schema.target
  split
  · cases type with
    | scalar type =>
        cases current with
        | scalar v => rfl
        | message n =>
            rcases h with back | fresh
            · simp only [Target.merge, mergeValue, back]
            · cases fresh
    | message name =>
        cases current with
        | message n => rfl
        | scalar v =>
            rcases h with back | fresh
            · simp only [Target.merge, mergeValue, back]
            · cases fresh
  · rfl

theorem mergeAlternative_eq {member : Member} {a : Alternative} {alternatives : List Alternative}
    (shape : member.shape = .oneof alternatives) (wire : WireType) (slot : Slot)
    (bytes : List UInt8)
    : mergeAlternative s embed wire a slot bytes
        = (s.target a.tag wire a.type (slot.alternative s a)).merge embed member a.tag slot
            bytes := by
  have fresh (slot : Slot) (other : slot.holds a.tag = false)
      : (let merged := mergeChecked s embed a.tag wire a.type (s.emptyValue a.type) bytes
         Merged.mk (if merged.failure.isNone then .choice a.tag merged.value else slot)
            merged.failure merged.rest)
        = (s.target a.tag wire a.type (s.emptyValue a.type)).merge embed member a.tag slot
            bytes := by
    rw [merge_target bytes (.inr rfl)]
    simp only [mergeChecked, Slot.put, shape, other, Bool.or_false]
    split <;> rfl
  cases slot with
  | choice old v =>
      simp only [mergeAlternative, Slot.alternative]
      split
      · rename_i same
        subst same
        have back : (Slot.choice a.tag v).put member a.tag v none = (.choice a.tag v, none) := by
          simp [Slot.put, shape]
        rw [merge_target bytes (.inl back)]
        simp only [mergeChecked, Slot.put, shape, Slot.holds, BEq.rfl, Bool.or_true, if_true]
        split <;> rfl
      · rename_i different
        exact fresh (.choice old v) (by simpa [Slot.holds] using different)
  | none | one _ | many _ | entries _ => exact fresh _ rfl

/-- A record is merged into its target, and the outcome is put into the slot. -/
theorem mergeSlot_eq (member : Member) (tag : Nat) (wire : WireType) (slot : Slot)
    (bytes : List UInt8)
    : mergeSlot s embed member tag wire slot bytes
        = (slot.target s member tag wire).merge embed member tag slot bytes := by
  cases shape : member.shape with
  | single type =>
      cases slot with
      | one v =>
          have back : (Slot.one v).put member tag v none = (.one v, none) := by
            simp [Slot.put, shape]
          simp only [mergeSlot, Slot.target, shape, merge_target bytes (.inl back), mergeChecked,
            Slot.put]
          split <;> rfl
      | none | many _ | entries _ | choice _ _ =>
          simp only [mergeSlot, Slot.target, shape, Target.merge]
  | optional type =>
      cases slot with
      | none => simp only [mergeSlot, Slot.target, shape, merge_target bytes (.inr rfl), Slot.put]
      | one v =>
          have back : (Slot.one v).put member tag v none = (.one v, none) := by
            simp [Slot.put, shape]
          simp only [mergeSlot, Slot.target, shape, merge_target bytes (.inl back), mergeChecked,
            Slot.put]
          split <;> rfl
      | many _ | entries _ | choice _ _ => simp only [mergeSlot, Slot.target, shape, Target.merge]
  | repeated type packed capacity =>
      cases slot with
      | many vs =>
          have element (type : ValueType)
              : (let merged := mergeElement s embed tag wire type capacity vs bytes
                 Merged.mk (Slot.many merged.value) merged.failure merged.rest)
                = (s.target tag wire type (s.emptyValue type)).merge embed member tag (.many vs)
                    bytes := by
            rw [merge_target bytes (.inr rfl)]
            by_cases expected : wire = type.wireType
            · simp only [mergeElement, mergeChecked, Slot.put, shape, if_pos expected]
              cases (mergeValue s embed type (s.emptyValue type) bytes).failure <;> rfl
            · simp only [mergeElement, mergeChecked, if_neg expected]
          cases type with
          | message name =>
              simpa only [mergeSlot, Slot.target, shape, mergeRepeated] using element _
          | scalar type =>
              simp only [mergeSlot, Slot.target, shape, mergeRepeated]
              split
              · simp only [Target.merge]
                cases Decoder.lengthDelimited bytes <;> rfl
              · exact element _
      | none | one _ | entries _ | choice _ _ =>
          cases type <;> simp only [mergeSlot, Slot.target, shape, Target.merge]
  | map key value =>
      cases slot with
      | entries es =>
          simp only [mergeSlot, Slot.target, shape, mergeMap]
          split
          · simp only [Target.merge, Slot.put, shape]
            split <;> simp_all
          · rfl
      | none | one _ | many _ | choice _ _ =>
          simp only [mergeSlot, Slot.target, shape, Target.merge]
  | oneof alternatives =>
      simp only [mergeSlot, Slot.target, shape]
      cases found : member.alternative? tag with
      | none => rfl
      | some a =>
          obtain ⟨rfl, -⟩ := Member.tag_of_alternative found
          exact mergeAlternative_eq shape wire slot bytes

-----------------------------------------------------------------------------------------
-- Records
-----------------------------------------------------------------------------------------

variable {tag : Nat} {wire : WireType} {bytes payload rest : List UInt8} {member : Member}
  {slot : Slot}

theorem mergeRecord_of_member (form : t.form ≠ .filler)
    (key : Decoder.key bytes = .ok (tag, wire) payload)
    (found : memberSlot? tag t.members m.slots = some (member, slot))
    : mergeRecord s embed t m bytes
        = let merged := mergeSlot s embed member tag wire slot payload
          ⟨⟨replaceSlot tag merged.value t.members m.slots, m.unknown⟩, merged.failure,
            merged.rest⟩ := by
  simp only [mergeRecord, key, mergeField, if_neg form, mergeMember_eq, found, Option.map_some]

theorem mergeRecord_of_undeclared (form : t.form ≠ .filler)
    (key : Decoder.key bytes = .ok (tag, wire) payload)
    (missing : memberSlot? tag t.members m.slots = none)
    : mergeRecord s embed t m bytes
        = match passRecord 0 bytes with
          | .error e => ⟨m, some e, payload⟩
          | .ok rest =>
              ⟨keepUnknown t m (bytes.take (bytes.length - rest.length)), none, rest⟩ := by
  have field : mergeField s embed t m tag wire payload = none := by
    simp only [mergeField, if_neg form, mergeMember_eq, missing, Option.map_none]
  cases passed : passRecord 0 bytes <;> simp only [mergeRecord, key, field, passed]

-----------------------------------------------------------------------------------------
-- Merging without an error
-----------------------------------------------------------------------------------------

/-- How a record that merges without an error changes the slot of its member. -/
inductive SlotStep (s : Schema) (embed : Option Embed) (member : Member) (tag : Nat)
    (wire : WireType) (slot : Slot) (payload rest : List UInt8) : Slot → Prop
  | scalar {type : ScalarType} {current v : Scalar} {new : Slot}
    (target : slot.target s member tag wire = .scalar type current)
    (read : readScalar type payload = .ok v rest)
    (put : slot.put member tag (.scalar v) none = (new, none))
    : SlotStep s embed member tag wire slot payload rest new
  | message {t : MessageType} {current merged : Message} {merge : Embed} {data : List UInt8}
    {new : Slot}
    (target : slot.target s member tag wire = .message t current)
    (within : embed = some merge)
    (read : Decoder.lengthDelimited payload = .ok data rest)
    (inner : merge t current data = (merged, none))
    (put : slot.put member tag (.message merged) none = (new, none))
    : SlotStep s embed member tag wire slot payload rest new
  | run {type : ScalarType} {capacity : Option Nat} {values added all : List Value}
    {data : List UInt8}
    (target : slot.target s member tag wire = .run type capacity values)
    (read : Decoder.lengthDelimited payload = .ok data rest)
    (packed : readPacked type data = (added, none))
    (appended : appendValues capacity values added = (all, none))
    : SlotStep s embed member tag wire slot payload rest (.many all)
  | nothing (target : slot.target s member tag wire = .nothing) (unread : rest = payload)
    : SlotStep s embed member tag wire slot payload rest slot

/-- What could not be read is not put anywhere without saying so. -/
@[simp]
theorem put_failure (member : Member) (tag : Nat) (slot : Slot) (v : Value) (e : DecodeError)
    : (slot.put member tag v (some e)).2 = some e := by
  unfold Slot.put
  split
  · rfl
  · split <;> rfl
  · rfl
  · rfl

theorem slotStep_of_success {new : Slot}
    (h : mergeSlot s embed member tag wire slot payload = ⟨new, none, rest⟩)
    : SlotStep s embed member tag wire slot payload rest new := by
  rw [mergeSlot_eq] at h
  cases target : slot.target s member tag wire with
  | scalar type current =>
      simp only [target, Target.merge, mergeScalar] at h
      cases read : readScalar type payload with
      | error e rest' => simp [read] at h
      | ok v rest' =>
          simp only [read, Merged.mk.injEq] at h
          obtain ⟨value, success, rfl⟩ := h
          exact .scalar target read (Prod.ext value success)
  | message t current =>
      simp only [target, Target.merge, mergeNested] at h
      cases embed with
      | none => simp at h
      | some merge =>
          cases read : Decoder.lengthDelimited payload with
          | error e rest' => simp [read] at h
          | ok data rest' =>
              simp only [read, Merged.mk.injEq] at h
              obtain ⟨value, success, rfl⟩ := h
              cases inner : (merge t current data).2 with
              | some e => simp [inner] at success
              | none =>
                  rw [inner] at value success
                  exact .message target rfl read (Prod.ext rfl inner) (Prod.ext value success)
  | run type capacity values =>
      simp only [target, Target.merge] at h
      cases read : Decoder.lengthDelimited payload with
      | error e rest' => simp [read] at h
      | ok data rest' =>
          simp only [read, Merged.mk.injEq] at h
          obtain ⟨rfl, success, rfl⟩ := h
          cases packed : readPacked type data with
          | mk added failure =>
              simp only [mergePacked, packed] at success ⊢
              cases appended : appendValues capacity values added with
              | mk all full =>
                  simp only [appended] at success ⊢
                  cases full with
                  | some e => cases success
                  | none =>
                      cases success
                      exact .run target read packed appended
  | refused e => simp [target, Target.merge] at h
  | nothing =>
      simp only [target, Target.merge, Merged.mk.injEq] at h
      obtain ⟨rfl, -, rfl⟩ := h
      exact .nothing target rfl

/-- How a record that merges without an error changes a message: it changes the slot of the member
that declares its field, or it is kept or dropped as a whole.
-/
inductive RecordStep (s : Schema) (embed : Option Embed) (t : MessageType) (m : Message)
    (bytes rest : List UInt8) : Message → Prop
  | declared {tag : Nat} {wire : WireType} {payload : List UInt8} {member : Member}
    {slot new : Slot}
    (key : Decoder.key bytes = .ok (tag, wire) payload)
    (found : memberSlot? tag t.members m.slots = some (member, slot))
    (step : SlotStep s embed member tag wire slot payload rest new)
    : RecordStep s embed t m bytes rest ⟨replaceSlot tag new t.members m.slots, m.unknown⟩
  | undeclared {tag : Nat} {wire : WireType} {payload record behind : List UInt8}
    (key : Decoder.key bytes = .ok (tag, wire) payload)
    (missing : memberSlot? tag t.members m.slots = none)
    (whole : bytes = record ++ rest)
    (legal : Decoder.key record = .ok (tag, wire) behind)
    (complete : passRecord 0 record = .ok [])
    : RecordStep s embed t m bytes rest (keepUnknown t m record)

theorem recordStep_of_success (form : t.form ≠ .filler)
    (h : (mergeRecord s embed t m bytes).failure = none)
    : RecordStep s embed t m bytes (mergeRecord s embed t m bytes).rest
        (mergeRecord s embed t m bytes).value := by
  cases key : Decoder.key bytes with
  | error e rest => simp [mergeRecord, key] at h
  | ok pair payload =>
      obtain ⟨tag, wire⟩ := pair
      cases found : memberSlot? tag t.members m.slots with
      | some place =>
          obtain ⟨member, slot⟩ := place
          rw [mergeRecord_of_member form key found] at h ⊢
          exact .declared key found (slotStep_of_success (congrArg (Merged.mk _ · _) h))
      | none =>
          rw [mergeRecord_of_undeclared form key found] at h ⊢
          cases passed : passRecord 0 bytes with
          | error e => simp [passed] at h
          | ok rest =>
              obtain ⟨record, behind, rfl, legal, complete⟩ := record_split key passed
              have taken
                  : (record ++ rest).take ((record ++ rest).length - rest.length) = record := by
                simp
              simp only [taken]
              exact .undeclared key found rfl legal complete

/-- What every record keeps that merges without an error, all of them keep, by induction on the
bytes.
-/
theorem mergeRecords_induction {motive : Message → List UInt8 → Message → Prop}
    (nil : ∀ m, motive m [] m)
    (record : ∀ m bytes m', bytes ≠ [] → (mergeRecord s embed t m bytes).failure = none
      → motive (mergeRecord s embed t m bytes).value (mergeRecord s embed t m bytes).rest m'
      → motive m bytes m')
    {m' : Message} (h : mergeRecords s embed t m bytes = (m', none))
    : motive m bytes m' := by
  induction size : bytes.length using Nat.strongRecOn generalizing m bytes with
  | _ size ih =>
      by_cases empty : bytes = []
      · subst empty
        rw [mergeRecords_nil] at h
        cases h
        exact nil _
      cases merged : (mergeRecord s embed t m bytes).failure with
      | some e =>
          rw [mergeRecords_of_failure empty merged] at h
          cases h
      | none =>
          rw [mergeRecords_of_success empty merged] at h
          exact record _ _ _ empty merged
            (ih _ (size ▸ length_of_mergeRecord merged) h rfl)

end Protobuf
