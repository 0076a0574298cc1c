import Protobuf.Proofs.Message.Fidelity
import Protobuf.Proofs.Message.Known

/-! The order of records of different members does not matter.  A record reads its own bytes and
changes the slot of its own member, so two records next to each other can change places unless
they are alternatives of one oneof or both unknown.
-/

namespace Protobuf

open Wire

variable {s : Schema} {embed : Option Embed} {t : MessageType} {m m' : Message} {tag : Nat}
  {wire : WireType} {member : Member} {slot new : Slot} {bytes payload rest : List UInt8}

-----------------------------------------------------------------------------------------
-- Slots that hold what their member declares
-----------------------------------------------------------------------------------------

/-- The value is a scalar or a message, as the type is. -/
def Value.HasForm : ValueType → Value → Prop
  | .scalar _, .scalar _ => True
  | .message _, .message _ => True
  | _, _ => False

/-- The slot holds what a member of its shape may hold; values inside it are not looked into. -/
def Slot.HasForm (m : Member) (slot : Slot) : Prop :=
  match m.shape, slot with
  | .single type, .one v => v.HasForm type
  | .optional _, .none => True
  | .optional type, .one v => v.HasForm type
  | .repeated _ _ _, .many _ => True
  | .map _ _, .entries _ => True
  | .oneof _, .none => True
  | .oneof _, .choice tag v => ∀ a, m.alternative? tag = some a → v.HasForm a.type
  | _, _ => False

/-- Every slot holds what its member declares. -/
def Message.HasForm (t : MessageType) (m : Message) : Prop :=
  List.Forall₂ (fun member slot => Slot.HasForm member slot) t.members m.slots

theorem hasForm_emptyValue (s : Schema) (type : ValueType)
    : (s.emptyValue type).HasForm type := by
  cases type <;> trivial

theorem hasForm_of_known {type : ValueType} {v : Value} (h : v.known.Conforms s type)
    : v.HasForm type := by
  cases v <;> cases type <;> trivial

theorem Slot.hasForm_of_known (h : slot.known.Conforms s member)
    : slot.HasForm member := by
  cases slot with
  | none =>
      simp only [known, Conforms] at h
      unfold HasForm
      split at h <;> simp_all
  | one v =>
      simp only [known, Conforms] at h
      unfold HasForm
      split at h
      · rename_i type shape
        simp only [shape]
        exact hasForm_of_known h
      · rename_i type shape
        simp only [shape]
        exact hasForm_of_known h
      · exact h.elim
  | many vs =>
      simp only [known, Conforms] at h
      unfold HasForm
      split at h <;> simp_all
  | entries es =>
      simp only [known, Conforms] at h
      unfold HasForm
      split at h <;> simp_all
  | choice tag v =>
      simp only [known, Conforms] at h
      split at h
      · rename_i a found
        obtain ⟨alternatives, shape⟩ := Member.shape_of_alternative found
        simp only [HasForm, shape]
        intro b other
        cases found.symm.trans other
        exact hasForm_of_known h
      · exact h.elim

theorem Message.Typed.hasForm (typed : m.Typed s t)
    : m.HasForm t := by
  obtain ⟨slots, unknown⟩ := m
  have conform : slotsConform s t.members (slotsKnown slots) := typed.1
  clear typed
  unfold Message.HasForm
  generalize t.members = members at conform ⊢
  induction members generalizing slots with
  | nil =>
      cases slots with
      | nil => exact .nil
      | cons slot slots => exact conform.elim
  | cons member members ih =>
      cases slots with
      | nil => cases conform
      | cons slot slots => exact .cons (Slot.hasForm_of_known conform.1) (ih _ conform.2)

/-- A scalar is read from a record with the wire type of its own type. -/
theorem scalar_of_target {own : Nat} {type : ValueType} {current : Value} {element : ScalarType}
    {v : Scalar} (h : s.target own wire type current = .scalar element v)
    : type = .scalar element ∧ wire = element.wireType := by
  unfold Schema.target at h
  split at h
  · rename_i expected
    split at h
    · cases h
      exact ⟨rfl, expected⟩
    · cases h
    · cases h
  · cases h

theorem target_ne_nothing {own : Nat} {type : ValueType} {current : Value}
    (form : current.HasForm type)
    : s.target own wire type current ≠ .nothing := by
  unfold Schema.target
  cases type <;> cases current <;> first | exact form.elim | skip
  all_goals
    split
    · exact Target.noConfusion
    · exact Target.noConfusion

theorem hasForm_alternative {a : Alternative} (form : slot.HasForm member)
    (found : member.alternative? tag = some a)
    : (slot.alternative s a).HasForm a.type := by
  obtain ⟨alternatives, shape⟩ := Member.shape_of_alternative found
  obtain ⟨rfl, -⟩ := Member.tag_of_alternative found
  unfold Slot.alternative
  split
  · simp only [Slot.HasForm, shape] at form
    split
    · rename_i same
      subst same
      exact form a found
    · exact hasForm_emptyValue s a.type
  · exact hasForm_emptyValue s a.type

/-- There is something in the slot that a record of its member is read into, by cases on the shape
of the member.
-/
theorem Slot.HasForm.target_ne_nothing (form : slot.HasForm member) (own : member.hasTag tag)
    : slot.target s member tag wire ≠ .nothing := by
  cases shape : member.shape with
  | single type =>
      cases slot <;> simp only [Slot.HasForm, shape] at form
      simp only [Slot.target, shape]
      exact Protobuf.target_ne_nothing form
  | optional type =>
      cases slot <;> simp only [Slot.HasForm, shape] at form
      · simp only [Slot.target, shape]
        exact Protobuf.target_ne_nothing (hasForm_emptyValue s type)
      · simp only [Slot.target, shape]
        exact Protobuf.target_ne_nothing form
  | repeated type packed capacity =>
      cases slot <;> simp only [Slot.HasForm, shape] at form
      cases type with
      | scalar type =>
          simp only [Slot.target, shape]
          split
          · exact Target.noConfusion
          · exact Protobuf.target_ne_nothing (hasForm_emptyValue s _)
      | message name =>
          simp only [Slot.target, shape]
          exact Protobuf.target_ne_nothing (hasForm_emptyValue s _)
  | map key value =>
      cases slot <;> simp only [Slot.HasForm, shape] at form
      simp only [Slot.target, shape]
      split <;> exact Target.noConfusion
  | oneof alternatives =>
      obtain ⟨a, found⟩ := Member.alternative_of_hasTag shape own
      simp only [Slot.target, shape, found]
      exact Protobuf.target_ne_nothing (hasForm_alternative form found)

/-- The type of the one value that the slot holds under the field number. -/
def Member.valueType? (m : Member) (tag : Nat) : Option ValueType :=
  match m.shape with
  | .single type => some type
  | .optional type => some type
  | .oneof _ => (m.alternative? tag).map (·.type)
  | _ => none

/-- What is put into a slot of the right form leaves it so, by cases on the shape. -/
theorem Slot.HasForm.put {v : Value} {failure failure' : Option DecodeError}
    (form : slot.HasForm member)
    (value : ∀ type, member.valueType? tag = some type → v.HasForm type)
    (put : slot.put member tag v failure = (new, failure'))
    : new.HasForm member := by
  have placed : (slot.put member tag v failure).1 = new := congrArg Prod.fst put
  rw [← placed]
  cases shape : member.shape with
  | single type =>
      simp only [Slot.put, shape, Slot.HasForm]
      exact value type (by simp only [Member.valueType?, shape])
  | optional type =>
      simp only [Slot.put, shape, Slot.HasForm]
      exact value type (by simp only [Member.valueType?, shape])
  | repeated type packed capacity =>
      cases slot <;> simp only [Slot.HasForm, shape] at form
      cases failure <;> simp only [Slot.put, shape, Slot.HasForm]
  | map key type =>
      cases slot <;> simp only [Slot.HasForm, shape] at form
      simp only [Slot.put, shape]
      split
      · split <;> simp only [Slot.HasForm, shape]
      · simp only [Slot.HasForm, shape]
  | oneof alternatives =>
      simp only [Slot.put, shape]
      split
      · simp only [Slot.HasForm, shape]
        exact fun a found => value a.type (by simp only [Member.valueType?, shape, found]; rfl)
      · exact form

/-- Where a slot holds one value, a record is read into a value of its type. -/
theorem target_of_valueType {type : ValueType} (slot : Slot) (wire : WireType)
    (h : member.valueType? tag = some type)
    : slot.target s member tag wire = .nothing
      ∨ ∃ own current, slot.target s member tag wire = s.target own wire type current := by
  unfold Member.valueType? at h
  cases shape : member.shape with
  | single type' =>
      simp only [shape, Option.some.injEq] at h
      subst h
      cases slot <;> simp only [Slot.target, shape, true_or]
      exact .inr ⟨_, _, rfl⟩
  | optional type' =>
      simp only [shape, Option.some.injEq] at h
      subst h
      cases slot <;> simp only [Slot.target, shape, true_or]
      all_goals exact .inr ⟨_, _, rfl⟩
  | repeated _ _ _ | map _ _ => simp only [shape, reduceCtorEq] at h
  | oneof alternatives =>
      simp only [shape, Option.map_eq_some_iff] at h
      obtain ⟨a, found, rfl⟩ := h
      simp only [Slot.target, shape, found]
      exact .inr ⟨_, _, rfl⟩

-----------------------------------------------------------------------------------------
-- Steps that read their own bytes
-----------------------------------------------------------------------------------------

/-- The wire type of what is read into the target. -/
def Target.wireType? : Target → Option WireType
  | .scalar type _ => some type.wireType
  | .message _ _ => some .lengthDelimited
  | .run _ _ _ => some .lengthDelimited
  | .refused _ => none
  | .nothing => none

/-- A record that is read has the wire type of its target, by cases on the shape of the member. -/
theorem wire_of_target {expected : WireType}
    (h : (slot.target s member tag wire).wireType? = some expected)
    : wire = expected := by
  have value {own : Nat} {type : ValueType} {current : Value}
      (h : (s.target own wire type current).wireType? = some expected)
      : wire = expected := by
    cases target : s.target own wire type current with
    | scalar element v =>
        rw [target] at h
        cases h
        exact (scalar_of_target target).2
    | message u c =>
        rw [target] at h
        cases h
        exact (message_of_target target).choose_spec.2.2.2
    | run type capacity values => exact absurd target target_ne_run
    | refused e | nothing => simp only [target, Target.wireType?, reduceCtorEq] at h
  unfold Slot.target at h
  split at h
  · exact value h
  · exact value h
  · exact value h
  · split at h
    · rename_i packed
      cases h
      exact packed.1
    · exact value h
  · exact value h
  · split at h
    · rename_i delimited
      cases h
      exact delimited
    · cases h
  · split at h
    · exact value h
    · cases h
  · cases h

namespace SlotStep

/-- The slot keeps its form. -/
theorem hasForm (step : SlotStep s embed member tag wire slot payload rest new)
    (form : slot.HasForm member)
    : new.HasForm member := by
  cases step with
  | scalar target read put =>
      refine form.put (fun type typed => ?_) put
      rcases target_of_valueType slot wire typed with missing | ⟨own, current, same⟩
      · cases missing.symm.trans target
      · obtain ⟨rfl, -⟩ := scalar_of_target (same.symm.trans target)
        trivial
  | message target within read inner put =>
      refine form.put (fun type typed => ?_) put
      rcases target_of_valueType slot wire typed with missing | ⟨own, current, same⟩
      · cases missing.symm.trans target
      · obtain ⟨name, rfl, -⟩ := message_of_target (same.symm.trans target)
        trivial
  | run target read packed appended =>
      obtain ⟨rfl, packed, shape⟩ := many_of_target_run target
      simp only [Slot.HasForm, shape]
  | nothing target unread => exact form

/-- The record takes a part of its own, and does the same whatever stands behind it. -/
theorem split (step : SlotStep s embed member tag wire slot payload rest new)
    : ∃ part, payload = part ++ rest
        ∧ ∀ more, SlotStep s embed member tag wire slot (part ++ more) more new := by
  cases step with
  | scalar target read put =>
      obtain ⟨part, rfl, alone⟩ := splits_readScalar _ _ _ _ read
      exact ⟨part, rfl, fun more => .scalar target (alone more) put⟩
  | message target within read inner put =>
      obtain ⟨part, rfl, alone⟩ := Decoder.splits_lengthDelimited _ _ _ read
      exact ⟨part, rfl, fun more => .message target within (alone more) inner put⟩
  | run target read packed appended =>
      obtain ⟨part, rfl, alone⟩ := Decoder.splits_lengthDelimited _ _ _ read
      exact ⟨part, rfl, fun more => .run target (alone more) packed appended⟩
  | nothing target unread => exact ⟨[], unread.symm, fun more => .nothing target rfl⟩

/-- A step is what merging does. -/
theorem merge (step : SlotStep s embed member tag wire slot payload rest new)
    : mergeSlot s embed member tag wire slot payload = ⟨new, none, rest⟩ := by
  rw [mergeSlot_eq]
  cases step with
  | scalar target read put => simp only [target, Target.merge, mergeScalar, read, put]
  | message target within read inner put =>
      simp only [target, Target.merge, mergeNested, within, read, inner, put]
  | run target read packed appended =>
      simp only [target, Target.merge, read, mergePacked, packed, appended]
  | nothing target unread => simp only [target, Target.merge, unread]

/-- The record ends where a reader that does not know its field finds its end. -/
theorem passes_of_hasForm (step : SlotStep s embed member tag wire slot payload rest new)
    (form : slot.HasForm member) (own : member.hasTag tag)
    : passValue wire.code 0 payload = .ok (0, rest) := by
  cases step with
  | scalar target read put =>
      rw [wire_of_target (congrArg Target.wireType? target)]
      exact passes_readScalar _ _ _ _ read
  | message target within read inner put =>
      rw [wire_of_target (congrArg Target.wireType? target)]
      exact Decoder.passes_lengthDelimited _ _ _ read
  | run target read packed appended =>
      rw [wire_of_target (congrArg Target.wireType? target)]
      exact Decoder.passes_lengthDelimited _ _ _ read
  | nothing target unread => exact absurd target (form.target_ne_nothing own)

end SlotStep

namespace RecordStep

/-- The record takes a part of its own, and does the same whatever stands behind it. -/
theorem apart (step : RecordStep s embed t m bytes rest m')
    : ∃ part, bytes = part ++ rest ∧ ∀ more, RecordStep s embed t m (part ++ more) more m' := by
  cases step with
  | declared key found step =>
      obtain ⟨front, rfl, alone⟩ := Decoder.splits_key _ _ _ key
      obtain ⟨part, rfl, behind⟩ := step.split
      refine ⟨front ++ part, (List.append_assoc _ _ _).symm, fun more => ?_⟩
      rw [List.append_assoc]
      exact .declared (alone _) found (behind more)
  | undeclared key missing whole legal complete =>
      refine ⟨_, whole, fun more => ?_⟩
      exact .undeclared (Decoder.local_key _ _ _ legal more) missing rfl legal complete

/-- A step is what merging does. -/
theorem merge (form : t.form ≠ .filler) (step : RecordStep s embed t m bytes rest m')
    : mergeRecord s embed t m bytes = ⟨m', none, rest⟩ := by
  cases step with
  | declared key found step =>
      rw [mergeRecord_of_member form key found]
      simp only [step.merge]
  | undeclared key missing whole legal complete =>
      have passed : passRecord 0 bytes = .ok rest := by
        rw [whole]
        exact passRecord_append complete rest
      rw [mergeRecord_of_undeclared form key missing, passed]
      simp only [whole, List.length_append, Nat.add_sub_cancel, List.take_left]

end RecordStep

-----------------------------------------------------------------------------------------
-- Messages
-----------------------------------------------------------------------------------------

theorem hasForm_memberSlot {members : List Member} {slots : List Slot}
    (form : List.Forall₂ (fun member slot => Slot.HasForm member slot) members slots)
    (found : memberSlot? tag members slots = some (member, slot))
    : slot.HasForm member := by
  induction form with
  | nil => cases found
  | cons first others ih =>
      simp only [memberSlot?] at found
      split at found
      · cases found
        exact first
      · exact ih found

theorem hasForm_replaceSlot {members : List Member} {slots : List Slot}
    (form : List.Forall₂ (fun member slot => Slot.HasForm member slot) members slots)
    (found : memberSlot? tag members slots = some (member, slot)) (h : new.HasForm member)
    : List.Forall₂ (fun member slot => Slot.HasForm member slot) members
        (replaceSlot tag new members slots) := by
  induction form with
  | nil => cases found
  | cons first others ih =>
      simp only [memberSlot?, replaceSlot] at found ⊢
      split at found
      · rename_i own
        cases found
        rw [if_pos own]
        exact .cons h others
      · rename_i foreign
        rw [if_neg foreign]
        exact .cons first (ih found)

/-- A record leaves every slot in its form. -/
theorem RecordStep.hasForm (step : RecordStep s embed t m bytes rest m') (form : m.HasForm t)
    : m'.HasForm t := by
  cases step with
  | declared key found step =>
      exact hasForm_replaceSlot form found (step.hasForm (hasForm_memberSlot form found))
  | undeclared key missing whole legal complete =>
      unfold keepUnknown
      split
      · exact form
      · exact form

/-- The part that a record takes is the record that stands in front of the bytes. -/
theorem RecordStep.passed (step : RecordStep s embed t m bytes rest m') (form : m.HasForm t)
    : passRecord 0 bytes = .ok rest := by
  cases step with
  | undeclared key missing whole legal complete =>
      rw [whole]
      exact passRecord_append complete rest
  | declared key found step =>
      obtain ⟨-, -, own⟩ := mem_of_memberSlot? found
      exact passRecord_of_passValue key
        (step.passes_of_hasForm (hasForm_memberSlot form found) own)

-----------------------------------------------------------------------------------------
-- Two records of different members
-----------------------------------------------------------------------------------------

/-- The field numbers belong to no member in common. -/
def MessageType.Apart (t : MessageType) (x y : Nat) : Prop :=
  ∀ member ∈ t.members, ¬(member.hasTag x ∧ member.hasTag y)

/-- A record changes no slot but that of its member, by induction on the members. -/
theorem memberSlot?_replaceSlot {x y : Nat} {members : List Member} {slots : List Slot}
    (apart : ∀ member ∈ members, ¬(member.hasTag x ∧ member.hasTag y))
    : memberSlot? y members (replaceSlot x new members slots) = memberSlot? y members slots := by
  induction members generalizing slots with
  | nil => rfl
  | cons m members ih =>
      obtain ⟨first, others⟩ := List.forall_mem_cons.mp apart
      cases slots with
      | nil => rfl
      | cons slot slots =>
          simp only [replaceSlot]
          split
          · rename_i own
            have foreign : m.hasTag y = false := by simpa [own] using first
            simp only [memberSlot?, foreign, Bool.false_eq_true, if_false]
          · simp only [memberSlot?, ih others]

theorem replaceSlot_comm {x y : Nat} {members : List Member} {slots : List Slot} {other : Slot}
    (apart : ∀ member ∈ members, ¬(member.hasTag x ∧ member.hasTag y))
    : replaceSlot y other members (replaceSlot x new members slots)
        = replaceSlot x new members (replaceSlot y other members slots) := by
  induction members generalizing slots with
  | nil => rfl
  | cons m members ih =>
      obtain ⟨first, others⟩ := List.forall_mem_cons.mp apart
      cases slots with
      | nil => rfl
      | cons slot slots =>
          by_cases own : m.hasTag x = true
          · have foreign : m.hasTag y = false := by simpa [own] using first
            simp only [replaceSlot, own, foreign, if_true, Bool.false_eq_true, if_false]
          · by_cases own' : m.hasTag y = true
            · simp only [replaceSlot, own, own', if_true, Bool.false_eq_true, if_false]
            · simp only [replaceSlot, own, own', Bool.false_eq_true, if_false, ih others]

/-- A message with a slot for every member has one for each field that its type declares. -/
theorem Message.HasForm.declared (form : m.HasForm t)
    (missing : memberSlot? tag t.members m.slots = none)
    : t.declares tag = false := by
  unfold Message.HasForm at form
  unfold MessageType.declares
  generalize t.members = members at form missing ⊢
  generalize m.slots = slots at form missing
  induction form with
  | nil => rfl
  | cons first others ih =>
      simp only [memberSlot?] at missing
      split at missing
      · cases missing
      · rename_i foreign
        simp only [List.any_cons, Bool.eq_false_iff.mpr foreign, ih missing, Bool.or_false]

/-- What a record comes to: a new slot for its member, or bytes that are kept. -/
inductive Effect where
  | replaced (new : Slot)
  | kept (record : List UInt8)

namespace Effect

def apply (t : MessageType) (tag : Nat) : Effect → Message → Message
  | .replaced new, m => ⟨replaceSlot tag new t.members m.slots, m.unknown⟩
  | .kept record, m => keepUnknown t m record

/-- A record leaves the members of other field numbers alone. -/
theorem memberSlot?_apply {x y : Nat} (apart : t.Apart x y) (effect : Effect)
    : memberSlot? y t.members (effect.apply t x m).slots = memberSlot? y t.members m.slots := by
  cases effect with
  | replaced new => exact memberSlot?_replaceSlot apart
  | kept record =>
      simp only [apply, keepUnknown]
      split <;> rfl

/-- Effects on different members commute, unless both keep bytes. -/
theorem apply_comm {x y : Nat} (apart : t.Apart x y) {new : Slot} {a b : Effect}
    (replaces : a = .replaced new ∨ b = .replaced new)
    : b.apply t y (a.apply t x m) = a.apply t x (b.apply t y m) := by
  cases a with
  | replaced first =>
      cases b with
      | replaced second =>
          simp only [apply, replaceSlot_comm apart]
      | kept record =>
          simp only [apply, keepUnknown]
          split <;> rfl
  | kept record =>
      cases b with
      | replaced second =>
          simp only [apply, keepUnknown]
          split <;> rfl
      | kept other => rcases replaces with kept | kept <;> cases kept

end Effect

/-- The record does the same to every message that holds the same in the slot of its member,
whatever bytes stand behind it.
-/
theorem RecordStep.movable (step : RecordStep s embed t m bytes rest m') (form : m.HasForm t)
    (key : Decoder.key bytes = .ok (tag, wire) payload)
    : ∃ (part : List UInt8) (effect : Effect), bytes = part ++ rest
        ∧ m' = effect.apply t tag m
        ∧ (t.declares tag → ∃ new, effect = .replaced new)
        ∧ ∀ (n : Message) (more : List UInt8),
            memberSlot? tag t.members n.slots = memberSlot? tag t.members m.slots
            → RecordStep s embed t n (part ++ more) more (effect.apply t tag n) := by
  cases step with
  | @declared _ _ _ _ _ new ownKey found step =>
      cases key.symm.trans ownKey
      obtain ⟨front, rfl, alone⟩ := Decoder.splits_key _ _ _ ownKey
      obtain ⟨part, rfl, behind⟩ := step.split
      refine ⟨front ++ part, .replaced new, (List.append_assoc _ _ _).symm, rfl,
        fun _ => ⟨new, rfl⟩, fun n more same => ?_⟩
      rw [List.append_assoc]
      exact .declared (alone _) (same.trans found) (behind more)
  | @undeclared _ _ _ record _ ownKey missing whole legal complete =>
      cases key.symm.trans ownKey
      refine ⟨record, .kept record, whole, rfl, fun declared => ?_, fun n more same => ?_⟩
      · cases declared.symm.trans (form.declared missing)
      · exact .undeclared (Decoder.local_key _ _ _ legal more) (same.trans missing) rfl legal
          complete

/-- Two records one after the other can change places: the second does not see what the first has
done, and what they do commutes.
-/
theorem RecordStep.exchange {x y : Nat} {wx wy : WireType} {m₁ m₂ : Message}
    {a b behind px py : List UInt8} (apart : t.Apart x y)
    (declared : t.declares x ∨ t.declares y) (form : m.HasForm t)
    (first : RecordStep s embed t m (a ++ (b ++ behind)) (b ++ behind) m₁)
    (second : RecordStep s embed t m₁ (b ++ behind) behind m₂)
    (firstKey : Decoder.key (a ++ (b ++ behind)) = .ok (x, wx) px)
    (secondKey : Decoder.key (b ++ behind) = .ok (y, wy) py)
    : ∃ n, RecordStep s embed t m (b ++ (a ++ behind)) (a ++ behind) n
        ∧ RecordStep s embed t n (a ++ behind) behind m₂ := by
  obtain ⟨part, ea, whole, rfl, replacesFirst, moveFirst⟩ := first.movable form firstKey
  cases List.append_cancel_right whole
  obtain ⟨part, eb, whole, rfl, replacesSecond, moveSecond⟩ :=
    second.movable (first.hasForm form) secondKey
  cases List.append_cancel_right whole
  have swapped : t.Apart y x := fun member listed both => apart member listed both.symm
  have replaces : ∃ new, ea = .replaced new ∨ eb = .replaced new := by
    rcases declared with known | known
    · obtain ⟨new, same⟩ := replacesFirst known
      exact ⟨new, .inl same⟩
    · obtain ⟨new, same⟩ := replacesSecond known
      exact ⟨new, .inr same⟩
  obtain ⟨new, replaces⟩ := replaces
  refine ⟨eb.apply t y m, moveSecond m _ (Effect.memberSlot?_apply apart ea).symm, ?_⟩
  rw [Effect.apply_comm apart replaces]
  exact moveFirst _ _ (Effect.memberSlot?_apply swapped eb)

-----------------------------------------------------------------------------------------
-- Records of a byte string
-----------------------------------------------------------------------------------------

theorem Wire.split_of_records {r : Record} {rs : List Record}
    (h : records bytes = .ok (r :: rs))
    : ∃ rest, splitRecord bytes = .ok (r, rest) ∧ records rest = .ok rs := by
  cases bytes with
  | nil => simp [records] at h
  | cons b tail =>
      rw [records] at h
      split at h
      · cases h
      · rename_i record rest first
        cases behind : records rest with
        | error e => simp [behind, Except.map] at h
        | ok others =>
            simp only [behind, Except.map, Except.ok.injEq, List.cons.injEq] at h
            obtain ⟨rfl, rfl⟩ := h
            exact ⟨rest, first, behind⟩

/-- The records are the bytes that they were split from, by induction on the records. -/
theorem Wire.bytes_of_records {rs : List Record} (h : records bytes = .ok rs)
    : rs.flatMap (·.bytes) = bytes := by
  induction rs generalizing bytes with
  | nil =>
      cases bytes with
      | nil => rfl
      | cons b tail =>
          rw [records] at h
          split at h
          · cases h
          · rename_i record rest first
            cases behind : records rest <;> simp [behind, Except.map] at h
  | cons r rs ih =>
      obtain ⟨rest, first, behind⟩ := split_of_records h
      obtain ⟨-, -, -, -, whole⟩ := splitRecord_eq first
      rw [List.flatMap_cons, ih behind, ← whole]

/-- A step in front of bytes that merge is a merge of all of them. -/
theorem RecordStep.mergeRecords (form : t.form ≠ .filler)
    (step : RecordStep s embed t m bytes rest m')
    : mergeRecords s embed t m bytes = mergeRecords s embed t m' rest := by
  have merged := step.merge form
  have written : bytes ≠ [] := by
    rintro rfl
    cases step with
    | declared key => cases Decoder.key_nil.symm.trans key
    | undeclared key => cases Decoder.key_nil.symm.trans key
  rw [mergeRecords_of_success written (by rw [merged]), merged]

/-- Merging bytes is merging their first record and then the others. -/
theorem recordStep_of_records (form : t.form ≠ .filler) (typed : m.HasForm t) {r : Record}
    {rs : List Record} (split : records bytes = .ok (r :: rs))
    (accepted : mergeRecords s embed t m bytes = (m', none))
    : ∃ wire payload rest n, bytes = r.bytes ++ rest ∧ records rest = .ok rs
        ∧ Decoder.key bytes = .ok (r.tag, wire) payload
        ∧ RecordStep s embed t m bytes rest n
        ∧ mergeRecords s embed t n rest = (m', none) := by
  obtain ⟨rest, first, behind⟩ := split_of_records split
  obtain ⟨wire, payload, key, passed, whole⟩ := splitRecord_eq first
  have written : bytes ≠ [] := by
    rintro rfl
    exact absurd (length_of_splitRecord first) (Nat.not_lt_zero _)
  cases success : (mergeRecord s embed t m bytes).failure with
  | some e =>
      rw [mergeRecords_of_failure written success] at accepted
      cases accepted
  | none =>
      have step := recordStep_of_success form success
      cases passed.symm.trans (step.passed typed)
      rw [mergeRecords_of_success written success] at accepted
      exact ⟨wire, payload, _, _, whole, behind, key, step, accepted⟩

/-- Two records among others can change places, by induction on the records in front of them. -/
theorem mergeRecords_swap (form : t.form ≠ .filler) (typed : m.HasForm t)
    {front behind : List Record} {a b : Record}
    (split : records bytes = .ok (front ++ a :: b :: behind))
    (accepted : mergeRecords s embed t m bytes = (m', none)) (apart : t.Apart a.tag b.tag)
    (declared : t.declares a.tag ∨ t.declares b.tag)
    : mergeRecords s embed t m ((front ++ b :: a :: behind).flatMap (·.bytes))
        = (m', none) := by
  induction front generalizing m bytes with
  | nil =>
      obtain ⟨_, _, rest, m₁, whole, others, firstKey, first, remaining⟩ :=
        recordStep_of_records form typed split accepted
      obtain ⟨_, _, rest', m₂, whole', others', secondKey, second, last⟩ :=
        recordStep_of_records form (first.hasForm typed) others remaining
      subst whole'
      subst whole
      obtain ⟨n, earlier, later⟩ :=
        RecordStep.exchange apart declared typed first second firstKey secondKey
      have tail := bytes_of_records others'
      simp only [List.nil_append, List.flatMap_cons, tail]
      rw [earlier.mergeRecords form, later.mergeRecords form, last]
  | cons r front ih =>
      obtain ⟨_, _, rest, n, whole, others, _, step, accepted⟩ :=
        recordStep_of_records form typed split accepted
      obtain ⟨part, same, alone⟩ := step.apart
      cases List.append_cancel_right (whole.symm.trans same)
      rw [List.cons_append, List.flatMap_cons, (alone _).mergeRecords form]
      exact ih (step.hasForm typed) others accepted

/-- Both field numbers are alternatives of one oneof. -/
def MessageType.exclusive (t : MessageType) (x y : Nat) : Bool :=
  t.members.any fun m => (m.alternative? x).isSome && (m.alternative? y).isSome

/-- A member has one field number unless it is a oneof. -/
theorem MessageType.apart_of_ne {x y : Nat} (different : x ≠ y)
    (exclusive : t.exclusive x y = false)
    : t.Apart x y := by
  intro member listed ⟨ownFirst, ownSecond⟩
  cases shape : member.shape with
  | single _ | optional _ | repeated _ _ _ | map _ _ =>
      simp only [Member.hasTag, shape, beq_iff_eq] at ownFirst ownSecond
      exact different (ownFirst.symm.trans ownSecond)
  | oneof alternatives =>
      obtain ⟨a, first⟩ := Member.alternative_of_hasTag shape ownFirst
      obtain ⟨b, second⟩ := Member.alternative_of_hasTag shape ownSecond
      have both := List.any_eq_false.mp exclusive member listed
      simp [first, second] at both

namespace Schema

/-- Bytes that are accepted are accepted in another order of their records, and give the same
message: two records that stand next to each other can change places if they have different field
numbers, are not alternatives of one oneof and one of them is declared.
-/
theorem merge_swap {front behind : List Record} {a b : Record} (form : t.form ≠ .filler)
    (typed : m.Typed s t) (split : records bytes = .ok (front ++ a :: b :: behind))
    (accepted : s.merge t m bytes = (m', none)) (different : a.tag ≠ b.tag)
    (exclusive : t.exclusive a.tag b.tag = false)
    (declared : t.declares a.tag ∨ t.declares b.tag)
    : s.merge t m ((front ++ b :: a :: behind).flatMap (·.bytes)) = (m', none) :=
  mergeRecords_swap form typed.hasForm split accepted
    (MessageType.apart_of_ne different exclusive) declared

/-- An undeclared group in front of an object, between two packed records. -/
theorem merge_swap_reading
    : let s := WellKnown.schemaWith [readingType]
      let m : Message := ⟨[.one (.scalar (.double 1)), .many [.scalar (.int32 7)], .none], [0xff]⟩
      let group : Record := ⟨16, [0x83, 1, 8, 5, 0x84, 1]⟩
      let note : Record := ⟨3, [0x1a, 4, 0x1a, 2, 0x68, 0x69]⟩
      let before : Record := ⟨2, [0x12, 1, 2]⟩
      let after : Record := ⟨2, [0x12, 1, 4]⟩
      let merged := s.merge readingType m
        (before.bytes ++ group.bytes ++ note.bytes ++ after.bytes)
      merged.2 = none ∧ merged.1.unknown = 0xff :: group.bytes
      ∧ s.merge readingType m (before.bytes ++ note.bytes ++ group.bytes ++ after.bytes)
          = merged := by
  intro s m group note before after merged
  have typed : m.Typed s readingType := ⟨⟨rfl, ⟨rfl, trivial⟩, trivial, rfl⟩, .nil⟩
  have split : records (before.bytes ++ group.bytes ++ note.bytes ++ after.bytes)
      = .ok ([before] ++ group :: note :: [after]) := by
    decide +kernel
  have facts : merged.2 = none ∧ merged.1.unknown = 0xff :: group.bytes := by decide +kernel
  obtain ⟨success, kept⟩ := facts
  refine ⟨success, kept, ?_⟩
  rw [show merged = (merged.1, none) from Prod.ext rfl success]
  exact merge_swap (by decide) typed split (Prod.ext rfl success) (by decide) (by decide)
    (by decide)

end Schema

end Protobuf
