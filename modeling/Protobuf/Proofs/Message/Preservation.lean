import Protobuf.Proofs.Message.Soundness

/-! Merging keeps messages sound: one that is of its type and within its capacities stays so,
whatever bytes are merged into it without an error.
-/

namespace Protobuf

open Wire

variable {s : Schema} {embed : Option Embed} {t : MessageType} {m m' : Message} {tag : Nat}
  {wire : WireType} {member : Member} {slot new : Slot} {bytes payload rest : List UInt8}

-----------------------------------------------------------------------------------------
-- Slots
-----------------------------------------------------------------------------------------

/-- The target is one of a sound slot: it has the wire type of the record, and what is read into it
can be put into the slot.
-/
def Target.Suits (s : Schema) (member : Member) (tag : Nat) (wire : WireType) (slot : Slot)
    : Target → Prop
  | .scalar type _ =>
      wire = type.wireType
      ∧ ∀ v new, v.hasType type → slot.put member tag (.scalar v) none = (new, none)
        → new.Sound s member
  | .message t current =>
      wire = .lengthDelimited ∧ t.Lawful ∧ current.Sound s t
      ∧ ∀ n new, n.Sound s t → slot.put member tag (.message n) none = (new, none)
        → new.Sound s member
  | .run type capacity values =>
      wire = .lengthDelimited
      ∧ ∀ added all, (∀ v ∈ added, v.Sound s (.scalar type))
        → appendValues capacity values added = (all, none) → (Slot.many all).Sound s member
  | .refused _ => True
  | .nothing => False

/-- A value that the slot takes makes a target that suits the slot. -/
theorem suits_target (h : s.Lawful) {own : Nat} {type : ValueType} {current : Value}
    (sound : current.Sound s type)
    (put : ∀ v new, v.Sound s type → slot.put member tag v none = (new, none)
      → new.Sound s member)
    : (s.target own wire type current).Suits s member tag wire slot := by
  unfold Schema.target
  split
  · rename_i expected
    cases type with
    | scalar type =>
        cases current with
        | scalar u => exact ⟨expected, fun v new typed => put (.scalar v) new ⟨typed, trivial⟩⟩
        | message n => exact sound.1
    | message name =>
        cases current with
        | scalar u => exact sound.1
        | message c => exact ⟨expected, h.type name, sound, fun n new => put (.message n) new⟩
  · trivial

theorem Member.alternative_of_hasTag {member : Member} {tag : Nat}
    {alternatives : List Alternative} (shape : member.shape = .oneof alternatives)
    (own : member.hasTag tag)
    : ∃ a, member.alternative? tag = some a := by
  simp only [hasTag, shape, List.any_eq_true] at own
  obtain ⟨a, listed, same⟩ := own
  simp only [alternative?, shape]
  exact Option.isSome_iff_exists.mp (List.find?_isSome.mpr ⟨a, listed, same⟩)

/-- The target of a record in a sound slot suits it, by cases on the shape of the member. -/
theorem suits_of_sound (h : s.Lawful) (lawful : member.shape.isLawful)
    (old : slot.Sound s member) (own : member.hasTag tag) (wire : WireType)
    : (slot.target s member tag wire).Suits s member tag wire slot := by
  cases shape : member.shape with
  | single type =>
      obtain ⟨v, rfl, -⟩ := old.1.of_single shape
      have sound := (sound_one_iff (.inl shape)).mp old
      simp only [Slot.target, shape]
      exact suits_target h sound fun v new => sound_put_one (.inl shape)
  | optional type =>
      rcases old.1.of_optional shape with rfl | ⟨v, rfl, -⟩
      · simp only [Slot.target, shape]
        exact suits_target h (h.sound_emptyValue type) fun v new => sound_put_one (.inr shape)
      · have sound := (sound_one_iff (.inr shape)).mp old
        simp only [Slot.target, shape]
        exact suits_target h sound fun v new => sound_put_one (.inr shape)
  | repeated type packed capacity =>
      obtain ⟨vs, rfl, -⟩ := old.1.of_repeated shape
      have element (type' : ValueType) (same : type' = type)
          : (s.target tag wire type' (s.emptyValue type')).Suits s member tag wire (.many vs) := by
        subst same
        exact suits_target h (h.sound_emptyValue _) fun v new => sound_put_many shape old
      cases type with
      | message name =>
          simp only [Slot.target, shape]
          exact element _ rfl
      | scalar type =>
          simp only [Slot.target, shape]
          split
          · rename_i run
            obtain ⟨room, sound⟩ := (sound_many_iff shape).mp old
            refine ⟨run.1, fun added all scalars appended => (sound_many_iff shape).mpr ?_⟩
            obtain ⟨rfl, within⟩ := appendValues_success appended
            exact ⟨within room, List.forall_mem_append.mpr ⟨sound, scalars⟩⟩
          · exact element _ rfl
  | map key value =>
      obtain ⟨es, rfl, -⟩ := old.1.of_map shape
      rw [shape] at lawful
      simp only [Slot.target, shape]
      split
      · rename_i delimited
        exact ⟨delimited, MessageType.lawful_entry key value, h.sound_emptyEntry key value,
          fun n new => sound_put_entry lawful shape old⟩
      · trivial
  | oneof alternatives =>
      obtain ⟨a, found⟩ := Member.alternative_of_hasTag shape own
      obtain ⟨rfl, -⟩ := Member.tag_of_alternative found
      have sound : (slot.alternative s a).Sound s a.type := by
        rcases old.1.of_oneof shape with rfl | ⟨earlier, v, b, rfl, known, sound⟩
        · exact h.sound_emptyValue a.type
        · simp only [Slot.alternative]
          split
          · rename_i same
            subst same
            cases found.symm.trans known
            have fits := old.2
            simp only [Slot.Fits, found] at fits
            exact ⟨sound, fits⟩
          · exact h.sound_emptyValue a.type
      simp only [Slot.target, shape, found]
      refine suits_target h sound fun v new sound put => ?_
      simp only [Slot.put, shape, Option.isNone_none, Bool.true_or, if_true, Prod.mk.injEq,
        and_true] at put
      subst put
      simpa only [Slot.Sound, Slot.Conforms, Slot.Fits, found, Value.Sound] using sound

/-- A record that merges without an error ends behind the value of its wire type. -/
theorem SlotStep.passes (step : SlotStep s embed member tag wire slot payload rest new)
    (suits : (slot.target s member tag wire).Suits s member tag wire slot)
    : passValue wire.code 0 payload = .ok (0, rest) := by
  cases step with
  | scalar target read put =>
      rw [target] at suits
      rw [suits.1]
      exact passes_readScalar _ _ _ _ read
  | message target within read inner put =>
      rw [target] at suits
      rw [suits.1]
      exact Decoder.passes_lengthDelimited _ _ _ read
  | run target read packed appended =>
      rw [target] at suits
      rw [suits.1]
      exact Decoder.passes_lengthDelimited _ _ _ read
  | nothing target unread =>
      rw [target] at suits
      exact suits.elim

/-- Inner messages stay sound when they are merged. -/
def Embed.KeepsSound (s : Schema) (merge : Embed) : Prop :=
  ∀ t m data m', t.Lawful → m.Sound s t → merge t m data = (m', none) → m'.Sound s t

theorem SlotStep.sound (step : SlotStep s embed member tag wire slot payload rest new)
    (suits : (slot.target s member tag wire).Suits s member tag wire slot)
    (keeps : ∀ merge, embed = some merge → merge.KeepsSound s)
    : new.Sound s member := by
  cases step with
  | scalar target read put =>
      rw [target] at suits
      exact suits.2 _ _ (hasType_readScalar _ _ _ _ read) put
  | message target within read inner put =>
      rw [target] at suits
      obtain ⟨-, lawful, sound, place⟩ := suits
      exact place _ _ (keeps _ within _ _ _ _ lawful sound inner) put
  | run target read packed appended =>
      rw [target] at suits
      exact suits.2 _ _ (sound_readPacked packed) appended
  | nothing target unread =>
      rw [target] at suits
      exact suits.elim

-----------------------------------------------------------------------------------------
-- Messages
-----------------------------------------------------------------------------------------

/-- The target of a record of a declared field suits the slot of its member. -/
theorem Message.Sound.suits (sound : m.Sound s t) (h : s.Lawful) (lawful : t.Lawful)
    (found : memberSlot? tag t.members m.slots = some (member, slot)) (wire : WireType)
    : (slot.target s member tag wire).Suits s member tag wire slot := by
  obtain ⟨listed, -, own⟩ := mem_of_memberSlot? found
  exact suits_of_sound h (lawful.shapes _ listed) (sound_memberSlot sound.slots found) own wire

theorem RecordStep.sound (h : s.Lawful) (lawful : t.Lawful)
    (step : RecordStep s embed t m bytes rest m') (sound : m.Sound s t)
    (keeps : ∀ merge, embed = some merge → merge.KeepsSound s)
    : m'.Sound s t := by
  cases step with
  | undeclared key missing whole legal complete => exact sound.keepUnknown legal missing complete
  | declared key found step =>
      have changed := step.sound (sound.suits h lawful found _) keeps
      have both := slotsSound_iff.mpr (sound_replaceSlot sound.slots found changed)
      obtain ⟨slots, unknown⟩ := m
      exact ⟨⟨both.1, sound.1.2⟩, both.2⟩

/-- A record of a sound message that merges without an error ends where a reader that does not know
the type finds its end.
-/
theorem RecordStep.passes (h : s.Lawful) (lawful : t.Lawful)
    (step : RecordStep s embed t m bytes rest m') (sound : m.Sound s t)
    : passRecord 0 bytes = .ok rest := by
  cases step with
  | undeclared key missing whole legal complete =>
      rw [whole]
      exact passRecord_append complete rest
  | declared key found step =>
      exact passRecord_of_passValue key (step.passes (sound.suits h lawful found _))

theorem sound_mergeRecords (h : s.Lawful) (lawful : t.Lawful)
    (keeps : ∀ merge, embed = some merge → merge.KeepsSound s) (sound : m.Sound s t)
    (merged : mergeRecords s embed t m bytes = (m', none))
    : m'.Sound s t := by
  refine mergeRecords_induction (motive := fun m _ m' => m.Sound s t → m'.Sound s t)
    (fun _ => id) ?_ merged sound
  intro m bytes m' _ success others sound
  exact others ((recordStep_of_success lawful.form success).sound h lawful sound keeps)

/-- Embedded messages stay sound at every depth, by induction on the nesting budget. -/
theorem keepsSound_embedWithin (h : s.Lawful) (budget : Nat)
    : ∀ merge, embedWithin s budget = some merge → merge.KeepsSound s := by
  induction budget with
  | zero => exact nofun
  | succ budget ih =>
      intro merge within t m data m' lawful sound inner
      cases within
      exact sound_mergeRecords h lawful ih sound inner

namespace Schema

theorem Lawful.sound_merge (h : s.Lawful) (lawful : t.Lawful) (sound : m.Sound s t)
    (merged : s.merge t m bytes = (m', none))
    : m'.Sound s t :=
  sound_mergeRecords h lawful (keepsSound_embedWithin h recursionLimit) sound merged

theorem merge_of_decode {name : String} (h : s.decode name bytes = .ok m)
    : s.merge (s.type name) (s.empty name) bytes = (m, none) := by
  unfold decode at h
  split at h
  · rename_i merged
    cases h
    exact merged
  · cases h

theorem decode_of_merge {name : String}
    (h : s.merge (s.type name) (s.empty name) bytes = (m, none))
    : s.decode name bytes = .ok m := by
  rw [decode, h]

/-- A message that is decoded is of its type and within its capacities. -/
theorem Lawful.sound_decode (h : s.Lawful) {name : String} (accepted : s.decode name bytes = .ok m)
    : m.Sound s (s.type name) :=
  h.sound_merge (h.type name) (h.sound_empty name) (merge_of_decode accepted)

end Schema

end Protobuf
