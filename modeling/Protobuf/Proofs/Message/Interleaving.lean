import Protobuf.Proofs.Message.Exchange

/-! Records of one member among records of other fields.  What the member comes to hold depends on
its own records in their order and on nothing else, and what the message holds besides depends on
the others.
-/

namespace Protobuf

open Wire

variable {s : Schema} {embed : Option Embed} {t : MessageType} {m m' : Message} {member : Member}
  {tag : Nat} {slot new : Slot} {bytes : List UInt8} {e : DecodeError}

-----------------------------------------------------------------------------------------
-- The slot of a member
-----------------------------------------------------------------------------------------

theorem memberSlot?_replaceSlot_self {members : List Member} {slots : List Slot}
    (found : memberSlot? tag members slots = some (member, slot))
    : memberSlot? tag members (replaceSlot tag new members slots) = some (member, new) := by
  induction members generalizing slots with
  | nil => simp [memberSlot?] at found
  | cons first members ih =>
      cases slots with
      | nil => simp [memberSlot?] at found
      | cons held slots =>
          simp only [memberSlot?, replaceSlot] at found ⊢
          split at found
          · rename_i own
            cases found
            simp only [own, if_true, memberSlot?]
          · rename_i foreign
            simp only [if_neg foreign, memberSlot?, ih found]

theorem replaceSlot_replaceSlot (old : Slot) (members : List Member) (slots : List Slot)
    : replaceSlot tag new members (replaceSlot tag old members slots)
        = replaceSlot tag new members slots := by
  induction members generalizing slots with
  | nil => rfl
  | cons first members ih =>
      cases slots with
      | nil => rfl
      | cons held slots =>
          simp only [replaceSlot]
          split
          · rename_i own
            simp only [replaceSlot, own, if_true]
          · rename_i foreign
            simp only [replaceSlot, if_neg foreign, ih]

namespace Message

/-- The message with another slot for the member of the field number. -/
def withSlot (t : MessageType) (tag : Nat) (m : Message) (new : Slot) : Message :=
  (Effect.replaced new).apply t tag m

theorem withSlot_self (found : memberSlot? tag t.members m.slots = some (member, slot))
    : m.withSlot t tag slot = m := by
  obtain ⟨slots, unknown⟩ := m
  rw [withSlot, Effect.apply, replaceSlot_self found]

theorem withSlot_withSlot (old : Slot)
    : (m.withSlot t tag old).withSlot t tag new = m.withSlot t tag new := by
  simp only [withSlot, Effect.apply, replaceSlot_replaceSlot]

theorem memberSlot?_withSlot (found : memberSlot? tag t.members m.slots = some (member, slot))
    : memberSlot? tag t.members (m.withSlot t tag new).slots = some (member, new) :=
  memberSlot?_replaceSlot_self found

end Message

/-- Bytes that a member absorbs change its slot in any message of the type. -/
theorem Absorbs.merge (h : Absorbs s embed t member bytes slot new)
    (found : memberSlot? tag t.members m.slots = some (member, slot))
    : mergeRecords s embed t m bytes = (m.withSlot t tag new, none) := by
  obtain ⟨slots, unknown⟩ := m
  obtain ⟨before, behind, done, rest, members, rfl, place, replaced⟩ := memberSlot?_split found
  rw [Message.withSlot, Effect.apply, replaced]
  exact h before behind done rest unknown members place

theorem Fails.merge (h : Fails s embed t member e bytes slot)
    (found : memberSlot? tag t.members m.slots = some (member, slot)) (more : List UInt8)
    : (mergeRecords s embed t m (bytes ++ more)).2 = some e := by
  obtain ⟨slots, unknown⟩ := m
  obtain ⟨before, behind, done, rest, members, rfl, place, -⟩ := memberSlot?_split found
  exact h before behind done rest unknown more members place

-----------------------------------------------------------------------------------------
-- Records among others
-----------------------------------------------------------------------------------------

variable {α β : Type}

/-- Bytes in which what is written for a member stands among records of other fields. -/
def interleaved (write : α → List UInt8) (parts : List (α ⊕ Record)) : List UInt8 :=
  parts.flatMap (Sum.elim write Record.bytes)

/-- The parts of the member, in their order. -/
def ownParts (parts : List (α ⊕ Record)) : List α :=
  parts.filterMap Sum.getLeft?

/-- The records of other fields, in their order. -/
def otherRecords (parts : List (α ⊕ Record)) : List Record :=
  parts.filterMap Sum.getRight?

/-- A whole record with a field number that is not one of the member. -/
structure Wire.Record.Foreign (member : Member) (r : Record) : Prop where
  other : member.hasTag r.tag = false
  whole : splitRecord r.bytes = .ok (r, [])

/-- A whole record is split from whatever stands behind it. -/
theorem Wire.splitRecord_append {r : Record} (whole : splitRecord r.bytes = .ok (r, []))
    (more : List UInt8)
    : splitRecord (r.bytes ++ more) = .ok (r, more) := by
  obtain ⟨wire, payload, key, passed, -⟩ := splitRecord_eq whole
  exact splitRecord_of_pass (Decoder.local_key _ _ _ key more) (passRecord_append passed more)

theorem Wire.records_of_whole {rs : List Record}
    (whole : ∀ r ∈ rs, splitRecord r.bytes = .ok (r, []))
    : records (rs.flatMap (·.bytes)) = .ok rs := by
  induction rs with
  | nil => simp [records]
  | cons r rs ih =>
      obtain ⟨first, others⟩ := List.forall_mem_cons.mp whole
      exact records_of_split (splitRecord_append first _) (ih others)

theorem MessageType.Lawful.apart_of_foreign (lawful : t.Lawful) (own : member.hasTag tag)
    (listed : member ∈ t.members) {r : Record} (foreign : r.Foreign member)
    : t.Apart r.tag tag := by
  intro other present ⟨first, second⟩
  obtain ⟨before, behind, members⟩ := List.append_of_mem listed
  have distinct := lawful.distinct
  simp only [MessageType.tags, members, List.flatMap_append, List.flatMap_cons] at distinct
  have ownTag := (member.hasTag_iff tag).mp own
  have otherTag := (other.hasTag_iff tag).mp second
  rw [members] at present
  rcases List.mem_append.mp present with earlier | later
  · have apart := (List.nodup_append.mp distinct).2.2
    exact apart tag (List.mem_flatMap.mpr ⟨other, earlier, otherTag⟩) tag
      (List.mem_append_left _ ownTag) rfl
  · rcases List.mem_cons.mp later with rfl | later
    · exact absurd first (by simp [foreign.other])
    · have apart := (List.nodup_append.mp (List.nodup_append.mp distinct).2.1).2.2
      exact apart tag ownTag tag (List.mem_flatMap.mpr ⟨other, later, otherTag⟩) rfl

/-- A record of another field does the same whatever the member holds. -/
theorem RecordStep.withSlot (lawful : t.Lawful) (form : m.HasForm t)
    (found : memberSlot? tag t.members m.slots = some (member, slot)) {r : Record}
    (foreign : r.Foreign member) {wire : WireType} {payload rest : List UInt8}
    (key : Decoder.key (r.bytes ++ rest) = .ok (r.tag, wire) payload)
    (step : RecordStep s embed t m (r.bytes ++ rest) rest m')
    : memberSlot? tag t.members m'.slots = some (member, slot)
      ∧ ∀ new more, RecordStep s embed t (m.withSlot t tag new) (r.bytes ++ more) more
          (m'.withSlot t tag new) := by
  obtain ⟨listed, -, own⟩ := mem_of_memberSlot? found
  have apart := lawful.apart_of_foreign own listed foreign
  have swapped : t.Apart tag r.tag := fun other present both => apart other present both.symm
  obtain ⟨part, effect, same, rfl, -, moved⟩ := step.movable form key
  cases List.append_cancel_right same
  refine ⟨(Effect.memberSlot?_apply apart effect).trans found, fun new more => ?_⟩
  have untouched := Effect.memberSlot?_apply (m := m) swapped (.replaced new)
  have commuted := Effect.apply_comm (m := m) swapped (a := .replaced new) (b := effect)
    (.inl rfl)
  have behind := moved _ more untouched
  rwa [commuted] at behind

-----------------------------------------------------------------------------------------
-- A member among others
-----------------------------------------------------------------------------------------

/-- What is written for a member is read in steps: each changes what the slot stands for, or fails.
-/
structure ReadsInto (s : Schema) (embed : Option Embed) (t : MessageType) (member : Member)
    (write : α → List UInt8) (view : β → Slot) (step : β → α → Except DecodeError β)
    : Prop where
  absorbs {b b' : β} {a : α} : step b a = .ok b'
    → Absorbs s embed t member (write a) (view b) (view b')
  fails {b : β} {a : α} {e : DecodeError} : step b a = .error e
    → Fails s embed t member e (write a) (view b)

variable {write : α → List UInt8} {view : β → Slot} {step : β → α → Except DecodeError β}

/-- Where the other records merge, the member holds in the end what its own records lead to, or the
first of them that fails says why; by induction on the parts.  The message on the way is the one
that the other records alone lead to, apart from the slot of the member.
-/
theorem ReadsInto.merge_withSlot (reads : ReadsInto s embed t member write view step)
    (lawful : t.Lawful) (form : m.HasForm t)
    (found : memberSlot? tag t.members m.slots = some (member, slot))
    {parts : List (α ⊕ Record)} (foreign : ∀ r ∈ otherRecords parts, r.Foreign member)
    (others : mergeRecords s embed t m ((otherRecords parts).flatMap (·.bytes)) = (m', none))
    (b : β)
    : memberSlot? tag t.members m'.slots = some (member, slot)
      ∧ match (ownParts parts).foldlM step b with
        | .ok b' =>
            mergeRecords s embed t (m.withSlot t tag (view b)) (interleaved write parts)
              = (m'.withSlot t tag (view b'), none)
        | .error e => ∀ more,
            (mergeRecords s embed t (m.withSlot t tag (view b))
              (interleaved write parts ++ more)).2 = some e := by
  induction parts generalizing m b with
  | nil =>
      cases (mergeRecords_nil s embed t m).symm.trans others
      exact ⟨found, mergeRecords_nil _ _ _ _⟩
  | cons part parts ih =>
      have held : memberSlot? tag t.members (m.withSlot t tag (view b)).slots
        = some (member, view b) :=
        Message.memberSlot?_withSlot found
      cases part with
      | inl a =>
          have written : interleaved write (.inl a :: parts)
              = write a ++ interleaved write parts := rfl
          have own : ownParts (.inl a :: parts) = a :: ownParts parts := rfl
          rw [written, own, List.foldlM_cons]
          cases next : step b a with
          | error e =>
              refine ⟨(ih form found foreign others b).1, fun more => ?_⟩
              rw [List.append_assoc]
              exact (reads.fails next).merge held _
          | ok b' =>
              have absorbed := (reads.absorbs next).merge held
              rw [Message.withSlot_withSlot] at absorbed
              simp only [List.append_assoc, mergeRecords_append absorbed]
              exact ih form found foreign others b'
      | inr r =>
          have written : interleaved write (.inr r :: parts)
              = r.bytes ++ interleaved write parts := rfl
          have own : ownParts (.inr r :: parts) = ownParts parts := rfl
          obtain ⟨first, behind⟩ := List.forall_mem_cons.mp foreign
          have split := records_of_whole fun r member => (foreign r member).whole
          obtain ⟨wire, payload, rest, n, whole, -, key, step, accepted⟩ :=
            recordStep_of_records lawful.form form split others
          have tail : (otherRecords parts).flatMap (·.bytes) = rest :=
            List.append_cancel_left whole
          rw [whole] at key step
          obtain ⟨found', moved⟩ := step.withSlot lawful form found first key
          have next (more : List UInt8) := (moved (view b) more).mergeRecords lawful.form
          simp only [written, own, List.append_assoc, next]
          exact ih (step.hasForm form) found' behind (tail ▸ accepted) b

/-- The same from a message whose member holds what the steps begin with. -/
theorem ReadsInto.merge (reads : ReadsInto s embed t member write view step)
    (lawful : t.Lawful) (form : m.HasForm t) {b : β}
    (found : memberSlot? tag t.members m.slots = some (member, view b))
    {parts : List (α ⊕ Record)} (foreign : ∀ r ∈ otherRecords parts, r.Foreign member)
    (others : mergeRecords s embed t m ((otherRecords parts).flatMap (·.bytes)) = (m', none))
    : memberSlot? tag t.members m'.slots = some (member, view b)
      ∧ match (ownParts parts).foldlM step b with
        | .ok b' =>
            mergeRecords s embed t m (interleaved write parts)
              = (m'.withSlot t tag (view b'), none)
        | .error e => ∀ more,
            (mergeRecords s embed t m (interleaved write parts ++ more)).2 = some e := by
  have merged := reads.merge_withSlot lawful form found foreign others b
  rwa [Message.withSlot_self found] at merged

end Protobuf
