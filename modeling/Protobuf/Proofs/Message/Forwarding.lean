import Protobuf.Proofs.Message.Refusal

/-! Encoding what was decoded.  A decoded message nests no deeper than its input, except for records
that its bytes hold and the input did not: the messages of members without presence, and the values
of map entries.
-/

namespace Protobuf

open Wire

variable {s : Schema} {embed : Option Embed} {t : MessageType} {m m' : Message} {k : Nat}

-----------------------------------------------------------------------------------------
-- Nesting of parts
-----------------------------------------------------------------------------------------

theorem elementsNesting_append (us vs : List Value)
    : elementsNesting (us ++ vs) = max (elementsNesting us) (elementsNesting vs) := by
  induction us with
  | nil => rw [List.nil_append, elementsNesting, Nat.zero_max]
  | cons u us ih => rw [List.cons_append, elementsNesting, elementsNesting, ih, Nat.max_assoc]

theorem entriesNesting_insertEntry_le (key : Scalar) (v : Value) (es : List Entry)
    : entriesNesting (insertEntry key v es) ≤ max (v.nesting + 1) (entriesNesting es) := by
  induction es with
  | nil => exact Nat.le_refl _
  | cons e es ih =>
      obtain ⟨other, u⟩ := e
      rw [insertEntry]
      split <;> simp only [entriesNesting] at ih ⊢ <;> omega

theorem slot_nesting_le {slots : List Slot} {slot : Slot} (h : slot ∈ slots)
    : slot.nesting ≤ slotsNesting slots := by
  induction h with
  | head slots => exact Nat.le_max_left _ _
  | tail first _ ih => exact Nat.le_trans ih (Nat.le_max_right _ _)

theorem slotsNesting_replaceSlot_le (tag : Nat) (new : Slot) (members : List Member)
    (slots : List Slot)
    : slotsNesting (replaceSlot tag new members slots)
        ≤ max new.nesting (slotsNesting slots) := by
  induction members generalizing slots with
  | nil => exact Nat.le_max_right _ _
  | cons m members ih =>
      cases slots with
      | nil => exact Nat.le_max_right _ _
      | cons slot slots =>
          have later := ih slots
          rw [replaceSlot]
          split <;> simp only [slotsNesting] <;> omega

theorem nesting_of_entryOfMessage? {n : Message} {e : Entry} (h : entryOfMessage? n = some e)
    : e.value.nesting ≤ n.nesting := by
  unfold entryOfMessage? at h
  split at h
  · cases h
    simp only [Message.nesting, slotsNesting, Slot.nesting]
    omega
  · cases h

/-- A slot that takes a value nests no deeper than both. -/
theorem nesting_put_le (member : Member) (tag : Nat) (slot : Slot) (v : Value)
    (failure : Option DecodeError)
    : (slot.put member tag v failure).1.nesting ≤ max slot.nesting v.nesting := by
  unfold Slot.put
  split
  · rename_i capacity vs shape
    split
    · exact Nat.le_max_left _ _
    · simp only [appendValue]
      split
      · simp only [Slot.nesting, elementsNesting_append, elementsNesting]
        omega
      · exact Nat.le_max_left _ _
  · rename_i es shape
    split
    · rename_i n
      split
      · rename_i e found
        have value := nesting_of_entryOfMessage? found
        have entries := entriesNesting_insertEntry_le e.key e.value es
        simp only [Slot.nesting, Value.nesting]
        omega
      · exact Nat.le_max_left _ _
    · exact Nat.le_max_left _ _
  · split
    · exact Nat.le_max_right _ _
    · exact Nat.le_max_left _ _
  · exact Nat.le_max_right _ _

-----------------------------------------------------------------------------------------
-- Nesting of what is merged
-----------------------------------------------------------------------------------------

/-- How deep an entry of the map nests before its value is read. -/
def Shape.entryNesting (s : Schema) : Shape → Nat
  | .map key value => (s.emptyEntry key value).nesting
  | _ => 0

def MessageType.EntriesWithin (s : Schema) (t : MessageType) (k : Nat) : Prop :=
  ∀ m ∈ t.members, m.shape.entryNesting s ≤ k

/-- No message and no entry nests deeper than the bound before anything is read into it. -/
structure Schema.StartsWithin (s : Schema) (k : Nat) : Prop where
  messages : ∀ t ∈ s.types, (s.empty t.name).nesting ≤ k
  entries : ∀ t ∈ s.types, t.EntriesWithin s k

instance (s : Schema) (k : Nat) : Decidable (s.StartsWithin k) :=
  decidable_of_iff
    ((∀ t ∈ s.types, (s.empty t.name).nesting ≤ k)
      ∧ ∀ t ∈ s.types, ∀ m ∈ t.members, m.shape.entryNesting s ≤ k)
    ⟨fun ⟨messages, entries⟩ => ⟨messages, entries⟩, fun ⟨messages, entries⟩ => ⟨messages, entries⟩⟩

theorem MessageType.entriesWithin_entry (s : Schema) (key : ScalarType) (value : ValueType)
    : (entry key value).EntriesWithin s k := by
  intro m member
  rcases List.mem_pair.mp member with rfl | rfl <;> exact Nat.zero_le _

/-- A type that is not in the schema has no members and so no message to start from. -/
theorem Schema.StartsWithin.type (starts : s.StartsWithin k) (h : s.Lawful) (name : String)
    : (s.empty name).nesting ≤ k ∧ (s.type name).EntriesWithin s k := by
  rcases s.type_cases name with ⟨before, behind, split, same, -⟩ | ⟨absent, -⟩
  · have member : s.type name ∈ s.types := by simp [split]
    have messages := starts.messages _ member
    rw [same] at messages
    exact ⟨messages, starts.entries _ member⟩
  · rw [h.empty_eq name, absent]
    exact ⟨Nat.zero_le _, fun m listed => absurd listed List.not_mem_nil⟩

theorem alternative_cases (slot : Slot) (a : Alternative)
    : (slot.alternative s a).nesting ≤ slot.nesting
        ∨ slot.alternative s a = s.emptyValue a.type := by
  unfold Slot.alternative
  split
  · split
    · exact .inl (Nat.le_refl _)
    · exact .inr rfl
  · exact .inr rfl

/-- What a record is merged into is a message inside the slot, or nests within the bound. -/
theorem nesting_target (h : s.Lawful) (starts : s.StartsWithin k) {member : Member}
    (entries : member.shape.entryNesting s ≤ k)
    {tag : Nat} {wire : WireType} {slot : Slot} {c : Message}
    (target : slot.target s member tag wire = .message t c)
    : t.form ≠ .filler ∧ t.EntriesWithin s k ∧ (c.nesting < slot.nesting ∨ c.nesting ≤ k) := by
  have value {own : Nat} {type : ValueType} {current : Value}
      (start : current.nesting ≤ slot.nesting ∨ current = s.emptyValue type)
      (found : s.target own wire type current = .message t c)
      : t.form ≠ .filler ∧ t.EntriesWithin s k ∧ (c.nesting < slot.nesting ∨ c.nesting ≤ k) := by
    obtain ⟨name, rfl, rfl, rfl, -⟩ := message_of_target found
    refine ⟨(h.type name).form, (starts.type h name).2, ?_⟩
    rcases start with inside | fresh
    · exact .inl inside
    · cases fresh
      exact .inr (starts.type h _).1
  unfold Slot.target at target
  split at target
  · exact value (.inl (Nat.le_refl _)) target
  · exact value (.inl (Nat.le_refl _)) target
  · exact value (.inr rfl) target
  · split at target
    · cases target
    · exact value (.inr rfl) target
  · exact value (.inr rfl) target
  · rename_i shape
    rw [shape] at entries
    split at target
    · cases target
      exact ⟨(MessageType.lawful_entry _ _).form, MessageType.entriesWithin_entry s _ _,
        .inr entries⟩
    · cases target
  · split at target
    · exact value (alternative_cases _ _) target
    · cases target
  · cases target

/-- Merging with the budget gives no message that nests deeper than the budget and the bound
together.
-/
def NestsWithin (s : Schema) (k budget : Nat) : Prop :=
  ∀ t m bytes m', t.form ≠ .filler → t.EntriesWithin s k → m.nesting ≤ budget + k
    → mergeRecords s (embedWithin s budget) t m bytes = (m', none) → m'.nesting ≤ budget + k

/-- A record nests no deeper than the level that it stands on allows. -/
theorem SlotStep.nesting_le (h : s.Lawful) (starts : s.StartsWithin k) {budget : Nat}
    {member : Member} {tag : Nat} {wire : WireType} {slot new : Slot} {payload rest : List UInt8}
    (entries : member.shape.entryNesting s ≤ k)
    (step : SlotStep s (embedWithin s budget) member tag wire slot payload rest new)
    (old : slot.nesting ≤ budget + k)
    (inner : ∀ level, budget = level + 1 → NestsWithin s k level)
    : new.nesting ≤ budget + k := by
  have placed {v : Value} (put : slot.put member tag v none = (new, none))
      (value : v.nesting ≤ budget + k)
      : new.nesting ≤ budget + k := by
    have both := nesting_put_le member tag slot v none
    rw [put] at both
    exact Nat.le_trans both (Nat.max_le.mpr ⟨old, value⟩)
  cases step with
  | scalar target read put => exact placed put (Nat.zero_le _)
  | message target within read merged put =>
      cases budget with
      | zero => cases within
      | succ level =>
          cases within
          obtain ⟨form, within, start⟩ := nesting_target h starts entries target
          have shallow := inner level rfl _ _ _ _ form within (by omega) merged
          refine placed put ?_
          rw [Value.nesting]
          omega
  | run target read packed appended =>
      obtain ⟨rfl, -⟩ := appendValues_success appended
      obtain ⟨rfl, -⟩ := many_of_target_run target
      have flat := elementsNesting_scalar (sound_readPacked (s := s) packed)
      rw [Slot.nesting, elementsNesting_append, flat, Nat.max_zero]
      exact old
  | nothing target unread => exact old

theorem RecordStep.nesting_le (h : s.Lawful) (starts : s.StartsWithin k) {budget : Nat}
    {bytes rest : List UInt8} (entries : t.EntriesWithin s k)
    (step : RecordStep s (embedWithin s budget) t m bytes rest m') (old : m.nesting ≤ budget + k)
    (inner : ∀ level, budget = level + 1 → NestsWithin s k level)
    : m'.nesting ≤ budget + k := by
  obtain ⟨slots, unknown⟩ := m
  cases step with
  | undeclared key missing whole legal complete =>
      unfold keepUnknown
      split <;> exact old
  | declared key found step =>
      obtain ⟨member, holds, -⟩ := mem_of_memberSlot? found
      have new := step.nesting_le h starts (entries _ member)
        (Nat.le_trans (slot_nesting_le holds) old) inner
      exact Nat.le_trans (slotsNesting_replaceSlot_le _ _ _ _) (Nat.max_le.mpr ⟨new, old⟩)

theorem nestsWithin_of_inner (h : s.Lawful) (starts : s.StartsWithin k) {budget : Nat}
    (inner : ∀ level, budget = level + 1 → NestsWithin s k level)
    : NestsWithin s k budget := by
  intro t m bytes m' form entries old merged
  refine mergeRecords_induction
    (motive := fun m _ m' => m.nesting ≤ budget + k → m'.nesting ≤ budget + k)
    (fun _ => id) ?_ merged old
  intro m bytes m' _ success others old
  exact others ((recordStep_of_success form success).nesting_le h starts entries old inner)

/-- Merging with a budget nests within it, by induction on the budget. -/
theorem nestsWithin (h : s.Lawful) (starts : s.StartsWithin k) (budget : Nat)
    : NestsWithin s k budget := by
  induction budget with
  | zero => exact nestsWithin_of_inner h starts nofun
  | succ level ih =>
      refine nestsWithin_of_inner h starts fun inner next => ?_
      cases next
      exact ih

-----------------------------------------------------------------------------------------
-- Decoding and encoding
-----------------------------------------------------------------------------------------

namespace Schema

variable {name : String} {bytes : List UInt8}

/-- What is accepted can be encoded.  The encoding is accepted again, as the same message up to
zeros that are not written, unless the message nests too deep; then it is refused for that.  How
deep it nests depends on what it starts from: a message that was accepted nests at most as many
levels deeper than a reader goes as the deepest message or entry that nothing has been read into.
-/
theorem decode_encode_decode (h : s.Lawful) (accepted : s.decode name bytes = .ok m)
    : (∃ again, s.encode (s.type name) m = .ok again
        ∧ (again.length < 2 ^ 63 → s.decode name again
          = if m.nesting ≤ recursionLimit then .ok (m.normal s (s.type name))
            else .error .recursionLimitExceeded))
      ∧ ∀ k, s.StartsWithin k → m.nesting ≤ recursionLimit + k := by
  have form := (h.type name).form
  refine ⟨⟨_, encode_eq h.sized form m, fun small => ?_⟩, fun k starts => ?_⟩
  · rw [m.length_encoding h.sized form] at small
    exact decode_encoding h (h.sound_decode accepted) small
  · obtain ⟨empty, entries⟩ := starts.type h name
    exact nestsWithin h starts recursionLimit _ _ _ _ form entries
      (Nat.le_trans empty (Nat.le_add_left _ _)) (merge_of_decode accepted)

/-- An object whose only entry has a key and no value, which its encoding adds. -/
theorem decode_encode_decode_entry
    : let s := WellKnown.schemaWith []
      let name := "google.protobuf.Value"
      ∃ m again m', s.decode name [0x2a, 5, 0x0a, 3, 0x0a, 1, 97] = .ok m
        ∧ s.encode (s.type name) m = .ok again ∧ again.length = 9
        ∧ s.decode name again = .ok m' ∧ s.StartsWithin 1 ∧ m.nesting ≤ 129 := by
  intro s name
  have lawful : s.Lawful := WellKnown.lawful_types
  have starts : s.StartsWithin 1 := by decide +kernel
  let merged := s.merge (s.type name) (s.empty name) [0x2a, 5, 0x0a, 3, 0x0a, 1, 97]
  have facts : merged.2 = none ∧ merged.1.nesting ≤ recursionLimit
      ∧ (merged.1.encoding s (s.type name)).length = 9 := by
    decide +kernel
  obtain ⟨success, shallow, length⟩ := facts
  have accepted := decode_of_merge (Prod.ext rfl success)
  obtain ⟨⟨again, encoded, decoded⟩, bound⟩ := decode_encode_decode lawful accepted
  cases encoded.symm.trans (encode_eq lawful.sized (lawful.type name).form merged.1)
  rw [length, if_pos shallow] at decoded
  exact ⟨merged.1, _, _, accepted, encoded, length, decoded (by decide), starts, bound 1 starts⟩

/-- Objects inside one another, each the value of an entry without a key; the innermost one has an
entry without a key and without a value.
-/
def objects : Nat → List UInt8
  | 0 => []
  | n + 1 => 0x2a :: delimit (0x0a :: delimit (if n = 0 then [] else 0x12 :: delimit (objects n)))

/-- The entry in the innermost of 43 objects takes the last level; the value that its encoding adds
is refused.
-/
theorem decode_encode_objects
    : let s := WellKnown.schemaWith []
      let name := "google.protobuf.Value"
      ∃ m again, s.decode name (objects 43) = .ok m ∧ s.encode (s.type name) m = .ok again
        ∧ s.decode name again = .error .recursionLimitExceeded := by
  intro s name
  have lawful : s.Lawful := WellKnown.lawful_types
  let merged := s.merge (s.type name) (s.empty name) (objects 43)
  have facts : merged.2 = none ∧ recursionLimit < merged.1.nesting
      ∧ merged.1.size s (s.type name) < 2 ^ 63 := by
    decide +kernel
  obtain ⟨success, deep, small⟩ := facts
  have accepted := decode_of_merge (Prod.ext rfl success)
  have refused := decode_encoding lawful (lawful.sound_decode accepted) small
  rw [if_neg (Nat.not_le_of_lt deep)] at refused
  exact ⟨merged.1, _, accepted, encode_eq lawful.sized (lawful.type name).form merged.1, refused⟩

end Schema

end Protobuf
