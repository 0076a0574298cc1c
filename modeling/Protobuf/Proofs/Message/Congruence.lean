import Protobuf.Proofs.Message.Reduced
import Protobuf.Proofs.Message.RoundTrip
import Protobuf.Proofs.Message.Soundness

/-! Merging the same bytes into equal messages.  What has the same reduced form is alike: a record
that is merged into alike messages fails in both for the same reason, or leaves alike messages and
the same bytes behind it.
-/

namespace Protobuf

open Wire

/-- Both are typed and have the same form. -/
structure SameForm {α β : Type} (Typed : α → Prop) (form : α → β) (a b : α) : Prop where
  left : Typed a
  right : Typed b
  same : form a = form b

/-- What is typed has its own form. -/
theorem SameForm.refl {α β : Type} {Typed : α → Prop} {form : α → β} {a : α} (typed : Typed a)
    : SameForm Typed form a a :=
  ⟨typed, typed, rfl⟩

section

variable (s : Schema)

/-- Values of the type with the same reduced form. -/
abbrev Value.Alike (type : ValueType) : Value → Value → Prop :=
  SameForm (fun v => v.known.Conforms s type) (Value.reduced s type)

/-- Messages of the type are equal to a reader: they have the same reduced form. -/
abbrev Message.Alike (t : MessageType) : Message → Message → Prop :=
  SameForm (Message.Typed s t) (Message.reduced s t)

/-- Slots of the members have the same reduced form. -/
abbrev slotsAlike (members : List Member) : List Slot → List Slot → Prop :=
  SameForm (fun slots => slotsConform s members (slotsKnown slots)) (slotsReduced s members)

/-- Slots of the member have the same reduced form. -/
abbrev Slot.Alike (m : Member) : Slot → Slot → Prop :=
  SameForm (fun slot => slot.known.Conforms s m) (Slot.reduced s m)

/-- Elements of the type have the same reduced form. -/
abbrev elementsAlike (type : ValueType) : List Value → List Value → Prop :=
  SameForm (fun vs => elementsConform s type (elementsKnown vs)) (elementsReduced s type)

/-- Entries of the types have the same reduced form. -/
abbrev entriesAlike (key : ScalarType) (value : ValueType) : List Entry → List Entry → Prop :=
  SameForm (fun es => Ordered key es ∧ entriesConform s value (entriesKnown es))
    (entriesReduced s value)

end

/-- Both fail for the same reason, or both succeed with what is related and leave the same bytes. -/
structure Wire.Merged.Alike {α : Type} (R : α → α → Prop) (first second : Merged α) : Prop where
  failure : first.failure = second.failure
  rest : first.failure = none → first.rest = second.rest
  value : first.failure = none → R first.value second.value

namespace Wire.Merged.Alike

variable {α β : Type} {R : α → α → Prop} {Q : β → β → Prop}

/-- After the same failure it does not matter what was merged. -/
theorem failed (a b : α) (e : DecodeError) (rest rest' : List UInt8)
    : Alike R ⟨a, some e, rest⟩ ⟨b, some e, rest'⟩ :=
  ⟨rfl, nofun, nofun⟩

/-- What is merged without a failure is related. -/
theorem done {a b : α} (related : R a b) (rest : List UInt8)
    : Alike R ⟨a, none, rest⟩ ⟨b, none, rest⟩ :=
  ⟨rfl, fun _ => rfl, fun _ => related⟩

/-- What is made of related values stays related. -/
theorem image {first second : Merged α} {a b : β} (h : Alike R first second)
    (related : first.failure = none → R first.value second.value → Q a b)
    : Alike Q ⟨a, first.failure, first.rest⟩ ⟨b, second.failure, second.rest⟩ :=
  ⟨h.failure, h.rest, fun success => related success (h.value success)⟩

end Wire.Merged.Alike

variable {s : Schema} {embed : Option Embed} {t : MessageType} {member : Member}

-----------------------------------------------------------------------------------------
-- What is alike, by the shape of the member
-----------------------------------------------------------------------------------------

theorem Schema.Lawful.alike_emptyValue (h : s.Lawful) (type : ValueType)
    : Value.Alike s type (s.emptyValue type) (s.emptyValue type) :=
  .refl (Value.Conforms.known _ (h.conforms_emptyValue type))

/-- The value that the record of an optional member continues. -/
def Slot.continued (s : Schema) (type : ValueType) : Slot → Value
  | .one v => v
  | _ => s.emptyValue type

namespace Slot

variable {type : ValueType} {v w : Value} {slot other : Slot}

/-- Equal values are equal in a singular slot. -/
theorem alike_one (shape : member.shape = .single type ∨ member.shape = .optional type)
    (h : Value.Alike s type v w) (lawful : s.Lawful)
    : Slot.Alike s member (.one v) (.one w) := by
  rcases shape with shape | shape
  · refine ⟨?_, ?_, ?_⟩
    · simpa only [known, Conforms, shape] using h.left
    · simpa only [known, Conforms, shape] using h.right
    · simp only [reduced, shape, h.same]
  · refine ⟨?_, ?_, ?_⟩
    · simpa only [known, Conforms, shape] using h.left
    · simpa only [known, Conforms, shape] using h.right
    · simp only [reduced, shape, Value.isBlank_eq lawful h.left h.right h.same, h.same]

/-- Equal slots of a singular member hold equal values. -/
theorem Alike.of_single (h : Slot.Alike s member slot other) (shape : member.shape = .single type)
    : ∃ v w, slot = .one v ∧ other = .one w ∧ Value.Alike s type v w := by
  obtain ⟨v, rfl, left⟩ := slot.one_of_known h.left shape
  obtain ⟨w, rfl, right⟩ := other.one_of_known h.right shape
  have same := h.same
  simp only [reduced, shape, one.injEq] at same
  exact ⟨v, w, rfl, rfl, left, right, same⟩

/-- Alike slots continue alike values, also where only one of them is set. -/
theorem Alike.of_optional (lawful : s.Lawful) (h : Slot.Alike s member slot other)
    (shape : member.shape = .optional type)
    : Value.Alike s type (slot.continued s type) (other.continued s type) := by
  have empty := (lawful.alike_emptyValue type).left
  have same := h.same
  rcases slot.optional_of_known h.left shape with rfl | ⟨v, rfl, left⟩
  · rcases other.optional_of_known h.right shape with rfl | ⟨w, rfl, right⟩
    · exact .refl empty
    · simp only [reduced, shape] at same
      split at same
      · rename_i blank
        exact ⟨empty, right, (Value.reduced_of_isBlank lawful right blank).symm⟩
      · cases same
  · rcases other.optional_of_known h.right shape with rfl | ⟨w, rfl, right⟩
    · simp only [reduced, shape] at same
      split at same
      · rename_i blank
        exact ⟨left, empty, Value.reduced_of_isBlank lawful left blank⟩
      · cases same
    · exact ⟨left, right, reduced_optional lawful shape left right same⟩

/-- Equal lists are equal in a repeated slot. -/
theorem alike_many {packed : Bool} {capacity : Option Nat}
    (shape : member.shape = .repeated type packed capacity) {vs ws : List Value}
    (h : elementsAlike s type vs ws)
    : Slot.Alike s member (.many vs) (.many ws) := by
  refine ⟨?_, ?_, ?_⟩
  · simpa only [known, Conforms, shape] using h.left
  · simpa only [known, Conforms, shape] using h.right
  · simp only [reduced, shape, h.same]

/-- Equal slots of a repeated member hold equal lists. -/
theorem Alike.of_repeated {packed : Bool} {capacity : Option Nat}
    (h : Slot.Alike s member slot other) (shape : member.shape = .repeated type packed capacity)
    : ∃ vs ws, slot = .many vs ∧ other = .many ws ∧ elementsAlike s type vs ws := by
  obtain ⟨vs, rfl, left⟩ := slot.many_of_known h.left shape
  obtain ⟨ws, rfl, right⟩ := other.many_of_known h.right shape
  have same := h.same
  simp only [reduced, shape, many.injEq] at same
  exact ⟨vs, ws, rfl, rfl, left, right, same⟩

/-- Equal maps are equal in their slot. -/
theorem alike_entries {key : ScalarType} (shape : member.shape = .map key type) {ds es : List Entry}
    (h : entriesAlike s key type ds es)
    : Slot.Alike s member (.entries ds) (.entries es) := by
  refine ⟨?_, ?_, ?_⟩
  · simpa only [known, Conforms, shape, ordered_entriesKnown] using h.left
  · simpa only [known, Conforms, shape, ordered_entriesKnown] using h.right
  · simp only [reduced, shape, h.same]

/-- Equal slots of a map hold equal entries. -/
theorem Alike.of_map {key : ScalarType} (h : Slot.Alike s member slot other)
    (shape : member.shape = .map key type)
    : ∃ ds es, slot = .entries ds ∧ other = .entries es ∧ entriesAlike s key type ds es := by
  obtain ⟨ds, rfl, left⟩ := slot.entries_of_known h.left shape
  obtain ⟨es, rfl, right⟩ := other.entries_of_known h.right shape
  have same := h.same
  simp only [reduced, shape, entries.injEq] at same
  exact ⟨ds, es, rfl, rfl, left, right, same⟩

/-- Equal values are equal under the same alternative. -/
theorem alike_choice {tag : Nat} {a : Alternative} (found : member.alternative? tag = some a)
    (h : Value.Alike s a.type v w)
    : Slot.Alike s member (.choice tag v) (.choice tag w) := by
  refine ⟨?_, ?_, ?_⟩
  · simpa only [known, Conforms, found] using h.left
  · simpa only [known, Conforms, found] using h.right
  · simp only [reduced, found, h.same]

/-- Alike slots of a oneof hold the same alternative. -/
theorem Alike.of_oneof {alternatives : List Alternative} (h : Slot.Alike s member slot other)
    (shape : member.shape = .oneof alternatives)
    : slot = .none ∧ other = .none
      ∨ ∃ tag a v w, slot = .choice tag v ∧ other = .choice tag w ∧ member.alternative? tag = some a
          ∧ Value.Alike s a.type v w := by
  have same := h.same
  rcases slot.choice_of_known h.left shape with rfl | ⟨tag, v, a, rfl, found, left⟩
  · rcases other.choice_of_known h.right shape with rfl | ⟨tag', w, a', rfl, found', right⟩
    · exact .inl ⟨rfl, rfl⟩
    · simp [reduced, found'] at same
  · rcases other.choice_of_known h.right shape with rfl | ⟨tag', w, a', rfl, found', right⟩
    · simp [reduced, found] at same
    · simp only [reduced, found, found', choice.injEq] at same
      obtain ⟨rfl, same⟩ := same
      cases found.symm.trans found'
      exact .inr ⟨tag, a, v, w, rfl, rfl, found, left, right, same⟩

end Slot

/-- Equal slots begin with equal slots for the first member. -/
theorem slotsAlike_cons {members : List Member} {slots others : List Slot}
    : slotsAlike s (member :: members) slots others
      ↔ ∃ slot behind other behind', slots = slot :: behind ∧ others = other :: behind'
          ∧ Slot.Alike s member slot other ∧ slotsAlike s members behind behind' := by
  constructor
  · rintro ⟨left, right, same⟩
    obtain ⟨slot, behind, rfl, first, later⟩ := slotsKnown_cons left
    obtain ⟨other, behind', rfl, first', later'⟩ := slotsKnown_cons right
    simp only [slotsReduced, List.cons.injEq] at same
    exact ⟨slot, behind, other, behind', rfl, rfl, ⟨first, first', same.1⟩, later, later', same.2⟩
  · rintro ⟨slot, behind, other, behind', rfl, rfl, first, later⟩
    exact ⟨⟨first.left, later.left⟩, ⟨first.right, later.right⟩,
      by simp only [slotsReduced, first.same, later.same]⟩

/-- Equal lists behind equal lists are equal. -/
theorem elementsAlike.append {type : ValueType} {vs ws us xs : List Value}
    (h : elementsAlike s type vs ws) (h' : elementsAlike s type us xs)
    : elementsAlike s type (vs ++ us) (ws ++ xs) := by
  obtain ⟨left, right, same⟩ := h
  obtain ⟨left', right', same'⟩ := h'
  simp only [elementsConform_known_iff, elementsReduced_eq_map]
    at left right left' right' same same'
  refine ⟨?_, ?_, ?_⟩
  · exact elementsConform_known_iff.mpr (List.forall_mem_append.mpr ⟨left, left'⟩)
  · exact elementsConform_known_iff.mpr (List.forall_mem_append.mpr ⟨right, right'⟩)
  · simp only [elementsReduced_eq_map, List.map_append, same, same']

/-- Equal lists have the same length. -/
theorem elementsAlike.length_eq {type : ValueType} {vs ws : List Value}
    (h : elementsAlike s type vs ws)
    : vs.length = ws.length := by
  simpa [elementsReduced_eq_map] using congrArg List.length h.same

/-- Reducing goes through inserting an entry. -/
theorem entriesReduced_insert {value : ValueType} (k : Scalar) (v : Value) (es : List Entry)
    : entriesReduced s value (insertEntry k v es)
        = insertEntry k (v.reduced s value) (entriesReduced s value es) := by
  induction es with
  | nil => rfl
  | cons e es ih =>
      obtain ⟨k', v'⟩ := e
      simp only [insertEntry, entriesReduced]
      split <;> simp only [entriesReduced, ih]

theorem entriesTyped_insert {key : ScalarType} (isKey : key.isKey) {value : ValueType} {k : Scalar}
    {v : Value} {es : List Entry} (typed : k.hasType key) (held : v.known.Conforms s value)
    (h : Ordered key es ∧ entriesConform s value (entriesKnown es))
    : Ordered key (insertEntry k v es)
      ∧ entriesConform s value (entriesKnown (insertEntry k v es)) := by
  obtain ⟨ordered, conform⟩ := h
  rw [entriesConform_known_iff] at conform
  refine ⟨ordered.insertEntry isKey typed, entriesConform_known_iff.mpr fun e listed => ?_⟩
  rcases (mem_insertEntry isKey typed ordered e).mp listed with rfl | ⟨earlier, -⟩
  · exact held
  · exact conform e earlier

/-- Inserting equal entries keeps maps equal. -/
theorem entriesAlike.insert {key : ScalarType} (isKey : key.isKey) {value : ValueType} {k : Scalar}
    {v : Value} {ds es : List Entry} (typed : k.hasType key) (held : v.known.Conforms s value)
    (h : entriesAlike s key value ds es)
    : entriesAlike s key value (insertEntry k v ds) (insertEntry k v es) :=
  ⟨entriesTyped_insert isKey typed held h.left, entriesTyped_insert isKey typed held h.right,
    by simp only [entriesReduced_insert, h.same]⟩

-----------------------------------------------------------------------------------------
-- Values
-----------------------------------------------------------------------------------------

/-- Merged into alike messages of a lawful type, the same bytes fail alike or leave alike messages.
-/
def Embed.Respects (s : Schema) (merge : Embed) : Prop :=
  ∀ t m n bytes, t.Lawful → Message.Alike s t m n
    → (merge t m bytes).2 = (merge t n bytes).2
      ∧ ((merge t m bytes).2 = none → Message.Alike s t (merge t m bytes).1 (merge t n bytes).1)

variable {tag : Nat} {wire : WireType} {type : ValueType} {v w : Value} {m n : Message}

section

variable (respects : ∀ merge, embed = some merge → merge.Respects s) (bytes : List UInt8)

include respects

/-- Merging the same payload keeps messages equal. -/
theorem alike_mergeNested (lawful : t.Lawful) (h : Message.Alike s t m n)
    : (mergeNested embed t m bytes).Alike (Message.Alike s t) (mergeNested embed t n bytes) := by
  cases embed with
  | none => exact .failed _ _ _ _ _
  | some merge =>
      simp only [mergeNested]
      cases Decoder.lengthDelimited bytes with
      | error e rest => exact .failed _ _ _ _ _
      | ok payload rest =>
          obtain ⟨failure, value⟩ := respects merge rfl t m n payload lawful h
          exact ⟨failure, fun _ => rfl, value⟩

/-- Merging the same bytes keeps values equal. -/
theorem alike_mergeValue (lawful : s.Lawful) (h : Value.Alike s type v w)
    : (mergeValue s embed type v bytes).Alike (Value.Alike s type)
      (mergeValue s embed type w bytes) := by
  cases type with
  | scalar type =>
      obtain ⟨a, rfl, -⟩ := scalar_of_known h.left
      obtain ⟨b, rfl, -⟩ := scalar_of_known h.right
      simp only [mergeValue, mergeScalar]
      cases read : readScalar type bytes with
      | error e rest => exact .failed _ _ _ _ _
      | ok c rest =>
          have typed : (Value.scalar c).known.Conforms s (.scalar type) :=
            hasType_readScalar type _ _ _ read
          exact .done (.refl typed) rest
  | message name =>
      obtain ⟨m, rfl, left⟩ := message_of_known h.left
      obtain ⟨n, rfl, right⟩ := message_of_known h.right
      have same : m.reduced s (s.type name) = n.reduced s (s.type name) := by
        simpa only [Value.reduced, Value.message.injEq] using h.same
      refine (alike_mergeNested respects bytes (lawful.type name) ⟨left, right, same⟩).image ?_
      intro _ merged
      exact ⟨merged.left, merged.right, by simp only [Value.reduced, merged.same]⟩

/-- So it does behind a check of the wire type. -/
theorem alike_mergeChecked (lawful : s.Lawful) (h : Value.Alike s type v w)
    : (mergeChecked s embed tag wire type v bytes).Alike (Value.Alike s type)
        (mergeChecked s embed tag wire type w bytes) := by
  unfold mergeChecked
  split
  · exact alike_mergeValue respects bytes lawful h
  · exact .failed _ _ _ _ _

-----------------------------------------------------------------------------------------
-- Lists and maps
-----------------------------------------------------------------------------------------

omit respects

/-- Appending equal values keeps lists equal, and hits the same capacity. -/
theorem alike_appendValue {vs ws : List Value} {capacity : Option Nat}
    (h : elementsAlike s type vs ws) (h' : Value.Alike s type v w) (rest : List UInt8)
    : (Merged.mk (appendValue capacity vs v).1 (appendValue capacity vs v).2 rest).Alike
        (elementsAlike s type)
        ⟨(appendValue capacity ws w).1, (appendValue capacity ws w).2, rest⟩ := by
  have single : elementsAlike s type [v] [w] :=
    ⟨⟨h'.left, trivial⟩, ⟨h'.right, trivial⟩, by simp only [elementsReduced, h'.same]⟩
  simp only [appendValue, h.length_eq]
  split
  · exact .done (h.append single) rest
  · exact .failed _ _ _ _ _

/-- Appending the same packed run keeps lists equal. -/
theorem alike_mergePacked {scalar : ScalarType} {vs ws : List Value} {capacity : Option Nat}
    (h : elementsAlike s (.scalar scalar) vs ws) (payload rest : List UInt8)
    : (Merged.mk (mergePacked scalar capacity vs payload).1
      (mergePacked scalar capacity vs payload).2
          rest).Alike (elementsAlike s (.scalar scalar))
        ⟨(mergePacked scalar capacity ws payload).1, (mergePacked scalar capacity ws payload).2,
          rest⟩ := by
  cases read : readPacked scalar payload with
  | mk added failure =>
      have appended (success : failure = none)
          : elementsAlike s (.scalar scalar) (vs ++ added) (ws ++ added) := by
        subst success
        refine h.append (.refl (elementsConform_known_iff.mpr fun v listed => ?_))
        exact Value.Conforms.known v (sound_readPacked read v listed).1
      cases capacity with
      | none =>
          simp only [mergePacked, read, appendValues]
          exact ⟨rfl, fun _ => rfl, appended⟩
      | some limit =>
          simp only [mergePacked, read, appendValues, h.length_eq]
          by_cases room : added.length ≤ limit - ws.length
          · simp only [if_pos room]
            exact ⟨rfl, fun _ => rfl, appended⟩
          · simp only [if_neg room]
            exact .failed _ _ _ _ _

include respects

/-- Appending an element from the same bytes keeps lists equal. -/
theorem alike_mergeElement (lawful : s.Lawful) {capacity : Option Nat} {vs ws : List Value}
    (h : elementsAlike s type vs ws)
    : (mergeElement s embed tag wire type capacity vs bytes).Alike (elementsAlike s type)
        (mergeElement s embed tag wire type capacity ws bytes) := by
  have element : (mergeChecked s embed tag wire type (s.emptyValue type) bytes).Alike
      (Value.Alike s type) (mergeChecked s embed tag wire type (s.emptyValue type) bytes) :=
    alike_mergeChecked respects bytes lawful (lawful.alike_emptyValue type)
  simp only [mergeElement]
  cases failure : (mergeChecked s embed tag wire type (s.emptyValue type) bytes).failure with
  | some e => exact .failed _ _ _ _ _
  | none => exact alike_appendValue h (element.value failure) _

/-- Merging the same bytes keeps lists equal, packed or not. -/
theorem alike_mergeRepeated (lawful : s.Lawful) {capacity : Option Nat} {vs ws : List Value}
    (h : elementsAlike s type vs ws)
    : (mergeRepeated s embed tag wire type capacity vs bytes).Alike (elementsAlike s type)
        (mergeRepeated s embed tag wire type capacity ws bytes) := by
  cases type with
  | message name => exact alike_mergeElement respects bytes lawful h
  | scalar scalar =>
      simp only [mergeRepeated]
      split
      · cases Decoder.lengthDelimited bytes with
        | error e rest => exact .failed _ _ _ _ _
        | ok payload rest => exact alike_mergePacked h payload rest
      · exact alike_mergeElement respects bytes lawful h

/-- The entry is read apart from the map, and inserted into both maps. -/
theorem alike_mergeMap (lawful : s.Lawful) {key : ScalarType} (isKey : key.isKey)
    {ds es : List Entry} (h : entriesAlike s key type ds es)
    : (mergeMap s embed tag wire key type ds bytes).Alike (entriesAlike s key type)
        (mergeMap s embed tag wire key type es bytes) := by
  simp only [mergeMap]
  split
  · have empty : Message.Alike s (.entry key type) (s.emptyEntry key type)
      (s.emptyEntry key type) :=
      .refl (Message.Conforms.typed _ (lawful.sound_emptyEntry key type).1)
    have entry := alike_mergeNested respects bytes (MessageType.lawful_entry key type) empty
    cases failure : (mergeNested embed (.entry key type) (s.emptyEntry key type) bytes).failure with
    | some e => exact .failed _ _ _ _ _
    | none =>
        have typed := (entry.value failure).left
        cases found : entryOfMessage?
            (mergeNested embed (.entry key type) (s.emptyEntry key type) bytes).value with
        | none => exact .done h _
        | some e =>
            unfold entryOfMessage? at found
            split at found
            · rename_i read
              cases found
              rw [read] at typed
              exact .done (entriesAlike.insert isKey typed.1.1 typed.1.2.1 h) _
            · cases found
  · exact .failed _ _ _ _ _

-----------------------------------------------------------------------------------------
-- Members
-----------------------------------------------------------------------------------------

variable {slot other : Slot}

omit respects in
/-- An optional member continues what it holds, or the value before one is set. -/
theorem mergeSlot_optional (shape : member.shape = .optional type)
    (typed : slot.known.Conforms s member)
    : mergeSlot s embed member tag wire slot bytes
        = let merged := mergeChecked s embed tag wire type (slot.continued s type) bytes
          ⟨if wire = type.wireType then .one merged.value else slot, merged.failure,
            merged.rest⟩ := by
  rcases slot.optional_of_known typed shape with rfl | ⟨v, rfl, -⟩
  · simp only [mergeSlot, shape, Slot.continued, mergeChecked]
    split <;> rfl
  · simp only [mergeSlot, shape, Slot.continued, mergeChecked]
    split <;> rfl

/-- Merging the same bytes keeps optional slots equal. -/
theorem alike_mergeOptional (lawful : s.Lawful) (h : Slot.Alike s member slot other)
    (shape : member.shape = .optional type)
    : (mergeSlot s embed member tag wire slot bytes).Alike (Slot.Alike s member)
        (mergeSlot s embed member tag wire other bytes) := by
  rw [mergeSlot_optional bytes shape h.left, mergeSlot_optional bytes shape h.right]
  by_cases expected : wire = type.wireType
  · simp only [if_pos expected]
    refine (alike_mergeChecked respects bytes lawful (h.of_optional lawful shape)).image ?_
    exact fun _ merged => Slot.alike_one (.inr shape) merged lawful
  · simp only [if_neg expected, mergeChecked]
    exact .failed _ _ _ _ _

/-- Merging the same bytes keeps choices equal. -/
theorem alike_mergeAlternative (lawful : s.Lawful) (h : Slot.Alike s member slot other)
    {alternatives : List Alternative} (shape : member.shape = .oneof alternatives) {a : Alternative}
    (found : member.alternative? a.tag = some a)
    : (mergeAlternative s embed wire a slot bytes).Alike (Slot.Alike s member)
        (mergeAlternative s embed wire a other bytes) := by
  have fresh (slot other : Slot) : Merged.Alike (Slot.Alike s member)
      (let merged := mergeChecked s embed a.tag wire a.type (s.emptyValue a.type) bytes
       ⟨if merged.failure.isNone then .choice a.tag merged.value else slot,
         merged.failure, merged.rest⟩)
      (let merged := mergeChecked s embed a.tag wire a.type (s.emptyValue a.type) bytes
       ⟨if merged.failure.isNone then .choice a.tag merged.value else other, merged.failure,
        merged.rest⟩) := by
    refine (alike_mergeChecked respects bytes lawful (lawful.alike_emptyValue a.type)).image ?_
    intro success merged
    simp only [success, Option.isNone_none, if_true]
    exact Slot.alike_choice found merged
  rcases h.of_oneof shape with ⟨rfl, rfl⟩ | ⟨tag, b, v, w, rfl, rfl, own, held⟩
  · exact fresh .none .none
  · simp only [mergeAlternative]
    split
    · rename_i same
      subst same
      cases own.symm.trans found
      refine (alike_mergeChecked respects bytes lawful held).image ?_
      exact fun _ merged => Slot.alike_choice found merged
    · exact fresh _ _

/-- A record of a member is merged into alike slots alike, by the shape of the member. -/
theorem alike_mergeSlot (lawful : s.Lawful) (shapeLawful : member.shape.isLawful)
    (h : Slot.Alike s member slot other)
    : (mergeSlot s embed member tag wire slot bytes).Alike (Slot.Alike s member)
        (mergeSlot s embed member tag wire other bytes) := by
  cases shape : member.shape with
  | single type =>
      obtain ⟨v, w, rfl, rfl, held⟩ := h.of_single shape
      simp only [mergeSlot, shape]
      refine (alike_mergeChecked respects bytes lawful held).image ?_
      exact fun _ merged => Slot.alike_one (.inl shape) merged lawful
  | optional type => exact alike_mergeOptional respects bytes lawful h shape
  | repeated type packed capacity =>
      obtain ⟨vs, ws, rfl, rfl, held⟩ := h.of_repeated shape
      simp only [mergeSlot, shape]
      refine (alike_mergeRepeated respects bytes lawful held).image ?_
      exact fun _ merged => Slot.alike_many shape merged
  | map key value =>
      obtain ⟨ds, es, rfl, rfl, held⟩ := h.of_map shape
      have isKey : key.isKey := by simpa [Shape.isLawful, shape] using shapeLawful
      simp only [mergeSlot, shape]
      refine (alike_mergeMap respects bytes lawful isKey held).image ?_
      exact fun _ merged => Slot.alike_entries shape merged
  | oneof alternatives =>
      simp only [mergeSlot, shape]
      cases found : member.alternative? tag with
      | none => exact .done h _
      | some a =>
          obtain ⟨rfl, -⟩ := Member.tag_of_alternative found
          exact alike_mergeAlternative respects bytes lawful h shape found

/-- The record reaches the same member in both, by induction on the members. -/
theorem alike_mergeMember (lawful : s.Lawful) {members : List Member}
    (shapes : ∀ m ∈ members, m.shape.isLawful) {slots others : List Slot}
    (h : slotsAlike s members slots others)
    : Option.Rel (Merged.Alike (slotsAlike s members))
        (mergeMember s embed tag wire bytes members slots)
        (mergeMember s embed tag wire bytes members others) := by
  induction members generalizing slots others with
  | nil =>
      simp only [mergeMember]
      exact .none
  | cons member members ih =>
      obtain ⟨shape, shapes⟩ := List.forall_mem_cons.mp shapes
      obtain ⟨slot, behind, other, behind', rfl, rfl, first, later⟩ := slotsAlike_cons.mp h
      simp only [mergeMember]
      split
      · refine .some ((alike_mergeSlot respects bytes lawful shape first).image ?_)
        exact fun _ merged => slotsAlike_cons.mpr ⟨_, _, _, _, rfl, rfl, merged, later⟩
      · have reached := ih shapes later
        generalize mergeMember s embed tag wire bytes members behind = merged,
          mergeMember s embed tag wire bytes members behind' = merged' at reached
        cases reached with
        | none => exact .none
        | some reached =>
            refine .some (reached.image ?_)
            exact fun _ merged => slotsAlike_cons.mpr ⟨_, _, _, _, rfl, rfl, first, merged⟩

-----------------------------------------------------------------------------------------
-- Records
-----------------------------------------------------------------------------------------

/-- Merging the same field keeps messages equal, or is unknown to both. -/
theorem alike_mergeField (lawful : s.Lawful) (typeLawful : t.Lawful) (h : Message.Alike s t m n)
    : Option.Rel (Merged.Alike (Message.Alike s t)) (mergeField s embed t m tag wire bytes)
        (mergeField s embed t n tag wire bytes) := by
  obtain ⟨slots, unknown⟩ := m
  obtain ⟨others, unknown'⟩ := n
  obtain ⟨left, right, same⟩ := h
  simp only [Message.reduced, Message.mk.injEq] at same
  obtain ⟨same, rfl⟩ := same
  have reached : Option.Rel (Merged.Alike (slotsAlike s t.members))
      (mergeMember s embed tag wire bytes t.members slots)
      (mergeMember s embed tag wire bytes t.members others) :=
    alike_mergeMember respects bytes lawful typeLawful.shapes ⟨left.1, right.1, same⟩
  simp only [mergeField, if_neg typeLawful.form]
  generalize mergeMember s embed tag wire bytes t.members slots = merged,
    mergeMember s embed tag wire bytes t.members others = merged' at reached
  cases reached with
  | none => exact .none
  | some reached =>
      refine .some (reached.image ?_)
      exact fun _ merged => ⟨⟨merged.left, left.2⟩, ⟨merged.right, right.2⟩,
        by simp only [Message.reduced, merged.same]⟩

omit respects in
/-- Keeping the same unknown record keeps messages equal. -/
theorem Message.Alike.keepUnknown (h : Message.Alike s t m n) (record : List UInt8)
    : Message.Alike s t (keepUnknown t m record) (keepUnknown t n record) := by
  obtain ⟨slots, unknown⟩ := m
  obtain ⟨others, unknown'⟩ := n
  obtain ⟨left, right, same⟩ := h
  simp only [Message.reduced, Message.mk.injEq] at same
  obtain ⟨same, rfl⟩ := same
  unfold Protobuf.keepUnknown
  split
  · exact ⟨left, right, by simp only [Message.reduced, same]⟩
  · exact ⟨left, right, by simp only [Message.reduced, same]⟩

/-- Merging the same record keeps messages equal. -/
theorem alike_mergeRecord (lawful : s.Lawful) (typeLawful : t.Lawful) (h : Message.Alike s t m n)
    : (mergeRecord s embed t m bytes).Alike (Message.Alike s t)
      (mergeRecord s embed t n bytes) := by
  unfold mergeRecord
  cases Decoder.key bytes with
  | error e rest => exact .failed _ _ _ _ _
  | ok key payload =>
      have field : Option.Rel (Merged.Alike (Message.Alike s t))
          (mergeField s embed t m key.1 key.2 payload)
            (mergeField s embed t n key.1 key.2 payload) :=
        alike_mergeField respects payload lawful typeLawful h
      simp only
      generalize mergeField s embed t m key.1 key.2 payload = merged,
        mergeField s embed t n key.1 key.2 payload = merged' at field
      cases field with
      | some merged => exact merged
      | none =>
          simp only
          cases passRecord 0 bytes with
          | error e => exact .failed _ _ _ _ _
          | ok rest => exact .done (h.keepUnknown _) rest

end

/-- All records are merged into alike messages alike, by induction on the bytes. -/
theorem respects_mergeRecords (lawful : s.Lawful)
    (respects : ∀ merge, embed = some merge → merge.Respects s)
    : Embed.Respects s (mergeRecords s embed) := by
  intro t m n bytes typeLawful h
  induction size : bytes.length using Nat.strongRecOn generalizing m n bytes with
  | _ size ih =>
      by_cases empty : bytes = []
      · subst empty
        rw [mergeRecords_nil, mergeRecords_nil]
        exact ⟨rfl, fun _ => h⟩
      have record := alike_mergeRecord respects bytes lawful typeLawful h
      cases failure : (mergeRecord s embed t m bytes).failure with
      | some e =>
          have failure' := record.failure ▸ failure
          rw [mergeRecords_of_failure empty failure, mergeRecords_of_failure empty failure']
          exact ⟨rfl, nofun⟩
      | none =>
          have failure' := record.failure ▸ failure
          rw [mergeRecords_of_success empty failure, mergeRecords_of_success empty failure',
            ← record.rest failure]
          exact ih _ (size ▸ length_of_mergeRecord failure) _ _ _ (record.value failure) rfl

/-- Embedded messages are merged alike at every depth, by induction on the nesting budget. -/
theorem respects_embedWithin (lawful : s.Lawful) (budget : Nat)
    : ∀ merge, embedWithin s budget = some merge → merge.Respects s := by
  induction budget with
  | zero => exact nofun
  | succ budget ih =>
      intro merge within
      cases within
      exact respects_mergeRecords lawful ih

-----------------------------------------------------------------------------------------
-- Equal messages
-----------------------------------------------------------------------------------------

theorem Schema.Lawful.isBlank_empty (h : s.Lawful) (name : String)
    : (s.empty name).isBlank s (s.type name) :=
  ((s.empty name).isBlank_iff h (Message.Conforms.typed _ (h.conforms_empty name))).mpr rfl

/-- An absent message equals an empty one, whichever of them is the first. -/
theorem Schema.Lawful.absent_equal_empty (h : s.Lawful) {name : String}
    (shape : member.shape = .optional (.message name))
    : Slot.none.equal s member (.one (.message (s.empty name)))
      ∧ (Slot.one (.message (s.empty name))).equal s member .none := by
  simp only [Slot.equal, Value.isBlank, shape, h.isBlank_empty name, and_self]

theorem Scalar.equal_of_floatIsZero {x y : UInt32} (first : floatIsZero x) (second : floatIsZero y)
    : (Scalar.float x).equal (.float y) := by
  simp [equal, not_floatIsNaN_of_isZero, first, second]

theorem Scalar.equal_of_doubleIsZero {x y : UInt64} (first : doubleIsZero x)
    (second : doubleIsZero y)
    : (Scalar.double x).equal (.double y) := by
  simp [equal, not_doubleIsNaN_of_isZero, first, second]

/-- Equality of messages without NaNs is an equivalence, although an absent message equals an empty
one and zeros of either sign are equal.  Merging the same bytes into equal messages fails in both
for the same reason, or gives messages that are equal again.
-/
theorem equal_is_congruence (h : s.Lawful) (lawful : t.Lawful)
    : Equivalence (fun a b : {m : Message // m.Comparable s t} => a.val.equal s t b.val = true)
      ∧ (∀ member name, member.shape = .optional (.message name)
          → Slot.none.equal s member (.one (.message (s.empty name)))
            ∧ (Slot.one (.message (s.empty name))).equal s member .none)
      ∧ (∀ x y, floatIsZero x → floatIsZero y → (Scalar.float x).equal (.float y))
      ∧ (∀ x y, doubleIsZero x → doubleIsZero y → (Scalar.double x).equal (.double y))
      ∧ ∀ a b bytes, a.Typed s t → b.Typed s t → a.equal s t b
          → (s.merge t a bytes).2 = (s.merge t b bytes).2
            ∧ ((s.merge t a bytes).2 = none → (s.merge t a bytes).1.NaNFree
              → (s.merge t a bytes).1.equal s t (s.merge t b bytes).1) := by
  refine ⟨equivalence_equal h lawful, fun _ _ => h.absent_equal_empty,
    fun _ _ => Scalar.equal_of_floatIsZero, fun _ _ => Scalar.equal_of_doubleIsZero,
    fun a b bytes left right equal => ?_⟩
  have alike : Message.Alike s t a b :=
    ⟨left, right, a.reduced_eq_of_equal h lawful b left right equal⟩
  obtain ⟨failure, merged⟩ :=
    respects_mergeRecords h (respects_embedWithin h recursionLimit) t a b bytes lawful alike
  refine ⟨failure, fun success number => ?_⟩
  obtain ⟨left, right, same⟩ := merged success
  exact Message.equal_of_reduced_eq h lawful _ _ left right number same

/-- A negative zero and no note equal a positive zero and an empty note, and stay equal when a text
is merged into the note; a step that is cut off fails in both.
-/
theorem equal_is_congruence_reading
    : let s := WellKnown.schemaWith [readingType]
      let a : Message := ⟨[.one (.scalar (.double 0x8000000000000000)), .many [], .none], [0xff]⟩
      let b : Message :=
        ⟨[.one (.scalar (.double 0)), .many [], .one (.message (s.empty "google.protobuf.Value"))],
          [0xff]⟩
      let note : List UInt8 := [0x1a, 4, 0x1a, 2, 0x68, 0x69]
      a.equal s readingType b ∧ b.equal s readingType a
      ∧ (s.merge readingType a note).2 = none ∧ (s.merge readingType b note).2 = none
      ∧ (s.merge readingType a note).1.equal s readingType (s.merge readingType b note).1
      ∧ (s.merge readingType a (note ++ [0x10, 0x80])).2 = some .unexpectedEof
      ∧ (s.merge readingType b (note ++ [0x10, 0x80])).2 = some .unexpectedEof := by
  intro s a b note
  have lawful : s.Lawful := WellKnown.lawful_schemaWith (by decide) (by decide) (by decide)
  obtain ⟨equivalence, absent, -, zeros, merging⟩ :=
    equal_is_congruence (s := s) (t := readingType) lawful (by decide)
  have left : a.Typed s readingType := ⟨⟨rfl, trivial, trivial, rfl⟩, .nil⟩
  have right : b.Typed s readingType :=
    ⟨⟨rfl, trivial, (lawful.alike_emptyValue (.message "google.protobuf.Value")).left, rfl⟩, .nil⟩
  have equal : a.equal s readingType b := by
    have level := zeros 0x8000000000000000 0 (by decide) (by decide)
    have note := (absent readingType.members[2] "google.protobuf.Value" rfl).1
    simp only [Slot.equal] at note
    simp only [Message.equal, slotsEqual, readingType, a, b, Slot.equal, Value.equal, level,
      elementsEqual, List.isEmpty_nil, BEq.rfl, Bool.true_and, Bool.and_true]
    exact note
  have first : a.Comparable s readingType := ⟨left, by decide +kernel⟩
  have second : b.Comparable s readingType := ⟨right, by decide +kernel⟩
  have backwards : b.equal s readingType a :=
    @Equivalence.symm _ _ equivalence ⟨a, first⟩ ⟨b, second⟩ equal
  obtain ⟨same, results⟩ := merging a b note left right equal
  obtain ⟨failed, -⟩ := merging a b (note ++ [0x10, 0x80]) left right equal
  have success : (s.merge readingType a note).2 = none := by decide +kernel
  have cut : (s.merge readingType a (note ++ [0x10, 0x80])).2 = some .unexpectedEof := by
    decide +kernel
  exact ⟨equal, backwards, success, same ▸ success, results success (by decide +kernel), cut,
    failed ▸ cut⟩

end Protobuf
