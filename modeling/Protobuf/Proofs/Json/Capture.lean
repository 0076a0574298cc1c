import Protobuf.Proofs.Json.Likeness
import Protobuf.Proofs.Json.NamedPaths
import Protobuf.Proofs.Json.Narrow
import Protobuf.Proofs.Json.Recording

/-! The fields that come out of a document that is read.  A reading that takes a value records just
the paths of the declared keys in it, at whatever path it stands; so they come out of each document
that is accepted.
-/

namespace Protobuf

open FieldMask Json Text

-----------------------------------------------------------------------------------------
-- Messages with a slot for each member
-----------------------------------------------------------------------------------------

section

variable (s : Schema)

mutual

/-- A message in the value has a slot for each member. -/
def Value.Slotted (type : ValueType) : Value → Prop
  | .scalar _ => True
  | .message m =>
      match type with
      | .scalar _ => True
      | .message name => m.Slotted (s.type name)

/-- A key is not passed over for want of a slot, in the message or in those that are merged into. -/
def Message.Slotted (t : MessageType) : Message → Prop
  | ⟨slots, _⟩ => t.form = .members → slotsSlotted t.members slots

/-- There is a slot for each member, and so in the messages inside. -/
def slotsSlotted (members : List Member) : List Slot → Prop
  | [] => members = []
  | slot :: slots =>
      match members with
      | [] => False
      | m :: members => slot.Slotted m ∧ slotsSlotted members slots

/-- A message in the slot has a slot for each member. -/
def Slot.Slotted (m : Member) : Slot → Prop
  | .one v =>
      match m.shape with
      | .single type | .optional type => v.Slotted type
      | _ => True
  | _ => True

end

end

variable {s : Schema}

mutual

/-- A value of its type has its slots. -/
theorem Value.slotted_of_conforms {type : ValueType} (v : Value) (h : v.known.Conforms s type)
    : v.Slotted s type := by
  cases v with
  | scalar v => trivial
  | message m =>
      cases type with
      | scalar type => trivial
      | message name => exact Message.slotted_of_typed m h

/-- A message of its type has a slot for each member, by induction on it. -/
theorem Message.slotted_of_typed {t : MessageType} (m : Message) (typed : m.Typed s t)
    : m.Slotted s t := by
  cases m with
  | mk slots unknown => exact fun _ => slotsSlotted_of_conform slots typed.1

/-- Slots of their members have their own slots. -/
theorem slotsSlotted_of_conform {members : List Member} (slots : List Slot)
    (h : slotsConform s members (slotsKnown slots))
    : slotsSlotted s members slots := by
  cases slots with
  | nil => exact h
  | cons slot slots =>
      cases members with
      | nil => exact h
      | cons m members =>
          exact ⟨Slot.slotted_of_conforms slot h.1, slotsSlotted_of_conform slots h.2⟩

/-- A slot of its member has its own slots. -/
theorem Slot.slotted_of_conforms {m : Member} (slot : Slot) (h : slot.known.Conforms s m)
    : slot.Slotted s m := by
  cases slot with
  | one v =>
      simp only [Slot.known, Slot.Conforms] at h
      unfold Slot.Slotted
      cases shape : m.shape with
      | single _ | optional _ =>
          simp only [shape] at h ⊢
          exact Value.slotted_of_conforms v h
      | repeated _ _ _ | map _ _ | oneof _ => simp only [shape] at h
  | none | many _ | entries _ | choice _ _ => trivial

end

theorem Message.Slotted.slots {t : MessageType} {m : Message} (h : m.Slotted s t)
    (form : t.form = .members)
    : slotsSlotted s t.members m.slots := by
  cases m with
  | mk slots unknown => exact h form

/-- An empty value has its slots. -/
theorem Schema.Lawful.slotted_emptyValue (h : s.Lawful) (type : ValueType)
    : (s.emptyValue type).Slotted s type :=
  Value.slotted_of_conforms _ (Value.Conforms.known _ (h.conforms_emptyValue type))

namespace Json

variable {read : MessageReader}

section

variable (lawful : s.Lawful)
  (kept : ∀ name m (r : Reader), m.Slotted s (s.type name)
    → (read (s.type name) m r).1.Slotted s (s.type name))

include kept

theorem slotted_readValue (field : String) {type : ValueType} {current : Value}
    (h : current.Slotted s type) (r : Reader)
    : (readValue s read field type current r).1.Slotted s type := by
  unfold readValue
  split
  · trivial
  · exact kept _ _ _ h
  · exact h

include lawful

theorem slotted_readSlot {m : Member} {slot : Slot} (h : slot.Slotted s m) (r : Reader)
    : (readSlot s read m slot r).1.Slotted s m := by
  unfold readSlot
  dsimp only
  split
  · rename_i type v shape
    have current : v.Slotted s type := by simpa only [Slot.Slotted, shape] using h
    split
    · simp only [Slot.Slotted, shape]
      exact lawful.slotted_emptyValue type
    · simp only [Slot.Slotted, shape]
      exact slotted_readValue kept m.name current _
  · rename_i type shape
    split
    · trivial
    · simp only [Slot.Slotted, shape]
      refine slotted_readValue kept m.name ?_ _
      split
      · simpa only [Slot.Slotted, shape] using h
      · exact lawful.slotted_emptyValue type
  · split <;> trivial
  · split <;> trivial
  · exact h

end

theorem readMember_cons (read : MessageReader) (key : String) (m : Member) (members : List Member)
    (slot : Slot) (slots : List Slot) (r : Reader)
    : readMember s read key (m :: members) (slot :: slots) r
        = if m.isCalled key then
            some ((readSlot s read m slot r).1 :: slots, (readSlot s read m slot r).2)
          else (readMember s read key members slots r).map
            fun (slots, r) => (slot :: slots, r) := by
  rw [readMember]
  unfold Member.isCalled
  cases m.shape <;> rfl

theorem readChoice_cons (read : MessageReader) (key : String) (m : Member) (members : List Member)
    (slot : Slot) (slots : List Slot) (r : Reader)
    : readChoice s read key (m :: members) (slot :: slots) r
        = match m.called? key with
          | some a =>
              some ((readAlternative s read a slot r).1 :: slots,
                (readAlternative s read a slot r).2)
          | none =>
              (readChoice s read key members slots r).map fun (slots, r) => (slot :: slots, r) := by
  rw [readChoice]
  unfold Member.called?
  cases m.shape <;> rfl

/-- The key names a member, whose slot is read; or none. -/
theorem readMember_cases (read : MessageReader) (key : String) {members : List Member}
    {slots : List Slot} (slotted : slotsSlotted s members slots)
    : members.find? (·.isCalled key) = none ∧ (∀ r, readMember s read key members slots r = none)
      ∨ ∃ m slot, members.find? (·.isCalled key) = some m ∧ slot.Slotted s m
          ∧ ∀ r, ∃ slots', readMember s read key members slots r
                = some (slots', (readSlot s read m slot r).2)
              ∧ ((readSlot s read m slot r).1.Slotted s m → slotsSlotted s members slots') := by
  induction members generalizing slots with
  | nil => exact .inl ⟨rfl, fun _ => rfl⟩
  | cons m members ih =>
      cases slots with
      | nil => cases slotted
      | cons slot slots =>
          obtain ⟨own, others⟩ := slotted
          simp only [readMember_cons]
          cases called : m.isCalled key with
          | true =>
              refine .inr ⟨m, slot, by rw [List.find?_cons, called], own, fun r => ?_⟩
              exact ⟨_, rfl, fun new => ⟨new, others⟩⟩
          | false =>
              rw [List.find?_cons, called]
              rcases ih others with ⟨unknown, missing⟩ | ⟨m', slot', found, own', reads⟩
              · exact .inl ⟨unknown, fun r => by simp [missing]⟩
              · refine .inr ⟨m', slot', found, own', fun r => ?_⟩
                obtain ⟨slots', same, kept⟩ := reads r
                exact ⟨slot :: slots', by simp [same], fun new => ⟨own, kept new⟩⟩

/-- The key names an alternative, whose oneof is read; or none. -/
theorem readChoice_cases (read : MessageReader) (key : String) {members : List Member}
    {slots : List Slot} (slotted : slotsSlotted s members slots)
    : members.findSome? (·.called? key) = none ∧ (∀ r, readChoice s read key members slots r = none)
      ∨ ∃ a slot, members.findSome? (·.called? key) = some a
          ∧ ∀ r, ∃ slots', readChoice s read key members slots r
                = some (slots', (readAlternative s read a slot r).2)
              ∧ slotsSlotted s members slots' := by
  induction members generalizing slots with
  | nil => exact .inl ⟨rfl, fun _ => rfl⟩
  | cons m members ih =>
      cases slots with
      | nil => cases slotted
      | cons slot slots =>
          obtain ⟨own, others⟩ := slotted
          simp only [readChoice_cons]
          cases called : m.called? key with
          | some a =>
              refine .inr ⟨a, slot, by rw [List.findSome?_cons, called], fun r => ⟨_, rfl, ?_⟩⟩
              refine ⟨?_, others⟩
              unfold readAlternative
              split
              · exact own
              · trivial
          | none =>
              rw [List.findSome?_cons, called]
              rcases ih others with ⟨unknown, missing⟩ | ⟨a, slot', found, reads⟩
              · exact .inl ⟨unknown, fun r => by simp [missing]⟩
              · refine .inr ⟨a, slot', found, fun r => ?_⟩
                obtain ⟨slots', same, kept⟩ := reads r
                exact ⟨slot :: slots', by simp [same], own, kept⟩

/-- The value of a key is read as that of a member or of an alternative that declares it, or is
passed over.
-/
theorem readKey_cases (read : MessageReader) {t : MessageType} (form : t.form = .members)
    (key : String) {slots : List Slot} (slotted : slotsSlotted s t.members slots) (r : Reader)
    : t.declared? key = none ∧ readKey s read t key slots r = (slots, r.skip)
      ∨ (∃ m slot slots', t.declared? key = some (m.name, m.shape) ∧ slot.Slotted s m
          ∧ readKey s read t key slots r = (slots', (readSlot s read m slot r).2)
          ∧ ((readSlot s read m slot r).1.Slotted s m → slotsSlotted s t.members slots'))
      ∨ ∃ a slot slots', t.declared? key = some (a.name, .single a.type)
          ∧ readKey s read t key slots r = (slots', (readAlternative s read a slot r).2)
          ∧ slotsSlotted s t.members slots' := by
  simp only [MessageType.declared?, form, readKey]
  rcases readMember_cases read key slotted with ⟨unknown, missing⟩ | ⟨m, slot, found, own, reads⟩
  · simp only [unknown, missing]
    rcases readChoice_cases read key slotted with ⟨unknown, missing⟩ | ⟨a, slot, found, reads⟩
    · simp only [unknown, missing]
      exact .inl ⟨rfl, trivial⟩
    · obtain ⟨slots', same, kept⟩ := reads r
      simp only [found, same]
      exact .inr (.inr ⟨a, slot, slots', rfl, rfl, kept⟩)
  · obtain ⟨slots', same, kept⟩ := reads r
    simp only [found, same]
    exact .inr (.inl ⟨m, slot, slots', rfl, own, rfl, kept⟩)

/-- What each member keeps is kept by the members of an object, by induction on what is left of the
document.
-/
theorem Reader.keys_keeps {α : Type} {P : α → Prop} {read : String → α → Reader → α × Reader}
    (keeps : ∀ key v (r : Reader), P v → P (read key v r).1) {v : α} (h : P v) (r : Reader)
    : P (r.keys read v).1 := by
  fun_induction Reader.keys read v r with
  | case1 v r r' reached => exact h
  | case2 v r key r' reached next _ ih => exact ih (keeps key v r' h)
  | case3 v r key r' reached next _ => exact keeps key v r' h

theorem Reader.object_keeps {α : Type} {P : α → Prop} {read : String → α → Reader → α × Reader}
    (keeps : ∀ key v (r : Reader), P v → P (read key v r).1) {v : α} (h : P v) (r : Reader)
    : P (r.object read v).1 := by
  rw [object]
  split
  · exact h
  · exact keys_keeps keeps h _

theorem slotted_readKey (lawful : s.Lawful)
    (kept : ∀ name m (r : Reader), m.Slotted s (s.type name)
      → (read (s.type name) m r).1.Slotted s (s.type name))
    {t : MessageType} (form : t.form = .members) (key : String) {slots : List Slot}
    (slotted : slotsSlotted s t.members slots) (r : Reader)
    : slotsSlotted s t.members (readKey s read t key slots r).1 := by
  rcases readKey_cases read form key slotted r
    with ⟨_, same⟩ | ⟨m, slot, slots', _, own, same, new⟩
    | ⟨a, slot, slots', _, same, new⟩ <;> rw [same]
  · exact slotted
  · exact new (slotted_readSlot lawful kept own r)
  · exact new

/-- Reading leaves a slot for each member: by induction on the measure that bounds the messages
inside.
-/
theorem slotted_readMessage (lawful : s.Lawful) (t : MessageType) (m : Message) (r : Reader)
    (slotted : m.Slotted s t)
    : (readMessage s t m r).1.Slotted s t := by
  induction measure : readMeasure t r using Nat.strongRecOn generalizing t m r with
  | ind n ih =>
      obtain ⟨slots, unknown⟩ := m
      rw [readMessage]
      intro form
      simp only [form]
      refine Reader.object_keeps (fun key slots r' own => ?_) (slotted form) r
      refine slotted_readKey lawful (fun name m r'' h => ?_) form key own r'
      split
      · rename_i less
        exact ih _ (measure ▸ less) _ m r'' h rfl
      · exact h

-----------------------------------------------------------------------------------------
-- Readings that take a value and record its fields
-----------------------------------------------------------------------------------------

/-- A reading that takes the value records just the fields, which depend on the path. -/
def Notes (read : Reader → Reader) (n : Node) (fields : Path → List Path) : Prop :=
  ∀ (r : Reader) more, r.Faces n more → r.Took (read r) → r.Recorded (read r) (fields r.path)

namespace Reader

variable {α : Type} {r r' : Reader} {n : Node} {more : List UInt8} {container : Container}

/-- What stands behind the value is what is left when it is taken. -/
theorem Took.rest_eq (took : r.Took r') (faces : r.Faces n more)
    : r'.rest = more := by
  have skips := took.skips
  rw [faces.text] at skips
  exact skips.eq_of_skipValue (skipValue_of_room (Nat.lt_succ_self n.nesting) faces.ends)

/-- The values that begin with a container are the containers of its kind. -/
theorem Faces.eq_of_opening (faces : r.Faces n more) {rest : List UInt8}
    (opening : Json.dropBlanks r.rest = container.opening :: rest)
    : ValueKind.ofByte? container.opening = some n.kind := by
  obtain ⟨b, first, kind⟩ := faces.head
  rw [faces.dropBlanks] at opening
  rw [opening] at first
  cases first
  exact kind

theorem eq_inside {first : Bool} {frames : List Frame} (idle : r.pending = false)
    (inside : r.frames = ⟨container, first⟩ :: frames)
    : r = Reader.inside { r with frames } container first r.rest [] := by
  obtain ⟨fault, input, rest, path, mask, own, pending, registry⟩ := r
  cases idle
  cases inside
  rfl

/-- The members of an object record what each of them records, one after the other: by induction on
them.
-/
theorem recorded_keys {P : α → Prop} {read : String → α → Reader → α × Reader}
    {own : Field → Path → List Path} {fields : List Field}
    (onward : ∀ key v (r : Reader), r.Onward (read key v r).2)
    (outcome : ∀ key v (r : Reader), r.fault = none → r.Outcome True (read key v r).2)
    (keeps : ∀ key v (r : Reader), P v → P (read key v r).1)
    (notes : ∀ field ∈ fields, ∀ v, P v →
      Notes (fun r => (read field.key v r).2) field.value (own field))
    {frames : List Frame} {v : α} (h : P v) (behind : Bool) (sound : r.fault = none)
    (idle : r.pending = false) (inside : r.frames = ⟨.object, !behind⟩ :: frames)
    (text : r.rest = utf8 (fieldsText behind fields ++ "\x7d") ++ more)
    (done : (r.keys read v).2.fault = none)
    : r.Recorded (r.keys read v).2 (fields.flatMap fun field => own field r.path) := by
  induction fields generalizing v r behind with
  | nil =>
      have reached : (Reader.inside { r with frames } .object (!behind) r.rest []).nextKey
          = (none, Reader.behind { r with frames } more []) := by
        rw [text]
        refine nextKey_end ?_ behind
        exact sound
      rw [← eq_inside idle inside] at reached
      rw [keys, reached]
      exact (silent_nextKey r).of_eq reached
  | cons field fields ih =>
      obtain ⟨key, n⟩ := field
      obtain ⟨first, others⟩ := List.forall_mem_cons.mp notes
      have reached := nextKey_inside (r := { r with frames }) sound behind key n fields more []
      rw [← text, ← eq_inside idle inside] at reached
      generalize reading : Reader.reached { r with frames } .object _ [] = r₁ at reached
      have moved := (silent_nextKey r).of_eq reached
      have faces : r₁.Faces n (utf8 (fieldsText true fields ++ "\x7d") ++ more) := by
        subst reading
        exact ⟨sound, rfl, ends_fieldsText fields more⟩
      have inner : r₁.frames = ⟨.object, false⟩ :: frames := by
        subst reading
        rfl
      rw [keys_unfold onward, reached] at done ⊢
      dsimp only at done ⊢
      rcases outcome key v r₁ faces.sound with failed | ⟨_, left⟩ | took
      · rw [keys_of_fault _ _ failed] at done
        rw [done] at failed
        cases failed
      · have failed := isSome_keys_of_pending read (read key v r₁).1 left.sound
          (left.pending.trans ?_)
        · rw [done] at failed
          cases failed
        · subst reading
          rfl
      · have noted := first v h r₁ _ faces took
        have behind := ih others (keeps key v r₁ h) true took.sound took.pending
          (took.frames.trans inner) (took.rest_eq faces) done
        have whole := (moved.trans noted).trans behind
        rw [List.flatMap_cons]
        rw [noted.path, moved.path] at whole
        exact whole

/-- The elements of an array record what each of them records, one after the other: by induction on
them.
-/
theorem recorded_elements {read : α → Reader → α × Reader} {own : Node → Path → List Path}
    {items : List Node}
    (outcome : ∀ v (r : Reader), r.fault = none → r.Outcome True (read v r).2)
    (notes : ∀ n ∈ items, ∀ v, Notes (fun r => (read v r).2) n (own n))
    {frames : List Frame} {v : α} (behind : Bool) (sound : r.fault = none)
    (idle : r.pending = false) (inside : r.frames = ⟨.array, !behind⟩ :: frames)
    (text : r.rest = utf8 (itemsText behind items ++ "]") ++ more)
    (done : (r.elements read v).2.fault = none)
    : r.Recorded (r.elements read v).2 (items.flatMap fun n => own n r.path) := by
  induction items generalizing v r behind with
  | nil =>
      have reached : (Reader.inside { r with frames } .array (!behind) r.rest []).nextElement
          = (false, Reader.behind { r with frames } more []) := by
        rw [text]
        refine nextElement_end ?_ behind
        exact sound
      rw [← eq_inside idle inside] at reached
      rw [elements, reached]
      exact (silent_nextElement r).of_eq reached
  | cons n items ih =>
      obtain ⟨first, others⟩ := List.forall_mem_cons.mp notes
      have reached := nextElement_inside (r := { r with frames }) sound behind n items more []
      rw [← text, ← eq_inside idle inside] at reached
      generalize reading : Reader.reached { r with frames } .array _ [] = r₁ at reached
      have moved := (silent_nextElement r).of_eq reached
      have faces : r₁.Faces n (utf8 (itemsText true items ++ "]") ++ more) := by
        subst reading
        exact ⟨sound, rfl, ends_itemsText items more⟩
      have inner : r₁.frames = ⟨.array, false⟩ :: frames := by
        subst reading
        rfl
      rw [elements_unfold outcome, reached] at done ⊢
      dsimp only at done ⊢
      rcases outcome v r₁ faces.sound with failed | ⟨_, left⟩ | took
      · rw [elements_of_fault _ _ failed] at done
        rw [done] at failed
        cases failed
      · have failed := isSome_elements_of_pending read (read v r₁).1 left.sound
          (left.pending.trans ?_)
        · rw [done] at failed
          cases failed
        · subst reading
          rfl
      · have noted := first v r₁ _ faces took
        have behind := ih others true took.sound took.pending (took.frames.trans inner)
          (took.rest_eq faces) done
        have whole := (moved.trans noted).trans behind
        rw [List.flatMap_cons]
        rw [noted.path, moved.path] at whole
        exact whole

end Reader

section

variable {α : Type} {n : Node} {fields : Path → List Path}

theorem notes_object {P : α → Prop} {read : String → α → Reader → α × Reader}
    {own : Field → Path → List Path} {members : List Field}
    (onward : ∀ key v (r : Reader), r.Onward (read key v r).2)
    (outcome : ∀ key v (r : Reader), r.fault = none → r.Outcome True (read key v r).2)
    (keeps : ∀ key v (r : Reader), P v → P (read key v r).1)
    (notes : ∀ field ∈ members, ∀ v, P v →
      Notes (fun r => (read field.key v r).2) field.value (own field)) {v : α} (h : P v)
    : Notes (fun r => (r.object read v).2) (.object members)
        fun path => members.flatMap fun field => own field path := by
  intro r more faces took
  have text : utf8 (Node.object members).text ++ more
      = 123 :: (utf8 (fieldsText false members ++ "\x7d") ++ more) := by
    rw [Node.text, String.append_assoc, utf8_append]
    rfl
  dsimp only at took ⊢
  have sound := took.sound
  rw [Reader.object] at sound ⊢
  rcases enter_of_faces .object faces text (Nat.succ_pos _) with entered | ⟨refused, fault, _⟩
  · rw [entered] at sound ⊢
    have inside := Reader.recorded_keys (r := r.inside .object true _ []) onward
      outcome keeps notes h
      false faces.sound rfl rfl rfl sound
    exact ⟨inside.path, inside.registry, inside.mask⟩
  · rw [show r.enter .object = (false, (r.enter .object).2) from Prod.ext refused rfl] at sound
    rw [sound] at fault
    cases fault

theorem notes_array {read : α → Reader → α × Reader} {own : Node → Path → List Path}
    {items : List Node}
    (outcome : ∀ v (r : Reader), r.fault = none → r.Outcome True (read v r).2)
    (notes : ∀ n ∈ items, ∀ v, Notes (fun r => (read v r).2) n (own n)) (v : α)
    : Notes (fun r => (r.array read v).2) (.array items)
        fun path => items.flatMap fun n => own n path := by
  intro r more faces took
  have text : utf8 (Node.array items).text ++ more
      = 91 :: (utf8 (itemsText false items ++ "]") ++ more) := by
    rw [Node.text, String.append_assoc, utf8_append]
    rfl
  dsimp only at took ⊢
  have sound := took.sound
  rw [Reader.array] at sound ⊢
  rcases enter_of_faces .array faces text (Nat.succ_pos _) with entered | ⟨refused, fault, _⟩
  · rw [entered] at sound ⊢
    have inside := Reader.recorded_elements (r := r.inside .array true _ []) outcome notes false
      faces.sound rfl rfl rfl sound
    exact ⟨inside.path, inside.registry, inside.mask⟩
  · rw [show r.enter .array = (false, (r.enter .array).2) from Prod.ext refused rfl] at sound
    rw [sound] at fault
    cases fault

/-- No value of another kind is taken as an object. -/
theorem notes_object_of_ne {read : String → α → Reader → α × Reader} (v : α)
    (other : n.kind ≠ .object)
    : Notes (fun r => (r.object read v).2) n fields := by
  intro r more faces took
  have sound := took.sound
  dsimp only at sound
  rw [Reader.object] at sound
  rcases Reader.enter_cases .object r with ⟨failed, same⟩ | ⟨r', same, failed, _⟩
    | ⟨rest, _, opening, _, same⟩
  · rw [same] at sound
    rw [sound] at failed
    cases failed
  · rw [same] at sound
    rw [sound] at failed
    cases failed
  · exact absurd (Option.some.inj (faces.eq_of_opening opening)).symm other

/-- No value of another kind is taken as an array. -/
theorem notes_array_of_ne {read : α → Reader → α × Reader} (v : α) (other : n.kind ≠ .array)
    : Notes (fun r => (r.array read v).2) n fields := by
  intro r more faces took
  have sound := took.sound
  dsimp only at sound
  rw [Reader.array] at sound
  rcases Reader.enter_cases .array r with ⟨failed, same⟩ | ⟨r', same, failed, _⟩
    | ⟨rest, _, opening, _, same⟩
  · rw [same] at sound
    rw [sound] at failed
    cases failed
  · rw [same] at sound
    rw [sound] at failed
    cases failed
  · exact absurd (Option.some.inj (faces.eq_of_opening opening)).symm other

theorem notes_of_silent {read : Reader → Reader} (silent : ∀ r : Reader, r.Recorded (read r) [])
    : Notes read n fun _ => [] :=
  fun r _ _ _ => silent r

theorem Notes.record {read : Reader → Reader} (name : String) (h : Notes read n fields)
    : Notes (fun r => read (r.addField name)) n fun path => path.push name :: fields path :=
  fun r more faces took =>
    (Reader.recorded_addField r name).trans (h (r.addField name) more
      ⟨faces.sound, faces.text, faces.ends⟩ ⟨took.sound, took.skips, took.frames, took.pending⟩)

theorem Notes.field {read : Reader → α × Reader} (name : String)
    (h : Notes (fun r => (read r).2) n fields)
    : Notes (fun r => (r.withField name read).2) n fun path => fields (path.push name) :=
  fun r more faces took =>
    .withField (h { r with path := r.path.push name } more ⟨faces.sound, faces.text, faces.ends⟩
      ⟨took.sound, took.skips, took.frames, took.pending⟩)

/-- A null is taken without a record, and any other value is read. -/
theorem Notes.nullOr (read : Reader → α × Reader) (v : α) (h : Notes (fun r => (read r).2) n fields)
    (empty : n = .null → fields = fun _ => [])
    : Notes (fun r => (match r.null with
        | (true, r) => (v, r)
        | (false, r) => read r).2) n fields := by
  intro r more faces took
  dsimp only at took ⊢
  by_cases null : n.kind = .null
  · obtain rfl : n = .null := by
      cases n with
      | null => rfl
      | bool | number | string | array | object => cases null
    rw [reads_null r more faces, empty rfl]
    exact ⟨rfl, rfl, rfl⟩
  · rw [faces.null_of_ne null] at took ⊢
    exact h r more faces took

/-- What stays in front of the value does not take it. -/
theorem notes_of_stay {read : Reader → Reader}
    (stay : ∀ r : Reader, (read r).fault = none → (read r).rest = r.rest)
    : Notes read n fields :=
  fun r _ _ took =>
    absurd (stay r took.sound ▸ took.skips.length_lt) (Nat.lt_irrefl r.rest.length)

theorem Notes.settle {read : Reader → α × Reader} (cause : α → Option Cause)
    (h : Notes (fun r => (read r).2) n fields)
    : Notes (fun r => (read r).2.settle (cause (read r).1)) n fields := by
  intro r more faces took
  cases verdict : cause (read r).1 with
  | none =>
      simp only [verdict, Reader.settle] at took ⊢
      exact h r more faces took
  | some cause =>
      have failed := Reader.isSome_latch (read r).2 cause
      have sound := took.sound
      simp only [verdict, Reader.settle] at sound
      rw [sound] at failed
      cases failed

end

-----------------------------------------------------------------------------------------
-- Messages
-----------------------------------------------------------------------------------------

/-- An item nests less deep than its array. -/
theorem nesting_lt_of_item {n : Node} {items : List Node} (member : n ∈ items)
    : n.nesting < (Node.array items).nesting := by
  induction items with
  | nil => cases member
  | cons first items ih =>
      simp only [Node.nesting, itemsNesting] at ih ⊢
      rcases List.mem_cons.mp member with rfl | later
      · omega
      · have := ih later
        omega

/-- The value of a field nests less deep than its object. -/
theorem nesting_lt_of_field {field : Field} {fields : List Field} (member : field ∈ fields)
    : field.value.nesting < (Node.object fields).nesting := by
  induction fields with
  | nil => cases member
  | cons first fields ih =>
      obtain ⟨key, n⟩ := first
      simp only [Node.nesting, fieldsNesting] at ih ⊢
      rcases List.mem_cons.mp member with rfl | later
      · exact Nat.lt_succ_of_le (Nat.le_max_left _ _)
      · have := ih later
        omega

/-- A message that is read from the value records the declared keys in it. -/
def NotesMessages (s : Schema) (n : Node) : Prop :=
  ∀ t m, m.Slotted s t
    → Notes (fun r => (readMessage s t m r).2) n fun path => n.namedPaths s path t

section

variable {n : Node}

/-- Reading a value notes the paths inside it. -/
theorem notes_value (inner : NotesMessages s n) (field : String) {type : ValueType}
    {current : Value} (slotted : current.Slotted s type)
    : Notes (fun r => (readValue s (readMessage s) field type current r).2) n
        fun path => n.valuePaths s (path.push field) type := by
  cases type with
  | scalar type => exact notes_of_silent fun r => silent_scalar type r
  | message name =>
      cases current with
      | scalar v => exact notes_of_stay fun r _ => rfl
      | message m => exact (inner (s.type name) m slotted).field field

/-- Reading an element notes the paths inside it. -/
theorem notes_element (lawful : s.Lawful) (inner : NotesMessages s n) (field : String)
    (type : ValueType) (capacity : Option Nat) (vs : List Value)
    : Notes (fun r => (readElement s (readMessage s) field type capacity vs r).2) n
        fun path => n.valuePaths s (path.push field) type := by
  have judged := (notes_value inner field (lawful.slotted_emptyValue type)).settle
    fun v => (appendValue capacity vs v).2.map Cause.decode
  intro r more faces took
  have same : (readElement s (readMessage s) field type capacity vs r).2
      = (readValue s (readMessage s) field type (s.emptyValue type) r).2.settle
        ((appendValue capacity vs
          (readValue s (readMessage s) field type (s.emptyValue type) r).1).2.map
            Cause.decode) := by
    rw [readElement]
    rcases readValue s (readMessage s) field type (s.emptyValue type) r with ⟨v, after⟩
    simp only
    rcases appendValue capacity vs v with ⟨vs', _ | e⟩ <;> rfl
  dsimp only at took ⊢
  rw [same] at took ⊢
  exact judged r more faces took

/-- Reading an entry notes the paths inside its value. -/
theorem notes_entry (lawful : s.Lawful) (inner : NotesMessages s n) (field : String)
    (keyType : ScalarType) (type : ValueType) (key : String) (es : List Entry)
    : Notes (fun r => (readEntry s (readMessage s) field keyType type key es r).2) n
        fun path => n.valuePaths s (path.push field) type := by
  unfold readEntry
  cases keyOfText keyType key with
  | error refusal =>
      exact notes_of_stay fun r _ => Reader.latch_rest r _
  | ok key => exact notes_value inner field (lawful.slotted_emptyValue type)

/-- A null that stands for no value of the type is taken without a record. -/
theorem Notes.clearing {α : Type} (read : Reader → α × Reader) {fields : Path → List Path}
    (type : ValueType) (v : α) (h : Notes (fun r => (read r).2) n fields)
    (empty : n = .null → fields = fun _ => [])
    : Notes (fun r => (match clearingNull s type r with
        | (true, r) => (v, r)
        | (false, r) => read r).2) n fields := by
  unfold clearingNull
  split
  · exact h
  · exact .nullOr read v h empty

/-- A null names no paths. -/
theorem valuePaths_null (path : Path) (type : ValueType)
    : Node.null.valuePaths s path type = [] := by
  cases type <;> simp only [Node.valuePaths, Node.namedPaths]

/-- A null for a member names no paths inside it. -/
theorem heldPaths_null (path : Path) (shape : Shape)
    : Node.null.heldPaths s path shape = [] := by
  cases shape <;> simp [Node.heldPaths]

/-- Reading an alternative notes its path and those inside it. -/
theorem notes_alternative (lawful : s.Lawful) (inner : NotesMessages s n) (a : Alternative)
    (slot : Slot)
    : Notes (fun r => (readAlternative s (readMessage s) a slot r).2) n
        fun path => path.push a.name :: n.heldPaths s (path.push a.name) (.single a.type) := by
  let value := readValue s (readMessage s) a.name a.type (s.emptyValue a.type)
  have read : Notes (fun r => (value r).2) n fun path => n.valuePaths s (path.push a.name) a.type :=
    notes_value inner a.name (lawful.slotted_emptyValue a.type)
  have cleared := Notes.clearing (s := s)
    (fun r => (Slot.choice a.tag (value r).1, (value r).2)) a.type
    slot read fun null => by
      subst null
      simp only [valuePaths_null]
  simp only [heldPaths_single]
  exact cleared.record a.name

end

section

variable (flat : ∀ name, name ∉ wellKnownNames → (s.type name).form ≠ .any) (lawful : s.Lawful)

include flat

/-- A reading made of steps takes one value, or fails. -/
theorem outcome_program {α : Type} {F : Reading α} (program : Program .delegated F) {r : Reader}
    (sound : r.fault = none)
    : r.Outcome True (F (readMessage s) r).2 :=
  program.outcome (by decide) (still_readMessage flat) (outcome_readMessage flat) sound

include lawful

/-- The value of a member's key records the key, whether it is null or not, and what is below it. -/
theorem notes_slot {n : Node} (below : ∀ n', n'.nesting ≤ n.nesting → NotesMessages s n')
    {m : Member}
    {slot : Slot} (slotted : slot.Slotted s m)
    : Notes (fun r => (readSlot s (readMessage s) m slot r).2) n
        fun path => path.push m.name :: n.heldPaths s (path.push m.name) m.shape := by
  have inner := below n (Nat.le_refl _)
  have stays : Notes (fun r => r.addField m.name) n
      fun path => path.push m.name :: n.heldPaths s (path.push m.name) m.shape :=
    notes_of_stay fun r _ => rfl
  have empty : n = .null
      → (fun path : Path => n.heldPaths s (path.push m.name) m.shape) = fun _ => [] := by
    rintro rfl
    simp only [heldPaths_null]
  -- A value that may be null stands for the slot.
  have single (type : ValueType) {v : Value} (own : v.Slotted s type)
      (same : ∀ path : Path, n.heldPaths s path m.shape = n.valuePaths s path type) (cleared : Slot)
      : let value := readValue s (readMessage s) m.name type v
        Notes (fun r => (match clearingNull s type r with
          | (true, r) => (cleared, r)
          | (false, r) => (Slot.one (value r).1, (value r).2)).2) n
          fun path => n.heldPaths s (path.push m.name) m.shape := by
    intro value
    refine Notes.clearing (fun r => (Slot.one (value r).1, (value r).2)) type cleared ?_ empty
    simp only [same]
    exact notes_value inner m.name own
  unfold readSlot
  cases shape : m.shape with
  | single type =>
      rw [shape] at stays
      cases slot with
      | one v =>
          have own : v.Slotted s type := by simpa only [Slot.Slotted, shape] using slotted
          have noted :=
            single type own (fun path => by rw [shape, heldPaths_single]) (.one (s.emptyValue type))
          rw [shape] at noted
          exact noted.record m.name
      | none | many _ | entries _ | choice _ _ => exact stays
  | optional type =>
      have noted {v : Value} (own : v.Slotted s type) :=
        single type own (fun path => by rw [shape, heldPaths_optional]) .none
      simp only [shape] at noted
      cases slot with
      | one v =>
          have own : v.Slotted s type := by simpa only [Slot.Slotted, shape] using slotted
          exact (noted own).record m.name
      | none | many _ | entries _ | choice _ _ =>
          exact (noted (lawful.slotted_emptyValue type)).record m.name
  | repeated type packed capacity =>
      rw [shape] at stays empty
      cases slot with
      | many vs =>
          let element := readElement s (readMessage s) m.name type capacity
          have elements : Notes (fun r => (r.array element vs).2) n
              fun path => n.heldPaths s (path.push m.name) (.repeated type packed capacity) := by
            cases n with
            | array items =>
                simp only [heldPaths_repeated]
                refine notes_array (fun vs r sound => outcome_program flat
                  (program_element s m.name type capacity vs) sound) (fun n' member vs => ?_) vs
                exact notes_element lawful (below n' (Nat.le_of_lt (nesting_lt_of_item member)))
                  m.name type
                  capacity vs
            | null | bool _ | number _ | string _ | object _ => exact notes_array_of_ne vs nofun
          exact (Notes.nullOr (fun r => (Slot.many (r.array element vs).1, (r.array element vs).2))
            (.many []) elements empty).record m.name
      | none | one _ | entries _ | choice _ _ => exact stays
  | map key type =>
      rw [shape] at stays empty
      cases slot with
      | entries es =>
          let entry := readEntry s (readMessage s) m.name key type
          have entries : Notes (fun r => (r.object entry es).2) n
              fun path => n.heldPaths s (path.push m.name) (.map key type) := by
            cases n with
            | object fields =>
                simp only [heldPaths_map]
                have program (name : String) (es : List Entry) :=
                  program_entry s m.name key type name es
                refine notes_object (P := fun _ => True)
                  (fun name es r => (program name es).onward (onward_readMessage flat) r)
                  (fun name es r sound => outcome_program flat (program name es) sound)
                  (fun _ _ _ _ => trivial) (fun field member es _ => ?_) trivial
                exact notes_entry lawful (below _ (Nat.le_of_lt (nesting_lt_of_field member)))
                  m.name key
                  type field.key es
            | null | bool _ | number _ | string _ | array _ => exact notes_object_of_ne es nofun
          exact (Notes.nullOr (fun r => (Slot.entries (r.object entry es).1, (r.object entry es).2))
            (.entries []) entries empty).record m.name
      | none | one _ | many _ | choice _ _ => exact stays
  | oneof alternatives =>
      rw [shape] at stays
      exact stays

/-- The value of a key records what the member adds to the paths of the object. -/
theorem notes_key {t : MessageType} (form : t.form = .members) {field : Field}
    (below : ∀ n', n'.nesting ≤ field.value.nesting → NotesMessages s n') {slots : List Slot}
    (slotted : slotsSlotted s t.members slots)
    : Notes (fun r => (readKey s (readMessage s) t field.key slots r).2) field.value
        fun path => field.namedPaths s path t := by
  intro r more faces took
  rcases readKey_cases (readMessage s) form field.key slotted r with ⟨unknown, same⟩
    | ⟨m, slot, slots', declared, own, same, _⟩ | ⟨a, slot, slots', declared, same, _⟩
    <;> simp only [same] at took ⊢
  · simp only [Field.namedPaths, unknown]
    exact r.silent_skip
  · simp only [Field.namedPaths, declared]
    exact notes_slot flat lawful below own r more faces took
  · simp only [Field.namedPaths, declared]
    exact notes_alternative lawful (below _ (Nat.le_refl _)) a slot r more faces took

/-- A message records the declared keys in the value that it takes: by induction on how deep the
value nests.
-/
theorem notes_readMessage (dynamic : (s.type dynamicType).form ≠ .members) (n : Node)
    : NotesMessages s n := by
  induction nesting : n.nesting using Nat.strongRecOn generalizing n with
  | ind depth ih =>
      intro t m slotted
      by_cases form : t.form = .members
      · obtain ⟨slots, unknown⟩ := m
        have unfolded (r : Reader) : (readMessage s t ⟨slots, unknown⟩ r).2
            = (r.object (readKey s (readMessage s) t) slots).2 := by
          rw [readMessage_unfold flat]
          simp only [readSlots, form]
        simp only [unfolded]
        cases n with
        | object fields =>
            simp only [Node.namedPaths, fieldsPaths_eq]
            refine notes_object (P := slotsSlotted s t.members)
              (fun key slots r => (program_key s t key slots).onward (onward_readMessage flat) r)
              (fun key slots r sound => outcome_program flat (program_key s t key slots) sound)
              (fun key slots r own => slotted_readKey lawful (fun name m r own =>
                slotted_readMessage lawful (s.type name) m r own) form key own r)
              (fun field member slots own => ?_) (slotted form)
            refine notes_key flat lawful form (fun n' less => ?_) own
            exact ih _ (by have := nesting_lt_of_field member; omega) n' rfl
        | null | bool _ | number _ | string _ | array _ => exact notes_object_of_ne slots nofun
      · simp only [namedPaths_of_form form]
        exact notes_of_silent fun r => silent_readMessage dynamic form m r

end

-----------------------------------------------------------------------------------------
-- Documents
-----------------------------------------------------------------------------------------

/-- The fields that come out of a document are those that its reader has recorded. -/
theorem mask_of_decodeInto {registry : Option Registry} {t : MessageType} {m : Message}
    {bytes : List UInt8} {mask : PathSet} (read : (decodeInto s registry t m bytes).2 = .ok mask)
    : (readMessage s t m (Reader.ofBytes bytes registry)).2.fault = none
      ∧ mask = (readMessage s t m (Reader.ofBytes bytes registry)).2.mask := by
  obtain ⟨sound, blank⟩ := decodeInto_ok.mp ⟨mask, read⟩
  rw [decodeInto] at read
  simp only [Reader.finish_of_blank sound blank] at read
  cases read
  exact ⟨sound, rfl⟩

/-- The names in a type of the schema have no dots. -/
theorem dotlessNames_type {own : List MessageType} (dotless : ∀ t ∈ own, t.DotlessNames)
    (name : String)
    : ((WellKnown.schemaWith own).type name).DotlessNames := by
  unfold Schema.type
  cases found : (WellKnown.schemaWith own).types.find? fun t => t.name == name with
  | none => exact fun _ listed => absurd listed List.not_mem_nil
  | some t =>
      rcases List.mem_append.mp (List.mem_of_find?_eq_some found) with listed | listed
      · exact dotless t listed
      · have none : ∀ t ∈ WellKnown.types, t.DotlessNames := by decide
        exact none t listed

/-- A message that is read from a document records the paths of the declared keys in it, each where
it first stands, and each behind the path in which it lies.
-/
theorem captured_of_decodeInto {own : List MessageType} (lawful : (WellKnown.schemaWith own).Lawful)
    (plain : ∀ t ∈ own, t.form ≠ .any) {t : MessageType}
    (dotless : ∀ t' ∈ t :: own, t'.DotlessNames) {m : Message} (json : t.HasJson)
    (typed : m.Typed (WellKnown.schemaWith own) t) {w : WideNode} {text : List Char}
    (spelled : Padded w.Spells text) {registry : Option Registry} {mask : PathSet}
    (read : (decodeInto (WellKnown.schemaWith own) registry t m (utf8 (String.ofList text))).2
      = .ok mask)
    : ∃ n : Node, n.wide = w
      ∧ mask.paths
          = ((n.namedPaths (WellKnown.schemaWith own) .root t).map Path.dotted).eraseDups
      ∧ ∀ before behind parent name, '.' ∉ name.toList
          → mask.paths = before ++ (parent ++ "." ++ name) :: behind → parent ∈ before := by
  let s := WellKnown.schemaWith own
  have flat := form_type_ne_any plain
  have dynamic : (s.type dynamicType).form ≠ .members := by
    rw [show s.type dynamicType = WellKnown.valueType from type_value (hasWellKnown lawful)]
    decide
  obtain ⟨sound, rfl⟩ := mask_of_decodeInto read
  have took {bytes : List UInt8}
      (sound : (readMessage s t m (Reader.ofBytes bytes registry)).2.fault = none)
      : (Reader.ofBytes bytes registry).Took
        (readMessage s t m (Reader.ofBytes bytes registry)).2 := by
    rcases outcome_readMessage_of_fits flat (r := Reader.ofBytes bytes registry)
      (fits_of_typed json typed) rfl with failed | ⟨never, _⟩ | took
    · rw [sound] at failed
      cases failed
    · exact never.elim
    · exact took
  obtain ⟨n, rfl⟩ := exists_node_of_skips spelled (took sound).skips
  refine ⟨n, rfl, ?_⟩
  -- The shortest text of the tree is read alike.
  have shortest : Padded n.wide.Spells n.text.toList :=
    padded_of_spells (n.spells_wide n.spells_text)
  have beside : (Reader.ofBytes (utf8 (String.ofList text)) registry).Alike
      (Reader.ofBytes (utf8 (String.ofList n.text.toList)) registry) :=
    ⟨rfl, rfl, rfl, rfl, rfl, rfl, fun _ => beside_of_spells spelled shortest⟩
  have alike := (same_readMessage flat t m beside).2
  rw [String.ofList_toList] at alike
  have faces : (Reader.ofBytes (utf8 n.text) registry).Faces n [] :=
    ⟨rfl, (List.append_nil _).symm, nofun⟩
  have recorded := notes_readMessage flat lawful dynamic n t m (m.slotted_of_typed typed) _ _ faces
    (took (alike.sound sound))
  have grows := growsFrom_namedPaths (dotlessNames_type (fun t' listed => dotless t'
    (List.mem_cons_of_mem _ listed))) .root (dotless t List.mem_cons_self) n
  have paths : (readMessage s t m
    (Reader.ofBytes (utf8 (String.ofList text)) registry)).2.mask.paths
      = ((n.namedPaths s .root t).map Path.dotted).eraseDups := by
    rw [alike.mask, recorded.mask]
    exact PathSet.paths_foldl_add (grows.dotless Path.dotless_root)
  refine ⟨paths, fun before behind parent name own split => ?_⟩
  rw [paths] at split
  exact grows.parent_mem own split

/-- A message that may hold one of its own type. -/
def treeType : MessageType where
  name := "t.Tree"
  members := [
    ⟨1, "id", "id", .optional (.scalar .int32)⟩,
    ⟨2, "sub_tree", "subTree", .optional (.message "t.Tree")⟩]

/-- A key that is repeated under its other name, one that is unknown, and one whose value is null.
-/
theorem captured_of_decodeInto_tree
    : let s := WellKnown.schemaWith [treeType]
      let m : Message := ⟨[.none, .none], []⟩
      let n : Node := .object [⟨"subTree", .object [⟨"id", .null⟩]⟩, ⟨"other", .array [.bool true]⟩,
        ⟨"sub_tree", .object []⟩]
      let mask : PathSet := ⟨["sub_tree", "sub_tree.id"]⟩
      s.Lawful ∧ (∀ t ∈ [treeType], t.form ≠ .any) ∧ (∀ t ∈ [treeType, treeType], t.DotlessNames)
      ∧ treeType.HasJson ∧ m.Typed s treeType ∧ Padded n.wide.Spells n.text.toList
      ∧ (decodeInto s none treeType m (utf8 (String.ofList n.text.toList))).2 = .ok mask
      ∧ ∃ n' : Node, n'.wide = n.wide
        ∧ mask.paths = ((n'.namedPaths s .root treeType).map Path.dotted).eraseDups
        ∧ ∀ before behind parent name, '.' ∉ name.toList
            → mask.paths = before ++ (parent ++ "." ++ name) :: behind → parent ∈ before := by
  intro s m n mask
  have lawful : s.Lawful := WellKnown.lawful_schemaWith (by decide) (by decide) (by decide)
  have plain : ∀ t ∈ [treeType], t.form ≠ .any := by decide
  have dotless : ∀ t ∈ [treeType, treeType], t.DotlessNames := by decide
  have json : treeType.HasJson := .members
  have typed : m.Typed s treeType := ⟨⟨trivial, trivial, rfl⟩, rfl⟩
  have spelled : Padded n.wide.Spells n.text.toList :=
    padded_of_spells (n.spells_wide n.spells_text)
  have read : (decodeInto s none treeType m (utf8 (String.ofList n.text.toList))).2 = .ok mask := by
    decide +kernel
  exact ⟨lawful, plain, dotless, json, typed, spelled, read,
    captured_of_decodeInto lawful plain dotless json typed spelled read⟩

end Json

end Protobuf
