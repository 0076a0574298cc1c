import Protobuf.Proofs.Json.Documents
import Protobuf.Proofs.Json.Scalars
import Protobuf.Proofs.Message.MapEntries

/-! Maps in storage that keeps no order.  A hash map may hold its entries in any order, and in
another one after each insertion; the writers visit them in the order of their keys.  So what is
written depends on the entries and neither on their storage nor on the order in which they were
inserted.
-/

namespace Protobuf

open Wire

variable {s : Schema} {t : MessageType} {key : ScalarType} {value : ValueType}
  {ds es fs gs done stored visited : List Entry}

-----------------------------------------------------------------------------------------
-- Entries in any order
-----------------------------------------------------------------------------------------

/-- What a map without an order may hold after entries have been inserted one after the other: an
entry takes the place of the one with its key, and all of them may be moved.
-/
inductive Hashed : List Entry → List Entry → Prop
  | empty : Hashed [] []
  | insert {done stored stored' : List Entry} {e : Entry}
    (earlier : Hashed done stored)
    (moved : stored'.Perm (e :: stored.filter fun d => d.key ≠ e.key))
    : Hashed (done ++ [e]) stored'

/-- The entries as sorting by key leaves them. -/
structure Visited (stored visited : List Entry) : Prop where
  all : visited.Perm stored
  sorted : visited.Pairwise fun a b => Scalar.compareKeys a.key b.key ≠ .gt

theorem Ordered.nodup (h : Ordered key es)
    : es.Nodup :=
  List.Nodup.of_map _ h.distinct

/-- Inserting into a list in order replaces the entry with the key. -/
theorem Ordered.insertEntry_perm (isKey : key.isKey) (h : Ordered key es) {e : Entry}
    (typed : e.key.hasType key)
    : (Protobuf.insertEntry e.key e.value es).Perm (e :: es.filter fun d => d.key ≠ e.key) := by
  obtain ⟨k, v⟩ := e
  have fresh : (⟨k, v⟩ : Entry) ∉ es.filter fun d => d.key ≠ k := by simp
  have nodup := List.nodup_cons.mpr ⟨fresh, h.nodup.filter fun d => d.key ≠ k⟩
  refine (List.perm_ext_iff_of_nodup (h.insertEntry isKey typed).nodup nodup).mpr fun x => ?_
  simp [mem_insertEntry isKey typed h x]

/-- A map without an order holds the entries of the map in order, by induction on the insertions. -/
theorem Hashed.perm (isKey : key.isKey) (h : Hashed done stored)
    (typed : ∀ e ∈ done, e.key.hasType key)
    : stored.Perm (sortEntries done) := by
  induction h with
  | empty => exact .nil
  | @insert done stored stored' e earlier moved ih =>
      obtain ⟨first, last⟩ := List.forall_mem_append.mp typed
      have ordered := ordered_sortEntries isKey first
      have inserted := ordered.insertEntry_perm isKey (last e (by simp))
      have behind : sortEntries (done ++ [e]) = insertEntry e.key e.value (sortEntries done) := by
        simp [sortEntries, insertEntries]
      rw [behind]
      exact moved.trans ((((ih first).filter _).cons e).trans inserted.symm)

/-- There is one way to visit the entries of a map in the order of their keys. -/
theorem Visited.eq (isKey : key.isKey) (ordered : Ordered key es) (perm : stored.Perm es)
    (h : Visited stored visited)
    : visited = es := by
  have same := h.all.trans perm
  have distinct := (same.map (·.key)).nodup_iff.mpr ordered.distinct
  have typed (e : Entry) (member : e ∈ visited) : e.key.hasType key :=
    ordered.typed e (same.mem_iff.mp member)
  have ascending : visited.Pairwise Entry.Before := by
    refine (h.sorted.and (List.pairwise_map.mp distinct)).imp_of_mem
      fun {a b} first second both => ?_
    have apart : Scalar.compareKeys a.key b.key ≠ .eq := fun equal =>
      both.2 ((Scalar.compareKeys_eq_iff isKey (typed a first) (typed b second)).mp equal)
    cases order : Scalar.compareKeys a.key b.key with
    | lt => exact order
    | eq => exact absurd order apart
    | gt => exact absurd order both.1
  exact ascending.eq_of_mem_iff ordered.ascending fun x => same.mem_iff

/-- The entries in order are a way to visit them. -/
theorem Ordered.visited_self (ordered : Ordered key es) (perm : stored.Perm es)
    : Visited stored es := by
  refine ⟨perm.symm, ordered.ascending.imp fun {a b} before => ?_⟩
  rw [Entry.Before] at before
  simp [before]

-----------------------------------------------------------------------------------------
-- Messages in storage
-----------------------------------------------------------------------------------------

mutual

/-- The second value is the first one with maps in it stored in any order. -/
def Value.Arranged (s : Schema) (type : ValueType) : Value → Value → Prop
  | .scalar v, w => w = .scalar v
  | .message m, w =>
      match type with
      | .message name => ∃ n, w = .message n ∧ m.Arranged s (s.type name) n
      | .scalar _ => w = .message m
termination_by structural v => v

/-- The maps of a message of objects may be stored in any order; a type with a form of its own has
no such maps.
-/
def Message.Arranged (s : Schema) (t : MessageType) : Message → Message → Prop
  | ⟨slots, unknown⟩, n =>
      if t.form = .members then
        ∃ rest, n = ⟨rest, unknown⟩ ∧ slotsArranged s t.members slots rest
      else n = ⟨slots, unknown⟩
termination_by structural m => m

def slotsArranged (s : Schema) (members : List Member) : List Slot → List Slot → Prop
  | [], others => others = []
  | slot :: slots, others =>
      match members with
      | [] => others = slot :: slots
      | m :: members =>
          ∃ other rest, others = other :: rest ∧ slot.Arranged s m other
            ∧ slotsArranged s members slots rest
termination_by structural slots => slots

def Slot.Arranged (s : Schema) (m : Member) : Slot → Slot → Prop
  | .none, other => other = .none
  | .one v, other =>
      match m.shape with
      | .single type => ∃ w, other = .one w ∧ v.Arranged s type w
      | .optional type => ∃ w, other = .one w ∧ v.Arranged s type w
      | _ => other = .one v
  | .many vs, other =>
      match m.shape with
      | .repeated type _ _ => ∃ ws, other = .many ws ∧ elementsArranged s type vs ws
      | _ => other = .many vs
  | .entries es, other =>
      match m.shape with
      | .map _ type =>
          ∃ fs gs, other = .entries gs ∧ entriesArranged s type es fs ∧ gs.Perm fs
      | _ => other = .entries es
  | .choice tag v, other =>
      match m.alternative? tag with
      | some a => ∃ w, other = .choice tag w ∧ v.Arranged s a.type w
      | none => other = .choice tag v
termination_by structural slot => slot

def elementsArranged (s : Schema) (type : ValueType) : List Value → List Value → Prop
  | [], others => others = []
  | v :: vs, others =>
      ∃ w ws, others = w :: ws ∧ v.Arranged s type w ∧ elementsArranged s type vs ws
termination_by structural vs => vs

def entriesArranged (s : Schema) (type : ValueType) : List Entry → List Entry → Prop
  | [], others => others = []
  | ⟨key, v⟩ :: es, others =>
      ∃ w fs, others = ⟨key, w⟩ :: fs ∧ v.Arranged s type w ∧ entriesArranged s type es fs
termination_by structural es => es

end

-----------------------------------------------------------------------------------------
-- The same output
-----------------------------------------------------------------------------------------

theorem isEmpty_eq_of_length {α β : Type} {as : List α} {bs : List β} (h : as.length = bs.length)
    : as.isEmpty = bs.isEmpty := by
  cases as <;> cases bs <;> first | rfl | simp at h

/-- Two messages are announced with the same size and written in the same bytes and the same JSON.
-/
structure Message.WrittenAs (s : Schema) (t : MessageType) (m n : Message) : Prop where
  size : n.size s t = m.size s t
  write : n.write s t = m.write s t
  json : ∀ any u, Json.writeMessage s any t n u = Json.writeMessage s any t m u

/-- Two values are the same, or messages that are written alike. -/
inductive Value.WrittenAs (s : Schema) : ValueType → Value → Value → Prop
  | same {type : ValueType} (v : Value) : WrittenAs s type v v
  | message {name : String} {m n : Message} (inner : m.WrittenAs s (s.type name) n)
    : WrittenAs s (.message name) (.message m) (.message n)

/-- Each pass over the slots sees the same. -/
structure Slot.WrittenAs (s : Schema) (m : Member) (slot other : Slot) : Prop where
  set : Json.Slot.isSet m other = Json.Slot.isSet m slot
  size : other.size s m = slot.size s m
  write : other.write s m = slot.write s m
  choice : ∀ any wrote u, Json.writeChoice s any m other wrote u
    = Json.writeChoice s any m slot wrote u
  json : ∀ any u, Json.writeSlot s any m other u = Json.writeSlot s any m slot u

/-- Each pass over the members sees the same. -/
structure SlotsWrittenAs (s : Schema) (members : List Member) (slots others : List Slot)
    : Prop where
  size : slotsSize s members others = slotsSize s members slots
  write : writeSlots s members others = writeSlots s members slots
  json : ∀ any wrote u, Json.writeMembers s any members others wrote u
    = Json.writeMembers s any members slots wrote u

/-- Each pass over the elements sees the same. -/
structure ElementsWrittenAs (s : Schema) (type : ValueType) (vs ws : List Value) : Prop where
  length : ws.length = vs.length
  size : elementsSize s type ws = elementsSize s type vs
  packed : writePacked s type ws = writePacked s type vs
  apart : ∀ tag, writeElements s tag type ws = writeElements s tag type vs
  json : ∀ any field wrote u, Json.writeElements s any field type ws wrote u
    = Json.writeElements s any field type vs wrote u

/-- Each pass over the entries sees the same under the same keys. -/
structure EntriesWrittenAs (s : Schema) (type : ValueType) (es fs : List Entry) : Prop where
  keys : fs.map (·.key) = es.map (·.key)
  size : ∀ tag key, entrySizes s tag key type fs = entrySizes s tag key type es
  write : ∀ tag key, entryWriters s tag key type fs = entryWriters s tag key type es
  json : ∀ any field, Json.entryWriters s any field type fs = Json.entryWriters s any field type es

namespace Value.WrittenAs

variable {type : ValueType} {v w : Value}

theorem isOmitted (h : v.WrittenAs s type w)
    : w.isOmitted = v.isOmitted := by
  cases h <;> rfl

theorem size (h : v.WrittenAs s type w)
    : w.size s type = v.size s type := by
  cases h with
  | same => rfl
  | message inner => rw [Value.size, Value.size, inner.size]

theorem write (h : v.WrittenAs s type w)
    : w.write s type = v.write s type := by
  cases h with
  | same => rfl
  | message inner => rw [Value.write, Value.write, inner.write]

theorem json (h : v.WrittenAs s type w) (any : Json.AnyWriter) (field : String) (u : Json.Writer)
    : Json.writeValue s any field type w u = Json.writeValue s any field type v u := by
  cases h with
  | same => rfl
  | message inner =>
      rw [Json.writeValue, Json.writeValue]
      exact congrArg (u.withField field) (funext fun u => inner.json any u)

/-- A value with presence, or one that is omitted as the other one is. -/
theorem one (h : v.WrittenAs s type w) {m : Member}
    (shape : m.shape = .single type ∨ m.shape = .optional type)
    : (Slot.one v).WrittenAs s m (.one w) := by
  cases h with
  | same => exact ⟨rfl, rfl, rfl, fun _ _ _ => rfl, fun _ _ => rfl⟩
  | @message name n n' inner =>
      have alike : (Value.message n).WrittenAs s (.message name) (.message n') := .message inner
      rcases shape with shape | shape
      · refine ⟨?_, ?_, ?_, fun _ _ _ => rfl, fun any u => ?_⟩
        · simp only [Json.Slot.isSet, shape, alike.isOmitted]
        · simp only [Slot.size, shape, alike.isOmitted, alike.size]
        · simp only [Slot.write, shape, alike.isOmitted, alike.write]
        · unfold Json.writeSlot
          rw [shape]
          exact alike.json any m.name u
      · refine ⟨?_, ?_, ?_, fun _ _ _ => rfl, fun any u => ?_⟩
        · simp only [Json.Slot.isSet, shape]
        · simp only [Slot.size, shape, alike.size]
        · simp only [Slot.write, shape, alike.write]
        · unfold Json.writeSlot
          rw [shape]
          exact alike.json any m.name u

/-- The set alternative of a oneof. -/
theorem choice {m : Member} {tag : Nat} {a : Alternative} (h : v.WrittenAs s a.type w)
    (found : m.alternative? tag = some a)
    : (Slot.choice tag v).WrittenAs s m (.choice tag w) := by
  refine ⟨rfl, ?_, ?_, fun any wrote u => ?_, fun _ _ => ?_⟩
  · simp only [Slot.size, found, h.size]
  · simp only [Slot.write, found, h.write]
  · simp only [Json.writeChoice, found, h.json]
  · rw [Json.writeSlot, Json.writeSlot]

end Value.WrittenAs

theorem ElementsWrittenAs.many {type : ValueType} {vs ws : List Value}
    (h : ElementsWrittenAs s type vs ws) {m : Member} {packed : Bool} {capacity : Option Nat}
    (shape : m.shape = .repeated type packed capacity)
    : (Slot.many vs).WrittenAs s m (.many ws) := by
  have empty : ws.isEmpty = vs.isEmpty := isEmpty_eq_of_length h.length
  refine ⟨?_, ?_, ?_, fun _ _ _ => rfl, fun any u => ?_⟩
  · simp only [Json.Slot.isSet, empty]
  · simp only [Slot.size, shape, empty, h.size, h.length]
  · simp only [Slot.write, shape, empty, h.packed, h.apart]
  · simp only [Json.writeSlot, shape, h.json]

/-- Entries that are stored in another order are visited in the same one. -/
theorem EntriesWrittenAs.entries {es fs gs : List Entry} (h : EntriesWrittenAs s value es fs)
    {m : Member} (shape : m.shape = .map key value) (isKey : key.isKey) (ordered : Ordered key es)
    (perm : gs.Perm fs)
    : (Slot.entries es).WrittenAs s m (.entries gs) := by
  have sorted : Ordered key fs := by rwa [ordered_iff_keys, h.keys, ← ordered_iff_keys]
  have visited : byKey gs = byKey fs := by rw [sorted.byKey_of_perm isKey perm, sorted.byKey_eq]
  have length : fs.length = es.length := by simpa using congrArg List.length h.keys
  have empty : gs.isEmpty = es.isEmpty := isEmpty_eq_of_length (perm.length_eq.trans length)
  refine ⟨?_, ?_, ?_, fun _ _ _ => rfl, fun any u => ?_⟩
  · simp only [Json.Slot.isSet, empty]
  · simp only [Slot.size, shape, ← h.size, entrySizes_eq_map, inKeyOrder_entries, visited]
  · simp only [Slot.write, shape, ← h.write, entryWriters_eq_map, inKeyOrder_entries, visited]
  · simp only [Json.writeSlot, shape, ← h.json, Json.writeEach_entryWriters, visited]

mutual

/-- However the maps inside a value are stored, it is written as the value, by induction on it. -/
theorem Value.writtenAs_of_arranged (h : s.Lawful) {type : ValueType} (v w : Value)
    (typed : v.known.Conforms s type) (arranged : v.Arranged s type w)
    : v.WrittenAs s type w := by
  cases v with
  | scalar a =>
      simp only [Value.Arranged] at arranged
      exact arranged ▸ .same _
  | message m =>
      cases type with
      | scalar type => exact typed.elim
      | message name =>
          obtain ⟨n, rfl, same⟩ := arranged
          exact .message (Message.writtenAs_of_arranged h (h.type name) m n typed same)
termination_by structural v

/-- However the maps inside a message are stored, it is written as the message. -/
theorem Message.writtenAs_of_arranged (h : s.Lawful) {t : MessageType} (lawful : t.Lawful)
    (m n : Message) (typed : m.Typed s t) (arranged : m.Arranged s t n)
    : m.WrittenAs s t n := by
  cases m with
  | mk slots unknown =>
      simp only [Message.Arranged] at arranged
      split at arranged
      · rename_i form
        obtain ⟨rest, rfl, same⟩ := arranged
        have alike := slotsWrittenAs_of_arranged h t.members lawful.shapes slots rest typed.1 same
        refine ⟨?_, ?_, fun any u => ?_⟩
        · simp only [Message.size, form, alike.size]
          rfl
        · simp only [Message.write, form, alike.write]
          rfl
        · simp only [Json.writeMessage, form, alike.json]
      · exact arranged ▸ ⟨rfl, rfl, fun _ _ => rfl⟩
termination_by structural m

theorem slotsWrittenAs_of_arranged (h : s.Lawful) (members : List Member)
    (lawful : ∀ m ∈ members, m.shape.isLawful) (slots rest : List Slot)
    (typed : slotsConform s members (slotsKnown slots))
    (arranged : slotsArranged s members slots rest)
    : SlotsWrittenAs s members slots rest := by
  cases slots with
  | nil =>
      simp only [slotsArranged] at arranged
      exact arranged ▸ ⟨rfl, rfl, fun _ _ _ => rfl⟩
  | cons slot slots =>
      cases members with
      | nil => exact typed.elim
      | cons m members =>
          obtain ⟨other, others, rfl, first, behind⟩ := arranged
          obtain ⟨shape, shapes⟩ := List.forall_mem_cons.mp lawful
          have own := Slot.writtenAs_of_arranged h m shape slot other typed.1 first
          have later := slotsWrittenAs_of_arranged h members shapes slots others typed.2 behind
          refine ⟨?_, ?_, fun any wrote u => ?_⟩
          · rw [slotsSize, slotsSize, own.size, later.size]
          · rw [writeSlots, writeSlots, own.write, later.write]
          · simp only [Json.writeMembers, own.set, own.choice, own.json, later.json]
termination_by structural slots

theorem Slot.writtenAs_of_arranged (h : s.Lawful) (m : Member) (lawful : m.shape.isLawful)
    (slot other : Slot) (typed : slot.known.Conforms s m) (arranged : slot.Arranged s m other)
    : slot.WrittenAs s m other := by
  cases slot with
  | none =>
      simp only [Slot.Arranged] at arranged
      exact arranged ▸ ⟨rfl, rfl, rfl, fun _ _ _ => rfl, fun _ _ => rfl⟩
  | one v =>
      simp only [Slot.known, Slot.Conforms] at typed
      simp only [Slot.Arranged] at arranged
      cases shape : m.shape with
      | single type =>
          simp only [shape] at typed arranged
          obtain ⟨w, rfl, same⟩ := arranged
          exact (Value.writtenAs_of_arranged h v w typed same).one (.inl shape)
      | optional type =>
          simp only [shape] at typed arranged
          obtain ⟨w, rfl, same⟩ := arranged
          exact (Value.writtenAs_of_arranged h v w typed same).one (.inr shape)
      | repeated _ _ _ | map _ _ | oneof _ => simp only [shape] at typed
  | many vs =>
      simp only [Slot.known, Slot.Conforms] at typed
      simp only [Slot.Arranged] at arranged
      cases shape : m.shape with
      | repeated type packed capacity =>
          simp only [shape] at typed arranged
          obtain ⟨ws, rfl, same⟩ := arranged
          exact (elementsWrittenAs_of_arranged h vs ws typed same).many shape
      | single _ | optional _ | map _ _ | oneof _ => simp only [shape] at typed
  | entries es =>
      simp only [Slot.known, Slot.Conforms] at typed
      simp only [Slot.Arranged] at arranged
      cases shape : m.shape with
      | map key type =>
          simp only [shape] at typed arranged
          obtain ⟨fs, gs, rfl, same, perm⟩ := arranged
          have isKey : key.isKey := by simpa [Shape.isLawful, shape] using lawful
          exact (entriesWrittenAs_of_arranged h es fs typed.2 same).entries shape isKey
            (ordered_entriesKnown.mp typed.1) perm
      | single _ | optional _ | repeated _ _ _ | oneof _ => simp only [shape] at typed
  | choice tag v =>
      simp only [Slot.known, Slot.Conforms] at typed
      simp only [Slot.Arranged] at arranged
      cases found : m.alternative? tag with
      | none => simp only [found] at typed
      | some a =>
          simp only [found] at typed arranged
          obtain ⟨w, rfl, same⟩ := arranged
          exact (Value.writtenAs_of_arranged h v w typed same).choice found
termination_by structural slot

theorem elementsWrittenAs_of_arranged (h : s.Lawful) {type : ValueType} (vs ws : List Value)
    (typed : elementsConform s type (elementsKnown vs)) (arranged : elementsArranged s type vs ws)
    : ElementsWrittenAs s type vs ws := by
  cases vs with
  | nil =>
      simp only [elementsArranged] at arranged
      exact arranged ▸ ⟨rfl, rfl, rfl, fun _ => rfl, fun _ _ _ _ => rfl⟩
  | cons v vs =>
      obtain ⟨w, others, rfl, first, behind⟩ := arranged
      have own := Value.writtenAs_of_arranged h v w typed.1 first
      have later := elementsWrittenAs_of_arranged h vs others typed.2 behind
      refine ⟨?_, ?_, ?_, fun tag => ?_, fun any field wrote u => ?_⟩
      · rw [List.length_cons, List.length_cons, later.length]
      · rw [elementsSize, elementsSize, own.size, later.size]
      · rw [writePacked, writePacked, own.write, later.packed]
      · rw [writeElements, writeElements, own.write, later.apart]
      · rw [Json.writeElements, Json.writeElements, own.json, later.json]
termination_by structural vs

theorem entriesWrittenAs_of_arranged (h : s.Lawful) {type : ValueType} (es fs : List Entry)
    (typed : entriesConform s type (entriesKnown es)) (arranged : entriesArranged s type es fs)
    : EntriesWrittenAs s type es fs := by
  cases es with
  | nil =>
      simp only [entriesArranged] at arranged
      exact arranged ▸ ⟨rfl, fun _ _ => rfl, fun _ _ => rfl, fun _ _ => rfl⟩
  | cons e es =>
      cases e with
      | mk key v =>
          obtain ⟨w, others, rfl, first, behind⟩ := arranged
          have own := Value.writtenAs_of_arranged h v w typed.1 first
          have later := entriesWrittenAs_of_arranged h es others typed.2 behind
          refine ⟨?_, fun tag key => ?_, fun tag key => ?_, fun any field => ?_⟩
          · rw [List.map_cons, List.map_cons, later.keys]
          · rw [entrySizes, entrySizes, own.size, later.size]
          · rw [entryWriters, entryWriters, own.write, later.write]
          · simp only [Json.entryWriters, own.json, later.json]
termination_by structural es

end

-----------------------------------------------------------------------------------------
-- Maps
-----------------------------------------------------------------------------------------

/-- A member of a message of the type holds what its shape declares. -/
theorem Message.Typed.ordered {m : Message} {member : Member} {tag : Nat} (typed : m.Typed s t)
    (shape : member.shape = .map key value)
    (held : memberSlot? tag t.members m.slots = some (member, .entries es))
    : Ordered key es := by
  obtain ⟨slots, unknown⟩ := m
  have conform : slotsConform s t.members (slotsKnown slots) := typed.1
  clear typed
  generalize t.members = members at conform held
  induction members generalizing slots with
  | nil => simp [memberSlot?] at held
  | cons first members ih =>
      obtain ⟨slot, others, rfl, own, behind⟩ := slotsKnown_cons conform
      simp only [memberSlot?] at held
      split at held
      · cases held
        obtain ⟨_, same, ordered, -⟩ := Slot.entries_of_known own shape
        cases same
        exact ordered
      · exact ih others behind held

/-- What stands in the slot of a member stands in that of the same member. -/
theorem mem_zip_of_memberSlot? {tag : Nat} {members : List Member} {slots : List Slot}
    {member : Member} {slot : Slot} (held : memberSlot? tag members slots = some (member, slot))
    : (member, slot) ∈ members.zip slots := by
  induction members generalizing slots with
  | nil => simp [memberSlot?] at held
  | cons first members ih =>
      cases slots with
      | nil => simp [memberSlot?] at held
      | cons own slots =>
          simp only [memberSlot?] at held
          split at held
          · cases held
            exact List.mem_cons_self
          · exact List.mem_cons_of_mem _ (ih held)

namespace Json

variable {config : Config} {tree : AnyTree} {mask : FieldMask.PathSet} {path : FieldMask.Path}
  {member : Member}

/-- What a member holds that is set stands among the members of the object, by induction on them. -/
theorem exists_field_of_isSet {members : List Member} {slots : List Slot} {fields : List Field}
    {slot : Slot} (written : memberFields s config tree mask path members slots = some fields)
    (held : (member, slot) ∈ members.zip slots) (alone : ∀ as, member.shape ≠ .oneof as)
    (set : Slot.isSet member slot)
    : ∃ n, slotNode s config tree mask path member slot = some n
        ∧ ⟨config.nameOf member.name member.jsonName, n⟩ ∈ fields := by
  induction slots generalizing members fields with
  | nil => simp at held
  | cons own slots ih =>
      cases members with
      | nil => cases held
      | cons first members =>
          unfold memberFields at written
          rw [List.zip_cons_cons] at held
          cases shape : first.shape with
          | oneof alternatives =>
              simp only [shape] at written
              obtain ⟨front, -, written⟩ := Option.bind_eq_some_iff.mp written
              obtain ⟨others, behind, same⟩ := Option.bind_eq_some_iff.mp written
              cases same
              rcases List.mem_cons.mp held with same | later
              · cases same
                exact absurd shape (alone alternatives)
              · obtain ⟨n, node, listed⟩ := ih behind later
                exact ⟨n, node, List.mem_append_right _ listed⟩
          | single _ | optional _ | repeated _ _ _ | map _ _ =>
              simp only [shape] at written
              split at written
              · obtain ⟨n, node, written⟩ := Option.bind_eq_some_iff.mp written
                obtain ⟨others, behind, same⟩ := Option.bind_eq_some_iff.mp written
                cases same
                rcases List.mem_cons.mp held with same | later
                · cases same
                  exact ⟨n, node, List.mem_cons_self⟩
                · obtain ⟨n, node, listed⟩ := ih behind later
                  exact ⟨n, node, List.mem_cons_of_mem _ listed⟩
              · rename_i hidden
                rcases List.mem_cons.mp held with same | later
                · cases same
                  simp [set] at hidden
                · exact ih written later

theorem keys_entryFields {field : String} {fields : List Field}
    (written : entryFields s config tree mask path field value es = some fields)
    : fields.map (·.key) = es.map fun e => keyText e.key := by
  induction es generalizing fields with
  | nil =>
      cases written
      rfl
  | cons e es ih =>
      obtain ⟨k, v⟩ := e
      obtain ⟨n, -, written⟩ := Option.bind_eq_some_iff.mp written
      obtain ⟨others, behind, same⟩ := Option.bind_eq_some_iff.mp written
      cases same
      rw [List.map_cons, List.map_cons, ih behind]

/-- Different keys of a map are written as different keys of an object. -/
theorem nodup_keyTexts (isKey : key.isKey) (ordered : Ordered key es)
    : (es.map fun e => keyText e.key).Nodup := by
  have apart := List.Nodup.map_on (f := keyText) ?_ ordered.distinct
  · rwa [List.map_map] at apart
  · intro k first k' second same
    obtain ⟨e, listed, rfl⟩ := List.mem_map.mp first
    obtain ⟨e', listed', rfl⟩ := List.mem_map.mp second
    have read := keyOfText_keyText isKey (ordered.typed e listed)
    rw [same, keyOfText_keyText isKey (ordered.typed e' listed')] at read
    exact (Except.ok.inj read).symm

/-- A map that is not empty is a member of the object, and its entries are members of it in order.
-/
theorem exists_object_of_entries (lawful : s.Lawful) (json : s.HasJson) (form : t.form = .members)
    {m : Message} (typed : m.Typed s t) (shape : member.shape = .map key value)
    (ordered : Ordered key es) (nonempty : es ≠ [])
    (held : memberSlot? member.tag t.members m.slots = some (member, .entries es))
    {document : String} (written : encode s config mask t m = .ok document)
    : ∃ fields members, document = (Node.object fields).text
        ∧ ⟨config.nameOf member.name member.jsonName, .object members⟩ ∈ fields
        ∧ members.map (·.key) = es.map fun e => keyText e.key := by
  have hasJson : t.HasJson := by
    rw [MessageType.HasJson, form]
    exact .members
  have tree := encode_treeOf config mask lawful json hasJson typed
  rw [written] at tree
  obtain ⟨n, node, rfl⟩ := Option.map_eq_some_iff.mp tree.symm
  obtain ⟨slots, unknown⟩ := m
  simp only [treeOf, messageNode, form] at node
  obtain ⟨fields, members, rfl⟩ := Option.map_eq_some_iff.mp node
  have set : Slot.isSet member (.entries es) := by simpa [Slot.isSet] using nonempty
  obtain ⟨n, own, listed⟩ := exists_field_of_isSet members (mem_zip_of_memberSlot? held)
    (by simp [shape]) set
  rw [slotNode_entries shape ordered] at own
  obtain ⟨entries, inside, rfl⟩ := Option.map_eq_some_iff.mp own
  exact ⟨fields, entries, rfl, listed, keys_entryFields inside⟩

end Json

/-- A map is decided by its entries.  Merging records of a map, each with its fields in any order
and as often as they come, gives the map that holds under each key the value of the last entry with
it, and a record that can not be read changes nothing.  However the entries are stored, the map is
written entry by entry in ascending order of the keys, each once, in the binary form and as an
object.  So it makes no difference whether they were inserted in order or into storage without one,
and a message is written in the same bytes and the same JSON however the maps in it are stored.
-/
theorem maps_depend_on_entries (h : s.Lawful) (lawful : t.Lawful) {member : Member}
    (shape : member.shape = .map key value) {m m' : Message} (typed : m.Typed s t)
    (held : memberSlot? member.tag t.members m.slots = some (member, .entries es))
    {parts : List (EntryRecord key value ⊕ Record)}
    (foreign : ∀ r ∈ otherRecords parts, r.Foreign member) {budget : Nat}
    (others : mergeRecords s (embedWithin s budget) t m ((otherRecords parts).flatMap (·.bytes))
      = (m', none))
    : let merge := mergeRecords s (embedWithin s budget) t m
      let bytes := interleaved (EntryRecord.bytes member.tag) parts
      let holding (es : List Entry) := m'.withSlot t member.tag (.entries es)
      (∀ entries, (ownParts parts).mapM (EntryRecord.entry s budget) = .ok entries
        → ∃ merged, merge bytes = (holding merged, none) ∧ Ordered key merged
          ∧ (∀ k : Scalar, k.hasType key
            → entryValue? k merged = (lastValue? k entries).or (entryValue? k es))
          ∧ ∀ broken wire payload e, Decoder.key broken = .ok (member.tag, wire) payload
            → (mergeRecord s (embedWithin s budget) t (holding merged) broken).failure = some e
            → merge (bytes ++ broken) = (holding merged, some e))
      ∧ (∀ e, (ownParts parts).mapM (EntryRecord.entry s budget) = .error e
        → (merge bytes).2 = some e)
      ∧ (es.map (·.key)).Pairwise (fun a b => Scalar.compareKeys a b = .lt)
      ∧ (∀ stored : List Entry, stored.Perm es
        → ((Slot.entries stored).write s member).Writes
            (es.flatMap (Entry.encoding s member.tag key value))
          ∧ (Slot.entries stored).size s member
            = (es.flatMap (Entry.encoding s member.tag key value)).length)
      ∧ (∀ done stored, (∀ e ∈ done, e.key.hasType key)
        → (∀ k : Scalar, k.hasType key → lastValue? k done = entryValue? k es) → Hashed done stored
        → insertEntries [] done = es ∧ stored.Perm es ∧ byKey stored = es
          ∧ ∀ visited, Visited stored visited ↔ visited = es)
      ∧ ∀ stored : Message, m.Arranged s t stored
        → stored.size s t = m.size s t ∧ s.encode t stored = s.encode t m
          ∧ (∀ buffer, s.encodeTo t stored buffer = s.encodeTo t m buffer)
          ∧ ∀ config mask, Json.encode s config mask t stored = Json.encode s config mask t m
            ∧ (s.HasJson → t.form = .members → es ≠ [] → ∀ document,
              Json.encode s config mask t stored = .ok document
              → ∃ fields entries, document = (Json.Node.object fields).text
                ∧ ⟨config.nameOf member.name member.jsonName, .object entries⟩ ∈ fields
                ∧ entries.map (·.key) = es.map (fun e => Json.keyText e.key)
                ∧ (entries.map (·.key)).Nodup) := by
  intro merge bytes holding
  obtain ⟨listed, -, -⟩ := mem_of_memberSlot? held
  have isKey : key.isKey := by simpa [Shape.isLawful, shape] using lawful.shapes member listed
  have ordered := typed.ordered shape held
  have read := mergeRecords_entryRecords lawful shape isKey typed.hasForm ordered held
    foreign others
  refine ⟨fun entries accepted => ?_, fun e refused => ?_, List.pairwise_map.mpr ordered.ascending,
    fun stored perm => ?_, fun done stored keys same hashed => ?_, fun stored arranged => ?_⟩
  · rw [accepted] at read
    obtain ⟨merged, whole, found, ascending, values⟩ := read
    refine ⟨merged, whole, ascending, values, fun broken wire payload e own failed => ?_⟩
    rw [show merge (bytes ++ broken) = _ from mergeRecords_append whole broken]
    exact mergeRecords_of_entry_failure lawful.form shape found own failed
  · rw [refused] at read
    have failed := read []
    rwa [List.append_nil] at failed
  · have encoding : (Slot.entries stored).encoding s member
        = es.flatMap (Entry.encoding s member.tag key value) := by
      simp only [Slot.encoding, shape, flatten_entryEncodings, entriesEncoding,
        ordered.byKey_of_perm isKey perm]
    rw [← encoding]
    exact ⟨(Slot.entries stored).writes_write s member,
      ((Slot.entries stored).length_encoding h.sized member).symm⟩
  -- Both lists are in the order of the keys, and hold the same value under each key.
  · have inserted : sortEntries done = es := by
      refine (ordered_sortEntries isKey keys).eq_of_entryValue? isKey ordered fun k own => ?_
      rw [sortEntries, ordered_nil.entryValue?_insertEntries isKey keys own, ← same k own]
      simp [entryValue?]
    have perm : stored.Perm es := inserted ▸ hashed.perm isKey keys
    refine ⟨inserted, perm, ordered.byKey_of_perm isKey perm,
      fun visited => ⟨fun sorted => sorted.eq isKey ordered perm, ?_⟩⟩
    rintro rfl
    exact ordered.visited_self perm
  · have alike := m.writtenAs_of_arranged h lawful stored typed arranged
    have buffers (buffer : List UInt8) : s.encodeTo t stored buffer = s.encodeTo t m buffer := by
      rw [Schema.encodeTo, Schema.encodeTo, alike.size, alike.write]
    refine ⟨alike.size, ?_, buffers, fun config mask => ?_⟩
    · rw [Schema.encode, Schema.encode, alike.size, buffers]
    · have json : Json.encode s config mask t stored = Json.encode s config mask t m := by
        rw [Json.encode, Json.encode, alike.json]
      refine ⟨json, fun hasJson form nonempty document written => ?_⟩
      obtain ⟨fields, entries, text, inside, keys⟩ := Json.exists_object_of_entries h hasJson form
        typed shape ordered nonempty held (json.symm.trans written)
      exact ⟨fields, entries, text, inside, keys, keys ▸ Json.nodup_keyTexts isKey ordered⟩

/-- Texts by number, and a counter. -/
def labelsType : MessageType where
  name := "Labels"
  members := [
    ⟨1, "labels", "labels", .map .sint32 (.scalar (.string none))⟩,
    ⟨2, "total", "total", .single (.scalar .uint64)⟩]

/-- An entry whose value stands in front of its key and is given twice, with an undeclared field
between them, and one without a value, around a counter; and a map with its entries the other way
round.
-/
theorem maps_depend_on_entries_labels
    : let s := WellKnown.schemaWith [labelsType]
      let number (n : Int32) : Scalar := .int32 n
      let text (v : String) : Value := .scalar (.string v)
      let m : Message := ⟨[.entries [⟨number 1, text "a"⟩, ⟨number 2, text "b"⟩],
        .one (.scalar (.uint64 0))], []⟩
      let stored : Message := ⟨[.entries [⟨number 2, text "b"⟩, ⟨number 1, text "a"⟩],
        .one (.scalar (.uint64 0))], []⟩
      let total : Record := ⟨2, [0x10, 5]⟩
      let counted := s.merge labelsType m total.bytes
      let bytes := [0x0a, 10, 0x12, 1, 0x78, 0x18, 7, 0x12, 1, 0x79, 0x08, 4] ++ total.bytes
        ++ [0x0a, 2, 0x08, 6]
      counted.2 = none
      ∧ (∃ merged, s.merge labelsType m bytes
            = (counted.1.withSlot labelsType 1 (.entries merged), none)
          ∧ entryValue? (number 1) merged = some (text "a")
          ∧ entryValue? (number 2) merged = some (text "y")
          ∧ entryValue? (number 3) merged = some (text ""))
      ∧ s.encode labelsType stored = s.encode labelsType m
      ∧ Json.encode s {} .empty labelsType stored
        = .ok "\x7b\"labels\":\x7b\"1\":\"a\",\"2\":\"b\"\x7d\x7d"
      ∧ ∃ fields entries, (Json.Node.object fields).text
            = "\x7b\"labels\":\x7b\"1\":\"a\",\"2\":\"b\"\x7d\x7d"
          ∧ (⟨"labels", .object entries⟩ : Json.Field) ∈ fields
          ∧ entries.map (·.key) = ["1", "2"] := by
  intro s number text m stored total counted bytes
  let later : EntryRecord .sint32 (.scalar (.string none)) :=
    ⟨[.value (.scalar (.ofScalar (.string "x") rfl (by decide +kernel))),
      .other ⟨3, [0x18, 7]⟩ (by decide) (by decide +kernel),
      .value (.scalar (.ofScalar (.string "y") rfl (by decide +kernel))),
      .key (.ofScalar (number 2) rfl (by decide +kernel))], by decide +kernel⟩
  let bare : EntryRecord .sint32 (.scalar (.string none)) :=
    ⟨[.key (.ofScalar (number 3) rfl (by decide +kernel))], by decide +kernel⟩
  let parts : List (EntryRecord .sint32 (.scalar (.string none)) ⊕ Record) :=
    [.inl later, .inr total, .inl bare]
  have lawful : labelsType.Lawful := by decide
  have schema : s.Lawful := WellKnown.lawful_schemaWith lawful (by decide) (by decide)
  have json : s.HasJson := Json.hasJson_schemaWith (List.forall_mem_singleton.mpr .members)
  have ordered : Ordered .sint32 [⟨number 1, text "a"⟩, ⟨number 2, text "b"⟩] := by
    refine ⟨by simp [number, Scalar.hasType],
      .cons (fun e member => ?_) (List.pairwise_singleton _ _)⟩
    cases List.mem_singleton.mp member
    rfl
  have typed : m.Typed s labelsType := ⟨⟨⟨ordered, rfl, rfl, trivial⟩, rfl, rfl⟩, rfl⟩
  have foreign : ∀ r ∈ otherRecords parts, r.Foreign labelsType.members[0] := by
    intro r member
    cases List.mem_singleton.mp member
    exact ⟨by decide, by decide +kernel⟩
  have success : counted.2 = none := by decide +kernel
  have others : mergeRecords s (embedWithin s recursionLimit) labelsType m
      ((otherRecords parts).flatMap (·.bytes)) = (counted.1, none) :=
    Prod.ext rfl success
  obtain ⟨read, -, -, -, -, written⟩ := maps_depend_on_entries schema lawful rfl typed rfl foreign
    others
  have bytes_eq : interleaved (EntryRecord.bytes 1) parts = bytes := by decide +kernel
  obtain ⟨merged, whole, -, values, -⟩ := read _ rfl
  rw [show interleaved (EntryRecord.bytes labelsType.members[0].tag) parts = bytes from bytes_eq]
    at whole
  have arranged : m.Arranged s labelsType stored :=
    ⟨_, rfl, _, _, rfl, ⟨_, _, rfl, ⟨_, _, rfl, rfl, _, _, rfl, rfl, rfl⟩, .swap _ _ []⟩,
      _, _, rfl, ⟨_, rfl, rfl⟩, rfl⟩
  obtain ⟨-, binary, -, document⟩ := written stored arranged
  have text : Json.encode s {} .empty labelsType stored
      = .ok "\x7b\"labels\":\x7b\"1\":\"a\",\"2\":\"b\"\x7d\x7d" := by decide +kernel
  obtain ⟨fields, entries, same, listed, keys, -⟩ :=
    (document {} .empty).2 json rfl (by simp) _ text
  exact ⟨success, ⟨merged, whole, values _ rfl, values _ rfl, values _ rfl⟩, binary, text,
    fields, entries, same.symm, listed, keys⟩

end Protobuf
