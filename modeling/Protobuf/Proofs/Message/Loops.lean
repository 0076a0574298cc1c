import Protobuf.Proofs.Message.Dispatch
import Protobuf.Proofs.Wire.Cursor

/-! Merging as loops over cursors.  Each embedded message, map entry and packed run is read by a
loop of its own, with a cursor of its own; the loop that came upon it waits.  Every turn of a loop
either merges a record in place or opens a loop inside, and when that one ends, puts away what it
read.
-/

namespace Protobuf

open Wire

-----------------------------------------------------------------------------------------
-- Loops
-----------------------------------------------------------------------------------------

/-- What a loop builds: a message record by record, or the list of a packed run. -/
inductive Task where
  | message (t : MessageType) (current : Message)
  | run (type : ScalarType) (capacity : Option Nat) (values : List Value)

/-- The loop reads a message, so its cursor counts among those that nest. -/
def Task.isMessage : Task → Bool
  | .message _ _ => true
  | .run _ _ _ => false

/-- A loop before its next turn. -/
structure Loop where
  task : Task
  reader : Cursor

/-- A loop that waits for the one that its record opened: the message so far, the field number of
the record, where it starts, and the cursor, which stands behind the record already.
-/
structure Call where
  type : MessageType
  current : Message
  tag : Nat
  start : Nat
  reader : Cursor

/-- The loops that are under way, the innermost first. -/
inductive Config where
  | running (loop : Loop) (outer : List Call)
  /-- The innermost loop has ended. -/
  | returning (task : Task) (failure : Option DecodeError) (outer : List Call)
  /-- An access was out of range. -/
  | aborted

/-- What was read for a member: a value, or all values that it holds. -/
inductive Found where
  | value (v : Value)
  | values (vs : List Value)

/-- What a loop has read for the record that opened it. -/
def Task.found : Task → Found
  | .message _ m => .value (.message m)
  | .run _ _ vs => .values vs

/-- What the record of a message is read into; none if no member declares it.  A filler message
reads a counter as a number.
-/
def Message.target? (s : Schema) (t : MessageType) (m : Message) (tag : Nat) (wire : WireType)
    : Option Target :=
  if t.form = .filler then
    if tag = 1 ∨ tag = 2 then some (.scalar .uint32 (.uint32 0)) else none
  else (memberSlot? tag t.members m.slots).map fun (member, slot) => slot.target s member tag wire

/-- What a member holds when its record has been read. -/
def Slot.receive (member : Member) (tag : Nat) (slot : Slot) (failure : Option DecodeError)
    : Found → Slot × Option DecodeError
  | .value v => slot.put member tag v failure
  | .values vs => (.many vs, failure)

/-- A message when a record of it has been read. -/
def Message.receive (t : MessageType) (m : Message) (tag : Nat) (found : Found)
    (failure : Option DecodeError)
    : Message × Option DecodeError :=
  if t.form = .filler then
    match failure, found with
    | none, .value v => (⟨m.slots.set (tag - 1) (.one v), m.unknown⟩, none)
    | failure, _ => (m, failure)
  else
    match memberSlot? tag t.members m.slots with
    | some (member, slot) =>
        let (new, failure) := slot.receive member tag failure found
        (⟨replaceSlot tag new t.members m.slots, m.unknown⟩, failure)
    | none => (m, failure)

/-- What a turn of a loop comes to. -/
inductive Turn where
  | merged (task : Task) (failure : Option DecodeError) (reader : Cursor)
  | opened (inner : Loop) (call : Call)
  /-- An access was out of range. -/
  | aborted

/-- Goes on with what decoding comes to. -/
def Turn.after {α : Type} (result : EStateM.Result (Interruption DecodeError) Cursor α)
    (ok : α → Cursor → Turn) (failed : DecodeError → Cursor → Turn)
    : Turn :=
  match result with
  | .ok v r => ok v r
  | .error (.failed e) r => failed e r
  | .error .outOfRange _ => .aborted

/-- The record of a message has been read. -/
def Turn.received (t : MessageType) (m : Message) (tag : Nat) (found : Found)
    (failure : Option DecodeError) (r : Cursor)
    : Turn :=
  let (m, failure) := m.receive t tag found failure
  .merged (.message t m) failure r

/-- Reads the record of a message into its target.  A packed run does not nest, so its cursor has
the full budget again.
-/
def Target.turn (t : MessageType) (m : Message) (tag start : Nat) (r : Cursor) : Target → Turn
  | .scalar type v =>
      .after (r.run (.scalar type))
        (fun v r => .received t m tag (.value (.scalar v)) none r)
        fun e r =>
          let kept := if e = .capacityExceeded then type.default else v
          .received t m tag (.value (.scalar kept)) (some e) r
  | .message u c =>
      .after r.nested
        (fun inner r => .opened ⟨.message u c, inner⟩ ⟨t, m, tag, start, r⟩)
        fun e r => .received t m tag (.value (.message c)) (some e) r
  | .run type capacity values =>
      .after (r.run .lengthDelimited)
        (fun payload r =>
          .opened ⟨.run type capacity values, .ofBytes payload⟩ ⟨t, m, tag, start, r⟩)
        fun e r => .received t m tag (.values values) (some e) r
  | .refused e => .merged (.message t m) (some e) r
  | .nothing => .merged (.message t m) none r

/-- One turn of a loop whose cursor is not at its end.  A record that no member declares is read
once more from its key.
-/
def Loop.turn (s : Schema) (f : Loop) : Turn :=
  match f.task with
  | .run type capacity values =>
      .after (f.reader.run (.scalar type))
        (fun v r =>
          let (values, failure) := appendValue capacity values (.scalar v)
          .merged (.run type capacity values) failure r)
        fun e r => .merged (.run type capacity values) (some e) r
  | .message t m =>
      .after (f.reader.run .key)
        (fun (tag, wire) r =>
          match m.target? s t tag wire with
          | some target => target.turn t m tag f.reader.position r
          | none =>
              .after (r.run (.recordAt f.reader.position))
                (fun record r => .merged (.message t (keepUnknown t m record)) none r)
                fun e r => .merged (.message t m) (some e) r)
        fun e r => .merged (.message t m) (some e) r

/-- The next configuration; none when the outermost loop has ended, or at an access out of range. -/
def Config.step (s : Schema) : Config → Option Config
  | .running f outer =>
      if f.reader.atEnd then some (.returning f.task none outer)
      else
        match f.turn s with
        | .opened inner call => some (.running inner (call :: outer))
        | .merged task none r => some (.running ⟨task, r⟩ outer)
        | .merged task (some e) _ => some (.returning task (some e) outer)
        | .aborted => some .aborted
  | .returning inner failure (call :: outer) =>
      match call.current.receive call.type call.tag inner.found failure with
      | (m, none) => some (.running ⟨.message call.type m, call.reader⟩ outer)
      | (m, some e) => some (.returning (.message call.type m) (some e) outer)
  | .returning _ _ [] | .aborted => none

/-- The number of steps leads from one configuration to the other. -/
inductive Reaches (s : Schema) : Nat → Config → Config → Prop
  | refl (c : Config) : Reaches s 0 c c
  | step {n : Nat} {c c' last : Config} (first : c.step s = some c') (others : Reaches s n c' last)
    : Reaches s (n + 1) c last

/-- The first loop of a merge: nothing is read yet. -/
def Config.start (t : MessageType) (m : Message) (bytes : List UInt8) : Config :=
  .running ⟨.message t m, .ofBytes bytes⟩ []

/-- What a loop ends with, as the merge of what its cursor has left. -/
def Loop.outcome (s : Schema) (f : Loop) : Task × Option DecodeError :=
  match f.task with
  | .message t m =>
      let (m, failure) := mergeRecords s (embedWithin s f.reader.budget) t m f.reader.rest
      (.message t m, failure)
  | .run type capacity values =>
      let (values, failure) := mergePacked type capacity values f.reader.rest
      (.run type capacity values, failure)

/-- What a loop ends with that has come so far. -/
def Loop.resume (s : Schema) (task : Task) (failure : Option DecodeError) (r : Cursor)
    : Task × Option DecodeError :=
  match failure with
  | some e => (task, some e)
  | none => Loop.outcome s ⟨task, r⟩

/-- What a loop ends with when the one that its record opened has ended. -/
def Call.resume (s : Schema) (call : Call) (inner : Task × Option DecodeError)
    : Task × Option DecodeError :=
  let received := call.current.receive call.type call.tag inner.1.found inner.2
  Loop.resume s (.message call.type received.1) received.2 call.reader

-----------------------------------------------------------------------------------------
-- Records and their targets
-----------------------------------------------------------------------------------------

variable {s : Schema} {t : MessageType} {m : Message} {tag : Nat} {wire : WireType}
  {bytes payload : List UInt8} {r r' : Cursor}

/-- Only a length-delimited record opens a loop. -/
theorem wire_of_target? {target : Target} (h : m.target? s t tag wire = some target)
    (opens : (∃ u c, target = .message u c) ∨ ∃ type capacity values,
      target = .run type capacity values)
    : wire = .lengthDelimited := by
  have value {own : Nat} {type : ValueType} {current : Value}
      (h : s.target own wire type current = target)
      : wire = .lengthDelimited := by
    subst h
    rcases opens with ⟨u, c, own⟩ | ⟨type, capacity, values, own⟩
    · exact (message_of_target own).choose_spec.2.2.2
    · exact absurd own target_ne_run
  have other (e : DecodeError) (same : .refused e = target ∨ .nothing = target)
      : wire = .lengthDelimited := by
    rcases same with rfl | rfl <;> simp at opens
  unfold Message.target? at h
  split at h
  · split at h
    · cases h
      simp at opens
    · cases h
  · obtain ⟨⟨member, slot⟩, -, h⟩ := Option.map_eq_some_iff.mp h
    simp only [Slot.target] at h
    split at h
    · exact value h
    · exact value h
    · exact value h
    · split at h
      · rename_i packed
        exact packed.1
      · exact value h
    · exact value h
    · split at h
      · assumption
      · exact other _ (.inl h)
    · split at h
      · exact value h
      · exact other .unexpectedEof (.inr h)
    · exact other .unexpectedEof (.inr h)

/-- Reads into the target of a record and puts away what was read. -/
def Target.into (embed : Option Embed) (t : MessageType) (m : Message) (tag : Nat)
    (bytes : List UInt8)
    : Target → Merged Message
  | .scalar type v =>
      let merged := mergeScalar type v bytes
      let received := m.receive t tag (.value (.scalar merged.value)) merged.failure
      ⟨received.1, received.2, merged.rest⟩
  | .message u c =>
      let merged := mergeNested embed u c bytes
      let received := m.receive t tag (.value (.message merged.value)) merged.failure
      ⟨received.1, received.2, merged.rest⟩
  | .run type capacity values =>
      match Decoder.lengthDelimited bytes with
      | .error e rest =>
          let received := m.receive t tag (.values values) (some e)
          ⟨received.1, received.2, rest⟩
      | .ok payload rest =>
          let merged := mergePacked type capacity values payload
          let received := m.receive t tag (.values merged.1) merged.2
          ⟨received.1, received.2, rest⟩
  | .refused e => ⟨m, some e, bytes⟩
  | .nothing => ⟨m, none, bytes⟩

theorem receive_failure (found : Found) (e : DecodeError)
    : (m.receive t tag found (some e)).2 = some e := by
  unfold Message.receive
  split
  · rfl
  · split
    · cases found with
      | value v => exact put_failure _ _ _ _ _
      | values vs => rfl
    · rfl

/-- Merging a record is reading into its target, if it has one. -/
theorem mergeField_eq (embed : Option Embed)
    : mergeField s embed t m tag wire bytes
        = (m.target? s t tag wire).map fun target => target.into embed t m tag bytes := by
  obtain ⟨slots, unknown⟩ := m
  by_cases filler : t.form = .filler
  · simp only [mergeField, if_pos filler, mergeCounter, Message.target?]
    by_cases counter : tag = 1 ∨ tag = 2
    · have number : readScalar .uint32 bytes
          = EStateM.map (fun v => Scalar.uint32 v.toUInt32) Decoder.varint bytes := by
        change EStateM.bind Decoder.varint (fun v => pure (ofVarint .uint32 v)) bytes = _
        rw [EStateM.bind, EStateM.map]
        cases Decoder.varint bytes <;> rfl
      simp only [if_pos counter, Option.map_some, Target.into, mergeScalar, number, EStateM.map,
        Message.receive, if_pos filler]
      cases Decoder.varint bytes <;> rfl
    · simp only [if_neg counter, Option.map_none]
  · simp only [mergeField, if_neg filler, mergeMember_eq, Message.target?]
    cases found : memberSlot? tag t.members slots with
    | none => rfl
    | some place =>
        obtain ⟨member, slot⟩ := place
        simp only [Option.map_some, mergeSlot_eq]
        cases slot.target s member tag wire with
        | scalar type v =>
            simp only [Target.merge, Target.into, Message.receive, if_neg filler, found,
              Slot.receive]
        | message u c =>
            simp only [Target.merge, Target.into, Message.receive, if_neg filler, found,
              Slot.receive]
        | run type capacity values =>
            simp only [Target.merge, Target.into, Message.receive, if_neg filler, found,
              Slot.receive]
            cases Decoder.lengthDelimited bytes <;> rfl
        | refused e | nothing =>
            simp only [Target.merge, Target.into, replaceSlot_self found]

/-- A cursor that is opened over an embedded message has the payload and one less budget; where none
is opened, merging fails as well.
-/
theorem mergeNested_nested {u : MessageType} {c : Message} (inside : r.Inside)
    : match r.nested with
      | .ok inner r' => r.Moved r' ∧ r.run .lengthDelimited = .ok inner.data r'
          ∧ inner.position = 0 ∧ inner.budget + 1 = r.budget
          ∧ mergeNested (embedWithin s r.budget) u c r.rest
            = let merged := mergeRecords s (embedWithin s inner.budget) u c inner.rest
              ⟨merged.1, merged.2, r'.rest⟩
      | .error (.failed e) r' => r.Moved r'
          ∧ mergeNested (embedWithin s r.budget) u c r.rest = ⟨c, some e, r'.rest⟩
      | .error .outOfRange _ => False := by
  obtain ⟨data, position, budget⟩ := r
  cases budget with
  | zero => exact ⟨.refl inside, rfl⟩
  | succ budget =>
      have read := Cursor.agrees_run IndexedDecoder.views_lengthDelimited inside
      simp only [Cursor.nested, mergeNested, embedWithin]
      generalize Cursor.run _ _ = result at read ⊢
      generalize Decoder.lengthDelimited _ = seen at read ⊢
      cases read with
      | ok moved => exact ⟨moved, rfl, rfl, rfl, by simp only [Cursor.rest_start]⟩
      | failed moved => exact ⟨moved, rfl⟩

-----------------------------------------------------------------------------------------
-- Packed runs element by element
-----------------------------------------------------------------------------------------

variable {type : ScalarType} {capacity : Option Nat} {values : List Value}

theorem mergePacked_nil
    : mergePacked type capacity values [] = (values, none) := by
  cases capacity <;> simp [mergePacked, readPacked, appendValues]

theorem mergePacked_of_error {e : DecodeError} {rest : List UInt8} (nonempty : bytes ≠ [])
    (read : readScalar type bytes = .error e rest)
    : mergePacked type capacity values bytes = (values, some e) := by
  obtain ⟨b, tail, rfl⟩ := List.exists_cons_of_ne_nil nonempty
  have none : readPacked type (b :: tail) = ([], some e) := by
    rw [readPacked]
    split
    · rename_i failed
      cases read.symm.trans failed
      rfl
    · rename_i found
      cases read.symm.trans found
  cases capacity <;> simp [mergePacked, none, appendValues]

/-- An element that still fits is appended before the others are read. -/
theorem mergePacked_of_value {v : Scalar} {rest : List UInt8}
    (read : readScalar type bytes = .ok v rest)
    : mergePacked type capacity values bytes
        = match appendValue capacity values (.scalar v) with
          | (values, some e) => (values, some e)
          | (values, none) => mergePacked type capacity values rest := by
  have shorter := consumes_readScalar type bytes
  rw [read] at shorter
  obtain ⟨b, tail, rfl⟩ := List.exists_cons_of_length_pos (Nat.zero_lt_of_lt shorter)
  have front : readPacked type (b :: tail)
      = (.scalar v :: (readPacked type rest).1, (readPacked type rest).2) := by
    rw [readPacked]
    split
    · rename_i failed
      cases read.symm.trans failed
    · rename_i found
      cases read.symm.trans found
      rfl
  simp only [mergePacked, front]
  cases capacity with
  | none => simp [appendValues, appendValue, withinCapacity]
  | some limit =>
      by_cases room : values.length + 1 ≤ limit
      · have next : limit - values.length = limit - (values.length + 1) + 1 := by omega
        simp [appendValue, withinCapacity, room, appendValues, next]
      · have full : limit - values.length = 0 := by omega
        simp [appendValue, withinCapacity, room, appendValues, full]

end Protobuf
