import Protobuf.Proofs.Message.Interleaving
import Protobuf.Proofs.Wire.Agreement
import Protobuf.Proofs.Wire.Element

/-! Entries of maps as they come in.  An entry is a message of its own in which the key and the
value may stand in any order, more than once or not at all, among records of other fields; it is
inserted when all of it has been read, and a later entry replaces an earlier one with its key.
-/

namespace Protobuf

open Wire

variable {s : Schema} {embed : Option Embed} {t : MessageType} {m m' : Message} {member : Member}
  {key : ScalarType} {value : ValueType}

-----------------------------------------------------------------------------------------
-- The value of a field that is given more than once
-----------------------------------------------------------------------------------------

/-- What a record of a field holds: a scalar in any form that is read as one, or an encoded message
of a length that a record can have.
-/
inductive FieldData : ValueType → Type where
  | scalar {type : ScalarType} (e : Element type) : FieldData (.scalar type)
  | message {name : String} (data : List UInt8) (small : data.length < 2 ^ 63)
    : FieldData (.message name)

/-- Merges an encoded message, if there is a nesting level left for it. -/
def mergePayload (embed : Option Embed) (t : MessageType) (m : Message) (data : List UInt8)
    : Except DecodeError Message :=
  match embed with
  | none => .error .recursionLimitExceeded
  | some merge =>
      match merge t m data with
      | (m', none) => .ok m'
      | (_, some e) => .error e

namespace FieldData

variable {type : ScalarType} {name : String}

def element : FieldData (.scalar type) → Element type
  | .scalar e => e

def payload : FieldData (.message name) → List UInt8
  | .message data _ => data

def bytes : FieldData value → List UInt8
  | .scalar e => e.bytes
  | .message data _ => delimit data

/-- What a record leaves of the value in front of it. -/
def read (s : Schema) (embed : Option Embed) (v : Value)
    : FieldData value → Except DecodeError Value
  | .scalar e => .ok (.scalar e.value)
  | @FieldData.message name data _ =>
      match v with
      | .message m => (mergePayload embed (s.type name) m data).map .message
      | .scalar _ => .ok v

end FieldData

/-- What all records of a field come to: the last scalar or the default of the type, or all messages
merged into an empty one.
-/
def valueOf (s : Schema) (embed : Option Embed)
    : (value : ValueType) → List (FieldData value) → Except DecodeError Value
  | .scalar type, fields =>
      .ok (.scalar ((fields.getLast?.map (·.element.value)).getD type.default))
  | .message name, fields =>
      ((fields.map (·.payload)).foldlM (mergePayload embed (s.type name)) (s.empty name)).map
        .message

theorem getD_getLast?_cons {α β : Type} (f : α → β) (a : α) (as : List α) (b : β)
    : ((a :: as).getLast?.map f).getD b = (as.getLast?.map f).getD (f a) := by
  rw [List.getLast?_cons]
  cases as.getLast? <;> rfl

theorem foldlM_read_scalar {type : ScalarType} (fields : List (FieldData (.scalar type)))
    (v : Scalar)
    : fields.foldlM (FieldData.read s embed) (.scalar v)
        = .ok (.scalar ((fields.getLast?.map (·.element.value)).getD v)) := by
  induction fields generalizing v with
  | nil => rfl
  | cons f fields ih =>
      cases f with
      | scalar e =>
          rw [List.foldlM_cons, getD_getLast?_cons]
          exact ih e.value

theorem foldlM_read_message {name : String} (fields : List (FieldData (.message name)))
    (m : Message)
    : fields.foldlM (FieldData.read s embed) (.message m)
        = ((fields.map (·.payload)).foldlM (mergePayload embed (s.type name)) m).map .message := by
  induction fields generalizing m with
  | nil => rfl
  | cons f fields ih =>
      cases f with
      | message data small =>
          rw [List.map_cons, List.foldlM_cons, List.foldlM_cons]
          cases merged : mergePayload embed (s.type name) m data with
          | error e =>
              simp [FieldData.read, FieldData.payload, merged, Except.map, bind, Except.bind]
          | ok m' =>
              simpa [FieldData.read, FieldData.payload, merged, Except.map, bind, Except.bind]
                using ih m'

/-- Records one after the other leave what they all come to. -/
theorem foldlM_read (fields : List (FieldData value))
    : fields.foldlM (FieldData.read s embed) (s.emptyValue value)
      = valueOf s embed value fields := by
  cases value with
  | scalar type => exact foldlM_read_scalar fields type.default
  | message name => exact foldlM_read_message fields (s.empty name)

/-- A record of a field is merged as it reads, or fails whatever stands behind it. -/
theorem FieldData.mergeValue_eq {u : Value} (form : u.HasForm value) (f : FieldData value)
    (more : List UInt8)
    : match f.read s embed u with
      | .ok v => mergeValue s embed value u (f.bytes ++ more) = ⟨v, none, more⟩ ∧ v.HasForm value
      | .error e => (mergeValue s embed value u (f.bytes ++ more)).failure = some e := by
  cases f with
  | scalar e =>
      cases u with
      | message m => exact form.elim
      | scalar v =>
          simp only [read, bytes, mergeValue, mergeScalar_of_reads e.reads]
          exact ⟨trivial, trivial⟩
  | message data small =>
      cases u with
      | scalar v => exact form.elim
      | message m =>
          simp only [read, bytes, mergeValue, mergeNested, mergePayload]
          cases embed with
          | none => rfl
          | some merge =>
              simp only [Decoder.reads_lengthDelimited small more]
              obtain ⟨m', failure⟩ := merge (s.type _) m data
              cases failure with
              | none => exact ⟨rfl, trivial⟩
              | some e => rfl

-----------------------------------------------------------------------------------------
-- The fields of an entry
-----------------------------------------------------------------------------------------

/-- A record inside an entry: of its key, of its value, or of a field that entries do not have. -/
inductive EntryField (key : ScalarType) (value : ValueType) where
  | key (e : Element key)
  | value (f : FieldData value)
  | other (r : Record) (undeclared : r.tag ≠ 1 ∧ r.tag ≠ 2)
    (whole : splitRecord r.bytes = .ok (r, []))

namespace EntryField

def bytes : EntryField key value → List UInt8
  | .key e => keyBytes 1 key.wireType ++ e.bytes
  | .value f => keyBytes 2 value.wireType ++ f.bytes
  | .other r _ _ => r.bytes

def key? : EntryField key value → Option (Element key)
  | .key e => some e
  | _ => none

def value? : EntryField key value → Option (FieldData value)
  | .value f => some f
  | _ => none

end EntryField

/-- The message of an entry while it is read. -/
def Entry.message (e : Entry) : Message :=
  ⟨[.one (.scalar e.key), .one e.value], []⟩

/-- The entry that records inside it come to: the last key or the default, and what its values come
to.
-/
def entryOf (s : Schema) (embed : Option Embed) (fields : List (EntryField key value))
    : Except DecodeError Entry :=
  (valueOf s embed value (fields.filterMap EntryField.value?)).map
    (⟨((fields.filterMap EntryField.key?).getLast?.map (·.value)).getD key.default, ·⟩)

theorem mergeRecords_other (r : Record) (undeclared : r.tag ≠ 1 ∧ r.tag ≠ 2)
    (whole : splitRecord r.bytes = .ok (r, [])) (e : Entry) (more : List UInt8)
    : mergeRecords s embed (.entry key value) e.message (r.bytes ++ more)
        = mergeRecords s embed (.entry key value) e.message more := by
  have form := (MessageType.lawful_entry key value).form
  obtain ⟨wire, payload, read, passed, -⟩ := splitRecord_eq whole
  have foreign : memberSlot? r.tag (MessageType.entry key value).members e.message.slots
    = none := by
    simp [MessageType.entry, Entry.message, memberSlot?, Member.hasTag, Ne.symm undeclared.1,
      Ne.symm undeclared.2]
  have step : RecordStep s embed (.entry key value) e.message (r.bytes ++ more) more
      (keepUnknown (.entry key value) e.message r.bytes) :=
    .undeclared (Decoder.local_key _ _ _ read more) foreign rfl read passed
  exact step.mergeRecords form

/-- The fields of an entry are read one after the other, by induction on them. -/
theorem mergeRecords_fields (fields : List (EntryField key value)) (e : Entry)
    (form : e.value.HasForm value)
    : match (fields.filterMap EntryField.value?).foldlM (FieldData.read s embed) e.value with
      | .ok v =>
          mergeRecords s embed (.entry key value) e.message (fields.flatMap (·.bytes))
            = (Entry.message ⟨((fields.filterMap EntryField.key?).getLast?.map (·.value)).getD
              e.key, v⟩,
                none)
      | .error e' =>
          (mergeRecords s embed (.entry key value) e.message (fields.flatMap (·.bytes))).2
            = some e' := by
  let keyMember : Member := ⟨1, "key", "key", .single (.scalar key)⟩
  let valueMember : Member := ⟨2, "value", "value", .single value⟩
  have lawful := MessageType.lawful_entry key value
  induction fields generalizing e with
  | nil => exact mergeRecords_nil _ _ _ _
  | cons f fields ih =>
      cases f with
      | other r undeclared whole =>
          simp only [List.flatMap_cons, EntryField.bytes, mergeRecords_other r undeclared whole]
          exact ih e form
      | key k =>
          have read : mergeValue s embed (.scalar key) (.scalar e.key) k.bytes
              = ⟨.scalar k.value, none, []⟩ := by
            simp only [mergeValue, mergeScalar, k.read]
          have absorbed : mergeRecords s embed (.entry key value) e.message
              (keyBytes 1 key.wireType ++ k.bytes) = (Entry.message ⟨k.value, e.value⟩, none) :=
            absorbs_one (m := keyMember) lawful (.inl rfl) read [] [valueMember] []
              [.one e.value] [] rfl rfl
          have next := ih ⟨k.value, e.value⟩ form
          have written : (EntryField.key k :: fields).flatMap (·.bytes)
              = keyBytes 1 key.wireType ++ k.bytes ++ fields.flatMap (·.bytes) := rfl
          simp only [List.filterMap_cons, EntryField.key?, EntryField.value?, getD_getLast?_cons]
          rw [written, mergeRecords_append absorbed]
          exact next
      | value f =>
          have written : (EntryField.value f :: fields).flatMap (·.bytes)
              = keyBytes 2 value.wireType ++ f.bytes ++ fields.flatMap (·.bytes) := rfl
          simp only [List.filterMap_cons, EntryField.key?, EntryField.value?, List.foldlM_cons]
          rw [written]
          have merged := @FieldData.mergeValue_eq s embed _ _ form f
          cases read : f.read s embed e.value with
          | ok v =>
              simp only [read] at merged
              obtain ⟨taken, form'⟩ := merged []
              rw [List.append_nil] at taken
              have absorbed : mergeRecords s embed (.entry key value) e.message
                  (keyBytes 2 value.wireType ++ f.bytes) = (Entry.message ⟨e.key, v⟩, none) :=
                absorbs_one (m := valueMember) lawful (.inl rfl) taken [keyMember] []
                  [.one (.scalar e.key)] [] [] rfl rfl
              have next := ih ⟨e.key, v⟩ form'
              rw [mergeRecords_append absorbed]
              exact next
          | error e' =>
              simp only [read] at merged
              have failed : Fails s embed (.entry key value) valueMember e'
                  (keyBytes 2 value.wireType ++ f.bytes) (.one e.value) :=
                fails_record lawful (Member.tag_mem (by simp [valueMember])) value.wireType_ne
                  fun more => by
                  simp only [mergeSlot, valueMember, mergeChecked_own, merged more]
              exact failed [keyMember] [] [.one (.scalar e.key)] [] [] _ rfl rfl

/-- The fields of an entry come to the entry that the map takes, or to the reason why it takes none.
-/
theorem mergeRecords_entryOf (fields : List (EntryField key value))
    : match entryOf s embed fields with
      | .ok e =>
          mergeRecords s embed (.entry key value) (s.emptyEntry key value)
            (fields.flatMap (·.bytes))
            = (e.message, none)
      | .error e =>
          (mergeRecords s embed (.entry key value) (s.emptyEntry key value)
            (fields.flatMap (·.bytes))).2 = some e := by
  have read := @mergeRecords_fields s embed key value fields ⟨key.default, s.emptyValue value⟩
    (hasForm_emptyValue s value)
  rw [foldlM_read] at read
  unfold entryOf
  generalize valueOf s embed value (fields.filterMap EntryField.value?) = outcome at read ⊢
  cases outcome with
  | ok v => exact read
  | error e => exact read

-----------------------------------------------------------------------------------------
-- Records of a map
-----------------------------------------------------------------------------------------

/-- A record of a map: an entry with its fields in any order and as often as they come. -/
structure EntryRecord (key : ScalarType) (value : ValueType) where
  fields : List (EntryField key value)
  small : (fields.flatMap (·.bytes)).length < 2 ^ 63

namespace EntryRecord

def bytes (tag : Nat) (r : EntryRecord key value) : List UInt8 :=
  keyBytes tag .lengthDelimited ++ delimit (r.fields.flatMap (·.bytes))

/-- The entry that is read from the record where so many nesting levels are left. -/
def entry (s : Schema) : Nat → EntryRecord key value → Except DecodeError Entry
  | 0, _ => .error .recursionLimitExceeded
  | budget + 1, r => entryOf s (embedWithin s budget) r.fields

/-- The key of an entry is a key of the map. -/
theorem hasType_key {budget : Nat} {r : EntryRecord key value} {e : Entry}
    (h : r.entry s budget = .ok e)
    : e.key.hasType key := by
  cases budget with
  | zero => cases h
  | succ budget =>
      simp only [entry, entryOf] at h
      cases read : valueOf s (embedWithin s budget) value
        (r.fields.filterMap EntryField.value?) with
      | error e' => simp [read, Except.map] at h
      | ok v =>
          simp only [read, Except.map, Except.ok.injEq] at h
          subst h
          cases last : (r.fields.filterMap EntryField.key?).getLast? with
          | none => exact key.hasType_default
          | some k => exact hasType_readScalar key _ _ _ k.read

theorem hasType_keys {budget : Nat} {records : List (EntryRecord key value)} {entries : List Entry}
    (h : records.mapM (entry s budget) = .ok entries)
    : ∀ e ∈ entries, e.key.hasType key := by
  induction records generalizing entries with
  | nil =>
      cases h
      exact nofun
  | cons r records ih =>
      rw [List.mapM_cons] at h
      cases first : r.entry s budget with
      | error e => simp [first, bind, Except.bind] at h
      | ok e =>
          cases others : records.mapM (entry s budget) with
          | error e' => simp [first, others, bind, Except.bind] at h
          | ok behind =>
              simp only [first, others, bind, Except.bind, pure, Except.pure, Except.ok.injEq] at h
              subst h
              exact List.forall_mem_cons.mpr ⟨hasType_key first, ih others⟩

/-- Inserts the entry of a record. -/
def insert (s : Schema) (budget : Nat) (es : List Entry) (r : EntryRecord key value)
    : Except DecodeError (List Entry) :=
  (r.entry s budget).map fun e => insertEntry e.key e.value es

/-- A record of a map inserts its entry as a whole or fails. -/
theorem readsInto (lawful : t.Lawful) (shape : member.shape = .map key value) (budget : Nat)
    : ReadsInto s (embedWithin s budget) t member (bytes member.tag) Slot.entries
        (fun es (r : EntryRecord key value) => insert s budget es r) := by
  constructor
  case absorbs =>
    intro es es' r inserted
    cases budget with
    | zero => cases inserted
    | succ budget =>
        have read := @mergeRecords_entryOf s (embedWithin s budget) key value r.fields
        simp only [insert, entry] at inserted
        cases outcome : entryOf s (embedWithin s budget) r.fields with
        | error e => simp [outcome, Except.map] at inserted
        | ok e =>
            simp only [outcome, Except.map, Except.ok.injEq] at inserted read
            subst inserted
            exact absorbs_entry lawful es shape r.small read
  case fails =>
    intro es r e refused
    refine fails_record lawful (Member.tag_mem (by simp [shape])) WireType.noConfusion
      fun more => ?_
    have target : (Slot.entries es).target s member member.tag .lengthDelimited
        = .message (.entry key value) (s.emptyEntry key value) := by
      simp only [Slot.target, shape, if_true]
    have failed : (mergeNested (embedWithin s budget) (.entry key value) (s.emptyEntry key value)
        (delimit (r.fields.flatMap (·.bytes)) ++ more)).failure = some e := by
      cases budget with
      | zero =>
          cases refused
          rfl
      | succ budget =>
          have read := @mergeRecords_entryOf s (embedWithin s budget) key value r.fields
          simp only [insert, entry] at refused
          cases outcome : entryOf s (embedWithin s budget) r.fields with
          | ok e => simp [outcome, Except.map] at refused
          | error e' =>
              simp only [outcome, Except.map, Except.error.injEq] at refused read
              subst refused
              simp only [embedWithin, mergeNested, Decoder.reads_lengthDelimited r.small more]
              exact read
    rw [mergeSlot_eq, target]
    simp only [Target.merge, failed, put_failure]

theorem foldlM_insert (records : List (EntryRecord key value)) (budget : Nat) (es : List Entry)
    : records.foldlM (insert s budget) es
        = (records.mapM (entry s budget)).map (insertEntries es) := by
  induction records generalizing es with
  | nil => rfl
  | cons r records ih =>
      rw [List.foldlM_cons, List.mapM_cons, insert]
      cases r.entry s budget with
      | error e => rfl
      | ok e =>
          refine (ih _).trans ?_
          cases records.mapM (entry s budget) <;> rfl

end EntryRecord

/-- A record of a map that can not be read leaves the map as it was. -/
theorem mergeMap_of_failure {tag : Nat} {wire : WireType} {bytes : List UInt8} {es : List Entry}
    {e : DecodeError} (failed : (mergeMap s embed tag wire key value es bytes).failure = some e)
    : (mergeMap s embed tag wire key value es bytes).value = es := by
  simp only [mergeMap] at failed ⊢
  split
  · rename_i delimited
    rw [if_pos delimited] at failed
    split
    · rename_i read inserted
      simp only [read, inserted] at failed
      cases failed
    · rfl
  · rfl

/-- A record of a map that can not be read leaves the message as it was. -/
theorem mergeRecords_of_entry_failure (form : t.form ≠ .filler)
    (shape : member.shape = .map key value) {tag : Nat} {es : List Entry}
    (found : memberSlot? tag t.members m.slots = some (member, .entries es)) {wire : WireType}
    {bytes payload : List UInt8} (read : Decoder.key bytes = .ok (tag, wire) payload)
    {e : DecodeError} (failed : (mergeRecord s embed t m bytes).failure = some e)
    : mergeRecords s embed t m bytes = (m, some e) := by
  obtain ⟨slots, unknown⟩ := m
  have nonempty : bytes ≠ [] := by
    rintro rfl
    cases Decoder.key_nil.symm.trans read
  rw [mergeRecords_of_failure nonempty failed]
  rw [mergeRecord_of_member form read found] at failed ⊢
  simp only [mergeSlot, shape] at failed ⊢
  rw [mergeMap_of_failure failed, replaceSlot_self found]

/-- A map takes the entries of its records one after the other, whatever stands in between: under
each key it holds the value of the last entry with this key, or what it held before.
-/
theorem mergeRecords_entryRecords (lawful : t.Lawful) (shape : member.shape = .map key value)
    (isKey : key.isKey) (form : m.HasForm t) {es : List Entry} (ordered : Ordered key es)
    (held : memberSlot? member.tag t.members m.slots = some (member, .entries es))
    {parts : List (EntryRecord key value ⊕ Record)}
    (foreign : ∀ r ∈ otherRecords parts, r.Foreign member) {budget : Nat}
    (others : mergeRecords s (embedWithin s budget) t m ((otherRecords parts).flatMap (·.bytes))
      = (m', none))
    : match (ownParts parts).mapM (EntryRecord.entry s budget) with
      | .ok entries =>
          ∃ merged, mergeRecords s (embedWithin s budget) t m
                (interleaved (EntryRecord.bytes member.tag) parts)
              = (m'.withSlot t member.tag (.entries merged), none)
            ∧ memberSlot? member.tag t.members (m'.withSlot t member.tag (.entries merged)).slots
              = some (member, .entries merged)
            ∧ Ordered key merged
            ∧ ∀ k : Scalar, k.hasType key
              → entryValue? k merged = (lastValue? k entries).or (entryValue? k es)
      | .error e => ∀ more,
          (mergeRecords s (embedWithin s budget) t m
            (interleaved (EntryRecord.bytes member.tag) parts ++ more)).2 = some e := by
  have reads := EntryRecord.readsInto (s := s) lawful shape budget
  obtain ⟨kept, merged⟩ := reads.merge lawful form held foreign others
  rw [EntryRecord.foldlM_insert] at merged
  cases read : (ownParts parts).mapM (EntryRecord.entry s budget) with
  | error e =>
      rw [read] at merged
      exact merged
  | ok entries =>
      rw [read] at merged
      have typed := EntryRecord.hasType_keys read
      exact ⟨insertEntries es entries, merged, Message.memberSlot?_withSlot kept,
        ordered.insertEntries isKey typed,
        fun k own => ordered.entryValue?_insertEntries isKey typed own⟩

end Protobuf
