import Protobuf.Message.Basic
import Protobuf.Wire.Payload

/-! Merging binary input into a message.  Each record replaces, extends or merges what its member
holds; records of undeclared fields are kept as they are or dropped.  What was merged before an
error stays.
-/

namespace Protobuf

open Wire

/-- Merges the payload of an embedded message of the given type. -/
abbrev Embed := MessageType → Message → List UInt8 → Message × Option DecodeError

/-- Reads a length-delimited record and merges it as a message, if the nesting budget allows. -/
def mergeNested (embed : Option Embed) (t : MessageType) (current : Message)
    (bytes : List UInt8) : Merged Message :=
  match embed with
  | none => ⟨current, some .recursionLimitExceeded, bytes⟩
  | some embed =>
      match Decoder.lengthDelimited bytes with
      | .error e rest => ⟨current, some e, rest⟩
      | .ok payload rest =>
          let (merged, failure) := embed t current payload
          ⟨merged, failure, rest⟩

/-- Merges the next value of a type into the current one. -/
def mergeValue (s : Schema) (embed : Option Embed) (type : ValueType) (current : Value)
    (bytes : List UInt8) : Merged Value :=
  match type, current with
  | .scalar type, .scalar v =>
      let merged := mergeScalar type v bytes
      ⟨.scalar merged.value, merged.failure, merged.rest⟩
  | .message name, .message m =>
      let merged := mergeNested embed (s.type name) m bytes
      ⟨.message merged.value, merged.failure, merged.rest⟩
  | _, _ => ⟨current, none, bytes⟩

/-- Merges the next value if it arrives with the wire type of the field. -/
def mergeChecked (s : Schema) (embed : Option Embed) (tag : Nat) (wire : WireType)
    (type : ValueType) (current : Value) (bytes : List UInt8) : Merged Value :=
  if wire = type.wireType then mergeValue s embed type current bytes
  else ⟨current, some (.wrongWireType tag type.wireType.code wire.code), bytes⟩

/-- Appends a value unless the capacity is reached. -/
def appendValue (capacity : Option Nat) (values : List Value) (value : Value)
    : List Value × Option DecodeError :=
  if withinCapacity capacity (values.length + 1) then (values ++ [value], none)
  else (values, some .capacityExceeded)

/-- Appends values as far as the capacity allows. -/
def appendValues (capacity : Option Nat) (values added : List Value)
    : List Value × Option DecodeError :=
  match capacity with
  | none => (values ++ added, none)
  | some limit =>
      let room := limit - values.length
      if added.length ≤ room then (values ++ added, none)
      else (values ++ added.take room, some .capacityExceeded)

/-- The scalars of a packed record, up to the first that can not be read. -/
def readPacked (type : ScalarType) (payload : List UInt8) : List Value × Option DecodeError :=
  match payload with
  | [] => ([], none)
  | b :: tail =>
      match _h : readScalar type (b :: tail) with
      | .error e _ => ([], some e)
      | .ok v rest =>
          let (values, failure) := readPacked type rest
          (.scalar v :: values, failure)
termination_by payload.length
decreasing_by
  have consumed := consumes_readScalar type (b :: tail)
  simpa only [_h] using consumed

/-- Appends the scalars of a packed record. -/
def mergePacked (type : ScalarType) (capacity : Option Nat) (values : List Value)
    (payload : List UInt8) : List Value × Option DecodeError :=
  let (added, failure) := readPacked type payload
  match appendValues capacity values added with
  | (values, some e) => (values, some e)
  | (values, none) => (values, failure)

/-- Appends one element. -/
def mergeElement (s : Schema) (embed : Option Embed) (tag : Nat) (wire : WireType)
    (type : ValueType) (capacity : Option Nat) (values : List Value) (bytes : List UInt8)
    : Merged (List Value) :=
  let merged := mergeChecked s embed tag wire type (s.emptyValue type) bytes
  match merged.failure with
  | some e => ⟨values, some e, merged.rest⟩
  | none =>
      let (values, failure) := appendValue capacity values merged.value
      ⟨values, failure, merged.rest⟩

/-- Appends one element, or all elements of a packed record. -/
def mergeRepeated (s : Schema) (embed : Option Embed) (tag : Nat) (wire : WireType)
    (type : ValueType) (capacity : Option Nat) (values : List Value) (bytes : List UInt8)
    : Merged (List Value) :=
  match type with
  | .message _ => mergeElement s embed tag wire type capacity values bytes
  | .scalar scalar =>
      if wire = .lengthDelimited ∧ scalar.wireType ≠ .lengthDelimited then
        match Decoder.lengthDelimited bytes with
        | .error e rest => ⟨values, some e, rest⟩
        | .ok payload rest =>
            let (values, failure) := mergePacked scalar capacity values payload
            ⟨values, failure, rest⟩
      else mergeElement s embed tag wire type capacity values bytes

/-- The key and value of an entry that was read as a message. -/
def entryOfMessage? : Message → Option Entry
  | ⟨[.one (.scalar key), .one value], _⟩ => some ⟨key, value⟩
  | _ => none

/-- Reads one entry of a map and inserts it; a missing key or value takes its default. -/
def mergeMap (s : Schema) (embed : Option Embed) (tag : Nat) (wire : WireType)
    (key : ScalarType) (value : ValueType) (entries : List Entry) (bytes : List UInt8)
    : Merged (List Entry) :=
  if wire = .lengthDelimited then
    let merged := mergeNested embed (.entry key value) (s.emptyEntry key value) bytes
    match merged.failure, entryOfMessage? merged.value with
    | none, some e => ⟨insertEntry e.key e.value entries, none, merged.rest⟩
    | failure, _ => ⟨entries, failure, merged.rest⟩
  else ⟨entries, some (.wrongWireType tag WireType.lengthDelimited.code wire.code), bytes⟩

/-- Merges a value into the alternative of a oneof if it is set, and sets it otherwise. -/
def mergeAlternative (s : Schema) (embed : Option Embed) (wire : WireType) (a : Alternative)
    (current : Slot) (bytes : List UInt8) : Merged Slot :=
  let fresh : Merged Slot :=
    let merged := mergeChecked s embed a.tag wire a.type (s.emptyValue a.type) bytes
    ⟨if merged.failure.isNone then .choice a.tag merged.value else current, merged.failure,
      merged.rest⟩
  match current with
  | .choice tag v =>
      if tag = a.tag then
        let merged := mergeChecked s embed a.tag wire a.type v bytes
        ⟨.choice tag merged.value, merged.failure, merged.rest⟩
      else fresh
  | _ => fresh

/-- Merges a record with one of the member's field numbers. -/
def mergeSlot (s : Schema) (embed : Option Embed) (m : Member) (tag : Nat) (wire : WireType)
    (current : Slot) (bytes : List UInt8) : Merged Slot :=
  match m.shape, current with
  | .single type, .one v =>
      let merged := mergeChecked s embed tag wire type v bytes
      ⟨.one merged.value, merged.failure, merged.rest⟩
  | .optional type, .one v =>
      let merged := mergeChecked s embed tag wire type v bytes
      ⟨.one merged.value, merged.failure, merged.rest⟩
  | .optional type, .none =>
      if wire = type.wireType then
        let merged := mergeValue s embed type (s.emptyValue type) bytes
        ⟨.one merged.value, merged.failure, merged.rest⟩
      else ⟨.none, some (.wrongWireType tag type.wireType.code wire.code), bytes⟩
  | .repeated type _ capacity, .many vs =>
      let merged := mergeRepeated s embed tag wire type capacity vs bytes
      ⟨.many merged.value, merged.failure, merged.rest⟩
  | .map key value, .entries es =>
      let merged := mergeMap s embed tag wire key value es bytes
      ⟨.entries merged.value, merged.failure, merged.rest⟩
  | .oneof _, current =>
      match m.alternative? tag with
      | some a => mergeAlternative s embed wire a current bytes
      | none => ⟨current, none, bytes⟩
  | _, current => ⟨current, none, bytes⟩

/-- Merges a record into the member that declares its field number, if there is one. -/
def mergeMember (s : Schema) (embed : Option Embed) (tag : Nat) (wire : WireType)
    (bytes : List UInt8) : List Member → List Slot → Option (Merged (List Slot))
  | m :: members, slot :: slots =>
      if m.hasTag tag then
        let merged := mergeSlot s embed m tag wire slot bytes
        some ⟨merged.value :: slots, merged.failure, merged.rest⟩
      else
        match mergeMember s embed tag wire bytes members slots with
        | some merged => some ⟨slot :: merged.value, merged.failure, merged.rest⟩
        | none => none
  | _, _ => none

/-- Reads a counter of a filler message whatever its wire type. -/
def mergeCounter (tag : Nat) (bytes : List UInt8) (slots : List Slot)
    : Option (Merged (List Slot)) :=
  if tag = 1 ∨ tag = 2 then
    match Decoder.varint bytes with
    | .error e rest => some ⟨slots, some e, rest⟩
    | .ok v rest => some ⟨slots.set (tag - 1) (.one (.scalar (.uint32 v.toUInt32))), none, rest⟩
  else none

/-- Merges a record whose key has been read; gives none for an undeclared field. -/
def mergeField (s : Schema) (embed : Option Embed) (t : MessageType) (m : Message) (tag : Nat)
    (wire : WireType) (bytes : List UInt8) : Option (Merged Message) :=
  let merged :=
    if t.form = .filler then mergeCounter tag bytes m.slots
    else mergeMember s embed tag wire bytes t.members m.slots
  match merged with
  | some merged => some ⟨⟨merged.value, m.unknown⟩, merged.failure, merged.rest⟩
  | none => none

/-- Appends an unknown record if the type keeps them. -/
def keepUnknown (t : MessageType) (m : Message) (record : List UInt8) : Message :=
  if t.keepsUnknown then ⟨m.slots, m.unknown ++ record⟩ else m

/-- Merges the record at the front of the input. -/
def mergeRecord (s : Schema) (embed : Option Embed) (t : MessageType) (m : Message)
    (bytes : List UInt8) : Merged Message :=
  match Decoder.key bytes with
  | .error e rest => ⟨m, some e, rest⟩
  | .ok (tag, wire) rest =>
      match mergeField s embed t m tag wire rest with
      | some merged => merged
      | none =>
          match passRecord 0 bytes with
          | .error e => ⟨m, some e, rest⟩
          | .ok rest =>
              ⟨keepUnknown t m (bytes.take (bytes.length - rest.length)), none, rest⟩

/-! ## Progress -/

theorem length_of_mergeNested (embed : Option Embed) (t : MessageType) (current : Message)
    (bytes : List UInt8)
    : (mergeNested embed t current bytes).rest.length ≤ bytes.length := by
  have h := Decoder.consumes_lengthDelimited.shrinks bytes
  unfold mergeNested
  split
  · exact Nat.le_refl _
  · split <;> simp_all

theorem length_of_mergeValue (s : Schema) (embed : Option Embed) (type : ValueType)
    (current : Value) (bytes : List UInt8)
    : (mergeValue s embed type current bytes).rest.length ≤ bytes.length := by
  unfold mergeValue
  split
  · exact length_of_mergeScalar _ _ _
  · exact length_of_mergeNested _ _ _ _
  · exact Nat.le_refl _

theorem length_of_mergeChecked (s : Schema) (embed : Option Embed) (tag : Nat)
    (wire : WireType) (type : ValueType) (current : Value) (bytes : List UInt8)
    : (mergeChecked s embed tag wire type current bytes).rest.length ≤ bytes.length := by
  unfold mergeChecked
  split
  · exact length_of_mergeValue _ _ _ _ _
  · exact Nat.le_refl _

theorem length_of_mergeElement (s : Schema) (embed : Option Embed) (tag : Nat)
    (wire : WireType) (type : ValueType) (capacity : Option Nat) (values : List Value)
    (bytes : List UInt8)
    : (mergeElement s embed tag wire type capacity values bytes).rest.length
      ≤ bytes.length := by
  have one := length_of_mergeChecked s embed tag wire type (s.emptyValue type) bytes
  simp only [mergeElement]
  split <;> exact one

theorem length_of_mergeRepeated (s : Schema) (embed : Option Embed) (tag : Nat)
    (wire : WireType) (type : ValueType) (capacity : Option Nat) (values : List Value)
    (bytes : List UInt8)
    : (mergeRepeated s embed tag wire type capacity values bytes).rest.length
      ≤ bytes.length := by
  have packed := Decoder.consumes_lengthDelimited.shrinks bytes
  unfold mergeRepeated
  split
  · exact length_of_mergeElement _ _ _ _ _ _ _ _
  · split
    · split <;> simp_all
    · exact length_of_mergeElement _ _ _ _ _ _ _ _

theorem length_of_mergeMap (s : Schema) (embed : Option Embed) (tag : Nat) (wire : WireType)
    (key : ScalarType) (value : ValueType) (entries : List Entry) (bytes : List UInt8)
    : (mergeMap s embed tag wire key value entries bytes).rest.length ≤ bytes.length := by
  have nested := length_of_mergeNested embed (.entry key value) (s.emptyEntry key value) bytes
  simp only [mergeMap]
  split
  · split <;> exact nested
  · exact Nat.le_refl _

theorem length_of_mergeAlternative (s : Schema) (embed : Option Embed) (wire : WireType)
    (a : Alternative) (current : Slot) (bytes : List UInt8)
    : (mergeAlternative s embed wire a current bytes).rest.length ≤ bytes.length := by
  unfold mergeAlternative
  split
  · split <;> exact length_of_mergeChecked _ _ _ _ _ _ _
  · exact length_of_mergeChecked _ _ _ _ _ _ _

/-- Merging into a member leaves no more bytes than there were, by cases on its shape. -/
theorem length_of_mergeSlot (s : Schema) (embed : Option Embed) (m : Member) (tag : Nat)
    (wire : WireType) (current : Slot) (bytes : List UInt8)
    : (mergeSlot s embed m tag wire current bytes).rest.length ≤ bytes.length := by
  unfold mergeSlot
  split
  · exact length_of_mergeChecked _ _ _ _ _ _ _
  · exact length_of_mergeChecked _ _ _ _ _ _ _
  · split
    · exact length_of_mergeValue _ _ _ _ _
    · exact Nat.le_refl _
  · exact length_of_mergeRepeated _ _ _ _ _ _ _ _
  · exact length_of_mergeMap _ _ _ _ _ _ _ _
  · split
    · exact length_of_mergeAlternative _ _ _ _ _ _
    · exact Nat.le_refl _
  · exact Nat.le_refl _

/-- Merging a record leaves no more bytes than there were, by induction on the members. -/
theorem length_of_mergeMember {s : Schema} {embed : Option Embed} {tag : Nat} {wire : WireType}
    {bytes : List UInt8} {members : List Member} {slots : List Slot} {merged : Merged (List Slot)}
    (h : mergeMember s embed tag wire bytes members slots = some merged)
    : merged.rest.length ≤ bytes.length := by
  induction members generalizing slots merged with
  | nil => simp [mergeMember] at h
  | cons m members ih =>
      cases slots with
      | nil => simp [mergeMember] at h
      | cons slot slots =>
          simp only [mergeMember] at h
          split at h
          · cases h
            exact length_of_mergeSlot _ _ _ _ _ _ _
          · split at h
            · rename_i found hf
              have shorter := ih hf
              cases h
              exact shorter
            · cases h

theorem length_of_mergeCounter {tag : Nat} {bytes : List UInt8} {slots : List Slot}
    {merged : Merged (List Slot)} (h : mergeCounter tag bytes slots = some merged)
    : merged.rest.length ≤ bytes.length := by
  have read := Decoder.consumes_varint.shrinks bytes
  unfold mergeCounter at h
  split at h
  · split at h <;> cases h <;> simp_all
  · cases h

theorem length_of_mergeField {s : Schema} {embed : Option Embed} {t : MessageType} {m : Message}
    {tag : Nat} {wire : WireType} {bytes : List UInt8} {merged : Merged Message}
    (h : mergeField s embed t m tag wire bytes = some merged)
    : merged.rest.length ≤ bytes.length := by
  simp only [mergeField] at h
  split at h
  · rename_i found hf
    cases h
    split at hf
    · exact length_of_mergeCounter hf
    · exact length_of_mergeMember hf
  · cases h

/-- A record that is passed over takes at least one byte, by induction on the bytes. -/
theorem length_of_passRecord {depth : Nat} {bytes rest : List UInt8}
    (h : passRecord depth bytes = .ok rest)
    : rest.length < bytes.length := by
  fun_induction passRecord depth bytes with
  | case1 => cases h
  | case2 => cases h
  | case3 => cases h
  | case4 depth b tail key rest' hk rest'' hv =>
      cases h
      exact Nat.lt_of_le_of_lt (length_of_passValue hv) (length_of_readVarint hk)
  | case5 depth b tail key rest' hk depth' rest'' hv hd ih =>
      exact Nat.lt_trans (ih h)
        (Nat.lt_of_le_of_lt (length_of_passValue hv) (length_of_readVarint hk))

/-- A record that is merged takes at least one byte. -/
theorem length_of_mergeRecord {s : Schema} {embed : Option Embed} {t : MessageType} {m : Message}
    {bytes : List UInt8} (h : (mergeRecord s embed t m bytes).failure = none)
    : (mergeRecord s embed t m bytes).rest.length < bytes.length := by
  have key := Decoder.consumes_key bytes
  unfold mergeRecord at h ⊢
  cases hk : Decoder.key bytes with
  | error e rest => simp [hk] at h
  | ok pair rest =>
      simp only [hk] at key h ⊢
      cases hf : mergeField s embed t m pair.1 pair.2 rest with
      | some merged =>
          simp only
          exact Nat.lt_of_le_of_lt (length_of_mergeField hf) key
      | none =>
          simp only [hf] at h ⊢
          cases hp : passRecord 0 bytes with
          | error e => simp [hp] at h
          | ok rest => exact length_of_passRecord hp

/-- Merges all records of the input. -/
def mergeRecords (s : Schema) (embed : Option Embed) (t : MessageType) (m : Message)
    (bytes : List UInt8) : Message × Option DecodeError :=
  if bytes.isEmpty then (m, none)
  else
    match _h : mergeRecord s embed t m bytes with
    | ⟨value, some e, _⟩ => (value, some e)
    | ⟨value, none, rest⟩ => mergeRecords s embed t value rest
termination_by bytes.length
decreasing_by
  have merged := length_of_mergeRecord (congrArg Merged.failure _h)
  simpa only [_h] using merged

@[simp]
theorem mergeRecords_nil (s : Schema) (embed : Option Embed) (t : MessageType) (m : Message)
    : mergeRecords s embed t m [] = (m, none) := by
  rw [mergeRecords, List.isEmpty_nil, if_pos rfl]

/-- Merging stops at a record that fails. -/
theorem mergeRecords_of_failure {s : Schema} {embed : Option Embed} {t : MessageType} {m : Message}
    {bytes : List UInt8} {e : DecodeError} (nonempty : bytes ≠ [])
    (h : (mergeRecord s embed t m bytes).failure = some e)
    : mergeRecords s embed t m bytes = ((mergeRecord s embed t m bytes).value, some e) := by
  rw [mergeRecords, if_neg (by simpa using nonempty)]
  split
  · rename_i read
    rw [read] at h ⊢
    cases h
    rfl
  · rename_i read
    rw [read] at h
    cases h

/-- A record that is merged leaves the others to be merged. -/
theorem mergeRecords_of_success {s : Schema} {embed : Option Embed} {t : MessageType} {m : Message}
    {bytes : List UInt8} (nonempty : bytes ≠ [])
    (h : (mergeRecord s embed t m bytes).failure = none)
    : mergeRecords s embed t m bytes
        = mergeRecords s embed t (mergeRecord s embed t m bytes).value
            (mergeRecord s embed t m bytes).rest := by
  rw [mergeRecords, if_neg (by simpa using nonempty)]
  split
  · rename_i read
    rw [read] at h
    cases h
  · rename_i read
    rw [read]

/-- Merging of embedded messages inside a reader with the given nesting budget. -/
def embedWithin (s : Schema) : Nat → Option Embed
  | 0 => none
  | budget + 1 => some (mergeRecords s (embedWithin s budget))

namespace Schema

/-- Merges an encoded message into a message of the given type. -/
def merge (s : Schema) (t : MessageType) (m : Message) (bytes : List UInt8)
    : Message × Option DecodeError :=
  mergeRecords s (embedWithin s recursionLimit) t m bytes

/-- Decodes a message of the type with the given name. -/
def decode (s : Schema) (name : String) (bytes : List UInt8) : Except DecodeError Message :=
  match s.merge (s.type name) (s.empty name) bytes with
  | (m, none) => .ok m
  | (_, some e) => .error e

end Schema

end Protobuf
