import Protobuf.Proofs.Message.KeyOrder
import Protobuf.WellKnown.Tree
import Protobuf.WellKnown.Types

/-! The bytes of a message, member by member from the first to the last.  The writer, which works
backwards, writes exactly these bytes, and the size that is computed apart from it is their number.
-/

namespace Protobuf

open Wire

-----------------------------------------------------------------------------------------
-- Bytes read forwards
-----------------------------------------------------------------------------------------

/-- The record of one entry of a map, given the bytes of its value: its key, then its value. -/
def entryBytes (tag : Nat) (key : ScalarType) (k : Scalar) (type : ValueType) (value : List UInt8)
    : List UInt8 :=
  keyBytes tag .lengthDelimited
    ++ delimit (keyBytes 1 key.wireType ++ (payload key k).encoding
      ++ keyBytes 2 type.wireType ++ value)

mutual

/-- The bytes of a value without its key. -/
def Value.encoding (s : Schema) (type : ValueType) : Value → List UInt8
  | .scalar v =>
      match type with
      | .scalar type => (payload type v).encoding
      | .message _ => []
  | .message m =>
      match type with
      | .scalar _ => []
      | .message name => delimit (m.encoding s (s.type name))

def Message.encoding (s : Schema) (t : MessageType) : Message → List UInt8
  | ⟨slots, unknown⟩ =>
      if t.form = .filler then List.replicate (fillerCounters slots).2 0
      else slotsEncoding s t.members slots ++ unknown

def slotsEncoding (s : Schema) (members : List Member) : List Slot → List UInt8
  | [] => []
  | slot :: slots =>
      match members with
      | [] => []
      | m :: members => slot.encoding s m ++ slotsEncoding s members slots

def Slot.encoding (s : Schema) (m : Member) : Slot → List UInt8
  | .none => []
  | .one v =>
      match m.shape with
      | .single type =>
          if v.isOmitted then [] else keyBytes m.tag type.wireType ++ v.encoding s type
      | .optional type => keyBytes m.tag type.wireType ++ v.encoding s type
      | _ => []
  | .many vs =>
      match m.shape with
      | .repeated type packed _ =>
          if vs.isEmpty then []
          else if packed then
            keyBytes m.tag .lengthDelimited ++ delimit (packedEncoding s type vs)
          else elementsEncoding s m.tag type vs
      | _ => []
  | .entries es =>
      match m.shape with
      | .map key value => (inKeyOrder (entryEncodings s m.tag key value es)).flatten
      | _ => []
  | .choice tag v =>
      match m.alternative? tag with
      | some a => keyBytes tag a.type.wireType ++ v.encoding s a.type
      | none => []

def packedEncoding (s : Schema) (type : ValueType) : List Value → List UInt8
  | [] => []
  | v :: vs => v.encoding s type ++ packedEncoding s type vs

def elementsEncoding (s : Schema) (tag : Nat) (type : ValueType) : List Value → List UInt8
  | [] => []
  | v :: vs =>
      keyBytes tag type.wireType ++ v.encoding s type ++ elementsEncoding s tag type vs

/-- The records of the entries of a map, under their keys. -/
def entryEncodings (s : Schema) (tag : Nat) (key : ScalarType) (value : ValueType)
    : List Entry → List (Scalar × List UInt8)
  | [] => []
  | ⟨k, v⟩ :: es =>
      (k, entryBytes tag key k value (v.encoding s value)) :: entryEncodings s tag key value es

end

-----------------------------------------------------------------------------------------
-- Maps
-----------------------------------------------------------------------------------------

section

variable (s : Schema) (tag : Nat) (key : ScalarType) (value : ValueType)

/-- The record of one entry. -/
def Entry.encoding (e : Entry) : List UInt8 :=
  entryBytes tag key e.key value (e.value.encoding s value)

/-- The records of entries, one after the other. -/
def entriesEncoding (es : List Entry) : List UInt8 :=
  es.flatMap (Entry.encoding s tag key value)

theorem entrySizes_eq_map (es : List Entry)
    : entrySizes s tag key value es
        = es.map fun e => (e.key, entrySize tag key e.key (e.value.size s value)) := by
  induction es with
  | nil => rfl
  | cons e es ih =>
      obtain ⟨k, v⟩ := e
      rw [entrySizes, ih, List.map_cons]

theorem entryWriters_eq_map (es : List Entry)
    : entryWriters s tag key value es
        = es.map fun e => (e.key, writeEntry tag key e.key value (e.value.write s value)) := by
  induction es with
  | nil => rfl
  | cons e es ih =>
      obtain ⟨k, v⟩ := e
      rw [entryWriters, ih, List.map_cons]

theorem entryEncodings_eq_map (es : List Entry)
    : entryEncodings s tag key value es = es.map fun e => (e.key, e.encoding s tag key value) := by
  induction es with
  | nil => rfl
  | cons e es ih =>
      obtain ⟨k, v⟩ := e
      rw [entryEncodings, ih, List.map_cons, Entry.encoding]

/-- The records of a map are those of its entries in the order of their keys. -/
theorem flatten_entryEncodings (es : List Entry)
    : (inKeyOrder (entryEncodings s tag key value es)).flatten
        = entriesEncoding s tag key value (byKey es) := by
  rw [entryEncodings_eq_map, inKeyOrder_entries, entriesEncoding, List.flatMap_def]

theorem entriesEncoding_cons (k : Scalar) (v : Value) (es : List Entry)
    : entriesEncoding s tag key value (⟨k, v⟩ :: es)
        = entryBytes tag key k value (v.encoding s value)
          ++ entriesEncoding s tag key value es := by
  rw [entriesEncoding, List.flatMap_cons, Entry.encoding, entriesEncoding]

end

/-- A map whose entries are in order is written entry by entry. -/
theorem Slot.encoding_entries {s : Schema} {m : Member} {key : ScalarType} {value : ValueType}
    {es : List Entry} (shape : m.shape = .map key value) (ordered : Ordered key es)
    : (Slot.entries es).encoding s m = entriesEncoding s m.tag key value es := by
  simp only [Slot.encoding, shape, flatten_entryEncodings, ordered.byKey_eq]

-----------------------------------------------------------------------------------------
-- The writer writes these bytes
-----------------------------------------------------------------------------------------

/-- An entry is written as its record, the value before the key. -/
theorem writes_writeEntry (tag : Nat) (key : ScalarType) (k : Scalar) (type : ValueType)
    {value : Encoder} {bytes : List UInt8} (written : value.Writes bytes)
    : (writeEntry tag key k type value).Writes (entryBytes tag key k type bytes) := by
  have first := (payload key k).writes_write.andThen (Encoder.writes_key 1 key.wireType)
  have both := written.andThen ((Encoder.writes_key 2 type.wireType).andThen first)
  exact both.lengthDelimited.andThen (Encoder.writes_key tag .lengthDelimited)

/-- Steps from the last one on write their bytes in order, by induction on them. -/
theorem writes_fromLast {α : Type} {write : α → Encoder} {encoding : α → List UInt8}
    {items : List α} (written : ∀ a ∈ items, (write a).Writes (encoding a))
    : (Encoder.fromLast (items.map write)).Writes (items.flatMap encoding) := by
  induction items with
  | nil => exact Encoder.writes_skip
  | cons a items ih =>
      obtain ⟨first, others⟩ := List.forall_mem_cons.mp written
      exact (ih others).andThen first

mutual

/-- A value is written as its bytes, by induction on it. -/
theorem Value.writes_write (s : Schema) (type : ValueType) (v : Value)
    : (v.write s type).Writes (v.encoding s type) := by
  cases v with
  | scalar v =>
      cases type with
      | scalar type => exact (payload type v).writes_write
      | message name => exact Encoder.writes_skip
  | message m =>
      cases type with
      | scalar type => exact Encoder.writes_skip
      | message name => exact (m.writes_write s (s.type name)).lengthDelimited

/-- A message is written as its bytes, the unknown records first. -/
theorem Message.writes_write (s : Schema) (t : MessageType) (m : Message)
    : (m.write s t).Writes (m.encoding s t) := by
  cases m with
  | mk slots unknown =>
      simp only [Message.write, Message.encoding]
      split
      · exact Encoder.writes_put _
      · exact (Encoder.writes_put unknown).andThen (writes_writeSlots s t.members slots)

theorem writes_writeSlots (s : Schema) (members : List Member) (slots : List Slot)
    : (writeSlots s members slots).Writes (slotsEncoding s members slots) := by
  cases slots with
  | nil => exact Encoder.writes_skip
  | cons slot slots =>
      cases members with
      | nil => exact Encoder.writes_skip
      | cons m members =>
          exact (writes_writeSlots s members slots).andThen (slot.writes_write s m)

/-- A member is written as its bytes, by cases on what it holds and on its shape. -/
theorem Slot.writes_write (s : Schema) (m : Member) (slot : Slot)
    : (slot.write s m).Writes (slot.encoding s m) := by
  cases slot with
  | none => exact Encoder.writes_skip
  | one v =>
      cases shape : m.shape with
      | single type =>
          simp only [Slot.write, Slot.encoding, shape]
          split
          · exact Encoder.writes_skip
          · exact (v.writes_write s type).andThen (Encoder.writes_key _ _)
      | optional type =>
          simp only [Slot.write, Slot.encoding, shape]
          exact (v.writes_write s type).andThen (Encoder.writes_key _ _)
      | repeated _ _ _ | map _ _ | oneof _ =>
          simp only [Slot.write, Slot.encoding, shape]
          exact Encoder.writes_skip
  | many vs =>
      cases shape : m.shape with
      | repeated type packed capacity =>
          simp only [Slot.write, Slot.encoding, shape]
          split
          · exact Encoder.writes_skip
          · split
            · exact (writes_writePacked s type vs).lengthDelimited.andThen
                (Encoder.writes_key _ _)
            · exact writes_writeElements s m.tag type vs
      | single _ | optional _ | map _ _ | oneof _ =>
          simp only [Slot.write, Slot.encoding, shape]
          exact Encoder.writes_skip
  | entries es =>
      cases shape : m.shape with
      | map key value =>
          simp only [Slot.write, Slot.encoding, shape, flatten_entryEncodings, entryWriters_eq_map,
            inKeyOrder_entries]
          exact writes_fromLast fun e listed => writes_writeEntry m.tag key e.key value
            (writes_entryValues s value es e (mem_byKey.mp listed))
      | single _ | optional _ | repeated _ _ _ | oneof _ =>
          simp only [Slot.write, Slot.encoding, shape]
          exact Encoder.writes_skip
  | choice tag v =>
      cases found : m.alternative? tag with
      | some a =>
          simp only [Slot.write, Slot.encoding, found]
          exact (v.writes_write s a.type).andThen (Encoder.writes_key _ _)
      | none =>
          simp only [Slot.write, Slot.encoding, found]
          exact Encoder.writes_skip

theorem writes_writePacked (s : Schema) (type : ValueType) (vs : List Value)
    : (writePacked s type vs).Writes (packedEncoding s type vs) := by
  cases vs with
  | nil => exact Encoder.writes_skip
  | cons v vs => exact (writes_writePacked s type vs).andThen (v.writes_write s type)

theorem writes_writeElements (s : Schema) (tag : Nat) (type : ValueType) (vs : List Value)
    : (writeElements s tag type vs).Writes (elementsEncoding s tag type vs) := by
  cases vs with
  | nil => exact Encoder.writes_skip
  | cons v vs =>
      rw [elementsEncoding, List.append_assoc]
      have element := (v.writes_write s type).andThen (Encoder.writes_key tag type.wireType)
      rw [← List.append_assoc]
      exact (writes_writeElements s tag type vs).andThen element

/-- The values of entries are written as their bytes. -/
theorem writes_entryValues (s : Schema) (value : ValueType) (es : List Entry)
    : ∀ e ∈ es, (e.value.write s value).Writes (e.value.encoding s value) := by
  cases es with
  | nil => nofun
  | cons e es =>
      obtain ⟨k, v⟩ := e
      exact List.forall_mem_cons.mpr ⟨v.writes_write s value, writes_entryValues s value es⟩

end

-----------------------------------------------------------------------------------------
-- The size is the number of these bytes
-----------------------------------------------------------------------------------------

/-- No message announces another size than it has. -/
def Schema.Sized (s : Schema) : Prop :=
  ∀ t ∈ s.types, t.form ≠ .filler

instance (s : Schema) : Decidable s.Sized :=
  inferInstanceAs (Decidable (∀ t ∈ s.types, t.form ≠ .filler))

theorem Schema.Sized.form_ne {s : Schema} (h : s.Sized) (name : String)
    : (s.type name).form ≠ .filler := by
  unfold Schema.type
  cases found : s.types.find? fun t => t.name == name with
  | none => exact JsonForm.noConfusion
  | some t => exact h t (List.mem_of_find?_eq_some found)

/-- The wire type takes no byte of its own: it fills the three bits below the field number. -/
theorem length_keyBytes (tag : Nat) (wire : WireType)
    : (keyBytes tag wire).length = keySize tag := by
  have code : wire.code < 8 := by cases wire <;> decide
  have split : (tag * 8 + wire.code) % 2 ^ 32 = tag * 8 % 2 ^ 32 + wire.code := by omega
  have width (n : Nat) (h : n < 2 ^ 32) : (UInt64.ofNat n).toNat = n := by
    rw [UInt64.toNat_ofNat']
    omega
  rw [keyBytes, length_varint, keySize, varintSize_eq, varintSize_eq, keyCode, width _ (by omega),
    width _ (by omega), split]
  rcases Nat.eq_zero_or_pos (tag * 8 % 2 ^ 32) with zero | positive
  · have small : wire.code.log2 / 7 = 0 := by cases wire <;> decide
    rw [zero, Nat.zero_add, small, Nat.log2_zero]
  · have field : (tag * 8 % 2 ^ 32 + wire.code) / 2 ^ 3 = tag * 8 % 2 ^ 32 / 2 ^ 3 := by omega
    have longer : 2 ^ 3 ≤ tag * 8 % 2 ^ 32 := by omega
    rw [log2_eq_log2_div_add (Nat.le_add_right_of_le (k := wire.code) longer), field,
      ← log2_eq_log2_div_add longer]

variable {s : Schema}

theorem Entry.length_encoding (e : Entry) (tag : Nat) (key : ScalarType) {value : ValueType}
    (length : (e.value.encoding s value).length = e.value.size s value)
    : (e.encoding s tag key value).length = entrySize tag key e.key (e.value.size s value) := by
  simp only [Entry.encoding, entryBytes, entrySize, List.length_append, length_delimit,
    delimitedSize, length_keyBytes, (payload key e.key).length_encoding, scalarSize_eq, length]

mutual

/-- The size of a value is the number of its bytes, by induction on it. -/
theorem Value.length_encoding (h : s.Sized) (type : ValueType) (v : Value)
    : (v.encoding s type).length = v.size s type := by
  cases v with
  | scalar v =>
      cases type with
      | scalar type =>
          rw [Value.size, scalarSize_eq]
          exact (payload type v).length_encoding
      | message name => rfl
  | message m =>
      cases type with
      | scalar type => rfl
      | message name =>
          simp only [Value.encoding, Value.size, delimitedSize, length_delimit,
            m.length_encoding h (h.form_ne name)]

theorem Message.length_encoding (h : s.Sized) {t : MessageType} (form : t.form ≠ .filler)
    (m : Message)
    : (m.encoding s t).length = m.size s t := by
  cases m with
  | mk slots unknown =>
      simp only [Message.encoding, Message.size, if_neg form, List.length_append,
        length_slotsEncoding h t.members slots]

theorem length_slotsEncoding (h : s.Sized) (members : List Member) (slots : List Slot)
    : (slotsEncoding s members slots).length = slotsSize s members slots := by
  cases slots with
  | nil => rfl
  | cons slot slots =>
      cases members with
      | nil => rfl
      | cons m members =>
          simp only [slotsEncoding, slotsSize, List.length_append, slot.length_encoding h m,
            length_slotsEncoding h members slots]

/-- The size of a member is the number of its bytes, by cases on what it holds and on its shape. -/
theorem Slot.length_encoding (h : s.Sized) (m : Member) (slot : Slot)
    : (slot.encoding s m).length = slot.size s m := by
  cases slot with
  | none => rfl
  | one v =>
      cases shape : m.shape with
      | single type =>
          simp only [Slot.encoding, Slot.size, shape]
          split
          · rfl
          · simp only [List.length_append, length_keyBytes, v.length_encoding h type]
      | optional type =>
          simp only [Slot.encoding, Slot.size, shape, List.length_append, length_keyBytes,
            v.length_encoding h type]
      | repeated _ _ _ | map _ _ | oneof _ =>
          simp only [Slot.encoding, Slot.size, shape, List.length_nil]
  | many vs =>
      cases shape : m.shape with
      | repeated type packed capacity =>
          simp only [Slot.encoding, Slot.size, shape]
          split
          · rfl
          · split
            · simp only [List.length_append, length_keyBytes, length_delimit, delimitedSize,
                length_packedEncoding h type vs]
            · exact length_elementsEncoding h m.tag type vs
      | single _ | optional _ | map _ _ | oneof _ =>
          simp only [Slot.encoding, Slot.size, shape, List.length_nil]
  | entries es =>
      cases shape : m.shape with
      | map key value =>
          have lengths : (byKey es).map (fun e => (e.encoding s m.tag key value).length)
              = (byKey es).map fun e => entrySize m.tag key e.key (e.value.size s value) :=
            List.map_congr_left fun e listed => e.length_encoding m.tag key
              (length_entryValues h value es e (mem_byKey.mp listed))
          simp only [Slot.encoding, Slot.size, shape, flatten_entryEncodings, entrySizes_eq_map,
            inKeyOrder_entries, entriesEncoding, List.length_flatMap, lengths, List.sum_eq_foldr]
      | single _ | optional _ | repeated _ _ _ | oneof _ =>
          simp only [Slot.encoding, Slot.size, shape, List.length_nil]
  | choice tag v =>
      cases found : m.alternative? tag with
      | some a =>
          simp only [Slot.encoding, Slot.size, found, List.length_append, length_keyBytes,
            v.length_encoding h a.type]
      | none => simp only [Slot.encoding, Slot.size, found, List.length_nil]

theorem length_packedEncoding (h : s.Sized) (type : ValueType) (vs : List Value)
    : (packedEncoding s type vs).length = elementsSize s type vs := by
  cases vs with
  | nil => rfl
  | cons v vs =>
      simp only [packedEncoding, elementsSize, List.length_append, v.length_encoding h type,
        length_packedEncoding h type vs]

/-- Elements that stand apart take one key more each. -/
theorem length_elementsEncoding (h : s.Sized) (tag : Nat) (type : ValueType) (vs : List Value)
    : (elementsEncoding s tag type vs).length
        = keySize tag * vs.length + elementsSize s type vs := by
  cases vs with
  | nil => rfl
  | cons v vs =>
      simp only [elementsEncoding, elementsSize, List.length_append, List.length_cons,
        length_keyBytes, v.length_encoding h type, length_elementsEncoding h tag type vs,
        Nat.mul_succ]
      omega

theorem length_entryValues (h : s.Sized) (value : ValueType) (es : List Entry)
    : ∀ e ∈ es, (e.value.encoding s value).length = e.value.size s value := by
  cases es with
  | nil => nofun
  | cons e es =>
      obtain ⟨k, v⟩ := e
      exact List.forall_mem_cons.mpr ⟨v.length_encoding h value, length_entryValues h value es⟩

end

-----------------------------------------------------------------------------------------
-- Encoding
-----------------------------------------------------------------------------------------

namespace Schema

/-- A message is written to the front of a buffer that has room for it, and leaves any other
buffer alone.
-/
theorem encodeTo_eq (h : s.Sized) {t : MessageType} (form : t.form ≠ .filler) (m : Message)
    (buffer : List UInt8)
    : s.encodeTo t m buffer
        = if m.size s t ≤ buffer.length then
            (.ok (m.size s t), m.encoding s t ++ buffer.drop (m.size s t))
          else (.error (.insufficientSpace (m.size s t) buffer.length), buffer) := by
  have filled := fillBuffer_of_writes (m.writes_write s t) buffer
  rw [m.length_encoding h form] at filled
  exact filled

theorem encode_eq (h : s.Sized) {t : MessageType} (form : t.form ≠ .filler) (m : Message)
    : s.encode t m = .ok (m.encoding s t) := by
  rw [encode, encodeTo_eq h form, List.length_replicate, if_pos (Nat.le_refl _)]
  simp

/-- A message is encoded as exactly as many bytes as its size says.  A buffer that has room for them
takes them at its front and keeps the rest; any other buffer is left alone, and the error says how
much room there should have been.
-/
theorem encode_fills_buffer (h : s.Sized) (name : String) (m : Message)
    : ∃ bytes, s.encode (s.type name) m = .ok bytes
        ∧ bytes.length = m.size s (s.type name)
        ∧ ∀ buffer, s.encodeTo (s.type name) m buffer
          = if m.size s (s.type name) ≤ buffer.length then
              (.ok (m.size s (s.type name)), bytes ++ buffer.drop (m.size s (s.type name)))
            else (.error (.insufficientSpace (m.size s (s.type name)) buffer.length), buffer) := by
  have form := h.form_ne name
  exact ⟨m.encoding s (s.type name), encode_eq h form m, m.length_encoding h form,
    encodeTo_eq h form m⟩

/-- An object with a list inside takes 33 bytes, which a buffer of 32 does not have. -/
theorem encode_fills_buffer_struct
    : let s := WellKnown.schemaWith []
      let m := (WellKnown.Tree.struct [⟨"key", .list [.number 0, .text "x", .null]⟩]).message
      let buffer := List.replicate 32 (7 : UInt8)
      s.Sized ∧ m.size s WellKnown.valueType = 33
      ∧ s.encodeTo WellKnown.valueType m buffer = (.error (.insufficientSpace 33 32), buffer) := by
  intro s m buffer
  have sized : s.Sized := by decide
  have type : s.type "google.protobuf.Value" = WellKnown.valueType := by decide
  have size : m.size s WellKnown.valueType = 33 := by decide +kernel
  obtain ⟨bytes, -, -, filled⟩ := encode_fills_buffer sized "google.protobuf.Value" m
  rw [type, size] at filled
  exact ⟨sized, size, filled buffer⟩

end Schema

end Protobuf
