import Protobuf.Proofs.Message.Refusal

/-! What decoding keeps.  The unknown bytes of a decoded message are the records of its input that
its type does not declare, as they stood there; and however the input was written, encoding the
message gives a form that decoding and encoding leave alone.
-/

namespace Protobuf

open Wire

variable {s : Schema} {embed : Option Embed} {t : MessageType} {m m' : Message}

-----------------------------------------------------------------------------------------
-- Records of a byte string
-----------------------------------------------------------------------------------------

namespace Wire

/-- A record: its field number, and all its bytes with its key and up to the end of its group. -/
structure Record where
  tag : Nat
  bytes : List UInt8
deriving DecidableEq, Repr

/-- The record at the front of the bytes and the bytes behind it. -/
def splitRecord (bytes : List UInt8) : Except DecodeError (Record × List UInt8) :=
  match Decoder.key bytes with
  | .error e _ => .error e
  | .ok (tag, _) _ =>
      match passRecord 0 bytes with
      | .error e => .error e
      | .ok rest => .ok (⟨tag, bytes.take (bytes.length - rest.length)⟩, rest)

theorem splitRecord_eq {bytes rest : List UInt8} {record : Record}
    (h : splitRecord bytes = .ok (record, rest))
    : ∃ wire payload, Decoder.key bytes = .ok (record.tag, wire) payload
        ∧ passRecord 0 bytes = .ok rest ∧ bytes = record.bytes ++ rest := by
  unfold splitRecord at h
  split at h
  · cases h
  · rename_i tag wire payload key
    split at h
    · cases h
    · rename_i rest' passed
      cases h
      obtain ⟨part, rfl, -⟩ := passRecord_split passed
      exact ⟨wire, payload, key, passed, by simp⟩

theorem length_of_splitRecord {bytes rest : List UInt8} {record : Record}
    (h : splitRecord bytes = .ok (record, rest))
    : rest.length < bytes.length := by
  obtain ⟨_, _, _, passed, _⟩ := splitRecord_eq h
  exact length_of_passRecord passed

/-- The records that stand one after the other in the bytes. -/
def records (bytes : List UInt8) : Except DecodeError (List Record) :=
  match bytes with
  | [] => .ok []
  | b :: tail =>
      match _h : splitRecord (b :: tail) with
      | .error e => .error e
      | .ok (record, rest) => (records rest).map (record :: ·)
termination_by bytes.length
decreasing_by
  exact length_of_splitRecord _h

theorem records_of_split {bytes rest : List UInt8} {record : Record} {others : List Record}
    (h : splitRecord bytes = .ok (record, rest)) (behind : records rest = .ok others)
    : records bytes = .ok (record :: others) := by
  cases bytes with
  | nil => exact absurd (length_of_splitRecord h) (Nat.not_lt_zero _)
  | cons b tail =>
      rw [records]
      split
      · rename_i failed
        cases h.symm.trans failed
      · rename_i found
        cases h.symm.trans found
        rw [behind]
        rfl

theorem splitRecord_of_pass {tag : Nat} {wire : WireType} {record rest payload : List UInt8}
    (key : Decoder.key (record ++ rest) = .ok (tag, wire) payload)
    (passed : passRecord 0 (record ++ rest) = .ok rest)
    : splitRecord (record ++ rest) = .ok (⟨tag, record⟩, rest) := by
  simp [splitRecord, key, passed]

end Wire

-----------------------------------------------------------------------------------------
-- Unknown records
-----------------------------------------------------------------------------------------

/-- The bytes of the records that the type does not declare. -/
def MessageType.undeclaredBytes (t : MessageType) (rs : List Record) : List UInt8 :=
  (rs.filter fun r => !t.declares r.tag).flatMap (·.bytes)

theorem MessageType.declares_of_memberSlot? {tag : Nat} {member : Member} {slot : Slot}
    (found : memberSlot? tag t.members m.slots = some (member, slot))
    : t.declares tag = true := by
  obtain ⟨listed, -, own⟩ := mem_of_memberSlot? found
  exact List.any_eq_true.mpr ⟨member, listed, own⟩

/-- One record is passed over as a whole, and becomes unknown if the type does not declare it. -/
theorem RecordStep.split (h : s.Lawful) (lawful : t.Lawful) {bytes rest : List UInt8}
    (step : RecordStep s embed t m bytes rest m') (sound : m.Sound s t)
    : ∃ record, splitRecord bytes = .ok (record, rest)
        ∧ (t.keepsUnknown → m'.unknown = m.unknown ++ t.undeclaredBytes [record]) := by
  have passed := step.passes h lawful sound
  obtain ⟨part, rfl, -⟩ := passRecord_split passed
  cases step with
  | declared key found step =>
      have declared := MessageType.declares_of_memberSlot? found
      refine ⟨_, splitRecord_of_pass key passed, fun _ => ?_⟩
      simp [MessageType.undeclaredBytes, declared]
  | undeclared key missing whole legal complete =>
      have undeclared := sound.undeclared missing
      have same := List.append_cancel_right whole
      refine ⟨_, splitRecord_of_pass key passed, fun keeps => ?_⟩
      simp [MessageType.undeclaredBytes, undeclared, keepUnknown, keeps, same]

/-- The bytes that merge are records one after the other, and those that the type does not declare
become unknown in their order, by induction on the records.
-/
theorem records_of_mergeRecords (h : s.Lawful) (lawful : t.Lawful)
    (keeps : ∀ merge, embed = some merge → merge.KeepsSound s) {bytes : List UInt8}
    (sound : m.Sound s t) (merged : mergeRecords s embed t m bytes = (m', none))
    : ∃ rs, records bytes = .ok rs ∧ rs.flatMap (·.bytes) = bytes
        ∧ (t.keepsUnknown → m'.unknown = m.unknown ++ t.undeclaredBytes rs) := by
  refine mergeRecords_induction
    (motive := fun m bytes m' => m.Sound s t → ∃ rs, records bytes = .ok rs
      ∧ rs.flatMap (·.bytes) = bytes
      ∧ (t.keepsUnknown → m'.unknown = m.unknown ++ t.undeclaredBytes rs))
    ?_ ?_ merged sound
  · intro m _
    exact ⟨[], by rw [records], rfl, fun _ => (List.append_nil _).symm⟩
  · intro m bytes m' _ success others sound
    have step := recordStep_of_success lawful.form success
    obtain ⟨record, first, kept⟩ := step.split h lawful sound
    obtain ⟨rs, behind, whole, unknown⟩ := others (step.sound h lawful sound keeps)
    obtain ⟨_, _, _, _, split⟩ := splitRecord_eq first
    refine ⟨record :: rs, records_of_split first behind, ?_, fun keep => ?_⟩
    · rw [List.flatMap_cons, whole, ← split]
    · rw [unknown keep, kept keep, List.append_assoc]
      simp only [MessageType.undeclaredBytes, ← List.flatMap_append, ← List.filter_append,
        List.singleton_append]

-----------------------------------------------------------------------------------------
-- Encodings of normal forms
-----------------------------------------------------------------------------------------

theorem Scalar.isDefault_positiveZero (v : Scalar)
    : v.positiveZero.isDefault = v.isDefault := by
  cases h : v.isDefault with
  | false => rw [Scalar.positiveZero_of_not_isDefault h, h]
  | true =>
      cases v <;> simp_all [isDefault, positiveZero]
      all_goals rfl

theorem Value.isOmitted_normal (type : ValueType) (v : Value)
    : (v.normal s type).positiveZero.isOmitted = v.isOmitted := by
  cases v with
  | scalar v => exact v.isDefault_positiveZero
  | message m => cases type <;> rfl

theorem Value.positiveZero_normal {type : ValueType} {v : Value} (written : v.isOmitted = false)
    : (v.normal s type).positiveZero = v.normal s type := by
  cases v with
  | scalar v => exact congrArg Value.scalar (Scalar.positiveZero_of_not_isDefault written)
  | message m => cases type <;> rfl

theorem elementsNormal_isEmpty (type : ValueType) (vs : List Value)
    : (elementsNormal s type vs).isEmpty = vs.isEmpty := by
  cases vs <;> rfl

mutual

/-- A value has the bytes of its normal form, by induction on it. -/
theorem Value.encoding_normal (h : s.Sized) (type : ValueType) (v : Value)
    : (v.normal s type).encoding s type = v.encoding s type := by
  cases v with
  | scalar v => rfl
  | message m =>
      cases type with
      | scalar type => rfl
      | message name =>
          simp only [Value.normal, Value.encoding, m.encoding_normal h (h.form_ne name)]

theorem Message.encoding_normal (h : s.Sized) {t : MessageType} (form : t.form ≠ .filler)
    (m : Message)
    : (m.normal s t).encoding s t = m.encoding s t := by
  cases m with
  | mk slots unknown =>
      simp only [Message.normal, Message.encoding, if_neg form,
        slots_encoding_normal h t.members slots]

theorem slots_encoding_normal (h : s.Sized) (members : List Member) (slots : List Slot)
    : slotsEncoding s members (slotsNormal s members slots) = slotsEncoding s members slots := by
  cases slots with
  | nil => rfl
  | cons slot slots =>
      cases members with
      | nil => rfl
      | cons m members =>
          simp only [slotsNormal, slotsEncoding, slot.encoding_normal h m,
            slots_encoding_normal h members slots]

/-- A zero that loses its sign is not written, by cases on what the slot holds and on the shape. -/
theorem Slot.encoding_normal (h : s.Sized) (m : Member) (slot : Slot)
    : (slot.normal s m).encoding s m = slot.encoding s m := by
  cases slot with
  | none => rfl
  | one v =>
      cases shape : m.shape with
      | single type =>
          simp only [Slot.normal, Slot.encoding, shape, Value.isOmitted_normal]
          split
          · rfl
          · rename_i written
            rw [Value.positiveZero_normal (by simpa using written), v.encoding_normal h type]
      | optional type =>
          simp only [Slot.normal, Slot.encoding, shape, v.encoding_normal h type]
      | repeated _ _ _ | map _ _ | oneof _ => simp only [Slot.normal, Slot.encoding, shape]
  | many vs =>
      cases shape : m.shape with
      | repeated type packed capacity =>
          simp only [Slot.normal, Slot.encoding, shape, elementsNormal_isEmpty,
            packed_encoding_normal h type vs, elements_encoding_normal h m.tag type vs]
      | single _ | optional _ | map _ _ | oneof _ => simp only [Slot.normal, Slot.encoding, shape]
  | entries es =>
      cases shape : m.shape with
      | map key value =>
          simp only [Slot.normal, Slot.encoding, shape,
            entries_encoding_normal h m.tag key value es]
      | single _ | optional _ | repeated _ _ _ | oneof _ =>
          simp only [Slot.normal, Slot.encoding, shape]
  | choice tag v =>
      cases found : m.alternative? tag with
      | some a => simp only [Slot.normal, Slot.encoding, found, v.encoding_normal h a.type]
      | none => simp only [Slot.normal, found]

theorem packed_encoding_normal (h : s.Sized) (type : ValueType) (vs : List Value)
    : packedEncoding s type (elementsNormal s type vs) = packedEncoding s type vs := by
  cases vs with
  | nil => rfl
  | cons v vs =>
      simp only [elementsNormal, packedEncoding, v.encoding_normal h type,
        packed_encoding_normal h type vs]

theorem elements_encoding_normal (h : s.Sized) (tag : Nat) (type : ValueType) (vs : List Value)
    : elementsEncoding s tag type (elementsNormal s type vs) = elementsEncoding s tag type vs := by
  cases vs with
  | nil => rfl
  | cons v vs =>
      simp only [elementsNormal, elementsEncoding, v.encoding_normal h type,
        elements_encoding_normal h tag type vs]

theorem entries_encoding_normal (h : s.Sized) (tag : Nat) (key : ScalarType) (value : ValueType)
    (es : List Entry)
    : entryEncodings s tag key value (entriesNormal s value es)
        = entryEncodings s tag key value es := by
  cases es with
  | nil => rfl
  | cons e es =>
      obtain ⟨k, v⟩ := e
      simp only [entriesNormal, entryEncodings, v.encoding_normal h value,
        entries_encoding_normal h tag key value es]

end

-----------------------------------------------------------------------------------------
-- Decoding and encoding
-----------------------------------------------------------------------------------------

theorem Message.unknown_suffix (form : t.form ≠ .filler) (m : Message)
    : m.unknown <:+ m.encoding s t := by
  obtain ⟨slots, unknown⟩ := m
  simp only [Message.encoding, if_neg form]
  exact List.suffix_append _ _

namespace Schema

variable {name : String} {bytes : List UInt8}

/-- Bytes that are accepted are records one after the other.  Those that the type does not declare
are the unknown bytes of the message, if it keeps them, and its encoding ends with them.  Whatever
form the bytes had, the encoding is canonical: if it is accepted, what is read from it is encoded
the same way.  No buffer in memory has as many bytes as the bound says.
-/
theorem encode_decode_encode (h : s.Lawful) (accepted : s.decode name bytes = .ok m)
    : ∃ rs again, records bytes = .ok rs ∧ rs.flatMap (·.bytes) = bytes
        ∧ ((s.type name).keepsUnknown → m.unknown = (s.type name).undeclaredBytes rs)
        ∧ s.encode (s.type name) m = .ok again ∧ m.unknown <:+ again
        ∧ (again.length < 2 ^ 63
          → ∀ m', s.decode name again = .ok m' → s.encode (s.type name) m' = .ok again) := by
  have lawful := h.type name
  obtain ⟨rs, split, whole, unknown⟩ := records_of_mergeRecords h lawful
    (keepsSound_embedWithin h recursionLimit) (h.sound_empty name) (merge_of_decode accepted)
  refine ⟨rs, m.encoding s (s.type name), split, whole, fun keeps => ?_,
    encode_eq h.sized lawful.form m, m.unknown_suffix lawful.form, fun small m' again => ?_⟩
  · rw [unknown keeps, h.empty_eq name, List.nil_append]
  · rw [m.length_encoding h.sized lawful.form] at small
    rw [decode_encoding h (h.sound_decode accepted) small] at again
    split at again
    · cases again
      rw [encode_eq h.sized lawful.form, m.encoding_normal h.sized lawful.form]
    · cases again

/-- A record of an undeclared number, a step as a long varint, an undeclared group, and more steps
in a packed record.
-/
theorem encode_decode_encode_reading
    : let s := WellKnown.schemaWith [readingType]
      let bytes := [0x78, 1, 0x10, 0x81, 0, 0x83, 1, 8, 5, 0x84, 1, 0x12, 2, 2, 4]
      ∃ m again m', s.decode "Reading" bytes = .ok m
        ∧ m.unknown = [0x78, 1, 0x83, 1, 8, 5, 0x84, 1]
        ∧ s.encode (s.type "Reading") m = .ok again ∧ m.unknown <:+ again
        ∧ again = [0x12, 3, 1, 2, 4, 0x78, 1, 0x83, 1, 8, 5, 0x84, 1]
        ∧ s.decode "Reading" again = .ok m' ∧ s.encode (s.type "Reading") m' = .ok again := by
  intro s bytes
  have lawful : s.Lawful := WellKnown.lawful_schemaWith (by decide) (by decide) (by decide)
  let merged := s.merge (s.type "Reading") (s.empty "Reading") bytes
  have facts : merged.2 = none ∧ (s.type "Reading").keepsUnknown ∧ merged.1.nesting ≤ recursionLimit
      ∧ merged.1.encoding s (s.type "Reading")
        = [0x12, 3, 1, 2, 4, 0x78, 1, 0x83, 1, 8, 5, 0x84, 1] := by
    decide +kernel
  obtain ⟨success, keeps, shallow, spelled⟩ := facts
  have accepted := decode_of_merge (Prod.ext rfl success)
  obtain ⟨rs, again, split, -, unknown, encoded, ends, canonical⟩ :=
    encode_decode_encode lawful accepted
  have kept : merged.1.unknown = [0x78, 1, 0x83, 1, 8, 5, 0x84, 1] := by
    have found : records bytes = .ok [⟨15, [0x78, 1]⟩, ⟨2, [0x10, 0x81, 0]⟩,
        ⟨16, [0x83, 1, 8, 5, 0x84, 1]⟩, ⟨2, [0x12, 2, 2, 4]⟩] := by
      decide +kernel
    cases split.symm.trans found
    rw [unknown keeps]
    decide +kernel
  have form := (lawful.type "Reading").form
  cases encoded.symm.trans (encode_eq lawful.sized form merged.1)
  have small : (merged.1.encoding s (s.type "Reading")).length < 2 ^ 63 := by
    rw [spelled]
    decide
  have decoded := decode_encoding lawful (lawful.sound_decode accepted)
    (merged.1.length_encoding lawful.sized form ▸ small)
  rw [if_pos shallow] at decoded
  exact ⟨_, _, _, accepted, kept, encoded, ends, spelled, decoded, canonical small _ decoded⟩

end Schema

end Protobuf
