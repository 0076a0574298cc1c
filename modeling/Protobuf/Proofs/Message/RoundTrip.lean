import Protobuf.Proofs.Message.Absorption
import Protobuf.WellKnown.Tree
import Protobuf.WellKnown.Types

/-! Messages come back from their bytes.  A message is read from its encoding up to the sign of
zeros that are not written, and a concatenation of encodings is read as the combination of the
messages.
-/

namespace Protobuf

open Wire

/-- A message of a type that can be encoded and read again: it nests no deeper than a reader goes,
and it has a size that memory can hold, which keeps all lengths in it positive.
-/
structure Message.Readable (s : Schema) (t : MessageType) (m : Message) : Prop where
  conforms : m.Conforms s t
  fits : m.Fits s t
  nesting : m.nesting ≤ recursionLimit
  size : m.size s t < 2 ^ 63

-----------------------------------------------------------------------------------------
-- A sample type
-----------------------------------------------------------------------------------------

/-- A number, a list of at most three numbers, a dynamic value and unknown records. -/
def readingType : MessageType where
  name := "Reading"
  members := [
    ⟨1, "level", "level", .single (.scalar .double)⟩,
    ⟨2, "steps", "steps", .repeated (.scalar .sint32) true (some 3)⟩,
    ⟨3, "note", "note", .optional (.message "google.protobuf.Value")⟩]
  keepsUnknown := true

/-- A reading with one step, an object with one key and one unknown record. -/
def reading (level : UInt64) (step : Int32) (key : String) : Message :=
  ⟨[.one (.scalar (.double level)), .many [.scalar (.int32 step)],
    .one (.message (WellKnown.Tree.struct [⟨key, .null⟩]).message)], [0x78, 1]⟩

theorem conforms_reading (level : UInt64) (step : Int32) (key : String)
    : (reading level step key).Conforms (WellKnown.schemaWith [readingType]) readingType := by
  have entries : Ordered (.string none) [⟨.string key, .message WellKnown.Tree.null.message⟩] :=
    ⟨by simp [Scalar.hasType, withinCapacity], List.pairwise_singleton _ _⟩
  have bytes : keyBytes 15 .varint = [0x78] := by decide +kernel
  have legal : Decoder.key [0x78, 1] = .ok (15, .varint) [1] := by
    have read : Decoder.Reads Decoder.key (keyBytes 15 .varint) (15, .varint) :=
      Decoder.reads_key (by decide) (by decide) (by decide)
    rw [bytes] at read
    exact read [1]
  have unknown : UnknownRecords readingType ([0x78, 1] ++ []) :=
    .cons legal rfl (by decide +kernel) .nil
  have object : slotsConform (WellKnown.schemaWith [readingType]) WellKnown.structType.members
      [.entries [⟨.string key, .message WellKnown.Tree.null.message⟩]] :=
    ⟨⟨entries, ⟨⟨rfl, rfl⟩, rfl⟩, trivial⟩, rfl⟩
  exact ⟨⟨rfl, ⟨rfl, trivial⟩, ⟨⟨⟨object, rfl⟩, rfl⟩, rfl⟩, rfl⟩, unknown⟩

theorem fits_reading (level : UInt64) (step : Int32) (key : String)
    : (reading level step key).Fits (WellKnown.schemaWith [readingType]) readingType :=
  ⟨trivial, ⟨rfl, trivial, trivial⟩, ⟨⟨⟨⟨trivial, trivial⟩, trivial⟩, trivial⟩, trivial⟩, trivial⟩

-----------------------------------------------------------------------------------------
-- Encoding and decoding
-----------------------------------------------------------------------------------------

namespace Schema

variable {s : Schema} {name : String}

theorem Lawful.sized (h : s.Lawful)
    : s.Sized :=
  fun t member => (h.types t member).form

/-- Merging the bytes of a message into another one gives their combination. -/
theorem merge_encoding (h : s.Lawful) {x y : Message} (old : x.Conforms s (s.type name))
    (readable : y.Readable s (s.type name))
    (fits : (x.combine s (s.type name) y).Fits s (s.type name))
    : s.merge (s.type name) (x.normal s (s.type name)) (y.encoding s (s.type name))
        = ((x.combine s (s.type name) y).normal s (s.type name), none) := by
  have lawful := h.type name
  have small := readable.size
  rw [← y.length_encoding h.sized lawful.form] at small
  exact y.merge_encoding h lawful readable.conforms readable.nesting small x old fits

/-- Merging the bytes of a message into an empty one gives the message. -/
theorem merge_empty (h : s.Lawful) {m : Message} (readable : m.Readable s (s.type name))
    : s.merge (s.type name) (s.empty name) (m.encoding s (s.type name))
        = (m.normal s (s.type name), none) := by
  have fits := m.fits_combine_empty h name readable.conforms readable.fits
  have merged := merge_encoding h (h.conforms_empty name) readable fits
  rwa [h.normal_empty name, m.normal_combine_empty h name readable.conforms] at merged

/-- A message is read from its encoding as it was, except that a negative zero of a member without
presence is read as zero: such a member is not written.
-/
theorem decode_encode (h : s.Lawful) (name : String) (m : Message)
    (readable : m.Readable s (s.type name))
    : ∃ bytes, s.encode (s.type name) m = .ok bytes
        ∧ s.decode name bytes = .ok (m.normal s (s.type name)) := by
  refine ⟨m.encoding s (s.type name), encode_eq h.sized (h.type name).form m, ?_⟩
  rw [decode, merge_empty h readable]

/-- A negative zero, a packed list, a message in a map in a oneof and an unknown record. -/
theorem decode_encode_reading
    : let s := WellKnown.schemaWith [readingType]
      ∃ bytes, s.encode readingType (reading 0x8000000000000000 (-1) "a") = .ok bytes
        ∧ s.decode "Reading" bytes = .ok (reading 0 (-1) "a") := by
  intro s
  have lawful : s.Lawful := WellKnown.lawful_schemaWith (by decide) (by decide) (by decide)
  have readable : (reading 0x8000000000000000 (-1) "a").Readable s readingType :=
    ⟨conforms_reading _ _ _, fits_reading _ _ _, by decide, by decide +kernel⟩
  exact decode_encode lawful "Reading" _ readable

/-- Two encodings behind each other are read as the combination of the messages, if it keeps its
lists within their capacity.  As in `decode_encode`, a zero that is not written has no sign.
-/
theorem decode_append (h : s.Lawful) (name : String) (x y : Message)
    (first : x.Readable s (s.type name)) (second : y.Readable s (s.type name))
    (fits : (x.combine s (s.type name) y).Fits s (s.type name))
    : ∃ a b, s.encode (s.type name) x = .ok a ∧ s.encode (s.type name) y = .ok b
        ∧ s.decode name (a ++ b)
          = .ok ((x.combine s (s.type name) y).normal s (s.type name)) := by
  have form := (h.type name).form
  refine ⟨x.encoding s (s.type name), y.encoding s (s.type name), encode_eq h.sized form x,
    encode_eq h.sized form y, ?_⟩
  have merged : s.merge (s.type name) (s.empty name)
        (x.encoding s (s.type name) ++ y.encoding s (s.type name))
      = ((x.combine s (s.type name) y).normal s (s.type name), none) :=
    (mergeRecords_append (merge_empty h first) _).trans
      (merge_encoding h first.conforms second fits)
  rw [decode, merged]

/-- A number is replaced, a list gets longer, and an object gets a second key. -/
theorem decode_append_reading
    : let s := WellKnown.schemaWith [readingType]
      ∃ a b, s.encode readingType (reading 0x8000000000000000 (-1) "a") = .ok a
        ∧ s.encode readingType (reading 0x4004000000000000 300 "b") = .ok b
        ∧ s.decode "Reading" (a ++ b)
          = .ok ⟨[.one (.scalar (.double 0x4004000000000000)),
              .many [.scalar (.int32 (-1)), .scalar (.int32 300)],
              .one (.message (WellKnown.Tree.struct [⟨"a", .null⟩, ⟨"b", .null⟩]).message)],
              [0x78, 1, 0x78, 1]⟩ := by
  intro s
  have lawful : s.Lawful := WellKnown.lawful_schemaWith (by decide) (by decide) (by decide)
  have first : (reading 0x8000000000000000 (-1) "a").Readable s readingType :=
    ⟨conforms_reading _ _ _, fits_reading _ _ _, by decide, by decide +kernel⟩
  have second : (reading 0x4004000000000000 300 "b").Readable s readingType :=
    ⟨conforms_reading _ _ _, fits_reading _ _ _, by decide, by decide +kernel⟩
  have null : (WellKnown.Tree.null.message).Fits s WellKnown.valueType := ⟨trivial, trivial⟩
  exact decode_append lawful "Reading" _ _ first second
    ⟨trivial, ⟨rfl, trivial, trivial, trivial⟩, ⟨⟨⟨null, null, trivial⟩, trivial⟩, trivial⟩,
      trivial⟩

end Schema

end Protobuf
