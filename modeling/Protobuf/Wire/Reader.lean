import Protobuf.Text.Utf8
import Protobuf.Wire.Record
import Protobuf.Wire.Type

/-! Reading values from the front of a byte string.  A decoder that fails leaves the bytes that it
had not consumed, so that a reader can report where it stopped and go on.
-/

namespace Protobuf.Wire

/-- A computation that consumes bytes from the front. -/
abbrev Decoder := EStateM DecodeError (List UInt8)

namespace Decoder

/-- Runs a pure parser; a failure consumes nothing. -/
def ofParser {α : Type} (parse : List UInt8 → Except DecodeError (α × List UInt8)) : Decoder α :=
  fun bytes =>
    match parse bytes with
    | .ok (value, rest) => .ok value rest
    | .error e => .error e bytes

/-- A varint. -/
def varint : Decoder UInt64 :=
  ofParser readVarint

/-- The next `n` bytes. -/
def slice (n : Nat) : Decoder (List UInt8) := fun bytes =>
  if bytes.length < n then .error .unexpectedEof bytes
  else .ok (bytes.take n) (bytes.drop n)

/-- The number that bytes spell, least byte first. -/
def littleEndian : List UInt8 → Nat
  | [] => 0
  | b :: rest => b.toNat + 256 * littleEndian rest

/-- A 32-bit number, least byte first. -/
def fixed32 : Decoder UInt32 := do
  let bytes ← slice 4
  return UInt32.ofNat (littleEndian bytes)

/-- A 64-bit number, least byte first. -/
def fixed64 : Decoder UInt64 := do
  let bytes ← slice 8
  return UInt64.ofNat (littleEndian bytes)

/-- A length and that many bytes. -/
def lengthDelimited : Decoder (List UInt8) := do
  let length ← varint
  if length.toNat < 2 ^ 63 then slice length.toNat
  else throw .invalidLength

/-- A length and that many bytes of UTF-8. -/
def text : Decoder String := do
  let bytes ← lengthDelimited
  match Text.ofUtf8? bytes with
  | some text => return text
  | none => throw .invalidUtf8

/-- The field number and wire type of a key, if both are legal and no group ends here. -/
def splitKey (key : Nat) : Except DecodeError (Nat × WireType) :=
  match WireType.ofCode? (key % 8) with
  | none => .error (.illegalWireType (key % 8))
  | some wire =>
      let tag := key / 8
      if tag = 0 ∨ maxTag < tag then .error (.illegalTag tag wire.code)
      else if wire = .endGroup then .error .unexpectedEndOfGroup
      else .ok (tag, wire)

/-- A key: a field number and a wire type. -/
def key : Decoder (Nat × WireType) := do
  let code ← varint
  match splitKey code.toNat with
  | .ok pair => return pair
  | .error e => throw e

/-- The decoder leaves no more bytes than there were. -/
def Shrinks {α : Type} (d : Decoder α) : Prop :=
  ∀ bytes, match d bytes with
    | .ok _ rest => rest.length ≤ bytes.length
    | .error _ rest => rest.length ≤ bytes.length

/-- The decoder leaves no more bytes than there were, and fewer if it succeeds. -/
def Consumes {α : Type} (d : Decoder α) : Prop :=
  ∀ bytes, match d bytes with
    | .ok _ rest => rest.length < bytes.length
    | .error _ rest => rest.length ≤ bytes.length

theorem shrinks_pure {α : Type} (value : α)
    : Shrinks (pure value) :=
  fun _ => Nat.le_refl _

theorem shrinks_throw {α : Type} (e : DecodeError)
    : Shrinks (throw e : Decoder α) :=
  fun _ => Nat.le_refl _

theorem Consumes.shrinks {α : Type} {d : Decoder α} (h : d.Consumes)
    : d.Shrinks := by
  intro bytes
  have := h bytes
  split at this <;> simp_all [Nat.le_of_lt]

/-- Bytes that the first of two decoders consumes are not given back by the second. -/
theorem Consumes.bind {α β : Type} {d : Decoder α} {f : α → Decoder β}
    (h : d.Consumes) (hf : ∀ value, (f value).Shrinks)
    : Consumes (d >>= f) := by
  intro bytes
  have first := h bytes
  simp only [Bind.bind, EStateM.bind]
  cases hd : d bytes with
  | error e rest => simpa [hd] using first
  | ok value rest =>
      simp only [hd] at first
      have second := hf value rest
      cases hr : f value rest with
      | ok _ rest' =>
          simp only [hr] at second ⊢
          exact Nat.lt_of_le_of_lt second first
      | error _ rest' =>
          simp only [hr] at second ⊢
          exact Nat.le_trans second (Nat.le_of_lt first)

theorem consumes_varint
    : varint.Consumes := by
  intro bytes
  simp only [varint, ofParser]
  cases h : readVarint bytes with
  | error e => simp
  | ok pair => simpa using length_of_readVarint h

theorem shrinks_slice (n : Nat)
    : (slice n).Shrinks := by
  intro bytes
  simp only [slice]
  split
  · rename_i value rest h
    split at h
    · cases h
    · cases h
      simp
  · rename_i e rest h
    split at h
    · cases h
      exact Nat.le_refl _
    · cases h

theorem consumes_slice {n : Nat} (h : 0 < n)
    : (slice n).Consumes := by
  intro bytes
  simp only [slice]
  split
  · rename_i value rest hs
    split at hs
    · cases hs
    · cases hs
      simp only [List.length_drop]
      omega
  · rename_i e rest hs
    split at hs
    · cases hs
      exact Nat.le_refl _
    · cases hs

theorem consumes_lengthDelimited
    : lengthDelimited.Consumes := by
  refine consumes_varint.bind fun length => ?_
  split
  · exact shrinks_slice _
  · exact shrinks_throw _

theorem consumes_text
    : text.Consumes := by
  refine consumes_lengthDelimited.bind fun bytes => ?_
  split
  · exact shrinks_pure _
  · exact shrinks_throw _

theorem consumes_key
    : key.Consumes := by
  refine consumes_varint.bind fun code => ?_
  split
  · exact shrinks_pure _
  · exact shrinks_throw _

theorem consumes_fixed32
    : fixed32.Consumes :=
  (consumes_slice (by decide)).bind fun _ => shrinks_pure _

theorem consumes_fixed64
    : fixed64.Consumes :=
  (consumes_slice (by decide)).bind fun _ => shrinks_pure _

end Decoder

/-- A reader over a byte string: the whole input, what is left of it, and how many more
length-delimited records may nest inside it.
-/
structure Reader where
  input : List UInt8
  rest : List UInt8
  budget : Nat

namespace Reader

/-- A reader at the start of the bytes with the full nesting budget. -/
def ofBytes (bytes : List UInt8) : Reader :=
  ⟨bytes, bytes, recursionLimit⟩

/-- The offset of the next byte. -/
def position (r : Reader) : Nat :=
  r.input.length - r.rest.length

/-- Nothing is left. -/
def atEnd (r : Reader) : Bool :=
  r.rest.isEmpty

/-- Runs a decoder on what is left. -/
def run {α : Type} (d : Decoder α) (r : Reader) : Except DecodeError α × Reader :=
  match d r.rest with
  | .ok value rest => (.ok value, { r with rest })
  | .error e rest => (.error e, { r with rest })

/-- Reads the next `n` bytes; a length that takes the offset past 64 bits is no length at all. -/
def slice (n : Nat) (r : Reader) : Except DecodeError (List UInt8) × Reader :=
  if 2 ^ 64 ≤ r.position + n then (.error .invalidLength, r)
  else r.run (Decoder.slice n)

/-- Reads a length-delimited record and opens a reader over it with one less nesting budget. -/
def nested (r : Reader) : Except DecodeError Reader × Reader :=
  match r.budget with
  | 0 => (.error .recursionLimitExceeded, r)
  | budget + 1 =>
      match r.run Decoder.lengthDelimited with
      | (.ok payload, r) => (.ok ⟨payload, payload, budget⟩, r)
      | (.error e, r) => (.error e, r)

/-- Rewinds to the key at `start` and consumes the record that begins there. -/
def recordAt (start : Nat) (r : Reader) : Except DecodeError (List UInt8) × Reader :=
  let record := r.input.drop start
  match passRecord 0 record with
  | .ok rest => (.ok (record.take (record.length - rest.length)), { r with rest })
  | .error e => (.error e, r)

/-- How many records open inside one another from here, and why the next one does not. -/
def descend : Nat → Reader → Nat × DecodeError
  | 0, _ => (0, .recursionLimitExceeded)
  | limit + 1, r =>
      match r.nested with
      | (.error e, _) => (0, e)
      | (.ok inner, _) =>
          let (depth, e) := descend limit inner
          (depth + 1, e)

end Reader

end Protobuf.Wire
