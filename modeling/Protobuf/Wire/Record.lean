import Protobuf.Number.Power
import Protobuf.Wire.Varint

/-! Passing over one record whatever its field number: a key and its value, a group together with
everything up to its end.
-/

namespace Protobuf.Wire

/-- The bytes behind the next `n`. -/
def passBytes (n : Nat) (bytes : List UInt8) : Except DecodeError (List UInt8) :=
  if bytes.length < n then .error .unexpectedEof else .ok (bytes.drop n)

/-- Reads a length and returns it with the bytes behind it. -/
def readLength (bytes : List UInt8) : Except DecodeError (Nat × List UInt8) :=
  match readVarint bytes with
  | .error e => .error e
  | .ok (length, rest) =>
      if length.toNat < 2 ^ 63 then .ok (length.toNat, rest) else .error .invalidLength

/-- The bytes behind a value of wire type `wire` and the group depth there. -/
def passValue (wire depth : Nat) (bytes : List UInt8)
    : Except DecodeError (Nat × List UInt8) :=
  match wire with
  | 0 => (readVarint bytes).map fun (_, rest) => (depth, rest)
  | 1 => (passBytes 8 bytes).map fun rest => (depth, rest)
  | 2 =>
      match readLength bytes with
      | .error e => .error e
      | .ok (length, rest) => (passBytes length rest).map fun rest => (depth, rest)
  | 3 => .ok (depth + 1, bytes)
  | 4 => if depth = 0 then .error .unexpectedEndOfGroup else .ok (depth - 1, bytes)
  | 5 => (passBytes 4 bytes).map fun rest => (depth, rest)
  | wire => .error (.illegalWireType wire)

theorem length_of_passBytes {n : Nat} {bytes rest : List UInt8}
    (h : passBytes n bytes = .ok rest)
    : rest.length ≤ bytes.length := by
  simp only [passBytes] at h
  split at h
  · cases h
  · cases h
    simp

theorem length_of_readLength {length : Nat} {bytes rest : List UInt8}
    (h : readLength bytes = .ok (length, rest))
    : rest.length < bytes.length := by
  simp only [readLength] at h
  split at h
  · cases h
  · rename_i v rest' hr
    split at h
    · cases h
      exact length_of_readVarint hr
    · cases h

/-- Passing over a value leaves no more bytes than there were, by cases on the wire type. -/
theorem length_of_passValue {wire depth depth' : Nat} {bytes rest : List UInt8}
    (h : passValue wire depth bytes = .ok (depth', rest))
    : rest.length ≤ bytes.length := by
  have bytesCase {n : Nat} {bytes : List UInt8}
      (h : (passBytes n bytes).map (fun rest => (depth, rest)) = .ok (depth', rest))
      : rest.length ≤ bytes.length := by
    cases hp : passBytes n bytes with
    | error e => simp [hp, Except.map] at h
    | ok rest' =>
        simp only [hp, Except.map, Except.ok.injEq, Prod.mk.injEq] at h
        exact h.2 ▸ length_of_passBytes hp
  unfold passValue at h
  split at h
  · cases hv : readVarint bytes with
    | error e => simp [hv, Except.map] at h
    | ok pair =>
        obtain ⟨v, rest'⟩ := pair
        simp only [hv, Except.map, Except.ok.injEq, Prod.mk.injEq] at h
        exact h.2 ▸ Nat.le_of_lt (length_of_readVarint hv)
  · exact bytesCase h
  · split at h
    · cases h
    · rename_i hl
      exact Nat.le_trans (bytesCase h) (Nat.le_of_lt (length_of_readLength hl))
  · cases h
    exact Nat.le_refl _
  · split at h
    · cases h
    · cases h
      exact Nat.le_refl _
  · exact bytesCase h
  · cases h

/-- The bytes behind the record that begins here, where `depth` groups are already open. -/
def passRecord (depth : Nat) (bytes : List UInt8) : Except DecodeError (List UInt8) :=
  match bytes with
  | [] => .error .unexpectedEof
  | b :: tail =>
      match _hk : readVarint (b :: tail) with
      | .error e => .error e
      | .ok (key, rest) =>
          match _hv : passValue (key.toNat % 8) depth rest with
          | .error e => .error e
          | .ok (depth', rest') => if depth' = 0 then .ok rest' else passRecord depth' rest'
termination_by bytes.length
decreasing_by
  exact Nat.lt_of_le_of_lt (length_of_passValue _hv) (length_of_readVarint _hk)

/-- A record is a key, its value, and if groups stay open the records up to their ends. -/
theorem passRecord_eq (depth : Nat) (bytes : List UInt8)
    : passRecord depth bytes
        = match readVarint bytes with
          | .error e => .error e
          | .ok (key, rest) =>
              match passValue (key.toNat % 8) depth rest with
              | .error e => .error e
              | .ok (depth', rest') =>
                  if depth' = 0 then .ok rest' else passRecord depth' rest' := by
  cases bytes with
  | nil => simp [passRecord]
  | cons b tail =>
      rw [passRecord]
      split
      · rename_i read
        simp [read]
      · rename_i key rest read
        split
        · rename_i passed
          simp [read, passed]
        · rename_i passed
          simp [read, passed]

/-- The length of the record at the front of the bytes, its key included. -/
def recordLength (bytes : List UInt8) : Except DecodeError Nat :=
  match passRecord 0 bytes with
  | .error e => .error e
  | .ok rest => .ok (bytes.length - rest.length)

end Protobuf.Wire
