import Protobuf.Json.Reader
import Protobuf.Json.Writer
import Protobuf.Schema.Scalar

/-! Scalars in JSON: as values, and as the keys of maps, which JSON spells as strings.
-/

namespace Protobuf.Json

open Wire

/-- Writes a scalar of a type; a value of another type is not written. -/
def writeScalar (type : ScalarType) (v : Scalar) (w : Writer) : Writer :=
  match type, v with
  | .enumeration e, .int32 v => w.enumeration [e.nameTable] v
  | _, .int32 v => w.int32 v
  | _, .int64 v => w.int64 v
  | _, .uint32 v => w.uint32 v
  | _, .uint64 v => w.uint64 v
  | _, .bool v => w.bool v
  | _, .float bits => w.float bits
  | _, .double bits => w.double bits
  | _, .string v => w.string v
  | _, .bytes v => w.bytes v

/-- Writes the scalar of a member without presence, for which no bytes are null. -/
def writeSingular (type : ScalarType) (v : Scalar) (w : Writer) : Writer :=
  match v with
  | .bytes [] => w.null
  | v => writeScalar type v w

/-- Refuses a text or byte string over the capacity; an empty one takes its place. -/
def boundedBy {α : Type} (capacity : Option Nat) (length : α → Nat) (empty : α)
    (read : α × Reader) : α × Reader :=
  if withinCapacity capacity (length read.1) then read
  else (empty, read.2.latch (.decode .capacityExceeded))

/-- Reads a scalar of a type. -/
def readScalar (type : ScalarType) (r : Reader) : Scalar × Reader :=
  match type with
  | .int32 | .sint32 | .sfixed32 =>
      let (v, r) := r.int32
      (.int32 v, r)
  | .int64 | .sint64 | .sfixed64 =>
      let (v, r) := r.int64
      (.int64 v, r)
  | .uint32 | .fixed32 =>
      let (v, r) := r.uint32
      (.uint32 v, r)
  | .uint64 | .fixed64 =>
      let (v, r) := r.uint64
      (.uint64 v, r)
  | .bool =>
      let (v, r) := r.bool
      (.bool v, r)
  | .float =>
      let (v, r) := r.float
      (.float v, r)
  | .double =>
      let (v, r) := r.double
      (.double v, r)
  | .string capacity =>
      let (v, r) := boundedBy capacity (fun v => (Text.utf8 v).length) "" r.string
      (.string v, r)
  | .bytes capacity =>
      let (v, r) := boundedBy capacity List.length [] r.bytes
      (.bytes v, r)
  | .enumeration e =>
      let (v, r) := r.enumeration [e.numberTable]
      (.int32 v, r)

/-- The object key of a map key. -/
def keyText : Scalar → String
  | .int32 v => toString v.toInt
  | .int64 v => toString v.toInt
  | .uint32 v => toString v.toNat
  | .uint64 v => toString v.toNat
  | .bool v => if v then "true" else "false"
  | .string v => v
  | .float _ | .double _ | .bytes _ => ""

/-- The integer of a range that an object key spells. -/
def integerKey (signed : Bool) (type : String) (low high : Int) (text : String)
    : Except Refusal Int :=
  match Text.integerText? signed text with
  | some n => if low ≤ n ∧ n ≤ high then .ok n else .error (.notMapKey text type)
  | none => .error (.notMapKey text type)

/-- The map key that an object key spells. -/
def keyOfText (type : ScalarType) (text : String) : Except Refusal Scalar :=
  match type with
  | .int32 | .sint32 | .sfixed32 =>
      (integerKey true "i32" (-2 ^ 31) (2 ^ 31 - 1) text).map fun n => .int32 (Int32.ofInt n)
  | .int64 | .sint64 | .sfixed64 =>
      (integerKey true "i64" (-2 ^ 63) (2 ^ 63 - 1) text).map fun n => .int64 (Int64.ofInt n)
  | .uint32 | .fixed32 =>
      (integerKey false "u32" 0 (2 ^ 32 - 1) text).map fun n => .uint32 (UInt32.ofNat n.toNat)
  | .uint64 | .fixed64 =>
      (integerKey false "u64" 0 (2 ^ 64 - 1) text).map fun n => .uint64 (UInt64.ofNat n.toNat)
  | .bool =>
      if text = "true" then .ok (.bool true)
      else if text = "false" then .ok (.bool false)
      else .error (.notMapKey text "bool")
  | .string capacity =>
      match capacity with
      | none => .ok (.string text)
      | some limit =>
          if (Text.utf8 text).length ≤ limit then .ok (.string text)
          else .error (.keyTooLong text limit)
  | .float | .double | .bytes _ | .enumeration _ => .error (.notMapKey text "key")

end Protobuf.Json
