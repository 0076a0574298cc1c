import Protobuf.Text.Utf8

/-! The order of dotted field paths, in which a dot comes before every other byte, so that a path
is followed at once by the paths below it.
-/

namespace Protobuf.FieldMask

/-- The place of a byte in the order: the dot first, then the bytes above it, then those below. -/
def rank (b : UInt8) : UInt8 :=
  b - 46

/-- Compares two byte strings at the first place where they differ; a shorter one comes first. -/
def compareBytes : List UInt8 → List UInt8 → Ordering
  | [], [] => .eq
  | [], _ :: _ => .lt
  | _ :: _, [] => .gt
  | a :: left, b :: right => if a = b then compareBytes left right else compare (rank a) (rank b)

/-- Compares two paths. -/
def comparePaths (left right : String) : Ordering :=
  compareBytes (Text.utf8 left) (Text.utf8 right)

/-- The first path comes before the second. -/
def lessPath (left right : String) : Bool :=
  comparePaths left right == .lt

/-- The bytes are those of the ancestor, or go on with a dot behind them. -/
def coversBytes : List UInt8 → List UInt8 → Bool
  | [], [] => true
  | [], b :: _ => b == 46
  | _ :: _, [] => false
  | a :: ancestor, b :: path => a == b && coversBytes ancestor path

/-- The path is the ancestor or lies below it. -/
def covers (ancestor path : String) : Bool :=
  coversBytes (Text.utf8 ancestor) (Text.utf8 path)

/-- One of the paths of a mask covers the path. -/
def anyCovers (mask : List String) (path : String) : Bool :=
  mask.any fun ancestor => covers ancestor path

end Protobuf.FieldMask
