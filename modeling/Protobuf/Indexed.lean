/-! Reading bytes by index.  The bytes stay where they are, an offset moves over them, and each
access says where it looks.  An access may be out of range, which ends everything; that this never
happens is proved of the computations and not built into them.
-/

namespace Protobuf

/-- The bytes between two offsets, if the offsets are in order and inside. -/
def between? (data : List UInt8) (start stop : Nat) : Option (List UInt8) :=
  if start ≤ stop ∧ stop ≤ data.length then some ((data.drop start).take (stop - start)) else none

/-- What ends a computation early: an access out of range, or an error of its own. -/
inductive Interruption (ε : Type) where
  | outOfRange
  | failed (e : ε)

/-- A computation that reads bytes at an offset and moves the offset. -/
abbrev Indexed (ε : Type) := ReaderT (List UInt8) (EStateM (Interruption ε) Nat)

namespace Indexed

variable {ε α : Type}

/-- Fails where the offset is. -/
def fail (e : ε) : Indexed ε α := fun _ i =>
  .error (.failed e) i

/-- The bytes between two offsets. -/
def slice (start stop : Nat) : Indexed ε (List UInt8) := fun data i =>
  match between? data start stop with
  | some bytes => .ok bytes i
  | none => .error .outOfRange i

/-- The bytes from an offset on. -/
def sliceFrom (start : Nat) : Indexed ε (List UInt8) := fun data =>
  slice start data.length data

/-- The offset of the next byte. -/
def position : Indexed ε Nat := fun _ i =>
  .ok i i

/-- Moves the offset. -/
def moveTo (i : Nat) : Indexed ε Unit := fun _ _ =>
  .ok () i

/-- The next byte, if there is one. -/
def byte? : Indexed ε (Option UInt8) := fun data i =>
  .ok data[i]? i

end Indexed

end Protobuf
