import Protobuf.Proofs.Json.Steps

/-! The operations that a reader offers.  Whoever reads messages calls them in any order; those that
go through members or elements, and the change of the path for a field, are sequences of them.
-/

namespace Protobuf.Json

namespace Reader

/-- An operation, by the type of its answer. -/
inductive Operation : Type → Type
  | peekKind : Operation (Option ValueKind)
  | null : Operation Bool
  | enter (container : Container) : Operation Bool
  | nextKey : Operation (Option String)
  | nextElement : Operation Bool
  | skip : Operation Unit
  | rawValue : Operation (Option (List UInt8))
  | bool : Operation Bool
  | int32 : Operation Int32
  | int64 : Operation Int64
  | uint32 : Operation UInt32
  | uint64 : Operation UInt64
  | float : Operation UInt32
  | double : Operation UInt64
  | string : Operation String
  | bytes : Operation (List UInt8)
  | enumeration (tables : List (List (String × Int32))) : Operation Int32
  | timestamp : Operation Time.Timestamp
  | duration : Operation Time.Duration
  | fieldMask : Operation (List String)
  | addField (name : String) : Operation Unit
  | latch (cause : Cause) : Operation Unit
  | finish : Operation (Option Fault)

namespace Operation

variable {α : Type}

/-- Carries out an operation. -/
def run : Operation α → Reader → α × Reader
  | peekKind, r => r.peekKind
  | null, r => r.null
  | enter container, r => r.enter container
  | nextKey, r => r.nextKey
  | nextElement, r => r.nextElement
  | skip, r => ((), r.skip)
  | rawValue, r => r.rawValue
  | bool, r => r.bool
  | int32, r => r.int32
  | int64, r => r.int64
  | uint32, r => r.uint32
  | uint64, r => r.uint64
  | float, r => r.float
  | double, r => r.double
  | string, r => r.string
  | bytes, r => r.bytes
  | enumeration tables, r => r.enumeration tables
  | timestamp, r => r.timestamp
  | duration, r => r.duration
  | fieldMask, r => r.fieldMask
  | addField name, r => ((), r.addField name)
  | latch cause, r => ((), r.latch cause)
  | finish, r => r.finish

/-- The answer after a fault: nothing, and in the end the fault. -/
def answerAfter (fault : Fault) : Operation α → α
  | peekKind => none
  | null => false
  | enter _ => false
  | nextKey => none
  | nextElement => false
  | skip => ()
  | rawValue => none
  | bool => false
  | int32 => 0
  | int64 => 0
  | uint32 => 0
  | uint64 => 0
  | float => 0
  | double => 0
  | string => ""
  | bytes => []
  | enumeration _ => 0
  | timestamp => ⟨0, 0⟩
  | duration => ⟨0, 0⟩
  | fieldMask => []
  | addField _ => ()
  | latch _ => ()
  | finish => some fault

/-- With this answer the operation has read or passed over a value, or has begun to. -/
def takes : Operation α → α → Bool
  | null, answer => answer
  | enter _, answer => answer
  | peekKind, _ | nextKey, _ | nextElement, _ | addField _, _ | latch _, _ | finish, _ => false
  | skip, _ | rawValue, _ | bool, _ | int32, _ | int64, _ | uint32, _ | uint64, _ | float, _
  | double, _ | string, _ | bytes, _ | enumeration _, _ | timestamp, _ | duration, _
  | fieldMask, _ => true

end Operation

-----------------------------------------------------------------------------------------
-- Operations after a fault
-----------------------------------------------------------------------------------------

variable {r : Reader}

theorem numericText_of_fault (failed : r.fault.isSome) (type : String)
    : r.numericText type = (none, r) := by
  obtain ⟨fault, same⟩ := Option.isSome_iff_exists.mp failed
  rw [numericText, same]

theorem stringAs_of_fault (failed : r.fault.isSome) (type : String)
    : r.stringAs type = (none, r) := by
  obtain ⟨fault, same⟩ := Option.isSome_iff_exists.mp failed
  rw [stringAs, same]

theorem floating_of_fault (failed : r.fault.isSome) (type : String)
    : r.floating type = (none, r) := by
  rw [floating, numericText_of_fault failed]

theorem integer_of_fault (failed : r.fault.isSome) (type : String) (low high : Int)
    : r.integer type low high = (0, r) := by
  rw [integer, numericText_of_fault failed]

theorem bool_of_fault (failed : r.fault.isSome)
    : r.bool = (false, r) := by
  obtain ⟨fault, same⟩ := Option.isSome_iff_exists.mp failed
  rw [bool, same]

theorem skip_of_fault (failed : r.fault.isSome)
    : r.skip = r := by
  obtain ⟨fault, same⟩ := Option.isSome_iff_exists.mp failed
  rw [skip, same]

theorem enumeration_of_fault (failed : r.fault.isSome) (tables : List (List (String × Int32)))
    : r.enumeration tables = (0, r) := by
  obtain ⟨fault, same⟩ := Option.isSome_iff_exists.mp failed
  rw [enumeration, same]

theorem fieldMask_of_fault (failed : r.fault.isSome)
    : r.fieldMask = ([], r) := by
  rw [fieldMask, peekKind_of_fault failed]
  simp only [stringAs_of_fault failed]

/-- After a fault an operation gives its answer for that, and changes nothing but the recorded
fields.
-/
theorem run_of_fault {α : Type} {fault : Fault} (failed : r.fault = some fault) (op : Operation α)
    : (op.run r).1 = op.answerAfter fault ∧ r.Still (op.run r).2 := by
  have failed' : r.fault.isSome := Option.isSome_iff_exists.mpr ⟨fault, failed⟩
  have idle (same : op.run r = (op.answerAfter fault, r))
      : (op.run r).1 = op.answerAfter fault ∧ r.Still (op.run r).2 := by
    rw [same]
    exact ⟨rfl, .refl r⟩
  cases op with
  | addField name => exact ⟨rfl, still_addField r name⟩
  | peekKind => exact idle (peekKind_of_fault failed')
  | null => exact idle (null_of_fault failed')
  | enter container => exact idle (enter_of_fault failed' container)
  | nextKey => exact idle (nextKey_of_fault failed')
  | nextElement => exact idle (nextElement_of_fault failed')
  | skip => exact idle (congrArg (Prod.mk ()) (skip_of_fault failed'))
  | rawValue => exact idle (rawValue_of_fault failed')
  | bool => exact idle (bool_of_fault failed')
  | int32 => exact idle (by rw [Operation.run, int32, integer_of_fault failed']; rfl)
  | int64 => exact idle (by rw [Operation.run, int64, integer_of_fault failed']; rfl)
  | uint32 => exact idle (by rw [Operation.run, uint32, integer_of_fault failed']; rfl)
  | uint64 => exact idle (by rw [Operation.run, uint64, integer_of_fault failed']; rfl)
  | float => exact idle (by rw [Operation.run, float, floating_of_fault failed']; rfl)
  | double => exact idle (by rw [Operation.run, double, floating_of_fault failed']; rfl)
  | string => exact idle (by rw [Operation.run, string, stringAs_of_fault failed']; rfl)
  | bytes => exact idle (by rw [Operation.run, bytes, stringAs_of_fault failed']; rfl)
  | enumeration tables => exact idle (enumeration_of_fault failed' tables)
  | timestamp => exact idle (by rw [Operation.run, timestamp, stringAs_of_fault failed']; rfl)
  | duration => exact idle (by rw [Operation.run, duration, stringAs_of_fault failed']; rfl)
  | fieldMask => exact idle (fieldMask_of_fault failed')
  | latch cause => exact idle (congrArg (Prod.mk ()) (latch_of_fault failed' cause))
  | finish => exact idle (by rw [Operation.run, finish, failed]; rfl)

end Reader

end Protobuf.Json
