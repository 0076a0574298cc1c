import Protobuf.Message.Basic

/-! Dynamic values as trees, and the messages that stand for them.  A tree is what a caller builds;
the message is what is encoded.
-/

namespace Protobuf.WellKnown

mutual

/-- A dynamic value; a number is the bit pattern of a `double`. -/
inductive Tree where
  | null
  | number (bits : UInt64)
  | text (v : String)
  | bool (v : Bool)
  | struct (fields : List TreeField)
  | list (items : List Tree)

/-- A field of a dynamic struct. -/
structure TreeField where
  key : String
  value : Tree

end

namespace Tree

/-- The message that holds one kind of dynamic value. -/
def ofKind (tag : Nat) (v : Value) : Message :=
  ⟨[.choice tag v], []⟩

mutual

/-- The message of a dynamic value. -/
def message : Tree → Message
  | .null => ofKind 1 (.scalar (.int32 0))
  | .number bits => ofKind 2 (.scalar (.double bits))
  | .text v => ofKind 3 (.scalar (.string v))
  | .bool v => ofKind 4 (.scalar (.bool v))
  | .struct fields => ofKind 5 (.message ⟨[.entries (insertFields fields [])], []⟩)
  | .list items => ofKind 6 (.message ⟨[.many (messages items)], []⟩)

/-- Puts the fields of a struct into entries; of two fields with one key the later stays. -/
def insertFields : List TreeField → List Entry → List Entry
  | [], es => es
  | ⟨key, value⟩ :: fields, es =>
      insertFields fields (insertEntry (.string key) (.message value.message) es)

/-- The messages of the items of a list. -/
def messages : List Tree → List Value
  | [] => []
  | item :: items => .message item.message :: messages items

end

end Tree

end Protobuf.WellKnown
