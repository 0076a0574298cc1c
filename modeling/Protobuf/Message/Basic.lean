import Protobuf.Schema.Type

/-! Messages: one slot for each member of the message type, and the bytes of records that the type
does not declare.
-/

namespace Protobuf

mutual

/-- A value of a scalar or message type. -/
inductive Value where
  | scalar (v : Scalar)
  | message (m : Message)

/-- The slots of a message in the order of the members, and the bytes of unknown records. -/
structure Message where
  slots : List Slot
  unknown : List UInt8

/-- What a member holds. -/
inductive Slot where
  | none
  | one (v : Value)
  | many (vs : List Value)
  /-- Entries in the order of their storage, with different keys.  Entries that are read are stored
  in ascending order.
  -/
  | entries (es : List Entry)
  /-- The alternative of a oneof that is set. -/
  | choice (tag : Nat) (v : Value)

/-- A key and its value. -/
structure Entry where
  key : Scalar
  value : Value

end

namespace Message

/-- The message without slots. -/
def empty : Message :=
  ⟨[], []⟩

instance : Inhabited Message := ⟨empty⟩

end Message

instance : Inhabited Value := ⟨.message .empty⟩

instance : Inhabited Slot := ⟨.none⟩

/-- Puts a value under a key into entries that are sorted by key, in the place of an earlier one. -/
def insertEntry (key : Scalar) (value : Value) : List Entry → List Entry
  | [] => [⟨key, value⟩]
  | e :: rest =>
      match Scalar.compareKeys key e.key with
      | .lt => ⟨key, value⟩ :: e :: rest
      | .eq => ⟨key, value⟩ :: rest
      | .gt => e :: insertEntry key value rest

/-- The value under a key. -/
def entryValue? (key : Scalar) (entries : List Entry) : Option Value :=
  (entries.find? fun e => Scalar.compareKeys key e.key == .eq).map (·.value)

/-- Puts a value in front of the first one that has no smaller key. -/
def insertByKey {α : Type} (key : Scalar) (a : α) : List (Scalar × α) → List (Scalar × α)
  | [] => [(key, a)]
  | (k, b) :: rest =>
      if Scalar.compareKeys key k = .gt then (k, b) :: insertByKey key a rest
      else (key, a) :: (k, b) :: rest

/-- Values in ascending order of their keys. -/
def sortByKey {α : Type} : List (Scalar × α) → List (Scalar × α)
  | [] => []
  | (key, a) :: rest => insertByKey key a (sortByKey rest)

/-- What is stored under keys, in ascending order of the keys. -/
def inKeyOrder {α : Type} (keyed : List (Scalar × α)) : List α :=
  (sortByKey keyed).map (·.2)

/-- What a member holds before it is set, given the messages of singular members. -/
def Shape.emptySlot (message : String → Message) : Shape → Slot
  | .single (.scalar type) => .one (.scalar type.default)
  | .single (.message name) => .one (.message (message name))
  | .optional _ => .none
  | .repeated _ _ _ => .many []
  | .map _ _ => .entries []
  | .oneof _ => .none

/-- The message with empty slots of the type with the given name; singular messages inside it are
of types further down the list.
-/
def emptyMessage : List MessageType → String → Message
  | [], _ => .empty
  | t :: types, name =>
      if t.name == name then
        ⟨t.members.map fun m => m.shape.emptySlot (emptyMessage types), []⟩
      else emptyMessage types name

namespace Schema

/-- The empty message of the type with the given name. -/
def empty (s : Schema) (name : String) : Message :=
  emptyMessage s.types name

/-- The value that a value type has before one is set. -/
def emptyValue (s : Schema) : ValueType → Value
  | .scalar type => .scalar type.default
  | .message name => .message (s.empty name)

/-- The entry of a map before its key and value are read. -/
def emptyEntry (s : Schema) (key : ScalarType) (value : ValueType) : Message :=
  ⟨[.one (.scalar key.default), .one (s.emptyValue value)], []⟩

end Schema

end Protobuf
