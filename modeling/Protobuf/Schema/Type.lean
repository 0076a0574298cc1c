import Protobuf.Schema.Scalar

/-! Message types as data: members with their field numbers, names and shapes, and a schema that
finds a message type by its name.  Members stand in the order in which they are written.
-/

namespace Protobuf

open Wire

/-- The type of a value: a scalar, or the message type of the given name. -/
inductive ValueType where
  | scalar (type : ScalarType)
  | message (name : String)
deriving DecidableEq, Repr

namespace ValueType

/-- How values of the type are laid out. -/
def wireType : ValueType → WireType
  | .scalar type => type.wireType
  | .message _ => .lengthDelimited

end ValueType

/-- One alternative of a oneof. -/
structure Alternative where
  tag : Nat
  type : ValueType
  name : String
  jsonName : String
deriving DecidableEq, Repr

/-- How often a member holds a value and of which type. -/
inductive Shape where
  /-- Always one value; a default scalar is not written. -/
  | single (type : ValueType)
  /-- No value or one. -/
  | optional (type : ValueType)
  /-- Any number of values, up to an optional capacity, written as one packed record or apart. -/
  | repeated (type : ValueType) (packed : Bool) (capacity : Option Nat)
  /-- Values by key. -/
  | map (key : ScalarType) (value : ValueType)
  /-- No value or one of the alternatives. -/
  | oneof (alternatives : List Alternative)
deriving DecidableEq, Repr

/-- A member of a message type; the tag of a oneof is its lowest. -/
structure Member where
  tag : Nat
  name : String
  jsonName : String
  shape : Shape
deriving DecidableEq, Repr

namespace Member

/-- A oneof of alternatives. -/
def ofAlternatives (name : String) (alternatives : List Alternative) : Member :=
  { tag := (alternatives.map (·.tag)).min?.getD 0
    name := name
    jsonName := name
    shape := .oneof alternatives }

/-- The alternative of a oneof with the given field number. -/
def alternative? (m : Member) (tag : Nat) : Option Alternative :=
  match m.shape with
  | .oneof alternatives => alternatives.find? fun a => a.tag == tag
  | _ => none

/-- The field number belongs to the member. -/
def hasTag (m : Member) (tag : Nat) : Bool :=
  match m.shape with
  | .oneof alternatives => alternatives.any fun a => a.tag == tag
  | _ => m.tag == tag

end Member

/-- How messages of a type are written in JSON. -/
inductive JsonForm where
  /-- An object with a key for each member. -/
  | members
  /-- The value of the only member. -/
  | bare
  /-- The value of the only member; an object that holds it as `value` is read too. -/
  | wrapper
  | timestamp
  | duration
  | fieldMask
  | struct
  | value
  | listValue
  | any
  /-- An empty object. -/
  | filler
deriving DecidableEq, Repr

/-- A message type.  A message of filler form holds two counters, and is encoded as zeros: the first
counter announces how many, the second says how many are written.
-/
structure MessageType where
  name : String
  members : List Member
  keepsUnknown : Bool := false
  form : JsonForm := .members
deriving DecidableEq, Repr

namespace MessageType

/-- Inserts a member behind those with a tag that is not greater. -/
def insertMember (m : Member) : List Member → List Member
  | [] => [m]
  | n :: rest => if m.tag < n.tag then m :: n :: rest else n :: insertMember m rest

/-- Members in the order of their lowest tags. -/
def sortMembers (members : List Member) : List Member :=
  members.foldl (fun sorted m => insertMember m sorted) []

/-- The type with the given members in the order of their lowest tags. -/
def ofMembers (name : String) (members : List Member) (keepsUnknown : Bool) : MessageType :=
  { name, members := sortMembers members, keepsUnknown }

/-- The type of the given name without members. -/
def empty (name : String) : MessageType :=
  { name, members := [] }

/-- The entry of a map as a message: the key is field 1 and the value field 2. -/
def entry (key : ScalarType) (value : ValueType) : MessageType :=
  { name := ""
    members := [
      ⟨1, "key", "key", .single (.scalar key)⟩,
      ⟨2, "value", "value", .single value⟩] }

end MessageType

/-- Message types by name.  A member without presence that holds a message has its type further
down the list, which rules out messages that contain themselves.
-/
structure Schema where
  types : List MessageType
deriving Repr

namespace Schema

/-- The message type of the given name; a name that is not there has no members. -/
def type (s : Schema) (name : String) : MessageType :=
  (s.types.find? fun t => t.name == name).getD (MessageType.empty name)

end Schema

end Protobuf
