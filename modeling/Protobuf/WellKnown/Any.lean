import Protobuf.Json.Registry
import Protobuf.Message.Merge
import Protobuf.Message.Write
import Protobuf.Text.Quoted

/-! Packing a message into an `Any` and unpacking it again.
-/

namespace Protobuf.WellKnown

open Wire

/-- A message of some type with the URL that names it. -/
structure AnyMessage where
  typeUrl : String
  value : List UInt8
deriving DecidableEq, Repr

/-- Why a message could not be unpacked. -/
inductive AnyError where
  | typeMismatch (expected actual : String)
  | decode (e : DecodeError)
deriving DecidableEq, Repr

/-- The wording of an unpacking error. -/
def AnyError.message : AnyError → String
  | .typeMismatch expected actual =>
      "Any holds " ++ Text.quoted actual ++ ", not " ++ Text.quoted expected
  | .decode e => e.message

namespace AnyMessage

/-- The full name of the packed type. -/
def typeName (any : AnyMessage) : String :=
  Json.typeName any.typeUrl

/-- The packed type has the given name. -/
def holds (any : AnyMessage) (name : String) : Bool :=
  any.typeName == name

/-- Packs a message of the type with the given name. -/
def pack (s : Schema) (name : String) (m : Message) : Except EncodeError AnyMessage :=
  match s.encode (s.type name) m with
  | .ok value => .ok ⟨Json.typeUrl name, value⟩
  | .error e => .error e

/-- The packed message, which has to be of the type with the given name. -/
def unpack (s : Schema) (name : String) (any : AnyMessage) : Except AnyError Message :=
  if any.holds name then
    match s.decode name any.value with
    | .ok m => .ok m
    | .error e => .error (.decode e)
  else .error (.typeMismatch name any.typeName)

end AnyMessage

end Protobuf.WellKnown
