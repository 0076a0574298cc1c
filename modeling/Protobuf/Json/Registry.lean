import Protobuf.Text.Quoted

/-! The message types that may stand inside an `Any`, by full name, and the type URLs that name
them.
-/

namespace Protobuf.Json

/-- The full name in a type URL: everything behind the last slash. -/
def typeName (url : String) : String :=
  String.ofList ((url.toList.reverse.takeWhile (· != '/')).reverse)

/-- The type URL of a full name. -/
def typeUrl (name : String) : String :=
  "type.googleapis.com/" ++ name

/-- The full names of the registered message types, each once. -/
structure Registry where
  names : List String
deriving DecidableEq, Repr, Inhabited

namespace Registry

/-- Registers a message type. -/
def register (r : Registry) (name : String) : Registry :=
  if r.names.contains name then r else ⟨r.names ++ [name]⟩

/-- The registry of the given message types. -/
def ofNames (names : List String) : Registry :=
  names.foldl register ⟨[]⟩

/-- The message type is registered. -/
def contains (r : Registry) (name : String) : Bool :=
  r.names.contains name

/-- The registry as it is described in diagnostics, names in order. -/
def describe (r : Registry) : String :=
  "TypeRegistry \x7b types: ["
    ++ String.intercalate ", "
      ((r.names.mergeSort fun a b => decide (a ≤ b)).map Text.quoted)
    ++ "] \x7d"

end Registry

/-- The full names of the well-known types, which are always known. -/
def wellKnownNames : List String :=
  ["Any", "Duration", "Timestamp", "Struct", "Value", "ListValue", "FieldMask", "Empty",
    "DoubleValue", "FloatValue", "Int64Value", "UInt64Value", "Int32Value", "UInt32Value",
    "BoolValue", "StringValue", "BytesValue"].map fun name => "google.protobuf." ++ name

/-- How the message inside an `Any` is written: a well-known type as a value of its own, a
registered one as the members of the object.
-/
inductive Resolution where
  | wellKnown (name : String)
  | registered (name : String)
deriving DecidableEq, Repr

/-- The conversion of a message type between its encoding and JSON, as it is described in
diagnostics.
-/
def describeCodec (name : String) : String :=
  "AnyCodec(" ++ Text.quoted name ++ ")"

/-- The message type that a type URL names. -/
def resolve (registry : Option Registry) (url : String) : Option Resolution :=
  let name := typeName url
  if wellKnownNames.contains name then some (.wellKnown name)
  else match registry with
    | none => none
    | some registry => if registry.contains name then some (.registered name) else none

end Protobuf.Json
