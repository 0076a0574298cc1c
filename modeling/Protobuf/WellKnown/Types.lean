import Protobuf.Schema.Type

/-! The well-known message types and their members.
-/

namespace Protobuf.WellKnown

/-- A member without presence that holds a scalar. -/
def scalarMember (tag : Nat) (name : String) (type : ScalarType) : Member :=
  ⟨tag, name, name, .single (.scalar type)⟩

/-- An alternative of a oneof. -/
def alternative (tag : Nat) (name jsonName : String) (type : ValueType) : Alternative :=
  ⟨tag, type, name, jsonName⟩

/-- The enumeration with the only value null. -/
def nullValue : EnumType :=
  ⟨"NullValue", [⟨0, "NULL_VALUE", []⟩]⟩

/-- A message of any type with the URL that names it. -/
def anyType : MessageType where
  name := "google.protobuf.Any"
  members := [scalarMember 1 "type_url" (.string none), scalarMember 2 "value" (.bytes none)]
  form := .any

/-- A span of time. -/
def durationType : MessageType where
  name := "google.protobuf.Duration"
  members := [scalarMember 1 "seconds" .int64, scalarMember 2 "nanos" .int32]
  form := .duration

/-- A point in time. -/
def timestampType : MessageType where
  name := "google.protobuf.Timestamp"
  members := [scalarMember 1 "seconds" .int64, scalarMember 2 "nanos" .int32]
  form := .timestamp

/-- A JSON object. -/
def structType : MessageType where
  name := "google.protobuf.Struct"
  members :=
    [⟨1, "fields", "fields", .map (.string none) (.message "google.protobuf.Value")⟩]
  form := .struct

/-- A JSON value. -/
def valueType : MessageType where
  name := "google.protobuf.Value"
  members := [Member.ofAlternatives "kind" [
    alternative 1 "null_value" "nullValue" (.scalar (.enumeration nullValue)),
    alternative 2 "number_value" "numberValue" (.scalar .double),
    alternative 3 "string_value" "stringValue" (.scalar (.string none)),
    alternative 4 "bool_value" "boolValue" (.scalar .bool),
    alternative 5 "struct_value" "structValue" (.message "google.protobuf.Struct"),
    alternative 6 "list_value" "listValue" (.message "google.protobuf.ListValue")]]
  form := .value

/-- A JSON array. -/
def listValueType : MessageType where
  name := "google.protobuf.ListValue"
  members := [⟨1, "values", "values", .repeated (.message "google.protobuf.Value") false none⟩]
  form := .listValue

/-- A list of field paths. -/
def fieldMaskType : MessageType where
  name := "google.protobuf.FieldMask"
  members := [⟨1, "paths", "paths", .repeated (.scalar (.string none)) false none⟩]
  form := .fieldMask

/-- A message without members. -/
def emptyType : MessageType :=
  MessageType.empty "google.protobuf.Empty"

/-- A message that wraps a scalar. -/
def wrapperType (name : String) (type : ScalarType) : MessageType where
  name := "google.protobuf." ++ name
  members := [scalarMember 1 "value" type]
  form := .wrapper

/-- The messages that wrap a scalar. -/
def wrapperTypes : List MessageType :=
  [wrapperType "DoubleValue" .double, wrapperType "FloatValue" .float,
    wrapperType "Int64Value" .int64, wrapperType "UInt64Value" .uint64,
    wrapperType "Int32Value" .int32, wrapperType "UInt32Value" .uint32,
    wrapperType "BoolValue" .bool, wrapperType "StringValue" (.string none),
    wrapperType "BytesValue" (.bytes none)]

/-- All well-known types. -/
def types : List MessageType :=
  [anyType, durationType, timestampType, structType, valueType, listValueType, fieldMaskType,
    emptyType] ++ wrapperTypes

/-- The schema of the given types and the well-known ones. -/
def schemaWith (own : List MessageType) : Schema :=
  ⟨own ++ types⟩

end Protobuf.WellKnown
