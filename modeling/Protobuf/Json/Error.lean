import Protobuf.FieldMask.Naming
import Protobuf.Number.Decimal
import Protobuf.Time.Error
import Protobuf.Wire.Error

/-! What goes wrong while JSON is written or read: a cause, and the path of the field at which it
arose.
-/

namespace Protobuf.Json

/-- What is malformed in a JSON document. -/
inductive SyntaxFault where
  | invalidLiteral
  | invalidNumber
  | unterminatedString
  | invalidUnicodeEscape
  | invalidSurrogatePair
  | invalidEscape
  | controlCharacter
  | invalidUtf8
  | nestingTooDeep
  | expectedComma
  | expectedKey
  | expectedColon
  | expectedCommaOrBrace
  | expectedCommaOrBracket
  | unexpectedCharacter
  | unexpectedEnd
deriving DecidableEq, Repr

/-- The wording of a syntax fault. -/
def SyntaxFault.message : SyntaxFault → String
  | .invalidLiteral => "invalid literal"
  | .invalidNumber => "invalid number"
  | .unterminatedString => "unterminated string"
  | .invalidUnicodeEscape => "invalid unicode escape"
  | .invalidSurrogatePair => "invalid surrogate pair"
  | .invalidEscape => "invalid escape"
  | .controlCharacter => "control character in string"
  | .invalidUtf8 => "invalid UTF-8 in string"
  | .nestingTooDeep => "exceeded maximum nesting depth"
  | .expectedComma => "expected ','"
  | .expectedKey => "expected object key"
  | .expectedColon => "expected ':'"
  | .expectedCommaOrBrace => "expected ',' or '\x7d'"
  | .expectedCommaOrBracket => "expected ',' or ']'"
  | .unexpectedCharacter => "unexpected character"
  | .unexpectedEnd => "unexpected end of input"

/-- Why a token or a value of the right type was refused. -/
inductive Refusal where
  | notBool (text : String)
  | notNumber (text : String)
  | notInteger (text : String)
  | outOfRange (text : String)
  | notFinite (text : String)
  | notMapKey (text type : String)
  | keyTooLong (text : String) (capacity : Nat)
  | naming (e : FieldMask.NamingError)
  | time (e : Time.TimeError)
  | notBase64
deriving DecidableEq, Repr

/-- The wording of a refusal; texts that are no base64 or no timestamp have no fixed wording. -/
def Refusal.message? : Refusal → Option String
  | .notBool text => some (Text.quoted text ++ " is not a bool")
  | .notNumber text => some (Text.quoted text ++ " is not a number")
  | .notInteger text => some (text ++ " is not an integer")
  | .outOfRange text => some (text ++ " out of range")
  | .notFinite text => some (text ++ " is not a valid JSON number")
  | .notMapKey text type => some (Text.quoted text ++ " is not a valid " ++ type)
  | .keyTooLong text capacity =>
      some ("key " ++ Text.quoted text ++ " exceeds capacity " ++ toString capacity)
  | .naming e => some e.message
  | .time e => e.message?
  | .notBase64 => none

/-- What went wrong. -/
inductive Cause where
  /-- The token has another type than the value. -/
  | invalidValueType (type : String)
  /-- The token has the right type but can not be converted. -/
  | invalidValue (type : String) (refusal : Refusal)
  | unknownEnumValue (name : String)
  | malformed (offset : Nat) (fault : SyntaxFault)
  /-- The cursor was moved past a value that was not read. -/
  | unconsumedValue
  | trailingData
  | missingAnyType
  | misplacedAnyType
  | unresolvableTypeUrl (url : String)
  | anyTypeMismatch (expected actual : String)
  | decode (e : Wire.DecodeError)
  | encode (e : Wire.EncodeError)
  | custom (text : String)
deriving DecidableEq, Repr

/-- The wording of a cause. -/
def Cause.message? : Cause → Option String
  | .invalidValueType type => some ("invalid value type for " ++ type)
  | .invalidValue type refusal =>
      refusal.message?.map fun text => "invalid value for " ++ type ++ ": " ++ text
  | .unknownEnumValue name => some ("unknown value for enum: " ++ Text.quoted name)
  | .malformed offset fault =>
      some ("syntax error at offset " ++ toString offset ++ ": " ++ fault.message)
  | .unconsumedValue => some "value of the previous key or element was not consumed"
  | .trailingData => some "unexpected data after top-level value"
  | .missingAnyType => some "missing \"@type\" field in Any"
  | .misplacedAnyType => some "\"@type\" must be the first field of Any"
  | .unresolvableTypeUrl url => some ("unable to resolve type URL " ++ Text.quoted url)
  | .anyTypeMismatch expected actual =>
      some ("type URL " ++ Text.quoted actual ++ " does not match " ++ Text.quoted expected)
  | .decode e => some e.message
  | .encode e => some e.message
  | .custom text => some text

/-- Writing or reading. -/
inductive Operation where
  | marshal
  | unmarshal
deriving DecidableEq, Repr

/-- The word for an operation. -/
def Operation.word : Operation → String
  | .marshal => "marshal"
  | .unmarshal => "unmarshal"

/-- The first thing that went wrong, and where. -/
structure Fault where
  operation : Operation
  path : String
  cause : Cause
deriving DecidableEq, Repr

/-- The wording of a fault. -/
def Fault.message? (fault : Fault) : Option String :=
  fault.cause.message?.map fun text =>
    fault.operation.word ++ " error at path " ++ Text.quoted fault.path ++ ": " ++ text

end Protobuf.Json
