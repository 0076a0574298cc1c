import Protobuf.Text.Quoted

/-! What is wrong with the attributes of a declared field.
-/

namespace Protobuf.Declaration

/-- Why a text is no 32-bit number. -/
inductive NumeralFault where
  | empty
  | invalidDigit
  | tooLarge
deriving DecidableEq, Repr

/-- The wording of a numeral fault. -/
def NumeralFault.message : NumeralFault → String
  | .empty => "cannot parse integer from empty string"
  | .invalidDigit => "invalid digit found in string"
  | .tooLarge => "number too large to fit in target type"

/-- What may stand at a place of a path. -/
inductive Symbol where
  /-- A keyword or a mark, as it is spelled. -/
  | spelled (text : String)
  | identifier
  | identifierOrInteger
  | lifetime
  | literal
  | parentheses
  | squareBrackets
  | curlyBraces
  | delimiter
  | path
  | pathSegment
  | expression
deriving DecidableEq, Repr

/-- The wording of a symbol. -/
def Symbol.text : Symbol → String
  | .spelled text => "`" ++ text ++ "`"
  | .identifier => "identifier"
  | .identifierOrInteger => "identifier or integer"
  | .lifetime => "lifetime"
  | .literal => "literal"
  | .parentheses => "parentheses"
  | .squareBrackets => "square brackets"
  | .curlyBraces => "curly braces"
  | .delimiter => "delimiter"
  | .path => "path"
  | .pathSegment => "path segment"
  | .expression => "expression"

/-- What can not follow a cast. -/
inductive CastFollower where
  | awaiting
  | methodCall
  | fieldAccess
  | question
  | indexing
  | functionCall
deriving DecidableEq, Repr

/-- The wording of what can not follow a cast. -/
def CastFollower.text : CastFollower → String
  | .awaiting => "`.await`"
  | .methodCall => "a method call"
  | .fieldAccess => "a field access"
  | .question => "`?`"
  | .indexing => "indexing"
  | .functionCall => "a function call"

/-- Why a text is no path. -/
inductive PathFault where
  /-- The text can not be cut into tokens. -/
  | noTokens
  | unexpectedToken
  /-- None of the symbols stands at a place, which may be the end. -/
  | expected (symbols : List Symbol) (atEnd : Bool)
  /-- Bounds name no trait; those of an object type have a wording of their own. -/
  | traitRequired (ofObject : Bool)
  | unsupportedExpression
  | castFollowed (follower : CastFollower)
deriving DecidableEq, Repr

/-- The wording of a list of symbols. -/
def expectation : List Symbol → String
  | [] => "unexpected token"
  | [a] => "expected " ++ a.text
  | [a, b] => "expected " ++ a.text ++ " or " ++ b.text
  | symbols => "expected one of: " ++ String.intercalate ", " (symbols.map Symbol.text)

/-- The wording of a path fault. -/
def PathFault.message : PathFault → String
  | .noTokens => "lex error"
  | .unexpectedToken => "unexpected token"
  | .expected [] true => "unexpected end of input"
  | .expected symbols atEnd =>
      (if atEnd then "unexpected end of input, " else "") ++ expectation symbols
  | .traitRequired true => "at least one trait is required for an object type"
  | .traitRequired false => "at least one trait must be specified"
  | .unsupportedExpression => "unsupported expression; enable syn's features=[\"full\"]"
  | .castFollowed follower => "casts cannot be followed by " ++ follower.text

/-- Why attributes were refused. -/
inductive DeclarationError where
  /-- An attribute of one kind stands twice; the values are given as they are shown. -/
  | duplicate (kind first second : String)
  | unknownAttribute
  | unknownAttributes
  | invalidAttribute (key : String)
  | numeral (fault : NumeralFault)
  | notBoolean
  | path (fault : PathFault)
  | unknownType (text : String)
  | mapWithoutComma (text : String)
  | invalidMapKey (type : String)
  | labelledMap
  | missingType
  | notPackable (type : String)
  | packedOutsideRepeated
  | unknownFieldsWithTags
  | oneofWithTag
  | oneofWithoutTags
  | missingTag
deriving DecidableEq, Repr

/-- The wording of a declaration error. -/
def DeclarationError.message : DeclarationError → String
  | .duplicate kind first second =>
      "duplicate " ++ kind ++ " attributes: " ++ first ++ " and " ++ second
  | .unknownAttribute => "unknown attribute"
  | .unknownAttributes => "unknown attributes"
  | .invalidAttribute key => "invalid " ++ key ++ " attribute"
  | .numeral fault => fault.message
  | .notBoolean => "provided string was not `true` or `false`"
  | .path fault => fault.message
  | .unknownType text => "unknown type: " ++ text
  | .mapWithoutComma text =>
      "invalid map attribute, expected \"<key>, <value>\": " ++ Text.quoted text
  | .invalidMapKey type => "invalid map key type: " ++ type
  | .labelledMap => "map fields can not have a label"
  | .missingType => "missing type attribute"
  | .notPackable type => type ++ " fields can not be packed"
  | .packedOutsideRepeated => "packed attribute is only valid on repeated fields"
  | .unknownFieldsWithTags => "unknown fields field must not have tags"
  | .oneofWithTag => "tag attribute must not be set in oneof."
  | .oneofWithoutTags => "missing tags attribute in oneof"
  | .missingTag => "missing tag attribute"

end Protobuf.Declaration
