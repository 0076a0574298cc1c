import Protobuf.Text.Naming
import Protobuf.Text.Quoted

/-! Field paths in lower camel case, as JSON documents spell them.  A path is written so only if
that can be undone.
-/

namespace Protobuf.FieldMask

/-- A path that has no form in the other naming style. -/
inductive NamingError where
  /-- The camel case form would not turn back into the path. -/
  | notCamelizable (path : String)
  /-- A path in camel case holds an underscore. -/
  | notCamel (path : String)
deriving DecidableEq, Repr

/-- The wording of a naming error. -/
def NamingError.message : NamingError → String
  | .notCamelizable path => "path " ++ Text.quoted path ++ " can not be written in lowerCamelCase"
  | .notCamel path => "path " ++ Text.quoted path ++ " is not in lowerCamelCase"

/-- The lower camel case form of a path. -/
def toCamelCase (path : String) : Except NamingError String :=
  let camel := Text.camelChars false path.toList
  if Text.snakeChars camel = path.toList then .ok (String.ofList camel)
  else .error (.notCamelizable path)

/-- The snake case form of a path in lower camel case. -/
def toSnakeCase (path : String) : Except NamingError String :=
  if path.toList.contains '_' then .error (.notCamel path)
  else .ok (String.ofList (Text.snakeChars path.toList))

end Protobuf.FieldMask
