/-! Names in lower snake case and in lower camel case.
-/

namespace Protobuf.Text

/-- An ASCII capital. -/
def isCapital (c : Char) : Bool :=
  'A' ≤ c && c ≤ 'Z'

/-- An ASCII letter in upper case; other characters stay. -/
def capitalize (c : Char) : Char :=
  if 'a' ≤ c && c ≤ 'z' then Char.ofNat (c.toNat - 32) else c

/-- An ASCII letter in lower case; other characters stay. -/
def uncapitalize (c : Char) : Char :=
  if isCapital c then Char.ofNat (c.toNat + 32) else c

/-- The characters of a name in camel case: underscores are dropped and the letter behind a run of
them is raised; `raise` says that one stands right before.
-/
def camelChars (raise : Bool) : List Char → List Char
  | [] => []
  | c :: rest =>
      if c = '_' then camelChars true rest
      else (if raise then capitalize c else c) :: camelChars false rest

/-- The characters of a name in snake case: each capital is lowered behind an underscore. -/
def snakeChars : List Char → List Char
  | [] => []
  | c :: rest =>
      if isCapital c then '_' :: uncapitalize c :: snakeChars rest else c :: snakeChars rest

/-- A word with its first letter raised. -/
def capitalizeWord : List Char → List Char
  | [] => []
  | c :: rest => capitalize c :: rest

/-- Adds a character of a field's name to its JSON name; the flag raises the next letter. -/
def addToJsonName : List Char × Bool → Char → List Char × Bool
  | (out, raise), c =>
      if c = '_' then (out, true)
      else if raise then (out ++ [capitalize c], false)
      else (out ++ [c], raise)

/-- The JSON name of a field. -/
def jsonName (name : String) : String :=
  String.ofList (name.toList.foldl addToJsonName ([], false)).1

end Protobuf.Text
