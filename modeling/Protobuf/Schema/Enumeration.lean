/-! Enumerations: numbers with a canonical name and any number of aliases.  Two values may share a
name; the earlier one wins.
-/

namespace Protobuf

/-- One value of an enumeration. -/
structure EnumValue where
  number : Int32
  name : String
  aliases : List String := []
deriving DecidableEq, Repr

/-- An enumeration, its values in the order of their declaration. -/
structure EnumType where
  name : String
  values : List EnumValue
deriving DecidableEq, Repr

namespace EnumType

/-- The canonical names by number. -/
def nameTable (e : EnumType) : List (Int32 × String) :=
  e.values.map fun v => (v.number, v.name)

/-- The numbers by name, each canonical name followed by its aliases. -/
def numberTable (e : EnumType) : List (String × Int32) :=
  e.values.flatMap fun v => (v.name :: v.aliases).map fun name => (name, v.number)

/-- The first value with the given number. -/
def ofNumber? (e : EnumType) (number : Int32) : Option EnumValue :=
  e.values.find? fun v => v.number == number

end EnumType

/-- The name of a number in the first table that has one. -/
def nameInTables (tables : List (List (Int32 × String))) (number : Int32) : Option String :=
  tables.flatten.lookup number

/-- The number of a name in the first table that has one. -/
def numberInTables (tables : List (List (String × Int32))) (name : String) : Option Int32 :=
  tables.flatten.lookup name

/-- The name of a number in the first table that has one, or its numeral. -/
def enumText (tables : List (List (Int32 × String))) (number : Int32) : String :=
  (nameInTables tables number).getD (toString number.toInt)

end Protobuf
