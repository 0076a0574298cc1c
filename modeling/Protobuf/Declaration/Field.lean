import Protobuf.Declaration.FieldType
import Protobuf.Text.Naming

/-! The descriptor of a declared field, of an alternative of a oneof and of a value of an
enumeration, from the items of their attributes.
-/

namespace Protobuf.Declaration

/-- A word that says how a field holds its value. -/
inductive Label where
  | optional
  | repeated
  | oneof
  | unknown
deriving DecidableEq, Repr

/-- The word of a label. -/
def Label.text : Label → String
  | .optional => "optional"
  | .repeated => "repeated"
  | .oneof => "oneof"
  | .unknown => "unknown"

/-- The label that an item names. -/
def Label.ofItem (item : Item) : Option Label :=
  match item with
  | .word "optional" => some .optional
  | .word "repeated" => some .repeated
  | .word "oneof" => some .oneof
  | .word "unknown" => some .unknown
  | _ => none

/-- What a declared field holds. -/
inductive FieldKind where
  | single (type : FieldType)
  | optional (type : FieldType)
  | repeated (type : FieldType) (packed : Bool)
  | map (key value : FieldType)
  | oneof
  /-- The bytes of undeclared fields. -/
  | unknown
deriving DecidableEq, Repr

/-- The descriptor of a field. -/
structure Field where
  kind : FieldKind
  tags : List Nat
  name : String
  jsonName : String
deriving DecidableEq, Repr

/-- The descriptor of an alternative of a oneof. -/
structure Variant where
  tag : Nat
  type : FieldType
  name : String
  jsonName : String
deriving DecidableEq, Repr

/-- The names of a value of an enumeration. -/
structure EnumVariant where
  name : String
  aliases : List String
deriving DecidableEq, Repr

/-- The items of a declaration by their meaning, and how many have none. -/
structure Collected where
  tag : Option Nat := none
  tags : Option (List Nat) := none
  type : Option FieldType := none
  label : Option Label := none
  map : Option String := none
  packed : Option Bool := none
  name : Option String := none
  jsonName : Option String := none
  strangers : Nat := 0
deriving DecidableEq, Repr

/-- A list of numbers as it is shown. -/
def listText (ns : List Nat) : String :=
  "[" ++ String.intercalate ", " (ns.map toString) ++ "]"

/-- A truth value as it is shown. -/
def boolText (b : Bool) : String :=
  if b then "true" else "false"

namespace Collected

/-- Tries one meaning of an item and goes on to the next if it has another one. -/
def orElse {α : Type} (meaning : Except DeclarationError (Option α))
    (set : α → Except DeclarationError Collected) (next : Except DeclarationError Collected)
    : Except DeclarationError Collected :=
  match meaning with
  | .error e => .error e
  | .ok (some value) => set value
  | .ok none => next

/-- Takes an item with one of the meanings that a field or an alternative may give it. -/
def addCommon (c : Collected) (item : Item) (others : Except DeclarationError Collected)
    : Except DeclarationError Collected :=
  orElse (textItem "name" item)
    (fun x => (setOnce "name" Text.quoted c.name x).map fun name => { c with name }) <|
  orElse (textItem "json_name" item)
    (fun x => (setOnce "json_name" Text.quoted c.jsonName x).map fun jsonName =>
      { c with jsonName })
    others

/-- Counts an item without a meaning. -/
def addStranger (c : Collected) : Except DeclarationError Collected :=
  .ok { c with strangers := c.strangers + 1 }

/-- Takes an item of a field; a bare literal means nothing. -/
def addToField (c : Collected) (item : Item) : Except DeclarationError Collected :=
  match item with
  | .literal _ => .ok c
  | item =>
      orElse (tagItem item)
        (fun x => (setOnce "tag" toString c.tag x).map fun tag => { c with tag }) <|
      orElse (tagsItem item)
        (fun x => (setOnce "tags" listText c.tags x).map fun tags => { c with tags }) <|
      orElse (FieldType.ofItem item)
        (fun x => (setOnce "type" FieldType.text c.type x).map fun type => { c with type }) <|
      orElse (.ok (Label.ofItem item))
        (fun x => (setOnce "label" Label.text c.label x).map fun label => { c with label }) <|
      orElse (textItem "map" item)
        (fun x => (setOnce "map" Text.quoted c.map x).map fun map => { c with map }) <|
      orElse (boolItem "packed" item)
        (fun x => (setOnce "packed" boolText c.packed x).map fun packed => { c with packed }) <|
      c.addCommon item c.addStranger

/-- Takes an item of an alternative of a oneof; a bare literal means nothing. -/
def addToVariant (c : Collected) (item : Item) : Except DeclarationError Collected :=
  match item with
  | .literal _ => .ok c
  | item =>
      orElse (tagItem item)
        (fun x => (setOnce "tag" toString c.tag x).map fun tag => { c with tag }) <|
      orElse (FieldType.ofItem item)
        (fun x => (setOnce "type" FieldType.text c.type x).map fun type => { c with type }) <|
      c.addCommon item c.addStranger

/-- Refuses items without a meaning. -/
def checkStrangers (strangers : Nat) : Except DeclarationError Unit :=
  match strangers with
  | 0 => .ok ()
  | 1 => .error .unknownAttribute
  | _ => .error .unknownAttributes

/-- The key and value types of a map. -/
def mapKind (text : String) : Except DeclarationError FieldKind := do
  let chars := text.toList
  match chars.dropWhile (· != ',') with
  | [] => throw (.mapWithoutComma text)
  | _ :: behind =>
      let key ← FieldType.ofText (String.ofList (chars.takeWhile (· != ',')))
      let value ← FieldType.ofText (String.ofList behind)
      if key.isMapKey then return .map key value else throw (.invalidMapKey key.text)

/-- The kind of a field with a type and at most a label. -/
def typedKind (c : Collected) (label : Option Label) : Except DeclarationError FieldKind :=
  match c.type with
  | none => .error .missingType
  | some type =>
      match label with
      | none => .ok (.single type)
      | some .optional => .ok (.optional type)
      | some _ =>
          let packed := c.packed.getD type.isNumeric
          if packed && !type.isNumeric then .error (.notPackable type.text)
          else .ok (.repeated type packed)

/-- The kind of a field. -/
def kind (c : Collected) : Except DeclarationError FieldKind :=
  match c.label, c.map with
  | some .unknown, none => .ok .unknown
  | some .oneof, none => .ok .oneof
  | none, some map => mapKind map
  | some _, some _ => .error .labelledMap
  | label, none => c.typedKind label

/-- Packing is only declared of repeated fields. -/
def checkPacked (c : Collected) (kind : FieldKind) : Except DeclarationError Unit :=
  match kind, c.packed with
  | .repeated _ _, _ => .ok ()
  | _, some _ => .error .packedOutsideRepeated
  | _, none => .ok ()

/-- The field numbers of a field of the given kind. -/
def fieldTags (c : Collected) (kind : FieldKind) : Except DeclarationError (List Nat) :=
  match kind with
  | .unknown => if c.tag.isSome || c.tags.isSome then .error .unknownFieldsWithTags else .ok []
  | .oneof =>
      if c.tag.isSome then .error .oneofWithTag
      else match c.tags with
        | some tags => .ok tags
        | none => .error .oneofWithoutTags
  | _ =>
      match c.tag with
      | some tag => .ok [tag]
      | none => .error .missingTag

end Collected

/-- An identifier without the marks that allow it to be a keyword. -/
def plainIdentifier : List Char → List Char
  | 'r' :: '#' :: rest => plainIdentifier rest
  | text => text

/-- An identifier in snake case; a capital at its beginning gets no underscore. -/
def snakeIdentifier (identifier : String) : String :=
  match plainIdentifier identifier.toList with
  | [] => ""
  | c :: rest => String.ofList (Text.uncapitalize c :: Text.snakeChars rest)

/-- The descriptor of a field with the given identifier and items. -/
def Field.ofItems (identifier : String) (items : List Item) : Except DeclarationError Field := do
  let c ← items.foldlM Collected.addToField {}
  Collected.checkStrangers c.strangers
  let kind ← c.kind
  c.checkPacked kind
  let tags ← c.fieldTags kind
  let name := c.name.getD (String.ofList (plainIdentifier identifier.toList))
  return { kind, tags, name, jsonName := c.jsonName.getD (Text.jsonName name) }

/-- The descriptor of an alternative of a oneof with the given identifier and items. -/
def Variant.ofItems (identifier : String) (items : List Item)
    : Except DeclarationError Variant := do
  let c ← items.foldlM Collected.addToVariant {}
  Collected.checkStrangers c.strangers
  match c.tag, c.type with
  | none, _ => throw .missingTag
  | _, none => throw .missingType
  | some tag, some type =>
      let name := c.name.getD (snakeIdentifier identifier)
      return { tag, type, name, jsonName := c.jsonName.getD (Text.jsonName name) }

/-- The names of a value of an enumeration that were found so far, and the strange items. -/
structure CollectedNames where
  name : Option String := none
  aliases : List String := []
  strangers : Nat := 0
deriving DecidableEq, Repr

/-- Takes an item of a value of an enumeration; a bare literal means nothing. -/
def CollectedNames.add (c : CollectedNames) (item : Item)
    : Except DeclarationError CollectedNames :=
  match item with
  | .literal _ => .ok c
  | item => do
      match ← textItem "name" item with
      | some x => return { c with name := ← setOnce "name" Text.quoted c.name x }
      | none =>
          match ← textItem "alias" item with
          | some x => return { c with aliases := c.aliases ++ [x] }
          | none => return { c with strangers := c.strangers + 1 }

/-- The names of a value of an enumeration with the given identifier and items. -/
def EnumVariant.ofItems (identifier : String) (items : List Item)
    : Except DeclarationError EnumVariant := do
  let c ← items.foldlM CollectedNames.add {}
  Collected.checkStrangers c.strangers
  let upper := String.ofList ((snakeIdentifier identifier).toList.map Text.capitalize)
  return { name := c.name.getD upper, aliases := c.aliases }

/-- Takes an item of a message; a bare literal means nothing. -/
def addMessageName (name : Option String) (item : Item)
    : Except DeclarationError (Option String) :=
  match item with
  | .literal _ => .ok name
  | item => do
      match ← textItem "name" item with
      | some x => setOnce "name" Text.quoted name x
      | none => throw .unknownAttribute

/-- The full name of a message, if its items give one. -/
def messageName (items : List Item) : Except DeclarationError (Option String) :=
  items.foldlM addMessageName none

end Protobuf.Declaration
