import Protobuf.Json.Encode
import Protobuf.Proofs.Json.Notation
import Protobuf.Proofs.Message.KeyOrder

/-! Messages as JSON trees: what the writer spells out.  Nothing is said of commas and braces here,
and what can not be written has no tree.
-/

namespace Protobuf.Json

open FieldMask Number

-----------------------------------------------------------------------------------------
-- Scalars
-----------------------------------------------------------------------------------------

def Numeral.ofInt (n : Int) : Numeral :=
  ⟨(toString n).toList, isNumeral_int n⟩

def Numeral.ofNat (n : Nat) : Numeral :=
  ⟨(toString n).toList, isNumeral_nat n⟩

/-- A finite float is a number, and what is none has a word. -/
def floatNode (f : Format) (bits : Nat) : Node :=
  match special : specialText (f.value bits) with
  | some text => .string text
  | none => .number ⟨(floatText f bits).toList, isNumeral_floatText special⟩

def enumNode (config : Config) (e : EnumType) (v : Int32) : Node :=
  if config.enumsAsInts then .number (.ofInt v.toInt)
  else match nameInTables [e.nameTable] v with
    | some name => .string name
    | none => .number (.ofInt v.toInt)

def scalarNode (config : Config) (type : ScalarType) (v : Scalar) : Node :=
  match type, v with
  | .enumeration e, .int32 v => enumNode config e v
  | _, .int32 v => .number (.ofInt v.toInt)
  | _, .int64 v => .string (toString v.toInt)
  | _, .uint32 v => .number (.ofNat v.toNat)
  | _, .uint64 v => .string (toString v.toNat)
  | _, .bool v => .bool v
  | _, .float bits => floatNode single bits.toNat
  | _, .double bits => floatNode double bits.toNat
  | _, .string v => .string v
  | _, .bytes v => .string (Text.base64 v)

/-- The scalar of a member without presence, for which no bytes are null. -/
def singularNode (config : Config) (type : ScalarType) (v : Scalar) : Node :=
  match v with
  | .bytes [] => .null
  | v => scalarNode config type v

/-- The scalar inside a `Value`. -/
def dynamicNode (v : Scalar) : Option Node :=
  match v with
  | .int32 _ => some .null
  | .double bits =>
      match specialText (double.value bits.toNat) with
      | none => some (floatNode double bits.toNat)
      | some _ => none
  | .string v => some (.string v)
  | .bool v => some (.bool v)
  | _ => none

def timeNode (text : Except Time.TimeError String) : Option Node :=
  match text with
  | .ok text => some (.string text)
  | .error _ => none

def fieldMaskNode (config : Config) (paths : List String) : Option Node :=
  if config.legacyFieldMask then some (.object [⟨"paths", .array (paths.map .string)⟩])
  else match paths.mapM toCamelCase with
    | .ok camel => some (.string (String.intercalate "," camel))
    | .error _ => none

-----------------------------------------------------------------------------------------
-- Messages
-----------------------------------------------------------------------------------------

/-- The tree of an `Any` at a path, for its type URL and payload. -/
abbrev AnyTree := Path → String → List UInt8 → Option Node

/-- The name under which a member is written. -/
def Config.nameOf (config : Config) (name jsonName : String) : String :=
  if config.useJsonNames then jsonName else name

/-- The mask names the field below the path. -/
def names (mask : PathSet) (path : Path) (field : String) : Bool :=
  !mask.paths.isEmpty && mask.contains (path.push field)

section

variable (s : Schema) (config : Config) (any : AnyTree) (mask : PathSet)

/-- A message that has a form of its own and holds only scalars. -/
def scalarFormNode (path : Path) (t : MessageType) (slots : List Slot) : Option Node :=
  match t.form, slots with
  | .bare, [.one (.scalar v)] => (soleType t).map fun type => scalarNode config type v
  | .wrapper, [.one (.scalar v)] => (soleType t).map fun type => scalarNode config type v
  | .timestamp, [.one (.scalar (.int64 seconds)), .one (.scalar (.int32 nanos))] =>
      timeNode (Time.Timestamp.text ⟨seconds, nanos⟩)
  | .duration, [.one (.scalar (.int64 seconds)), .one (.scalar (.int32 nanos))] =>
      timeNode (Time.Duration.text ⟨seconds, nanos⟩)
  | .fieldMask, [.many paths] =>
      fieldMaskNode config (paths.filterMap fun path =>
        match path with
        | .scalar (.string path) => some path
        | _ => none)
  | .any, [.one (.scalar (.string url)), .one (.scalar (.bytes payload))] => any path url payload
  | .filler, _ => some (.object [])
  | _, _ => none

mutual

def valueNode (path : Path) (field : String) (type : ValueType) : Value → Option Node
  | .scalar v =>
      match type with
      | .scalar type => some (scalarNode config type v)
      | .message _ => none
  | .message m =>
      match type with
      | .scalar _ => none
      | .message name => messageNode (path.push field) (s.type name) m

def messageNode (path : Path) (t : MessageType) : Message → Option Node
  | ⟨slots, _⟩ =>
      match t.form with
      | .members => (memberFields path t.members slots).map .object
      | .struct => structNode path slots
      | .value => kindNode path t.members slots
      | .listValue => listNode path slots
      | _ => scalarFormNode config any path t slots

/-- The members that are set or that the mask names. -/
def memberFields (path : Path) (members : List Member) : List Slot → Option (List Field)
  | [] => some []
  | slot :: slots =>
      match members with
      | [] => some []
      | m :: members =>
          match m.shape with
          | .oneof _ => do
              let first ← choiceFields path m slot
              let others ← memberFields path members slots
              return first ++ others
          | _ =>
              if Slot.isSet m slot || names mask path m.name then do
                let n ← slotNode path m slot
                let others ← memberFields path members slots
                return ⟨config.nameOf m.name m.jsonName, n⟩ :: others
              else memberFields path members slots

/-- The alternative of a oneof that is set. -/
def choiceFields (path : Path) (m : Member) : Slot → Option (List Field)
  | .choice tag v =>
      match m.alternative? tag with
      | some a => do
          let n ← valueNode path a.name a.type v
          return [⟨config.nameOf a.name a.jsonName, n⟩]
      | none => some []
  | _ => some []

def slotNode (path : Path) (m : Member) : Slot → Option Node
  | .none => some .null
  | .one v =>
      match m.shape, v with
      | .single (.scalar type), .scalar v => some (singularNode config type v)
      | .single type, v => valueNode path m.name type v
      | .optional type, v => valueNode path m.name type v
      | _, _ => none
  | .many vs =>
      match m.shape with
      | .repeated type _ _ => (elementNodes path m.name type vs).map .array
      | _ => none
  | .entries es =>
      match m.shape with
      | .map _ value => ((inKeyOrder (entryNodes path m.name value es)).mapM id).map .object
      | _ => none
  | .choice _ _ => none

def elementNodes (path : Path) (field : String) (type : ValueType)
    : List Value → Option (List Node)
  | [] => some []
  | v :: vs => do
      let n ← valueNode path field type v
      let others ← elementNodes path field type vs
      return n :: others

/-- The members for the entries of a map, under their keys. -/
def entryNodes (path : Path) (field : String) (type : ValueType)
    : List Entry → List (Scalar × Option Field)
  | [] => []
  | ⟨key, v⟩ :: es =>
      (key, (valueNode path field type v).map fun n => ⟨keyText key, n⟩)
        :: entryNodes path field type es

def structNode (path : Path) : List Slot → Option Node
  | .entries es :: _ => (structFields path es).map .object
  | _ => none

/-- The fields of a `Struct`, each at the path of its key. -/
def structFields (path : Path) : List Entry → Option (List Field)
  | [] => some []
  | ⟨key, v⟩ :: es => do
      let n ← valueNode path (keyText key) (.message "google.protobuf.Value") v
      let others ← structFields path es
      return ⟨keyText key, n⟩ :: others

/-- The kind of a `Value`; one that has none is null. -/
def kindNode (path : Path) (members : List Member) : List Slot → Option Node
  | .choice _ (.scalar v) :: _ => dynamicNode v
  | .choice tag (.message m) :: _ =>
      match (members.findSome? fun member => member.alternative? tag).map Alternative.type with
      | some (.message name) => messageNode path (s.type name) m
      | _ => none
  | _ => some .null

def listNode (path : Path) : List Slot → Option Node
  | .many vs :: _ => (itemNodes path vs).map .array
  | _ => none

/-- The items of a `ListValue`, at the path of the list. -/
def itemNodes (path : Path) : List Value → Option (List Node)
  | [] => some []
  | .message m :: vs => do
      let n ← messageNode path (s.type "google.protobuf.Value") m
      let others ← itemNodes path vs
      return n :: others
  | .scalar _ :: vs => itemNodes path vs

end

/-- The members for entries, one after the other. -/
def entryFields (path : Path) (field : String) (type : ValueType)
    : List Entry → Option (List Field)
  | [] => some []
  | ⟨key, v⟩ :: es => do
      let n ← valueNode s config any mask path field type v
      let others ← entryFields path field type es
      return ⟨keyText key, n⟩ :: others

-----------------------------------------------------------------------------------------
-- Messages of any type
-----------------------------------------------------------------------------------------

/-- The message of the given type that a payload encodes. -/
def payloadNode (path : Path) (name : String) (payload : List UInt8) : Option Node :=
  match s.decode name payload with
  | .ok m => messageNode s config any .empty path (s.type name) m
  | .error _ => none

/-- An `Any`: a well-known type stands behind the type URL as a value of its own, and the members of
a registered one stand there one by one.
-/
def resolvedNode (path : Path) (url : String) (payload : List UInt8) : Resolution → Option Node
  | .wellKnown name =>
      (payloadNode s config any path name payload).map fun n =>
        .object [⟨"@type", .string url⟩, ⟨"value", n⟩]
  | .registered name =>
      ((payloadNode s config any path name payload).bind Node.fields?).map fun fields =>
        .object (⟨"@type", .string url⟩ :: fields)

/-- An `Any` into which others may nest at most so deep. -/
def anyNodeWithin : Nat → AnyTree
  | 0 => fun _ _ _ => none
  | depth + 1 => fun path url payload =>
      if url.isEmpty then some (.object [])
      else match resolve config.registry url with
        | none => none
        | some resolution =>
            resolvedNode s config (anyNodeWithin depth) path url payload resolution

/-- An `Any`, with room for as many others as its payload can hold. -/
def anyNode : AnyTree := fun path url payload =>
  anyNodeWithin s config (payload.length + 2) path url payload

/-- The tree of a message that is written with a mask. -/
def treeOf (t : MessageType) (m : Message) : Option Node :=
  messageNode s config (anyNode s config) mask .root t m

end

-----------------------------------------------------------------------------------------
-- Maps
-----------------------------------------------------------------------------------------

/-- Writes entries one after the other as members of an object. -/
def writeEntries (s : Schema) (any : AnyWriter) (field : String) (type : ValueType)
    : List Entry → Bool → Writer → Writer
  | [], _, w => w
  | ⟨key, v⟩ :: es, wrote, w =>
      writeEntries s any field type es true
        (writeValue s any field type v ((w.commaIf wrote).key (keyText key)))

section

variable {s : Schema} {config : Config} {any : AnyWriter} {tree : AnyTree} {mask : PathSet}
  {path : Path} {m : Member} {key : ScalarType} {type : ValueType} {es : List Entry}

theorem writeEach_entryWriters (field : String) (es : List Entry) (wrote : Bool) (w : Writer)
    : writeEach (inKeyOrder (entryWriters s any field type es)) wrote w
        = writeEntries s any field type (byKey es) wrote w := by
  have keyed : entryWriters s any field type es = es.map fun e => (e.key, fun wrote w =>
      writeValue s any field type e.value ((w.commaIf wrote).key (keyText e.key))) := by
    induction es with
    | nil => rfl
    | cons e es ih =>
        obtain ⟨k, v⟩ := e
        rw [entryWriters, ih, List.map_cons]
  rw [keyed, inKeyOrder_entries]
  generalize byKey es = es
  induction es generalizing wrote w with
  | nil => rfl
  | cons e es ih =>
      obtain ⟨k, v⟩ := e
      rw [List.map_cons, writeEach, ih, writeEntries]

theorem mapM_entryNodes (field : String) (es : List Entry)
    : (inKeyOrder (entryNodes s config tree mask path field type es)).mapM id
        = entryFields s config tree mask path field type (byKey es) := by
  have keyed : entryNodes s config tree mask path field type es = es.map fun e =>
      (e.key, (valueNode s config tree mask path field type e.value).map fun n =>
        ⟨keyText e.key, n⟩) := by
    induction es with
    | nil => rfl
    | cons e es ih =>
        obtain ⟨k, v⟩ := e
        rw [entryNodes, ih, List.map_cons]
  rw [keyed, inKeyOrder_entries]
  generalize byKey es = es
  induction es with
  | nil => rfl
  | cons e es ih =>
      obtain ⟨k, v⟩ := e
      rw [List.map_cons, List.mapM_cons, ih, entryFields]
      cases valueNode s config tree mask path field type v <;> rfl

/-- A map whose entries are in order is written entry by entry. -/
theorem writeSlot_entries (shape : m.shape = .map key type) (ordered : Ordered key es) (w : Writer)
    : writeSlot s any m (.entries es) w
        = (writeEntries s any m.name type es false w.beginObject).endObject := by
  simp only [writeSlot, shape, writeEach_entryWriters, ordered.byKey_eq]

theorem slotNode_entries (shape : m.shape = .map key type) (ordered : Ordered key es)
    : slotNode s config tree mask path m (.entries es)
        = (entryFields s config tree mask path m.name type es).map .object := by
  simp only [slotNode, shape, mapM_entryNodes, ordered.byKey_eq]

end

end Protobuf.Json
