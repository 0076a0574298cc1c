import Protobuf.Json.Scalar
import Protobuf.Message.Merge
import Protobuf.Message.Write

/-! Messages as JSON.  A message becomes an object of the members that are set or that the mask
names, unless its type has a form of its own; the message inside an `Any` is decoded on the way.
-/

namespace Protobuf.Json

/-- Writes an `Any` with the given type URL and payload. -/
abbrev AnyWriter := String → List UInt8 → Writer → Writer

/-- Writes the scalar inside a `Value`. -/
def writeDynamic (v : Scalar) (w : Writer) : Writer :=
  match v with
  | .int32 _ => w.null
  | .double bits =>
      match specialText (Number.double.value bits.toNat) with
      | none => w.double bits
      | some _ =>
          w.latch (.invalidValue "google.protobuf.Value"
            (.notFinite (floatDisplay Number.double bits.toNat)))
  | .string v => w.string v
  | .bool v => w.bool v
  | _ => w

/-- The type of the value that a message type wraps. -/
def soleType (t : MessageType) : Option ScalarType :=
  match t.members with
  | [m] =>
      match m.shape with
      | .single (.scalar type) => some type
      | _ => none
  | _ => none

/-- Writes a message that has a form of its own and holds only scalars. -/
def writeScalarForm (any : AnyWriter) (t : MessageType) (slots : List Slot) (w : Writer)
    : Writer :=
  match t.form, slots with
  | .bare, [.one (.scalar v)] =>
      match soleType t with
      | some type => writeScalar type v w
      | none => w
  | .wrapper, [.one (.scalar v)] =>
      match soleType t with
      | some type => writeScalar type v w
      | none => w
  | .timestamp, [.one (.scalar (.int64 seconds)), .one (.scalar (.int32 nanos))] =>
      w.timestamp ⟨seconds, nanos⟩
  | .duration, [.one (.scalar (.int64 seconds)), .one (.scalar (.int32 nanos))] =>
      w.duration ⟨seconds, nanos⟩
  | .fieldMask, [.many paths] =>
      w.fieldMask (paths.filterMap fun path =>
        match path with
        | .scalar (.string path) => some path
        | _ => none)
  | .any, [.one (.scalar (.string url)), .one (.scalar (.bytes payload))] => any url payload w
  | .filler, _ => w.beginObject.endObject
  | _, _ => w

/-- Writes one after the other, each with the knowledge whether something stands in front of it. -/
def writeEach : List (Bool → Writer → Writer) → Bool → Writer → Writer
  | [], _, w => w
  | write :: others, wrote, w => writeEach others true (write wrote w)

/-- A member is set: it is written without being named by the mask. -/
def Slot.isSet (m : Member) (slot : Slot) : Bool :=
  match slot with
  | .none => false
  | .one v =>
      match m.shape with
      | .single _ => !v.isOmitted
      | _ => true
  | .many vs => !vs.isEmpty
  | .entries es => !es.isEmpty
  | .choice _ _ => true

mutual

/-- Writes a value at the path of its field if it is a message. -/
def writeValue (s : Schema) (any : AnyWriter) (field : String) (type : ValueType)
    : Value → Writer → Writer
  | .scalar v, w =>
      match type with
      | .scalar type => writeScalar type v w
      | .message _ => w
  | .message m, w =>
      match type with
      | .scalar _ => w
      | .message name => w.withField field fun w => writeMessage s any (s.type name) m w

/-- Writes a message. -/
def writeMessage (s : Schema) (any : AnyWriter) (t : MessageType) : Message → Writer → Writer
  | ⟨slots, _⟩, w =>
      match t.form with
      | .members => (writeMembers s any t.members slots false w.beginObject).endObject
      | .struct => writeStruct s any slots w
      | .value => writeKind s any t.members slots w
      | .listValue => writeList s any slots w
      | _ => writeScalarForm any t slots w

/-- Writes the members that are set or that the mask names. -/
def writeMembers (s : Schema) (any : AnyWriter) (members : List Member)
    : List Slot → Bool → Writer → Writer
  | [], _, w => w
  | slot :: slots, wrote, w =>
      match members with
      | [] => w
      | m :: members =>
          match m.shape with
          | .oneof _ =>
              writeMembers s any members slots (wrote || Slot.isSet m slot)
                (writeChoice s any m slot wrote w)
          | _ =>
              if Slot.isSet m slot || w.hasField m.name then
                writeMembers s any members slots true
                  (writeSlot s any m slot ((w.commaIf wrote).memberKey m.name m.jsonName))
              else writeMembers s any members slots wrote w

/-- Writes the set alternative of a oneof with its key. -/
def writeChoice (s : Schema) (any : AnyWriter) (m : Member) : Slot → Bool → Writer → Writer
  | .choice tag v, wrote, w =>
      match m.alternative? tag with
      | some a => writeValue s any a.name a.type v ((w.commaIf wrote).memberKey a.name a.jsonName)
      | none => w
  | _, _, w => w

/-- Writes what a member holds. -/
def writeSlot (s : Schema) (any : AnyWriter) (m : Member) : Slot → Writer → Writer
  | .none, w => w.null
  | .one v, w =>
      match m.shape, v with
      | .single (.scalar type), .scalar v => writeSingular type v w
      | .single type, v => writeValue s any m.name type v w
      | .optional type, v => writeValue s any m.name type v w
      | _, _ => w
  | .many vs, w =>
      match m.shape with
      | .repeated type _ _ => (writeElements s any m.name type vs false w.beginArray).endArray
      | _ => w
  | .entries es, w =>
      match m.shape with
      | .map _ value =>
          (writeEach (inKeyOrder (entryWriters s any m.name value es)) false
            w.beginObject).endObject
      | _ => w
  | .choice _ _, w => w

/-- Writes the elements of an array. -/
def writeElements (s : Schema) (any : AnyWriter) (field : String) (type : ValueType)
    : List Value → Bool → Writer → Writer
  | [], _, w => w
  | v :: vs, wrote, w =>
      writeElements s any field type vs true (writeValue s any field type v (w.commaIf wrote))

/-- What writes the entries of a map as members of an object, under their keys. -/
def entryWriters (s : Schema) (any : AnyWriter) (field : String) (type : ValueType)
    : List Entry → List (Scalar × (Bool → Writer → Writer))
  | [] => []
  | ⟨key, v⟩ :: es =>
      (key, fun wrote w => writeValue s any field type v ((w.commaIf wrote).key (keyText key)))
        :: entryWriters s any field type es

/-- Writes the slots of a `Struct`. -/
def writeStruct (s : Schema) (any : AnyWriter) : List Slot → Writer → Writer
  | .entries es :: _, w => (writeFields s any es false w.beginObject).endObject
  | _, w => w

/-- Writes the fields of a `Struct`, each at the path of its key. -/
def writeFields (s : Schema) (any : AnyWriter) : List Entry → Bool → Writer → Writer
  | [], _, w => w
  | ⟨key, v⟩ :: es, wrote, w =>
      writeFields s any es true
        (writeValue s any (keyText key) (.message "google.protobuf.Value") v
          ((w.commaIf wrote).key (keyText key)))

/-- Writes the kind of a `Value`. -/
def writeKind (s : Schema) (any : AnyWriter) (members : List Member)
    : List Slot → Writer → Writer
  | .choice _ (.scalar v) :: _, w => writeDynamic v w
  | .choice tag (.message m) :: _, w =>
      match (members.findSome? fun member => member.alternative? tag).map Alternative.type with
      | some (.message name) => writeMessage s any (s.type name) m w
      | _ => w
  | _, w => w.null

/-- Writes the slots of a `ListValue`. -/
def writeList (s : Schema) (any : AnyWriter) : List Slot → Writer → Writer
  | .many vs :: _, w => (writeItems s any vs false w.beginArray).endArray
  | _, w => w

/-- Writes the items of a `ListValue`, at the path of the list. -/
def writeItems (s : Schema) (any : AnyWriter) : List Value → Bool → Writer → Writer
  | [], _, w => w
  | .message m :: vs, wrote, w =>
      writeItems s any vs true
        (writeMessage s any (s.type "google.protobuf.Value") m (w.commaIf wrote))
  | .scalar _ :: vs, wrote, w => writeItems s any vs wrote w

end

/-- Writes the message of the given type that a payload encodes. -/
def writePayload (s : Schema) (any : AnyWriter) (name : String) (payload : List UInt8)
    (w : Writer) : Writer :=
  match s.decode name payload with
  | .ok m => writeMessage s any (s.type name) m w
  | .error e => w.latch (.decode e)

/-- Writes a well-known type inside an `Any`, behind its type URL. -/
def writeWellKnown (s : Schema) (any : AnyWriter) (name : String) (payload : List UInt8)
    (w : Writer) : Writer :=
  let w := w.comma.key "value"
  let inner := writePayload s any name payload w.subMessage
  ((w.join inner).raw inner.output).endObject

/-- Writes the members of a registered message inside an `Any`, behind its type URL. -/
def writeRegistered (s : Schema) (any : AnyWriter) (name : String) (payload : List UInt8)
    (w : Writer) : Writer :=
  let inner := writePayload s any name payload w.subMessage
  let w := w.join inner
  match w.fault with
  | some _ => w
  | none =>
      match inner.output.toList with
      | '\x7b' :: rest =>
          (if rest = ['\x7d'] then w else w.comma).raw (String.ofList rest)
      | _ => w.latch (.custom (name ++ " did not marshal to a JSON object"))

/-- Writes an `Any`, into which others may nest at most so deep. -/
def writeAnyWithin (s : Schema) : Nat → AnyWriter
  | 0 => fun _ _ w => w
  | depth + 1 => fun url payload w =>
      if url.isEmpty then w.beginObject.endObject
      else match resolve w.config.registry url with
        | none => w.latch (.unresolvableTypeUrl url)
        | some resolution =>
            let w := (w.beginObject.key "@type").string url
            match resolution with
            | .wellKnown name => writeWellKnown s (writeAnyWithin s depth) name payload w
            | .registered name => writeRegistered s (writeAnyWithin s depth) name payload w

/-- Writes an `Any`.  A payload is longer than those inside it, and only an empty one may hold an
`Any` without a type URL, so its length bounds the depth.
-/
def writeAny (s : Schema) : AnyWriter := fun url payload w =>
  writeAnyWithin s (payload.length + 2) url payload w

/-- The JSON text of a message; fields that the mask names are written even if they are not set. -/
def encode (s : Schema) (config : Config) (mask : FieldMask.PathSet) (t : MessageType)
    (m : Message) : Except Fault String :=
  (writeMessage s (writeAny s) t m (Writer.ofConfig config mask)).result

end Protobuf.Json
