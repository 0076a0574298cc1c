import Protobuf.FieldMask.Path
import Protobuf.Json.Error
import Protobuf.Json.Number
import Protobuf.Json.Registry
import Protobuf.Schema.Enumeration
import Protobuf.Text.Base64
import Protobuf.Time.Timestamp

/-! Writing JSON.  The writer keeps the first fault and writes nothing after it, so that a value is
written without a check behind each step.
-/

namespace Protobuf.Json

open FieldMask Number

/-- How documents are written. -/
structure Config where
  /-- Enumerations are written as numbers. -/
  enumsAsInts : Bool := false
  /-- Members are written under their JSON names. -/
  useJsonNames : Bool := false
  /-- Field masks are written as an object with a list of paths. -/
  legacyFieldMask : Bool := false
  registry : Option Registry := none
deriving DecidableEq, Repr, Inhabited

/-- A document that is being written: what is there, the path of the current field, the fields that
are written even if they are not set, and the first fault.
-/
structure Writer where
  fault : Option Fault
  output : String
  config : Config
  path : Path
  mask : PathSet
deriving Inhabited

/-- Characters that are written as an escape. -/
def escapeChar (c : Char) : List Char :=
  if c = '"' then ['\\', '"']
  else if c = '\\' then ['\\', '\\']
  else if c = '\n' then ['\\', 'n']
  else if c = '\r' then ['\\', 'r']
  else if c = '\t' then ['\\', 't']
  else if c.toNat = 8 then ['\\', 'b']
  else if c.toNat = 12 then ['\\', 'f']
  else if c.toNat < 32 then
    ['\\', 'u', '0', '0', Text.hexDigit (c.toNat / 16), Text.hexDigit (c.toNat % 16)]
  else [c]

/-- The string literal of a text. -/
def stringLiteral (text : String) : String :=
  String.ofList ('"' :: (text.toList.flatMap escapeChar ++ ['"']))

namespace Writer

/-- An empty document. -/
def ofConfig (config : Config) (mask : PathSet) : Writer :=
  ⟨none, "", config, .root, mask⟩

/-- Writes the fields that a mask names even if they are not set. -/
def withMask (w : Writer) (mask : PathSet) : Writer := { w with mask }

/-- Keeps a cause at the current path, unless there is a fault. -/
def latch (w : Writer) (cause : Cause) : Writer :=
  match w.fault with
  | some _ => w
  | none => { w with fault := some ⟨.marshal, w.path.dotted, cause⟩ }

/-- Appends text, unless there is a fault. -/
def raw (w : Writer) (text : String) : Writer :=
  match w.fault with
  | some _ => w
  | none => { w with output := w.output ++ text }

/-- The document, or the fault. -/
def result (w : Writer) : Except Fault String :=
  match w.fault with
  | some fault => .error fault
  | none => .ok w.output

/-- A writer of an empty document that goes on with the fault, the path and the mask. -/
def sub (w : Writer) : Writer :=
  { w with output := "" }

/-- A writer of an empty document for a message that is not a field of the current one. -/
def subMessage (w : Writer) : Writer :=
  { w with output := "", mask := .empty }

/-- Takes over the fault of a writer that went on from this one. -/
def join (w inner : Writer) : Writer :=
  { w with fault := inner.fault }

/-- Writes at the path of a field. -/
def withField (w : Writer) (field : String) (write : Writer → Writer) : Writer :=
  { write { w with path := w.path.push field } with path := w.path }

/-- The mask names the field of the current path. -/
def hasField (w : Writer) (field : String) : Bool :=
  !w.mask.paths.isEmpty && w.mask.contains (w.path.push field)

/-- Begins an object. -/
def beginObject (w : Writer) : Writer := w.raw "\x7b"

/-- Ends an object. -/
def endObject (w : Writer) : Writer := w.raw "\x7d"

/-- Begins an array. -/
def beginArray (w : Writer) : Writer := w.raw "["

/-- Ends an array. -/
def endArray (w : Writer) : Writer := w.raw "]"

/-- Separates members and elements. -/
def comma (w : Writer) : Writer := w.raw ","

/-- Separates from a member or element before. -/
def commaIf (w : Writer) (wrote : Bool) : Writer :=
  if wrote then w.comma else w

/-- Writes nothing as a value. -/
def null (w : Writer) : Writer := w.raw "null"

/-- Writes a truth value. -/
def bool (w : Writer) (v : Bool) : Writer := w.raw (if v then "true" else "false")

/-- Writes a text that needs no escape between quotes. -/
def plainQuoted (w : Writer) (text : String) : Writer := w.raw ("\"" ++ text ++ "\"")

/-- Writes a text as a string literal. -/
def string (w : Writer) (text : String) : Writer := w.raw (stringLiteral text)

/-- Writes a key and a colon. -/
def key (w : Writer) (name : String) : Writer := (w.string name).raw ":"

/-- Writes the key of a member under one of its names. -/
def memberKey (w : Writer) (name jsonName : String) : Writer :=
  w.key (if w.config.useJsonNames then jsonName else name)

/-- Writes a 32-bit number. -/
def int32 (w : Writer) (v : Int32) : Writer := w.raw (toString v.toInt)

/-- Writes a 64-bit number between quotes. -/
def int64 (w : Writer) (v : Int64) : Writer := w.plainQuoted (toString v.toInt)

/-- Writes a 32-bit number. -/
def uint32 (w : Writer) (v : UInt32) : Writer := w.raw (toString v.toNat)

/-- Writes a 64-bit number between quotes. -/
def uint64 (w : Writer) (v : UInt64) : Writer := w.plainQuoted (toString v.toNat)

/-- Writes a float of a format; what is no finite number becomes a word between quotes. -/
def floating (w : Writer) (f : Format) (bits : Nat) : Writer :=
  match specialText (f.value bits) with
  | some text => w.plainQuoted text
  | none => w.raw (floatText f bits)

/-- Writes a `float`. -/
def float (w : Writer) (bits : UInt32) : Writer := w.floating single bits.toNat

/-- Writes a `double`. -/
def double (w : Writer) (bits : UInt64) : Writer := w.floating Number.double bits.toNat

/-- Writes bytes in base64. -/
def bytes (w : Writer) (v : List UInt8) : Writer := w.plainQuoted (Text.base64 v)

/-- Writes an enumeration's number. -/
def enumNumber (w : Writer) (v : Int32) : Writer := w.int32 v

/-- Writes the name of an enumeration's number, or the number if it has no name. -/
def enumeration (w : Writer) (tables : List (List (Int32 × String))) (v : Int32) : Writer :=
  if w.config.enumsAsInts then w.enumNumber v
  else match nameInTables tables v with
    | some name => w.string name
    | none => w.enumNumber v

/-- Writes the name of an enumeration's number, or its numeral, as a text. -/
def enumeratedText (w : Writer) (tables : List (List (Int32 × String))) (v : Int32) : Writer :=
  w.string (enumText tables v)

/-- Writes a text that there may be none of. -/
def timeText (w : Writer) (type : String) (text : Except Time.TimeError String) : Writer :=
  match text with
  | .ok text => w.plainQuoted text
  | .error e => w.latch (.invalidValue type (.time e))

/-- Writes a point in time. -/
def timestamp (w : Writer) (t : Time.Timestamp) : Writer := w.timeText "timestamp" t.text

/-- Writes a span of time. -/
def duration (w : Writer) (d : Time.Duration) : Writer := w.timeText "duration" d.text

/-- Writes values with commas between them. -/
def separated {α : Type} (write : α → Writer → Writer) (w : Writer) : List α → Writer
  | [] => w
  | [v] => write v w
  | v :: vs => separated write (write v w).comma vs

/-- Writes a field mask. -/
def fieldMask (w : Writer) (paths : List String) : Writer :=
  if w.config.legacyFieldMask then
    (separated (fun path w => w.string path) (w.beginObject.key "paths").beginArray paths)
      |>.endArray.endObject
  else match paths.mapM toCamelCase with
    | .ok camel => w.string (String.intercalate "," camel)
    | .error e => w.latch (.invalidValue "field mask" (.naming e))

end Writer

end Protobuf.Json
