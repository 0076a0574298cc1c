import Protobuf.Json.IndexedScanner
import Protobuf.Json.Reader

/-! Reading JSON with an offset into the document.  Every operation of a reader is here once more,
on a cursor that keeps all bytes and the offset of the next one; it comes to nothing if it reads out
of range.
-/

namespace Protobuf.Json

open FieldMask

/-- A document that is being read: its bytes and the offset of the next one, the open containers
from the inside out, the path of the current field, the fields met so far, and the first fault.
-/
structure Cursor where
  fault : Option Fault
  data : List UInt8
  position : Nat
  path : Path
  mask : PathSet
  frames : List Frame
  /-- A key or element was reached and not read. -/
  pending : Bool
  registry : Option Registry

namespace Cursor

/-- A cursor at the start of a document. -/
def ofBytes (bytes : List UInt8) (registry : Option Registry) : Cursor :=
  ⟨none, bytes, 0, .root, .empty, [], false, registry⟩

/-- How many bytes are left. -/
def left (c : Cursor) : Nat :=
  c.data.length - c.position

/-- The next byte, if there is one. -/
def byte? (c : Cursor) : Option UInt8 :=
  c.data[c.position]?

/-- Keeps a cause at the current path, unless there is a fault. -/
def latch (c : Cursor) (cause : Cause) : Cursor :=
  match c.fault with
  | some _ => c
  | none => { c with fault := some ⟨.unmarshal, c.path.dotted, cause⟩ }

/-- Keeps a syntax fault at the current offset. -/
def malformed (c : Cursor) (fault : SyntaxFault) : Cursor :=
  c.latch (.malformed c.position fault)

/-- Runs a scanner at the offset. -/
def scan {α : Type} (c : Cursor) (scanner : IndexedScanner α) : Option (Option α × Cursor) :=
  match scanner c.data c.position with
  | .ok value i => some (some value, { c with position := i })
  | .error (.failed fault) i => some (none, ({ c with position := i }).malformed fault)
  | .error .outOfRange _ => none

/-- Consumes blanks. -/
def skipBlanks (c : Cursor) : Cursor :=
  { c with position := IndexedScanner.runEnd isBlank c.data c.position }

/-- Moves over one byte. -/
def step (c : Cursor) : Cursor :=
  { c with position := c.position + 1 }

/-- A cursor over another document that goes on with the fault and the path and collects fields of
its own.
-/
def sub (c : Cursor) (document : List UInt8) : Cursor :=
  { c with data := document, position := 0, mask := .empty, frames := [], pending := false }

/-- Records a field of the current path. -/
def addField (c : Cursor) (field : String) : Cursor :=
  { c with mask := c.mask.add (c.path.push field) }

/-- Checks that nothing but blanks is left, and gives the fault if there is one. -/
def finish (c : Cursor) : Option Fault × Cursor :=
  match c.fault with
  | some fault => (some fault, c)
  | none =>
      let c := c.skipBlanks
      let c := if c.position = c.data.length then c else c.latch .trailingData
      (c.fault, c)

-----------------------------------------------------------------------------------------
-- Containers
-----------------------------------------------------------------------------------------

/-- Begins a value: the pending key or element counts as read. -/
def beginValue (c : Cursor) : Cursor :=
  { c with pending := false }.skipBlanks

/-- The type of the next value. -/
def peekKind (c : Cursor) : Option ValueKind × Cursor :=
  match c.fault with
  | some _ => (none, c)
  | none =>
      let c := c.skipBlanks
      (c.byte?.bind ValueKind.ofByte?, c)

/-- Consumes a null if it comes next. -/
def null (c : Cursor) : Option (Bool × Cursor) :=
  match c.peekKind with
  | (some .null, c) =>
      (c.beginValue.scan (.literal "null")).map fun (found, c) => (found.isSome, c)
  | (_, c) => some (false, c)

/-- Steps into the container that comes next. -/
def enter (c : Cursor) (container : Container) : Bool × Cursor :=
  match c.fault with
  | some _ => (false, c)
  | none =>
      let c := c.beginValue
      if c.byte? = some container.opening then
        if maxDepth ≤ c.frames.length then (false, c.malformed .nestingTooDeep)
        else (true, { c.step with frames := ⟨container, true⟩ :: c.frames })
      else (false, c.latch (.invalidValueType container.word))

/-- Moves over the comma in front of the next member or element, or leaves the container at its end.
-/
def nextPart (c : Cursor) (container : Container) (first : Bool) (outer : List Frame)
    : Bool × Cursor :=
  let c := c.skipBlanks
  if c.byte? = some container.closing then (false, { c.step with frames := outer })
  else if first then (true, c)
  else if c.byte? = some 44 then (true, c.step)
  else (false, c.malformed .expectedComma)

/-- Moves to the next member or element of the innermost container, or leaves it at its end. -/
def advance (c : Cursor) (container : Container) : Bool × Cursor :=
  match c.fault with
  | some _ => (false, c)
  | none =>
      if c.pending then (false, c.latch .unconsumedValue)
      else match c.frames with
        | [] => (false, c.latch (.custom "cursor is not inside a container"))
        | frame :: frames =>
            if frame.container ≠ container then
              (false, c.latch (.custom "cursor is inside a different container type"))
            else
              { c with frames := { frame with first := false } :: frames }.nextPart container
                frame.first frames

/-- The next key of the innermost object. -/
def nextKey (c : Cursor) : Option (Option String × Cursor) :=
  match c.advance .object with
  | (false, c) => some (none, c)
  | (true, c) =>
      (c.scan .keyAndColon).map fun (key, c) =>
        (key, if key.isSome then { c with pending := true } else c)

/-- Whether the innermost array has another element. -/
def nextElement (c : Cursor) : Bool × Cursor :=
  match c.advance .array with
  | (false, c) => (false, c)
  | (true, c) => (true, { c with pending := true })

/-- Reads the value of each further key of the innermost object. -/
def keys {α : Type} (read : String → α → Cursor → Option (α × Cursor)) (value : α) (c : Cursor)
    : Option (α × Cursor) :=
  match c.nextKey with
  | none => none
  | some (none, c') => some (value, c')
  | some (some key, c') =>
      match read key value c' with
      | none => none
      | some next => if next.2.left < c.left then keys read next.1 next.2 else some next
termination_by c.left

/-- Reads each further element of the innermost array.  An element that is left unread fails the
next step of the cursor.
-/
def elements {α : Type} (read : α → Cursor → Option (α × Cursor)) (value : α) (c : Cursor)
    : Option (α × Cursor) :=
  match c.nextElement with
  | (false, c') => some (value, c')
  | (true, c') =>
      match read value c' with
      | none => none
      | some next =>
          if next.2.left < c.left then elements read next.1 next.2
          else some (next.1, next.2.nextElement.2)
termination_by c.left

/-- Reads the object that comes next key by key. -/
def object {α : Type} (read : String → α → Cursor → Option (α × Cursor)) (value : α) (c : Cursor)
    : Option (α × Cursor) :=
  match c.enter .object with
  | (false, c) => some (value, c)
  | (true, c) => keys read value c

/-- Reads the array that comes next element by element. -/
def array {α : Type} (read : α → Cursor → Option (α × Cursor)) (value : α) (c : Cursor)
    : Option (α × Cursor) :=
  match c.enter .array with
  | (false, c) => some (value, c)
  | (true, c) => elements read value c

-----------------------------------------------------------------------------------------
-- Values
-----------------------------------------------------------------------------------------

/-- Passes over the next value. -/
def skip (c : Cursor) : Option (Unit × Cursor) :=
  match c.fault with
  | some _ => some ((), c)
  | none => (c.beginValue.scan (.skipValue maxDepth)).map fun (_, c) => ((), c)

/-- Passes over the next value and gives its bytes. -/
def rawValue (c : Cursor) : Option (Option (List UInt8) × Cursor) :=
  match c.fault with
  | some _ => some (none, c)
  | none =>
      let start := c.beginValue.position
      match c.beginValue.scan (.skipValue maxDepth) with
      | none => none
      | some (none, c) => some (none, c)
      | some (some (), c) => (between? c.data start c.position).map fun bytes => (some bytes, c)

/-- Converts the text that was read, or keeps the cause why that can not be done. -/
def convert {α : Type} (default : α) (value : String → Except Cause α)
    : Option String × Cursor → α × Cursor
  | (none, c) => (default, c)
  | (some text, c) =>
      match value text with
      | .ok v => (v, c)
      | .error cause => (default, c.latch cause)

/-- A truth value, or its word in a string.  The byte that tells the words apart is read without a
check.
-/
def bool (c : Cursor) : Option (Bool × Cursor) :=
  match c.fault with
  | some _ => some (false, c)
  | none =>
      match c.beginValue.peekKind with
      | (some .bool, c) =>
          match c.byte? with
          | none => none
          | some b =>
              if b = 116 then
                (c.scan (.literal "true")).map fun (found, c) => (found.isSome, c)
              else (c.scan (.literal "false")).map fun (_, c) => (false, c)
      | (some .string, c) =>
          (c.scan .string).map (convert false fun text =>
            if text = "true" then .ok true
            else if text = "false" then .ok false
            else .error (.invalidValue "bool" (.notBool text)))
      | (_, c) => some (false, c.latch (.invalidValueType "bool"))

/-- The text of a number, or of a string in its place. -/
def numericText (c : Cursor) (type : String) : Option (Option String × Cursor) :=
  match c.fault with
  | some _ => some (none, c)
  | none =>
      match c.beginValue.peekKind with
      | (some .number, c) => c.scan .number
      | (some .string, c) => c.scan .string
      | (_, c) => some (none, c.latch (.invalidValueType type))

/-- The integer of a range that a text denotes. -/
def integerWithin (type : String) (low high : Int) (text : String) : Except Cause Int :=
  match Reader.integerOfText text with
  | .error refusal => .error (.invalidValue type refusal)
  | .ok n => if low ≤ n ∧ n ≤ high then .ok n else .error (.invalidValue type (.outOfRange text))

/-- An integer of a range. -/
def integer (c : Cursor) (type : String) (low high : Int) : Option (Int × Cursor) :=
  (c.numericText type).map (convert 0 (integerWithin type low high))

/-- A signed 32-bit number. -/
def int32 (c : Cursor) : Option (Int32 × Cursor) :=
  (c.integer "int32" (-2 ^ 31) (2 ^ 31 - 1)).map fun (n, c) => (Int32.ofInt n, c)

/-- A signed 64-bit number. -/
def int64 (c : Cursor) : Option (Int64 × Cursor) :=
  (c.integer "int64" (-2 ^ 63) (2 ^ 63 - 1)).map fun (n, c) => (Int64.ofInt n, c)

/-- An unsigned 32-bit number. -/
def uint32 (c : Cursor) : Option (UInt32 × Cursor) :=
  (c.integer "uint32" 0 (2 ^ 32 - 1)).map fun (n, c) => (UInt32.ofNat n.toNat, c)

/-- An unsigned 64-bit number. -/
def uint64 (c : Cursor) : Option (UInt64 × Cursor) :=
  (c.integer "uint64" 0 (2 ^ 64 - 1)).map fun (n, c) => (UInt64.ofNat n.toNat, c)

/-- The bits of the `float` that a text denotes. -/
def floatOfText (text : String) : Except Cause UInt32 :=
  match Reader.doubleOfText text with
  | .error refusal => .error (.invalidValue "float32" refusal)
  | .ok bits =>
      let magnitude := bits % Number.double.signBit
      if Reader.largestFloat < magnitude ∧ magnitude < Number.double.infinity then
        .error (.invalidValue "float32" (.outOfRange (floatDisplay Number.double bits)))
      else .ok (UInt32.ofNat (Reader.narrow bits))

/-- A `float`. -/
def float (c : Cursor) : Option (UInt32 × Cursor) :=
  (c.numericText "float32").map (convert 0 floatOfText)

/-- The bits of the `double` that a text denotes. -/
def doubleText (text : String) : Except Cause UInt64 :=
  match Reader.doubleOfText text with
  | .error refusal => .error (.invalidValue "float64" refusal)
  | .ok bits => .ok (UInt64.ofNat bits)

/-- A `double`. -/
def double (c : Cursor) : Option (UInt64 × Cursor) :=
  (c.numericText "float64").map (convert 0 doubleText)

/-- A string in the place of a value of the given type. -/
def stringAs (c : Cursor) (type : String) : Option (Option String × Cursor) :=
  match c.fault with
  | some _ => some (none, c)
  | none =>
      match c.beginValue.peekKind with
      | (some .string, c) => c.scan .string
      | (_, c) => some (none, c.latch (.invalidValueType type))

/-- A text. -/
def string (c : Cursor) : Option (String × Cursor) :=
  (c.stringAs "string").map (convert "" .ok)

/-- The bytes that a text denotes. -/
def bytesOfText (text : String) : Except Cause (List UInt8) :=
  match Text.ofBase64? text with
  | some bytes => .ok bytes
  | none => .error (.invalidValue "bytes" .notBase64)

/-- Bytes in base64. -/
def bytes (c : Cursor) : Option (List UInt8 × Cursor) :=
  (c.stringAs "bytes").map (convert [] bytesOfText)

/-- The number of an enumeration: a number, a name, or a numeral in a string. -/
def enumeration (c : Cursor) (tables : List (List (String × Int32))) : Option (Int32 × Cursor) :=
  match c.fault with
  | some _ => some (0, c)
  | none =>
      match c.beginValue.peekKind with
      | (some .number, c) => c.int32
      | (some .string, c) =>
          (c.scan .string).map (convert 0 fun name =>
            match (numberInTables tables name).or (int32OfNumeral? name) with
            | some number => .ok number
            | none => .error (.unknownEnumValue name))
      | (_, c) => some (0, c.latch (.invalidValueType "enum"))

/-- The point in time that a text denotes. -/
def timestampOfText (text : String) : Except Cause Time.Timestamp :=
  (Time.Timestamp.ofText text).mapError fun e => .invalidValue "timestamp" (.time e)

/-- A point in time. -/
def timestamp (c : Cursor) : Option (Time.Timestamp × Cursor) :=
  (c.stringAs "timestamp").map (convert ⟨0, 0⟩ timestampOfText)

/-- The span of time that a text denotes. -/
def durationOfText (text : String) : Except Cause Time.Duration :=
  (Time.Duration.ofText text).mapError fun e => .invalidValue "duration" (.time e)

/-- A span of time. -/
def duration (c : Cursor) : Option (Time.Duration × Cursor) :=
  (c.stringAs "duration").map (convert ⟨0, 0⟩ durationOfText)

/-- The paths of a joined field mask. -/
def pathsOfText (joined : String) : Except Cause (List String) :=
  (Reader.pathsOfText joined).mapError fun e => .invalidValue "field mask" (.naming e)

/-- The paths of a field mask. -/
def fieldMask (c : Cursor) : Option (List String × Cursor) :=
  match c.peekKind with
  | (some .object, c) =>
      c.object (fun key paths c =>
        if key = "paths" then
          c.array (fun paths c => c.string.map fun (path, c) => (paths ++ [path], c)) paths
        else c.skip.map fun (_, c) => (paths, c)) []
  | (_, c) => (c.stringAs "field mask").map (convert [] pathsOfText)

end Cursor

end Protobuf.Json
