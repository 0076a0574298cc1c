import Protobuf.FieldMask.Path
import Protobuf.Json.Registry
import Protobuf.Json.Scanner
import Protobuf.Schema.Enumeration
import Protobuf.Text.Base64
import Protobuf.Time.Timestamp

/-! Reading JSON with a cursor.  The reader keeps the first fault and reads nothing after it; a key
or element that the cursor has reached has to be read before the cursor moves on.
-/

namespace Protobuf.Json

open FieldMask Number

/-- A kind of container. -/
inductive Container where
  | object
  | array
deriving DecidableEq, Repr

namespace Container

/-- The byte that begins a container. -/
def opening : Container → UInt8
  | .object => 123
  | .array => 91

/-- The byte that ends a container. -/
def closing : Container → UInt8
  | .object => 125
  | .array => 93

/-- The word for a container. -/
def word : Container → String
  | .object => "object"
  | .array => "array"

end Container

/-- An open container, and whether the cursor still is before its first member. -/
structure Frame where
  container : Container
  first : Bool
deriving DecidableEq, Repr

/-- The type of a JSON value. -/
inductive ValueKind where
  | null
  | bool
  | number
  | string
  | object
  | array
deriving DecidableEq, Repr

/-- The type of the value that begins with a byte. -/
def ValueKind.ofByte? (b : UInt8) : Option ValueKind :=
  if b = 123 then some .object
  else if b = 91 then some .array
  else if b = 34 then some .string
  else if b = 116 ∨ b = 102 then some .bool
  else if b = 110 then some .null
  else if b = 45 ∨ (48 ≤ b ∧ b ≤ 57) then some .number
  else none

/-- A document that is being read: what is left of it, the open containers from the inside out, the
path of the current field, the fields met so far, and the first fault.
-/
structure Reader where
  fault : Option Fault
  input : List UInt8
  rest : List UInt8
  path : Path
  mask : PathSet
  frames : List Frame
  /-- A key or element was reached and not read. -/
  pending : Bool
  registry : Option Registry
deriving Inhabited

namespace Reader

/-- A reader at the start of a document. -/
def ofBytes (bytes : List UInt8) (registry : Option Registry) : Reader :=
  ⟨none, bytes, bytes, .root, .empty, [], false, registry⟩

/-- The offset of the next byte. -/
def position (r : Reader) : Nat :=
  r.input.length - r.rest.length

/-- Keeps a cause at the current path, unless there is a fault. -/
def latch (r : Reader) (cause : Cause) : Reader :=
  match r.fault with
  | some _ => r
  | none => { r with fault := some ⟨.unmarshal, r.path.dotted, cause⟩ }

/-- Keeps a syntax fault at the current offset. -/
def malformed (r : Reader) (fault : SyntaxFault) : Reader :=
  r.latch (.malformed r.position fault)

/-- Runs a scanner on what is left. -/
def scan {α : Type} (r : Reader) (scanner : Scanner α) : Option α × Reader :=
  match scanner r.rest with
  | .ok value rest => (some value, { r with rest })
  | .error fault rest => (none, ({ r with rest }).malformed fault)

/-- Consumes blanks. -/
def skipBlanks (r : Reader) : Reader :=
  { r with rest := dropBlanks r.rest }

/-- A reader of another document that goes on with the fault and the path and collects fields of its
own.
-/
def sub (r : Reader) (document : List UInt8) : Reader :=
  { r with input := document, rest := document, mask := .empty, frames := [], pending := false }

/-- Takes over the fault of a reader that went on from this one. -/
def join (r inner : Reader) : Reader :=
  { r with fault := inner.fault }

/-- Records a field of the current path. -/
def addField (r : Reader) (field : String) : Reader :=
  { r with mask := r.mask.add (r.path.push field) }

/-- Reads at the path of a field. -/
def withField {α : Type} (r : Reader) (field : String) (read : Reader → α × Reader)
    : α × Reader :=
  let (value, inner) := read { r with path := r.path.push field }
  (value, { inner with path := r.path })

/-- Checks that nothing but blanks is left, and gives the fault if there is one. -/
def finish (r : Reader) : Option Fault × Reader :=
  match r.fault with
  | some fault => (some fault, r)
  | none =>
      let r := r.skipBlanks
      let r := if r.rest.isEmpty then r else r.latch .trailingData
      (r.fault, r)

/-- Begins a value: the pending key or element counts as read. -/
def beginValue (r : Reader) : Reader :=
  { r with pending := false }.skipBlanks

/-- The type of the next value. -/
def peekKind (r : Reader) : Option ValueKind × Reader :=
  match r.fault with
  | some _ => (none, r)
  | none =>
      let r := r.skipBlanks
      (r.rest.head?.bind ValueKind.ofByte?, r)

/-- Consumes a null if it comes next. -/
def null (r : Reader) : Bool × Reader :=
  match r.peekKind with
  | (some .null, r) =>
      match r.beginValue.scan (Scanner.literal "null") with
      | (some _, r) => (true, r)
      | (none, r) => (false, r)
  | (_, r) => (false, r)

/-- Steps into the container that comes next. -/
def enter (r : Reader) (container : Container) : Bool × Reader :=
  match r.fault with
  | some _ => (false, r)
  | none =>
      let r := r.beginValue
      if r.rest.head? = some container.opening then
        if maxDepth ≤ r.frames.length then (false, r.malformed .nestingTooDeep)
        else (true, { r with rest := r.rest.tail, frames := ⟨container, true⟩ :: r.frames })
      else (false, r.latch (.invalidValueType container.word))

/-- Moves to the next member or element of the innermost container, or leaves it at its end. -/
def advance (r : Reader) (container : Container) : Bool × Reader :=
  match r.fault with
  | some _ => (false, r)
  | none =>
      if r.pending then (false, r.latch .unconsumedValue)
      else match r.frames with
        | [] => (false, r.latch (.custom "cursor is not inside a container"))
        | frame :: frames =>
            if frame.container ≠ container then
              (false, r.latch (.custom "cursor is inside a different container type"))
            else
              let r := { r with frames := { frame with first := false } :: frames }.skipBlanks
              if r.rest.head? = some container.closing then
                (false, { r with rest := r.rest.tail, frames })
              else if frame.first then (true, r)
              else if r.rest.head? = some 44 then (true, { r with rest := r.rest.tail })
              else (false, r.malformed .expectedComma)

/-- The next key of the innermost object. -/
def nextKey (r : Reader) : Option String × Reader :=
  match r.advance .object with
  | (false, r) => (none, r)
  | (true, r) =>
      let keyAndColon : Scanner String := do
        if (← Scanner.peek) == some 34 then
          let key ← Scanner.string
          Scanner.expect 58 .expectedColon
          return key
        else throw .expectedKey
      match r.scan keyAndColon with
      | (none, r) => (none, r)
      | (some key, r) => (some key, { r with pending := true })

/-- Whether the innermost array has another element. -/
def nextElement (r : Reader) : Bool × Reader :=
  match r.advance .array with
  | (false, r) => (false, r)
  | (true, r) => (true, { r with pending := true })

/-- Reads the value of each further key of the innermost object. -/
def keys {α : Type} (read : String → α → Reader → α × Reader) (value : α) (r : Reader)
    : α × Reader :=
  match r.nextKey with
  | (none, r') => (value, r')
  | (some key, r') =>
      let next := read key value r'
      if next.2.rest.length < r.rest.length then keys read next.1 next.2 else next
termination_by r.rest.length

/-- Reads each further element of the innermost array.  An element that is left unread fails the
next step of the cursor.
-/
def elements {α : Type} (read : α → Reader → α × Reader) (value : α) (r : Reader)
    : α × Reader :=
  match r.nextElement with
  | (false, r') => (value, r')
  | (true, r') =>
      let next := read value r'
      if next.2.rest.length < r.rest.length then elements read next.1 next.2
      else (next.1, next.2.nextElement.2)
termination_by r.rest.length

/-- Reads the object that comes next key by key. -/
def object {α : Type} (read : String → α → Reader → α × Reader) (value : α) (r : Reader)
    : α × Reader :=
  match r.enter .object with
  | (false, r) => (value, r)
  | (true, r) => keys read value r

/-- Reads the array that comes next element by element. -/
def array {α : Type} (read : α → Reader → α × Reader) (value : α) (r : Reader) : α × Reader :=
  match r.enter .array with
  | (false, r) => (value, r)
  | (true, r) => elements read value r

/-- Passes over the next value. -/
def skip (r : Reader) : Reader :=
  match r.fault with
  | some _ => r
  | none => (r.beginValue.scan (Scanner.skipValue maxDepth)).2

/-- Passes over the next value and gives its bytes. -/
def rawValue (r : Reader) : Option (List UInt8) × Reader :=
  match r.fault with
  | some _ => (none, r)
  | none =>
      let r := r.beginValue
      match r.scan (Scanner.skipValue maxDepth) with
      | (none, r) => (none, r)
      | (some (), r') => (some (r.rest.take (r.rest.length - r'.rest.length)), r')

/-- Refuses the value just read. -/
def refuse {α : Type} (r : Reader) (type : String) (refusal : Refusal) (default : α)
    : α × Reader :=
  (default, r.latch (.invalidValue type refusal))

/-- A truth value, or its word in a string. -/
def bool (r : Reader) : Bool × Reader :=
  match r.fault with
  | some _ => (false, r)
  | none =>
      match r.beginValue.peekKind with
      | (some .bool, r) =>
          if r.rest.head? = some 116 then
            let (done, r) := r.scan (Scanner.literal "true")
            (done.isSome, r)
          else (false, (r.scan (Scanner.literal "false")).2)
      | (some .string, r) =>
          match r.scan Scanner.string with
          | (none, r) => (false, r)
          | (some text, r) =>
              if text = "true" then (true, r)
              else if text = "false" then (false, r)
              else r.refuse "bool" (.notBool text) false
      | (_, r) => (false, r.latch (.invalidValueType "bool"))

/-- The text of a number, or of a string in its place. -/
def numericText (r : Reader) (type : String) : Option String × Reader :=
  match r.fault with
  | some _ => (none, r)
  | none =>
      match r.beginValue.peekKind with
      | (some .number, r) => r.scan Scanner.number
      | (some .string, r) => r.scan Scanner.string
      | (_, r) => (none, r.latch (.invalidValueType type))

/-- The integer that a number text denotes.  A fraction or an exponent is rounded to a `double`
first, which has to be an integer below the 64th power of two.
-/
def integerOfText (text : String) : Except Refusal Int :=
  let chars := text.toList
  if !isNumber chars then .error (.notNumber text)
  else
    let decimal := decimalOfNumber chars
    if chars.any fun c => c == '.' || c == 'e' || c == 'E' then
      match double.value (decimal.toBits double) with
      | .finite negative mantissa exponent =>
          match integerOfFloat? negative mantissa exponent with
          | none => .error (.notInteger text)
          | some n => if 2 ^ 64 ≤ n.natAbs then .error (.outOfRange text) else .ok n
      | _ => .error (.notInteger text)
    else .ok (if decimal.negative then -(decimal.coefficient : Int) else decimal.coefficient)

/-- An integer of a range. -/
def integer (r : Reader) (type : String) (low high : Int) : Int × Reader :=
  match r.numericText type with
  | (none, r) => (0, r)
  | (some text, r) =>
      match integerOfText text with
      | .error refusal => r.refuse type refusal 0
      | .ok n => if low ≤ n ∧ n ≤ high then (n, r) else r.refuse type (.outOfRange text) 0

/-- A signed 32-bit number. -/
def int32 (r : Reader) : Int32 × Reader :=
  let (n, r) := r.integer "int32" (-2 ^ 31) (2 ^ 31 - 1)
  (Int32.ofInt n, r)

/-- A signed 64-bit number. -/
def int64 (r : Reader) : Int64 × Reader :=
  let (n, r) := r.integer "int64" (-2 ^ 63) (2 ^ 63 - 1)
  (Int64.ofInt n, r)

/-- An unsigned 32-bit number. -/
def uint32 (r : Reader) : UInt32 × Reader :=
  let (n, r) := r.integer "uint32" 0 (2 ^ 32 - 1)
  (UInt32.ofNat n.toNat, r)

/-- An unsigned 64-bit number. -/
def uint64 (r : Reader) : UInt64 × Reader :=
  let (n, r) := r.integer "uint64" 0 (2 ^ 64 - 1)
  (UInt64.ofNat n.toNat, r)

/-- The `double` that a text denotes: a number, or the word for what is no finite one. -/
def doubleOfText (text : String) : Except Refusal Nat :=
  if text = "NaN" then .ok double.quietNaN
  else if text = "Infinity" then .ok double.infinity
  else if text = "-Infinity" then .ok (double.signBit + double.infinity)
  else if !isNumber text.toList then .error (.notNumber text)
  else
    let decimal := decimalOfNumber text.toList
    if decimal.toMagnitude double < double.infinity then .ok (decimal.toBits double)
    else .error (.outOfRange text)

/-- The bits of a `double` for a value of the given type. -/
def floating (r : Reader) (type : String) : Option Nat × Reader :=
  match r.numericText type with
  | (none, r) => (none, r)
  | (some text, r) =>
      match doubleOfText text with
      | .ok bits => (some bits, r)
      | .error refusal => r.refuse type refusal none

/-- The bits of the `double` with the value of the largest finite `float`. -/
def largestFloat : Nat := 0x47efffffe0000000

/-- The nearest `float` to a `double`. -/
def narrow (bits : Nat) : Nat :=
  match double.value bits with
  | .notANumber => single.quietNaN
  | .infinite negative => (if negative then single.signBit else 0) + single.infinity
  | .finite negative mantissa exponent =>
      (if negative then single.signBit else 0)
        + if mantissa = 0 then 0
          else single.ofRatio (mantissa * 2 ^ exponent.toNat) (2 ^ (-exponent).toNat)

/-- A `float`. -/
def float (r : Reader) : UInt32 × Reader :=
  match r.floating "float32" with
  | (none, r) => (0, r)
  | (some bits, r) =>
      let magnitude := bits % double.signBit
      if largestFloat < magnitude ∧ magnitude < double.infinity then
        r.refuse "float32" (.outOfRange (floatDisplay Number.double bits)) 0
      else (UInt32.ofNat (narrow bits), r)

/-- A `double`. -/
def double (r : Reader) : UInt64 × Reader :=
  match r.floating "float64" with
  | (none, r) => (0, r)
  | (some bits, r) => (UInt64.ofNat bits, r)

/-- A string in the place of a value of the given type. -/
def stringAs (r : Reader) (type : String) : Option String × Reader :=
  match r.fault with
  | some _ => (none, r)
  | none =>
      match r.beginValue.peekKind with
      | (some .string, r) => r.scan Scanner.string
      | (_, r) => (none, r.latch (.invalidValueType type))

/-- A text. -/
def string (r : Reader) : String × Reader :=
  let (text, r) := r.stringAs "string"
  (text.getD "", r)

/-- Bytes in base64. -/
def bytes (r : Reader) : List UInt8 × Reader :=
  match r.stringAs "bytes" with
  | (none, r) => ([], r)
  | (some text, r) =>
      match Text.ofBase64? text with
      | some bytes => (bytes, r)
      | none => r.refuse "bytes" .notBase64 []

/-- The number of an enumeration: a number, a name, or a numeral in a string. -/
def enumeration (r : Reader) (tables : List (List (String × Int32))) : Int32 × Reader :=
  match r.fault with
  | some _ => (0, r)
  | none =>
      match r.beginValue.peekKind with
      | (some .number, r) => r.int32
      | (some .string, r) =>
          match r.scan Scanner.string with
          | (none, r) => (0, r)
          | (some name, r) =>
              match (numberInTables tables name).or (int32OfNumeral? name) with
              | some number => (number, r)
              | none => (0, r.latch (.unknownEnumValue name))
      | (_, r) => (0, r.latch (.invalidValueType "enum"))

/-- A point in time. -/
def timestamp (r : Reader) : Time.Timestamp × Reader :=
  match r.stringAs "timestamp" with
  | (none, r) => (⟨0, 0⟩, r)
  | (some text, r) =>
      match Time.Timestamp.ofText text with
      | .ok t => (t, r)
      | .error e => r.refuse "timestamp" (.time e) ⟨0, 0⟩

/-- A span of time. -/
def duration (r : Reader) : Time.Duration × Reader :=
  match r.stringAs "duration" with
  | (none, r) => (⟨0, 0⟩, r)
  | (some text, r) =>
      match Time.Duration.ofText text with
      | .ok d => (d, r)
      | .error e => r.refuse "duration" (.time e) ⟨0, 0⟩

/-- The paths of a joined field mask. -/
def pathsOfText (joined : String) : Except NamingError (List String) :=
  (((joined.toList.splitOn ',').filter fun path => !path.isEmpty).map String.ofList).mapM
    toSnakeCase

/-- The paths of a field mask. -/
def fieldMask (r : Reader) : List String × Reader :=
  match r.peekKind with
  | (some .object, r) =>
      r.object (fun key paths r =>
        if key = "paths" then
          r.array (fun paths r =>
            let (path, r) := r.string
            (paths ++ [path], r)) paths
        else (paths, r.skip)) []
  | (_, r) =>
      match r.stringAs "field mask" with
      | (none, r) => ([], r)
      | (some joined, r) =>
          match pathsOfText joined with
          | .ok paths => (paths, r)
          | .error e => r.refuse "field mask" (.naming e) []

/-- A value, or an object that holds it as `value`. -/
def wrapped {α : Type} (default : α) (read : Reader → α × Reader) (r : Reader) : α × Reader :=
  match r.peekKind with
  | (some .object, r) =>
      r.object (fun key value r => if key = "value" then read r else (value, r.skip)) default
  | (_, r) => read r

end Reader

end Protobuf.Json
