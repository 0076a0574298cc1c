import Protobuf.Json.Encode

/-! Messages read from JSON.  The members that an object names are merged into a message one by one;
what was read before a fault stays, and a scalar that was refused leaves its default behind.
-/

namespace Protobuf.Json

/-- Reads the next value into a message of the given type. -/
abbrev MessageReader := MessageType → Message → Reader → Message × Reader

/-- A null stands for a value of the type and not for none. -/
def nullIsValue (s : Schema) : ValueType → Bool
  | .scalar _ => false
  | .message name => (s.type name).form == .value

/-- Reads a value, at the path of its field if it is a message. -/
def readValue (s : Schema) (read : MessageReader) (field : String) (type : ValueType)
    (current : Value) (r : Reader) : Value × Reader :=
  match type, current with
  | .scalar type, _ =>
      let (v, r) := readScalar type r
      (.scalar v, r)
  | .message name, .message m =>
      r.withField field fun r =>
        let (m, r) := read (s.type name) m r
        (.message m, r)
  | _, current => (current, r)

/-- Reads one more element of a repeated member. -/
def readElement (s : Schema) (read : MessageReader) (field : String) (type : ValueType)
    (capacity : Option Nat) (vs : List Value) (r : Reader) : List Value × Reader :=
  let (v, r) := readValue s read field type (s.emptyValue type) r
  match appendValue capacity vs v with
  | (vs, none) => (vs, r)
  | (vs, some e) => (vs, r.latch (.decode e))

/-- Reads one more entry of a map. -/
def readEntry (s : Schema) (read : MessageReader) (field : String) (keyType : ScalarType)
    (type : ValueType) (key : String) (es : List Entry) (r : Reader) : List Entry × Reader :=
  match keyOfText keyType key with
  | .error refusal => (es, r.latch (.invalidValue "map key" refusal))
  | .ok key =>
      let (v, r) := readValue s read field type (s.emptyValue type) r
      (insertEntry key v es, r)

/-- Consumes a null that stands for no value of the type. -/
def clearingNull (s : Schema) (type : ValueType) (r : Reader) : Bool × Reader :=
  if nullIsValue s type then (false, r) else r.null

/-- Reads the value of a member's key; a null sets the member back. -/
def readSlot (s : Schema) (read : MessageReader) (m : Member) (slot : Slot) (r : Reader)
    : Slot × Reader :=
  let r := r.addField m.name
  match m.shape, slot with
  | .single type, .one v =>
      match clearingNull s type r with
      | (true, r) => (.one (s.emptyValue type), r)
      | (false, r) =>
          let (v, r) := readValue s read m.name type v r
          (.one v, r)
  | .optional type, slot =>
      match clearingNull s type r with
      | (true, r) => (.none, r)
      | (false, r) =>
          let current := match slot with
            | .one v => v
            | _ => s.emptyValue type
          let (v, r) := readValue s read m.name type current r
          (.one v, r)
  | .repeated type _ capacity, .many vs =>
      match r.null with
      | (true, r) => (.many [], r)
      | (false, r) =>
          let (vs, r) := r.array (readElement s read m.name type capacity) vs
          (.many vs, r)
  | .map key type, .entries es =>
      match r.null with
      | (true, r) => (.entries [], r)
      | (false, r) =>
          let (es, r) := r.object (readEntry s read m.name key type) es
          (.entries es, r)
  | _, slot => (slot, r)

/-- Reads the value of an alternative's key; a null leaves the oneof as it is. -/
def readAlternative (s : Schema) (read : MessageReader) (a : Alternative) (slot : Slot)
    (r : Reader) : Slot × Reader :=
  match clearingNull s a.type (r.addField a.name) with
  | (true, r) => (slot, r)
  | (false, r) =>
      let (v, r) := readValue s read a.name a.type (s.emptyValue a.type) r
      (.choice a.tag v, r)

/-- A key names something that has two names. -/
def isNamed (name jsonName key : String) : Bool :=
  key == name || key == jsonName

/-- Reads the value of a key that names a member which is no oneof. -/
def readMember (s : Schema) (read : MessageReader) (key : String)
    : List Member → List Slot → Reader → Option (List Slot × Reader)
  | m :: members, slot :: slots, r =>
      let isOneof := match m.shape with
        | .oneof _ => true
        | _ => false
      if !isOneof && isNamed m.name m.jsonName key then
        let (slot, r) := readSlot s read m slot r
        some (slot :: slots, r)
      else (readMember s read key members slots r).map fun (slots, r) => (slot :: slots, r)
  | _, _, _ => none

/-- Reads the value of a key that names an alternative of a oneof. -/
def readChoice (s : Schema) (read : MessageReader) (key : String)
    : List Member → List Slot → Reader → Option (List Slot × Reader)
  | m :: members, slot :: slots, r =>
      let named : Option Alternative := match m.shape with
        | .oneof alternatives => alternatives.find? fun a => isNamed a.name a.jsonName key
        | _ => none
      match named with
      | some a =>
          let (slot, r) := readAlternative s read a slot r
          some (slot :: slots, r)
      | none => (readChoice s read key members slots r).map fun (slots, r) => (slot :: slots, r)
  | _, _, _ => none

/-- Reads the value of a key into the member that it names; the value of another key is passed
over.
-/
def readKey (s : Schema) (read : MessageReader) (t : MessageType) (key : String)
    (slots : List Slot) (r : Reader) : List Slot × Reader :=
  match readMember s read key t.members slots r with
  | some result => result
  | none =>
      match readChoice s read key t.members slots r with
      | some result => result
      | none => (slots, r.skip)

/-- The message type of dynamic values. -/
def dynamicType : String := "google.protobuf.Value"

/-- Reads a dynamic value into a fresh message. -/
def readDynamic (s : Schema) (read : MessageReader) (r : Reader) : Value × Reader :=
  let (m, r) := read (s.type dynamicType) (s.empty dynamicType) r
  (.message m, r)

/-- Reads the fields of a `Struct`, each at the path of its key. -/
def readFields (s : Schema) (read : MessageReader) (es : List Entry) (r : Reader)
    : List Entry × Reader :=
  r.object (fun key es r =>
    let (v, r) := r.withField key (readDynamic s read)
    (insertEntry (.string key) v es, r)) es

/-- Reads the items of a `ListValue`. -/
def readItems (s : Schema) (read : MessageReader) (vs : List Value) (r : Reader)
    : List Value × Reader :=
  r.array (fun vs r =>
    let (v, r) := readDynamic s read r
    (vs ++ [v], r)) vs

/-- Reads the kind of a `Value`. -/
def readKind (s : Schema) (read : MessageReader) (slots : List Slot) (r : Reader)
    : List Slot × Reader :=
  match r.peekKind with
  | (none, r) => (slots, r.skip)
  | (some .null, r) => ([.choice 1 (.scalar (.int32 0))], r.null.2)
  | (some .number, r) =>
      let (v, r) := r.double
      ([.choice 2 (.scalar (.double v))], r)
  | (some .string, r) =>
      let (v, r) := r.string
      ([.choice 3 (.scalar (.string v))], r)
  | (some .bool, r) =>
      let (v, r) := r.bool
      ([.choice 4 (.scalar (.bool v))], r)
  | (some .object, r) =>
      let (es, r) := readFields s read [] r
      ([.choice 5 (.message ⟨[.entries es], []⟩)], r)
  | (some .array, r) =>
      let (vs, r) := readItems s read [] r
      ([.choice 6 (.message ⟨[.many vs], []⟩)], r)

/-- Reads a message of the given type and gives its encoding. -/
def readPayload (s : Schema) (read : MessageReader) (name : String) (r : Reader)
    : List UInt8 × Reader :=
  let (m, r) := read (s.type name) (s.empty name) r
  match s.encode (s.type name) m with
  | .ok payload => (payload, r)
  | .error e => ([], r.latch (.encode e))

/-- Reads the payload that the object of an `Any` holds, behind its type URL in `inner`. -/
def readAnyPayload (s : Schema) (read : MessageReader) (resolution : Resolution)
    (fresh inner : Reader) : List UInt8 × Reader :=
  match resolution with
  | .wellKnown name =>
      inner.keys (fun key payload inner =>
        if key = "value" then readPayload s read name inner else (payload, inner.skip)) []
  | .registered name => readPayload s read name fresh

/-- Reads the object of an `Any` from a reader over it; gives the type URL and what to append to the
payload.
-/
def readAnyObject (s : Schema) (read : MessageReader) (currentUrl : String) (fresh : Reader)
    : Option (String × List UInt8) × Reader :=
  match fresh.enter .object with
  | (false, inner) => (none, inner)
  | (true, inner) =>
      match inner.nextKey with
      | (none, inner) => (none, inner)
      | (some key, inner) =>
          if key = "@type" then
            let (url, inner) := inner.string
            match inner.fault with
            | some _ => (none, inner)
            | none =>
                if !currentUrl.isEmpty && currentUrl != url then
                  (none, inner.latch (.anyTypeMismatch currentUrl url))
                else match resolve fresh.registry url with
                  | none => (none, inner.latch (.unresolvableTypeUrl url))
                  | some resolution =>
                      let (payload, inner) := readAnyPayload s read resolution fresh inner
                      (if inner.fault.isSome then none else some (url, payload), inner)
          else
            let (misplaced, inner) :=
              inner.skip.keys (fun key misplaced inner =>
                (misplaced || key == "@type", inner.skip)) false
            (none, inner.latch (if misplaced then .misplacedAnyType else .missingAnyType))

/-- Reads an `Any`: its object is taken as a document of its own. -/
def readAny (s : Schema) (read : MessageReader) (slots : List Slot) (r : Reader)
    : List Slot × Reader :=
  match r.rawValue with
  | (none, r) => (slots, r)
  | (some document, r) =>
      match slots with
      | [.one (.scalar (.string currentUrl)), .one (.scalar (.bytes current))] =>
          match readAnyObject s read currentUrl (r.sub document) with
          | (none, inner) => (slots, r.join inner)
          | (some (url, payload), inner) =>
              ([.one (.scalar (.string url)), .one (.scalar (.bytes (current ++ payload)))],
                r.join inner)
      | slots => (slots, r)

/-- Reads the counters of a filler message. -/
def readCounters (members : List Member) (slots : List Slot) (r : Reader) : List Slot × Reader :=
  r.object (fun key slots r =>
    match members.findIdx? (fun m => m.name == key) with
    | some i =>
        let (v, r) := r.uint32
        (slots.set i (.one (.scalar (.uint32 v))), r)
    | none => (slots, r.skip)) slots

/-- Reads the only member of a type that is written as its value. -/
def readSole (t : MessageType) (slots : List Slot) (wrapped : Bool) (r : Reader)
    : List Slot × Reader :=
  match soleType t with
  | none => (slots, r)
  | some type =>
      let (v, r) := if wrapped then r.wrapped type.default (readScalar type) else readScalar type r
      ([.one (.scalar v)], r)

/-- Reads the slots of a message in the form of its type. -/
def readSlots (s : Schema) (read : MessageReader) (t : MessageType) (slots : List Slot)
    (r : Reader) : List Slot × Reader :=
  match t.form with
  | .members => r.object (readKey s read t) slots
  | .bare => readSole t slots false r
  | .wrapper => readSole t slots true r
  | .timestamp =>
      let (v, r) := r.timestamp
      ([.one (.scalar (.int64 v.seconds)), .one (.scalar (.int32 v.nanos))], r)
  | .duration =>
      let (v, r) := r.duration
      ([.one (.scalar (.int64 v.seconds)), .one (.scalar (.int32 v.nanos))], r)
  | .fieldMask =>
      let (paths, r) := r.fieldMask
      ([.many (paths.map fun path => .scalar (.string path))], r)
  | .struct =>
      match slots with
      | [.entries es] =>
          let (es, r) := readFields s read es r
          ([.entries es], r)
      | slots => (slots, r)
  | .value => readKind s read slots r
  | .listValue =>
      match slots with
      | [.many vs] =>
          let (vs, r) := readItems s read vs r
          ([.many vs], r)
      | slots => (slots, r)
  | .any => readAny s read slots r
  | .filler => readCounters t.members slots r

/-- What shrinks whenever a message is read inside another one: the bytes that are left, and for the
same bytes the step from an `Any` to the message inside it.
-/
def readMeasure (t : MessageType) (r : Reader) : Nat :=
  2 * r.rest.length + if t.form = .any then 1 else 0

/-- Reads the next value into a message of the given type. -/
def readMessage (s : Schema) (t : MessageType) (m : Message) (r : Reader) : Message × Reader :=
  let (slots, r) := readSlots s (fun t' m' r' =>
    if readMeasure t' r' < readMeasure t r then readMessage s t' m' r' else (m', r')) t m.slots r
  (⟨slots, m.unknown⟩, r)
termination_by readMeasure t r

/-- Merges a JSON document into a message; gives the fields that the document names, or the fault.
-/
def decodeInto (s : Schema) (registry : Option Registry) (t : MessageType) (m : Message)
    (document : List UInt8) : Message × Except Fault FieldMask.PathSet :=
  let (m, r) := readMessage s t m (Reader.ofBytes document registry)
  match r.finish with
  | (some fault, _) => (m, .error fault)
  | (none, r) => (m, .ok r.mask)

end Protobuf.Json
