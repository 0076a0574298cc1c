import Protobuf.Proofs.Json.Passage

/-! What readers record.  A reading comes back to the path where it began; the keys of members are
recorded there, and nothing is recorded by what reads scalars, dynamic values and messages of a form
of their own.
-/

namespace Protobuf.Json

open FieldMask

/-- The reader is back at its path, knows the same types, and has recorded the fields. -/
structure Reader.Recorded (r r' : Reader) (fields : List Path) : Prop where
  path : r'.path = r.path
  registry : r'.registry = r.registry
  mask : r'.mask = fields.foldl PathSet.add r.mask

namespace Reader

variable {α β : Type} {r r' r'' : Reader} {fields others : List Path}

/-- A reader that does nothing records nothing. -/
theorem Recorded.refl (r : Reader)
    : r.Recorded r [] :=
  ⟨rfl, rfl, rfl⟩

/-- What is read one after the other is recorded one after the other. -/
theorem Recorded.trans (first : r.Recorded r' fields) (second : r'.Recorded r'' others)
    : r.Recorded r'' (fields ++ others) :=
  ⟨second.path.trans first.path, second.registry.trans first.registry,
    by rw [second.mask, first.mask, List.foldl_append]⟩

theorem Recorded.of_eq {read : α × Reader} {v : α} (h : r.Recorded read.2 fields)
    (same : read = (v, r'))
    : r.Recorded r' fields := by
  rwa [same] at h

/-- A field that is met is recorded under the current path. -/
theorem recorded_addField (r : Reader) (name : String)
    : r.Recorded (r.addField name) [r.path.push name] :=
  ⟨rfl, rfl, rfl⟩

/-- What is recorded inside a field is recorded below its path. -/
theorem Recorded.withField {field : String} {read : Reader → α × Reader}
    (h : Recorded { r with path := r.path.push field } (read { r with path := r.path.push field }).2
      fields)
    : r.Recorded (r.withField field read).2 fields :=
  ⟨rfl, h.registry, h.mask⟩

-----------------------------------------------------------------------------------------
-- Steps of the cursor
-----------------------------------------------------------------------------------------

/-- A fault is kept without a record. -/
theorem silent_latch (r : Reader) (cause : Cause)
    : r.Recorded (r.latch cause) [] := by
  unfold latch
  split <;> exact ⟨rfl, rfl, rfl⟩

/-- Scanning a token records nothing. -/
theorem silent_scan (r : Reader) (scanner : Scanner α)
    : r.Recorded (r.scan scanner).2 [] := by
  unfold scan
  split
  · exact ⟨rfl, rfl, rfl⟩
  · rename_i rest _
    have moved : r.Recorded { r with rest } [] := ⟨rfl, rfl, rfl⟩
    exact moved.trans (silent_latch _ _)

theorem silent_beginValue (r : Reader)
    : r.Recorded r.beginValue [] :=
  ⟨rfl, rfl, rfl⟩

/-- Looking at the next value records nothing. -/
theorem silent_peekKind (r : Reader)
    : r.Recorded r.peekKind.2 [] := by
  unfold peekKind
  split <;> exact ⟨rfl, rfl, rfl⟩

theorem silent_null (r : Reader)
    : r.Recorded r.null.2 [] := by
  have peeked := silent_peekKind r
  unfold null
  split <;> rename_i seen <;> rw [seen] at peeked
  · rename_i r'
    have scanned := peeked.trans ((silent_beginValue r').trans (silent_scan _ (.literal "null")))
    split <;> rename_i read <;> rwa [read] at scanned
  · exact peeked

/-- Stepping into a container records nothing by itself. -/
theorem silent_enter (r : Reader) (container : Container)
    : r.Recorded (r.enter container).2 [] := by
  unfold enter
  split
  · exact .refl r
  · dsimp only
    split
    · split
      · exact (silent_beginValue r).trans (silent_latch _ _)
      · exact ⟨rfl, rfl, rfl⟩
    · exact (silent_beginValue r).trans (silent_latch _ _)

/-- Moving to the next part of a container records nothing. -/
theorem silent_advance (r : Reader) (container : Container)
    : r.Recorded (r.advance container).2 [] := by
  unfold advance
  split
  · exact .refl r
  split
  · exact silent_latch r _
  split
  · exact silent_latch r _
  split
  · exact silent_latch r _
  dsimp only
  split
  · exact ⟨rfl, rfl, rfl⟩
  split
  · exact ⟨rfl, rfl, rfl⟩
  split
  · exact ⟨rfl, rfl, rfl⟩
  · rename_i frame frames _ _ _ _ _
    have moved : r.Recorded ({ r with
        frames := { frame with first := false } :: frames } : Reader).skipBlanks [] :=
          ⟨rfl, rfl, rfl⟩
    exact moved.trans (silent_latch _ _)

theorem silent_nextKey (r : Reader)
    : r.Recorded r.nextKey.2 [] := by
  have moved := silent_advance r .object
  rw [nextKey_eq]
  split <;> rename_i advanced <;> rw [advanced] at moved
  · exact moved
  · have scanned := moved.trans (silent_scan _ Scanner.keyAndColon)
    split <;> rename_i read <;> rw [read] at scanned
    · exact scanned
    · exact ⟨scanned.path, scanned.registry, scanned.mask⟩

theorem silent_nextElement (r : Reader)
    : r.Recorded r.nextElement.2 [] := by
  have moved := silent_advance r .array
  rw [nextElement]
  split <;> rename_i advanced <;> rw [advanced] at moved
  · exact moved
  · exact ⟨moved.path, moved.registry, moved.mask⟩

/-- By induction on what is left of the document. -/
theorem silent_keys {read : String → α → Reader → α × Reader}
    (silent : ∀ key v (r : Reader), r.Recorded (read key v r).2 []) (v : α) (r : Reader)
    : r.Recorded (r.keys read v).2 [] := by
  fun_induction Reader.keys read v r with
  | case1 v r r' reached =>
      have moved := silent_nextKey r
      rwa [reached] at moved
  | case2 v r key r' reached next _ ih =>
      have moved := silent_nextKey r
      rw [reached] at moved
      exact (moved.trans (silent key v r')).trans ih
  | case3 v r key r' reached next _ =>
      have moved := silent_nextKey r
      rw [reached] at moved
      exact moved.trans (silent key v r')

/-- By induction on what is left of the document. -/
theorem silent_elements {read : α → Reader → α × Reader}
    (silent : ∀ v (r : Reader), r.Recorded (read v r).2 []) (v : α) (r : Reader)
    : r.Recorded (r.elements read v).2 [] := by
  fun_induction Reader.elements read v r with
  | case1 v r r' reached =>
      have moved := silent_nextElement r
      rwa [reached] at moved
  | case2 v r r' reached next _ ih =>
      have moved := silent_nextElement r
      rw [reached] at moved
      exact (moved.trans (silent v r')).trans ih
  | case3 v r r' reached next _ =>
      have moved := silent_nextElement r
      rw [reached] at moved
      exact (moved.trans (silent v r')).trans (silent_nextElement _)

/-- An object records nothing if its members do not. -/
theorem silent_object {read : String → α → Reader → α × Reader}
    (silent : ∀ key v (r : Reader), r.Recorded (read key v r).2 []) (v : α) (r : Reader)
    : r.Recorded (r.object read v).2 [] := by
  have moved := silent_enter r .object
  rw [object]
  split <;> rename_i entered <;> rw [entered] at moved
  · exact moved
  · exact moved.trans (silent_keys silent v _)

/-- An array records nothing if its elements do not. -/
theorem silent_array {read : α → Reader → α × Reader}
    (silent : ∀ v (r : Reader), r.Recorded (read v r).2 []) (v : α) (r : Reader)
    : r.Recorded (r.array read v).2 [] := by
  have moved := silent_enter r .array
  rw [array]
  split <;> rename_i entered <;> rw [entered] at moved
  · exact moved
  · exact moved.trans (silent_elements silent v _)

/-- What is passed over is not recorded. -/
theorem silent_skip (r : Reader)
    : r.Recorded r.skip [] := by
  unfold skip
  split
  · exact .refl r
  · exact (silent_beginValue r).trans (silent_scan _ _)

/-- What is kept as it stands is not recorded. -/
theorem silent_rawValue (r : Reader)
    : r.Recorded r.rawValue.2 [] := by
  unfold rawValue
  split
  · exact .refl r
  · have scanned := (silent_beginValue r).trans (silent_scan _ (Scanner.skipValue maxDepth))
    dsimp only
    split <;> rename_i read <;> rwa [read] at scanned

-----------------------------------------------------------------------------------------
-- Scalars
-----------------------------------------------------------------------------------------

/-- The reader has seen of which type the value is that it has begun. -/
theorem silent_begun {kind : Option ValueKind} (seen : r.beginValue.peekKind = (kind, r'))
    : r.Recorded r' [] := by
  have begun := (silent_beginValue r).trans (silent_peekKind _)
  rwa [seen] at begun

/-- The text of a number records nothing, whether it is quoted or not. -/
theorem silent_numericText (r : Reader) (type : String)
    : r.Recorded (r.numericText type).2 [] := by
  unfold numericText
  split
  · exact .refl r
  split <;> rename_i seen <;> refine (silent_begun seen).trans ?_
  · exact silent_scan _ _
  · exact silent_scan _ _
  · exact silent_latch _ _

/-- A text records nothing, whatever it is read as. -/
theorem silent_stringAs (r : Reader) (type : String)
    : r.Recorded (r.stringAs type).2 [] := by
  unfold stringAs
  split
  · exact .refl r
  split <;> rename_i seen <;> refine (silent_begun seen).trans ?_
  · exact silent_scan _ _
  · exact silent_latch _ _

theorem silent_string (r : Reader)
    : r.Recorded r.string.2 [] :=
  silent_stringAs r "string"

/-- Refusing what was read keeps what was recorded. -/
theorem Recorded.refuse (h : r.Recorded r' fields) (type : String) (refusal : Refusal) (default : α)
    : r.Recorded (r'.refuse type refusal default).2 fields := by
  have whole := h.trans (silent_latch r' (.invalidValue type refusal))
  rwa [List.append_nil] at whole

theorem silent_bool (r : Reader)
    : r.Recorded r.bool.2 [] := by
  unfold bool
  split
  · exact .refl r
  split <;> rename_i seen <;> refine (silent_begun seen).trans ?_
  · split <;> exact silent_scan _ _
  · split <;> rename_i read <;> have scanned := (silent_scan _ Scanner.string).of_eq read
    · exact scanned
    · split
      · exact scanned
      split
      · exact scanned
      · exact scanned.refuse _ _ _
  · exact silent_latch _ _

/-- Integers of every type record nothing. -/
theorem silent_integer (r : Reader) (type : String) (low high : Int)
    : r.Recorded (r.integer type low high).2 [] := by
  have text := silent_numericText r type
  unfold integer
  split <;> rename_i read <;> rw [read] at text
  · exact text
  · split
    · exact text.refuse _ _ _
    · split
      · exact text
      · exact text.refuse _ _ _

/-- Floating point numbers record nothing. -/
theorem silent_floating (r : Reader) (type : String)
    : r.Recorded (r.floating type).2 [] := by
  have text := silent_numericText r type
  unfold floating
  split <;> rename_i read <;> rw [read] at text
  · exact text
  · split
    · exact text
    · exact text.refuse _ _ _

theorem silent_float (r : Reader)
    : r.Recorded r.float.2 [] := by
  have bits := silent_floating r "float32"
  unfold float
  split <;> rename_i read <;> rw [read] at bits
  · exact bits
  · dsimp only
    split
    · exact bits.refuse _ _ _
    · exact bits

theorem silent_double (r : Reader)
    : r.Recorded r.double.2 [] := by
  have bits := silent_floating r "float64"
  unfold double
  split <;> rename_i read <;> rwa [read] at bits

theorem silent_bytes (r : Reader)
    : r.Recorded r.bytes.2 [] := by
  have text := silent_stringAs r "bytes"
  unfold bytes
  split <;> rename_i read <;> rw [read] at text
  · exact text
  · split
    · exact text
    · exact text.refuse _ _ _

/-- Neither the name nor the number of an enumeration is recorded. -/
theorem silent_enumeration (r : Reader) (tables : List (List (String × Int32)))
    : r.Recorded (r.enumeration tables).2 [] := by
  unfold enumeration
  split
  · exact .refl r
  split <;> rename_i seen <;> refine (silent_begun seen).trans ?_
  · exact silent_integer _ _ _ _
  · split <;> rename_i read <;> have scanned := (silent_scan _ Scanner.string).of_eq read
    · exact scanned
    · split
      · exact scanned
      · exact scanned.trans (silent_latch _ _)
  · exact silent_latch _ _

theorem silent_timestamp (r : Reader)
    : r.Recorded r.timestamp.2 [] := by
  have text := silent_stringAs r "timestamp"
  unfold timestamp
  split <;> rename_i read <;> rw [read] at text
  · exact text
  · split
    · exact text
    · exact text.refuse _ _ _

theorem silent_duration (r : Reader)
    : r.Recorded r.duration.2 [] := by
  have text := silent_stringAs r "duration"
  unfold duration
  split <;> rename_i read <;> rw [read] at text
  · exact text
  · split
    · exact text
    · exact text.refuse _ _ _

/-- The paths of a field mask are its value and no record. -/
theorem silent_fieldMask (r : Reader)
    : r.Recorded r.fieldMask.2 [] := by
  have peeked := silent_peekKind r
  unfold fieldMask
  split <;> rename_i seen <;> rw [seen] at peeked <;> refine peeked.trans ?_
  · refine silent_object (fun key paths r => ?_) _ _
    split
    · refine silent_array (fun _ r => ?_) paths r
      exact silent_string r
    · exact silent_skip r
  · split <;> rename_i read <;> have text := (silent_stringAs _ "field mask").of_eq read
    · exact text
    · split
      · exact text
      · exact text.refuse _ _ _

/-- A null or a value in place of it records what the value does. -/
theorem silent_wrapped {read : Reader → α × Reader}
    (silent : ∀ r : Reader, r.Recorded (read r).2 []) (default : α) (r : Reader)
    : r.Recorded (r.wrapped default read).2 [] := by
  have peeked := silent_peekKind r
  unfold wrapped
  split <;> rename_i seen <;> rw [seen] at peeked <;> refine peeked.trans ?_
  · refine silent_object (fun key v r => ?_) _ _
    split
    · exact silent r
    · exact silent_skip r
  · exact silent _

end Reader

/-- A capacity that is checked behind a value records nothing. -/
theorem silent_boundedBy {α : Type} (capacity : Option Nat) (length : α → Nat) (default : α)
    {r : Reader} {read : α × Reader} (silent : r.Recorded read.2 [])
    : r.Recorded (boundedBy capacity length default read).2 [] := by
  unfold boundedBy
  split
  · exact silent
  · exact silent.trans (Reader.silent_latch _ _)

/-- A scalar of any type records nothing. -/
theorem silent_scalar (type : ScalarType) (r : Reader)
    : r.Recorded (readScalar type r).2 [] := by
  cases type with
  | int32 | sint32 | sfixed32 | int64 | sint64 | sfixed64 | uint32 | fixed32 | uint64 | fixed64 =>
      exact Reader.silent_integer r _ _ _
  | bool => exact Reader.silent_bool r
  | float => exact Reader.silent_float r
  | double => exact Reader.silent_double r
  | string capacity =>
      exact silent_boundedBy capacity (fun v => (Text.utf8 v).length) "" (Reader.silent_string r)
  | bytes capacity => exact silent_boundedBy capacity List.length [] (Reader.silent_bytes r)
  | enumeration e => exact Reader.silent_enumeration r _

-----------------------------------------------------------------------------------------
-- Messages of a form of their own
-----------------------------------------------------------------------------------------

/-- The value of a type with one scalar records nothing. -/
theorem silent_sole (t : MessageType) (slots : List Slot) (wrapped : Bool) (r : Reader)
    : r.Recorded (readSole t slots wrapped r).2 [] := by
  unfold readSole
  split
  · exact .refl r
  · cases wrapped with
    | true => exact Reader.silent_wrapped (silent_scalar _) _ r
    | false => exact silent_scalar _ r

/-- The parts of a point or span of time record nothing. -/
theorem silent_counters (members : List Member) (slots : List Slot) (r : Reader)
    : r.Recorded (readCounters members slots r).2 [] := by
  refine Reader.silent_object (fun key slots r => ?_) slots r
  split
  · exact Reader.silent_integer r _ _ _
  · exact Reader.silent_skip r

section

variable {s : Schema} {read : MessageReader}
  (dynamic : ∀ m (r : Reader), r.Recorded (read (s.type dynamicType) m r).2 [])

include dynamic

/-- The fields of a dynamic object record nothing, whatever names they have. -/
theorem silent_fields (es : List Entry) (r : Reader)
    : r.Recorded (readFields s read es r).2 [] := by
  refine Reader.silent_object (fun key es r => ?_) es r
  refine Reader.Recorded.withField ?_
  exact dynamic (s.empty dynamicType) _

/-- The items of a dynamic array record nothing. -/
theorem silent_items (vs : List Value) (r : Reader)
    : r.Recorded (readItems s read vs r).2 [] := by
  refine Reader.silent_array (fun vs r => ?_) vs r
  exact dynamic (s.empty dynamicType) r

/-- A dynamic value records nothing. -/
theorem silent_kind (slots : List Slot) (r : Reader)
    : r.Recorded (readKind s read slots r).2 [] := by
  unfold readKind
  split <;> rename_i seen <;> refine ((Reader.silent_peekKind r).of_eq seen).trans ?_
  · exact Reader.silent_skip _
  · exact Reader.silent_null _
  · exact Reader.silent_double _
  · exact Reader.silent_string _
  · exact Reader.silent_bool _
  · exact silent_fields dynamic [] _
  · exact silent_items dynamic [] _

/-- A reading of any type that does not know keys of members records nothing. -/
theorem silent_slots {t : MessageType} (form : t.form ≠ .members) (slots : List Slot) (r : Reader)
    : r.Recorded (readSlots s read t slots r).2 [] := by
  unfold readSlots
  split
  · exact absurd ‹_› form
  · exact silent_sole t slots false r
  · exact silent_sole t slots true r
  · exact r.silent_timestamp
  · exact r.silent_duration
  · exact r.silent_fieldMask
  · split
    · exact silent_fields dynamic _ r
    · exact .refl r
  · exact silent_kind dynamic slots r
  · split
    · exact silent_items dynamic _ r
    · exact .refl r
  · unfold readAny
    split <;> rename_i cut <;> have raw := r.silent_rawValue.of_eq cut
    · exact raw
    · split
      · split <;> exact ⟨raw.path, raw.registry, raw.mask⟩
      · exact raw
  · exact silent_counters _ slots r

end

/-- A message of a form of its own is read without a record: by induction on the measure that bounds
the messages inside it.
-/
theorem silent_readMessage {s : Schema} (dynamic : (s.type dynamicType).form ≠ .members)
    {t : MessageType} (form : t.form ≠ .members) (m : Message) (r : Reader)
    : r.Recorded (readMessage s t m r).2 [] := by
  induction measure : readMeasure t r using Nat.strongRecOn generalizing t m r with
  | ind n ih =>
      rw [readMessage]
      refine silent_slots (fun m' r' => ?_) form m.slots r
      split
      · rename_i less
        exact ih _ (measure ▸ less) dynamic m' r' rfl
      · exact .refl r'

end Protobuf.Json
