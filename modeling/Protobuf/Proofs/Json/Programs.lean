import Protobuf.Json.Decode
import Protobuf.Proofs.Json.Cursor
import Protobuf.WellKnown.Types

/-! What reads a message is made of a few steps of the cursor. `Program` lists them: each reading of
a type is built from tokens, objects and arrays, and hands the messages inside it to a reader for
them.  A fact about all types is proved by induction on how their readings are built.
-/

namespace Protobuf.Json

/-- Keeps a cause if there is one. -/
def Reader.settle (r : Reader) (cause : Option Cause) : Reader :=
  match cause with
  | none => r
  | some cause => r.latch cause

-----------------------------------------------------------------------------------------
-- Tokens
-----------------------------------------------------------------------------------------

/-- The scanner is for tokens that begin with the byte. -/
inductive ScansAt : Option UInt8 → {α : Type} → Scanner α → Prop
  | string : ScansAt (some 34) Scanner.string
  | number {b : UInt8} (kind : ValueKind.ofByte? b = some .number)
    : ScansAt (some b) Scanner.number
  | true : ScansAt (some 116) (Scanner.literal "true")
  | false : ScansAt (some 102) (Scanner.literal "false")
  | value (first : Option UInt8) : ScansAt first (Scanner.skipValue maxDepth)
  | map {first : Option UInt8} {α β : Type} (f : α → β) {scanner : Scanner α}
    (h : ScansAt first scanner)
    : ScansAt first (f <$> scanner)

/-- Scans the value that comes next with the scanner for its first byte; there is none for a value
of another type than is asked for.
-/
def Reader.token {α : Type} (select : Option UInt8 → Option (Scanner α)) (missing : Cause)
    (r : Reader) : Option α × Reader :=
  match r.fault with
  | some _ => (none, r)
  | none =>
      match select r.beginValue.rest.head? with
      | none => (none, r.beginValue.latch missing)
      | some scanner => r.beginValue.scan scanner

-----------------------------------------------------------------------------------------
-- Programs
-----------------------------------------------------------------------------------------

/-- Reads something, given how to read the messages inside it. -/
abbrev Reading (α : Type) := MessageReader → Reader → α × Reader

/-- How a program treats the value that comes next. -/
inductive Manner where
  /-- It takes the value or fails, and reads messages only inside the value. -/
  | whole
  /-- It may also leave the value where it is. -/
  | perhaps
  /-- It may also read the value as a message. -/
  | delegated
  /-- It takes the value, and may read it as a message again that is no `Any`. -/
  | packed
  /-- It moves the cursor through a document of its own. -/
  | walk
deriving DecidableEq

/-- The reading is made of the steps of the cursor. -/
inductive Program : Manner → {α : Type} → Reading α → Prop
  | leave {α : Type} (v : α)
    : Program .perhaps fun _ r => (v, r)
  | refuse {α : Type} (v : α) (cause : Cause)
    : Program .whole fun _ r => (v, r.latch cause)
  | token {α : Type} {select : Option UInt8 → Option (Scanner α)} (missing : Cause)
    (selects : ∀ first scanner, select first = some scanner → ScansAt first scanner)
    : Program .whole fun _ => Reader.token select missing
  | judged {manner : Manner} {α β : Type} {F : Reading α} (value : α → β)
    (cause : α → Option Cause) (h : Program manner F)
    : Program manner fun read r => (value (F read r).1, (F read r).2.settle (cause (F read r).1))
  | nullOr {manner : Manner} {α : Type} {F : Reading α} (v : α) (h : Program manner F)
    : Program manner fun read r =>
        match r.null with
        | (true, r) => (v, r)
        | (false, r) => F read r
  | record {manner : Manner} {α : Type} {F : Reading α} (name : String) (h : Program manner F)
    : Program manner fun read r => F read (r.addField name)
  | field {manner : Manner} {α : Type} {F : Reading α} (name : String) (h : Program manner F)
    : Program manner fun read r => r.withField name (F read)
  | byKind {manner : Manner} {α : Type} {F : Option ValueKind → Reading α}
    (h : ∀ kind, Program manner (F kind))
    : Program manner fun read r => F r.peekKind.1 read r.peekKind.2
  | object {α : Type} {F : String → α → Reading α} (v : α)
    (h : ∀ key v, Program .delegated (F key v))
    : Program .whole fun read r => r.object (fun key v => F key v read) v
  | array {α : Type} {F : α → Reading α} (v : α) (h : ∀ v, Program .delegated (F v))
    : Program .whole fun read r => r.array (fun v => F v read) v
  | perhaps {α : Type} {F : Reading α} (h : Program .whole F)
    : Program .perhaps F
  | delegated {α : Type} {F : Reading α} (h : Program .perhaps F)
    : Program .delegated F
  | message (t : MessageType) (m : Message)
    : Program .delegated fun read => read t m
  | packed {α β : Type} {F : Reading α} (v : β) (value : α → β) (h : Program .walk F)
    : Program .packed fun read r =>
        match r.rawValue with
        | (none, r) => (v, r)
        | (some document, r) =>
            (value (F read (r.sub document)).1, r.join (F read (r.sub document)).2)
  | walk {α : Type} {F : Reading α} (h : Program .perhaps F)
    : Program .walk F
  | enter (container : Container)
    : Program .walk fun _ r => r.enter container
  | nextKey
    : Program .walk fun _ r => r.nextKey
  | keys {α : Type} {F : String → α → Reading α} (v : α)
    (h : ∀ key v, Program .delegated (F key v))
    : Program .walk fun read r => r.keys (fun key v => F key v read) v
  | failed
    : Program .walk fun _ r => (r.fault.isSome, r)
  | registry
    : Program .walk fun _ r => (r.registry, r)
  | next {α β : Type} {F : Reading α} {G : α → Reading β} (h : Program .walk F)
    (others : ∀ v, Program .walk (G v))
    : Program .walk fun read r => G (F read r).1 read (F read r).2
  /-- The document is read once more from its start, as a message. -/
  | again {α β : Type} {F : Reading α} {G : α → Reading β}
    (target : α → Option (MessageType × Message))
    (value : α → Message → β) (cause : α → Message → Option Cause) (h : Program .walk F)
    (others : ∀ v, Program .walk (G v)) (flat : ∀ v t m, target v = some (t, m) → t.form ≠ .any)
    : Program .walk fun read r =>
        match target (F read r).1 with
        | none => G (F read r).1 read (F read r).2
        | some (t, m) =>
            (value (F read r).1 (read t m r).1,
              (read t m r).2.settle (cause (F read r).1 (read t m r).1))

/-- A reading that does the same is made of the same steps. -/
theorem Program.of_eq {manner : Manner} {α : Type} {F G : Reading α} (h : Program manner F)
    (same : ∀ read r, G read r = F read r)
    : Program manner G := by
  have equal : G = F := funext fun read => funext fun r => same read r
  rwa [equal]

-----------------------------------------------------------------------------------------
-- First bytes
-----------------------------------------------------------------------------------------

/-- A string begins with a quote. -/
theorem eq_of_kind_string {b : UInt8} (h : ValueKind.ofByte? b = some .string)
    : b = 34 := by
  unfold ValueKind.ofByte? at h
  repeat' split at h
  all_goals first | assumption | cases h

/-- A null begins with its first letter. -/
theorem eq_of_kind_null {b : UInt8} (h : ValueKind.ofByte? b = some .null)
    : b = 110 := by
  unfold ValueKind.ofByte? at h
  repeat' split at h
  all_goals first | assumption | cases h

/-- A boolean begins with the first letter of its word. -/
theorem eq_of_kind_bool {b : UInt8} (h : ValueKind.ofByte? b = some .bool)
    : b = 116 ∨ b = 102 := by
  unfold ValueKind.ofByte? at h
  repeat' split at h
  all_goals first | assumption | cases h

@[simp]
theorem Reader.beginValue_fault (r : Reader)
    : r.beginValue.fault = r.fault :=
  rfl

@[simp]
theorem Reader.beginValue_rest (r : Reader)
    : r.beginValue.rest = dropBlanks r.rest :=
  rfl

/-- There are no blanks in front of a value that is begun. -/
theorem Reader.skipBlanks_beginValue (r : Reader)
    : r.beginValue.skipBlanks = r.beginValue := by
  simp only [beginValue, skipBlanks, dropBlanks_dropBlanks]

/-- The type of the value that a sound reader has begun shows in its first byte. -/
theorem Reader.peekKind_beginValue {r : Reader} (sound : r.fault = none)
    : r.beginValue.peekKind = (r.beginValue.rest.head?.bind ValueKind.ofByte?, r.beginValue) := by
  rw [peekKind, beginValue_fault, sound]
  simp only [skipBlanks_beginValue]

-----------------------------------------------------------------------------------------
-- Scalars
-----------------------------------------------------------------------------------------

/-- The scanner for the text of a number or string. -/
def selectNumeric (first : Option UInt8) : Option (Scanner String) :=
  match first.bind ValueKind.ofByte? with
  | some .number => some Scanner.number
  | some .string => some Scanner.string
  | _ => none

/-- The scanner for a string. -/
def selectString (first : Option UInt8) : Option (Scanner String) :=
  match first.bind ValueKind.ofByte? with
  | some .string => some Scanner.string
  | _ => none

/-- The scanner for a truth value, or for a string in its place. -/
def selectBool (first : Option UInt8) : Option (Scanner (Bool ⊕ String)) :=
  match first.bind ValueKind.ofByte? with
  | some .bool =>
      if first = some 116 then some ((fun _ => .inl true) <$> Scanner.literal "true")
      else some ((fun _ => .inl false) <$> Scanner.literal "false")
  | some .string => some (.inr <$> Scanner.string)
  | _ => none

/-- The scanner for a number or a name. -/
def selectEnum (first : Option UInt8) : Option (Scanner (String ⊕ String)) :=
  match first.bind ValueKind.ofByte? with
  | some .number => some (.inl <$> Scanner.number)
  | some .string => some (.inr <$> Scanner.string)
  | _ => none

/-- Strings are scanned where a string begins. -/
theorem scansAt_string {first : Option UInt8}
    (kind : first.bind ValueKind.ofByte? = some .string)
    : ScansAt first Scanner.string := by
  obtain ⟨b, rfl, kind⟩ := Option.bind_eq_some_iff.mp kind
  cases eq_of_kind_string kind
  exact .string

/-- Numbers are scanned where a number begins. -/
theorem scansAt_number {first : Option UInt8}
    (kind : first.bind ValueKind.ofByte? = some .number)
    : ScansAt first Scanner.number := by
  obtain ⟨b, rfl, kind⟩ := Option.bind_eq_some_iff.mp kind
  exact .number kind

/-- The token of a number begins as its scanner expects, quoted or not. -/
theorem scansAt_of_selectNumeric (first : Option UInt8) (scanner : Scanner String)
    (selected : selectNumeric first = some scanner)
    : ScansAt first scanner := by
  unfold selectNumeric at selected
  split at selected <;> cases selected
  · exact scansAt_number ‹_›
  · exact scansAt_string ‹_›

/-- The text of a number is one token. -/
theorem program_numericText (type : String)
    : Program .whole fun _ r => r.numericText type := by
  have program := Program.token (.invalidValueType type) scansAt_of_selectNumeric
  refine program.of_eq fun _ r => ?_
  rw [Reader.numericText, Reader.token]
  cases sound : r.fault with
  | some fault => rfl
  | none =>
      simp only [Reader.peekKind_beginValue sound, selectNumeric]
      cases r.beginValue.rest.head?.bind ValueKind.ofByte? with
      | none => rfl
      | some kind => cases kind <;> rfl

/-- A text begins as the scanner of strings expects. -/
theorem scansAt_of_selectString (first : Option UInt8) (scanner : Scanner String)
    (selected : selectString first = some scanner)
    : ScansAt first scanner := by
  unfold selectString at selected
  split at selected <;> cases selected
  exact scansAt_string ‹_›

/-- A text is one token. -/
theorem program_stringAs (type : String)
    : Program .whole fun _ r => r.stringAs type := by
  have program := Program.token (.invalidValueType type) scansAt_of_selectString
  refine program.of_eq fun _ r => ?_
  rw [Reader.stringAs, Reader.token]
  cases sound : r.fault with
  | some fault => rfl
  | none =>
      simp only [Reader.peekKind_beginValue sound, selectString]
      cases r.beginValue.rest.head?.bind ValueKind.ofByte? with
      | none => rfl
      | some kind => cases kind <;> rfl

/-- Mapping a scanner maps what is scanned. -/
theorem Reader.scan_map {α β : Type} (r : Reader) (f : α → β) (scanner : Scanner α)
    : r.scan (f <$> scanner) = ((r.scan scanner).1.map f, (r.scan scanner).2) := by
  simp only [scan, Functor.map, EStateM.map]
  cases scanner r.rest with
  | ok v rest => rfl
  | error fault rest => rfl

/-- A boolean begins as the scanner of its word or of a string expects. -/
theorem scansAt_of_selectBool (first : Option UInt8) (scanner : Scanner (Bool ⊕ String))
    (selected : selectBool first = some scanner)
    : ScansAt first scanner := by
  unfold selectBool at selected
  split at selected
  · rename_i kind
    obtain ⟨b, rfl, kind⟩ := Option.bind_eq_some_iff.mp kind
    split at selected <;> cases selected
    · rename_i first
      cases first
      exact .map _ .true
    · rename_i other
      rcases eq_of_kind_bool kind with rfl | rfl
      · exact absurd rfl other
      · exact .map _ .false
  · cases selected
    exact .map _ (scansAt_string ‹_›)
  · cases selected

/-- The truth value that was scanned, or why a string in its place is none. -/
def boolVerdict : Option (Bool ⊕ String) → Bool × Option Cause
  | none => (false, none)
  | some (.inl v) => (v, none)
  | some (.inr text) =>
      (text == "true",
        if text = "true" ∨ text = "false" then none
        else some (.invalidValue "bool" (.notBool text)))

/-- A boolean is one token, which is then judged. -/
theorem program_bool
    : Program .whole fun _ r => r.bool := by
  have token := Program.token (.invalidValueType "bool") scansAt_of_selectBool
  have judged := token.judged (fun scanned? => (boolVerdict scanned?).1)
    (fun scanned? => (boolVerdict scanned?).2)
  refine judged.of_eq fun _ r => ?_
  rw [Reader.bool, Reader.token]
  cases sound : r.fault with
  | some fault => rfl
  | none =>
      simp only [Reader.peekKind_beginValue sound, selectBool]
      cases r.beginValue.rest.head?.bind ValueKind.ofByte? with
      | none => rfl
      | some kind =>
          cases kind with
          | bool =>
              simp only
              split
              · simp only [Reader.scan_map]
                cases (r.beginValue.scan (Scanner.literal "true")).1 <;> rfl
              · simp only [Reader.scan_map]
                cases (r.beginValue.scan (Scanner.literal "false")).1 <;> rfl
          | string =>
              simp only [Reader.scan_map]
              rcases r.beginValue.scan Scanner.string with ⟨_ | text, after⟩
              · rfl
              · simp only [Option.map_some]
                by_cases yes : text = "true"
                · subst yes
                  rfl
                by_cases no : text = "false"
                · subst no
                  rfl
                simp only [boolVerdict, yes, no, if_false, or_self, Reader.settle, Reader.refuse,
                  beq_eq_false_iff_ne.mpr yes]
          | null | number | object | array => rfl

/-- Passing over a value is one token. -/
theorem program_skip {α : Type} (v : α)
    : Program .whole fun _ r => (v, r.skip) := by
  have selects (first : Option UInt8) (scanner : Scanner Unit)
      (selected : some (Scanner.skipValue maxDepth) = some scanner) : ScansAt first scanner := by
    cases selected
    exact .value first
  have token := Program.token (.invalidValueType "") selects
  refine (token.judged (fun _ => v) (fun _ => none)).of_eq fun _ r => ?_
  rw [Reader.skip, Reader.token]
  cases r.fault with
  | some fault => rfl
  | none => rfl

/-- What follows from the text of a number or string, if one was read. -/
theorem Program.judgedText {α : Type} {F : Reading (Option String)} (v : α)
    (verdict : String → α × Option Cause) (h : Program .whole F)
    : Program .whole fun read r =>
        match F read r with
        | (none, r) => (v, r)
        | (some text, r) => ((verdict text).1, r.settle (verdict text).2) := by
  have judged := h.judged (fun text? => (text?.map verdict).elim v Prod.fst)
    (fun text? => text?.bind fun text => (verdict text).2)
  refine judged.of_eq fun read r => ?_
  rcases F read r with ⟨_ | text, after⟩
  · rfl
  · rfl

/-- The integer that a text denotes in a range, or why there is none. -/
def integerVerdict (type : String) (low high : Int) (text : String) : Int × Option Cause :=
  match Reader.integerOfText text with
  | .error refusal => (0, some (.invalidValue type refusal))
  | .ok n =>
      if low ≤ n ∧ n ≤ high then (n, none) else (0, some (.invalidValue type (.outOfRange text)))

/-- An integer is the text of a number and a verdict on it. -/
theorem Reader.integer_eq (type : String) (low high : Int) (r : Reader)
    : r.integer type low high
        = match r.numericText type with
          | (none, r) => (0, r)
          | (some text, r) =>
              ((integerVerdict type low high text).1,
                r.settle (integerVerdict type low high text).2) := by
  rw [integer]
  rcases r.numericText type with ⟨_ | text, after⟩
  · rfl
  · simp only [integerVerdict]
    cases integerOfText text with
    | error refusal => rfl
    | ok n =>
        simp only
        split <;> rfl

/-- An integer of any type is one token, which is then judged. -/
theorem program_integer (type : String) (low high : Int)
    : Program .whole fun _ r => r.integer type low high :=
  ((program_numericText type).judgedText 0 (integerVerdict type low high)).of_eq fun _ r =>
    r.integer_eq type low high

/-- A value that is computed from one that was read. -/
theorem Program.map {manner : Manner} {α β : Type} {F : Reading α} (f : α → β)
    (h : Program manner F)
    : Program manner fun read r => (f (F read r).1, (F read r).2) :=
  h.judged f fun _ => none

theorem program_int32
    : Program .whole fun _ r => r.int32 :=
  (program_integer _ _ _).map Int32.ofInt

theorem program_int64
    : Program .whole fun _ r => r.int64 :=
  (program_integer _ _ _).map Int64.ofInt

theorem program_uint32
    : Program .whole fun _ r => r.uint32 :=
  (program_integer _ _ _).map fun n : Int => UInt32.ofNat n.toNat

theorem program_uint64
    : Program .whole fun _ r => r.uint64 :=
  (program_integer _ _ _).map fun n : Int => UInt64.ofNat n.toNat

/-- What a parser makes of a text, or the default and why it refuses the text. -/
def parseVerdict {ε α : Type} (type : String) (why : ε → Refusal) (default : α)
    : Except ε α → α × Option Cause
  | .ok v => (v, none)
  | .error e => (default, some (.invalidValue type (why e)))

/-- What a parser makes of the text that was read, if one was read. -/
theorem Program.parsedText {ε α : Type} {f : Reader → Option String × Reader}
    (h : Program .whole fun _ => f) (type : String) (parse : String → Except ε α)
    (why : ε → Refusal) (default : α)
    : Program .whole fun _ r =>
        match f r with
        | (none, r) => (default, r)
        | (some text, r) =>
            match parse text with
            | .ok v => (v, r)
            | .error e => r.refuse type (why e) default := by
  have judged := h.judgedText default fun text => parseVerdict type why default (parse text)
  refine judged.of_eq fun _ r => ?_
  rcases f r with ⟨_ | text, after⟩
  · rfl
  · simp only
    cases parse text <;> rfl

/-- A floating point number is one token, which is then judged. -/
theorem program_floating (type : String)
    : Program .whole fun _ r => r.floating type := by
  have parsed := (program_numericText type).parsedText type
    (fun text => (Reader.doubleOfText text).map some) id none
  refine parsed.of_eq fun _ r => ?_
  rw [Reader.floating]
  rcases r.numericText type with ⟨_ | text, after⟩
  · rfl
  · simp only
    cases Reader.doubleOfText text <;> rfl

/-- The `float` nearest to a `double` that was read, or why there is none. -/
def singleVerdict : Option Nat → UInt32 × Option Cause
  | none => (0, none)
  | some bits =>
      if Reader.largestFloat < bits % Number.double.signBit
          ∧ bits % Number.double.signBit < Number.double.infinity then
        (0, some (.invalidValue "float32" (.outOfRange (floatDisplay Number.double bits))))
      else (UInt32.ofNat (Reader.narrow bits), none)

/-- A `float` is a `double` that is then narrowed. -/
theorem program_float
    : Program .whole fun _ r => r.float := by
  have judged := (program_floating "float32").judged (fun bits? => (singleVerdict bits?).1)
    (fun bits? => (singleVerdict bits?).2)
  refine judged.of_eq fun _ r => ?_
  rw [Reader.float]
  rcases r.floating "float32" with ⟨_ | bits, after⟩
  · rfl
  · simp only [singleVerdict]
    split <;> rfl

theorem program_double
    : Program .whole fun _ r => r.double := by
  have judged := (program_floating "float64").map fun bits? => (bits?.map UInt64.ofNat).getD 0
  refine judged.of_eq fun _ r => ?_
  rw [Reader.double]
  rcases r.floating "float64" with ⟨_ | bits, after⟩ <;> rfl

/-- A string is one token. -/
theorem program_string
    : Program .whole fun _ r => r.string :=
  (program_stringAs "string").map fun text? => text?.getD ""

/-- Bytes are one token, which is then judged. -/
theorem program_bytes
    : Program .whole fun _ r => r.bytes := by
  have parsed := (program_stringAs "bytes").parsedText "bytes"
    (fun text => (Text.ofBase64? text).elim (.error Refusal.notBase64) .ok) id []
  refine parsed.of_eq fun _ r => ?_
  rw [Reader.bytes]
  rcases r.stringAs "bytes" with ⟨_ | text, after⟩
  · rfl
  · simp only
    cases Text.ofBase64? text <;> rfl

/-- A point in time is one token, which is then judged. -/
theorem program_timestamp
    : Program .whole fun _ r => r.timestamp := by
  have parsed := (program_stringAs "timestamp").parsedText "timestamp"
    Time.Timestamp.ofText .time ⟨0, 0⟩
  refine parsed.of_eq fun _ r => ?_
  rw [Reader.timestamp]
  rcases r.stringAs "timestamp" with ⟨_ | text, after⟩
  · rfl
  · simp only
    cases Time.Timestamp.ofText text <;> rfl

theorem program_duration
    : Program .whole fun _ r => r.duration := by
  have parsed := (program_stringAs "duration").parsedText "duration"
    Time.Duration.ofText .time ⟨0, 0⟩
  refine parsed.of_eq fun _ r => ?_
  rw [Reader.duration]
  rcases r.stringAs "duration" with ⟨_ | text, after⟩
  · rfl
  · simp only
    cases Time.Duration.ofText text <;> rfl

/-- The token of an enumeration begins as its scanner expects, a name or a number. -/
theorem scansAt_of_selectEnum (first : Option UInt8) (scanner : Scanner (String ⊕ String))
    (selected : selectEnum first = some scanner)
    : ScansAt first scanner := by
  unfold selectEnum at selected
  split at selected <;> cases selected
  · exact .map _ (scansAt_number ‹_›)
  · exact .map _ (scansAt_string ‹_›)

/-- The number of an enumeration that was scanned, or why there is none. -/
def enumVerdict (tables : List (List (String × Int32)))
    : Option (String ⊕ String) → Int32 × Option Cause
  | none => (0, none)
  | some (.inl text) =>
      (Int32.ofInt (integerVerdict "int32" (-2 ^ 31) (2 ^ 31 - 1) text).1,
        (integerVerdict "int32" (-2 ^ 31) (2 ^ 31 - 1) text).2)
  | some (.inr name) =>
      match (numberInTables tables name).or (int32OfNumeral? name) with
      | some number => (number, none)
      | none => (0, some (.unknownEnumValue name))

/-- A value of an enumeration is one token, which is then judged. -/
theorem program_enumeration (tables : List (List (String × Int32)))
    : Program .whole fun _ r => r.enumeration tables := by
  have token := Program.token (.invalidValueType "enum") scansAt_of_selectEnum
  have judged := token.judged (fun scanned? => (enumVerdict tables scanned?).1)
    (fun scanned? => (enumVerdict tables scanned?).2)
  refine judged.of_eq fun _ r => ?_
  rw [Reader.enumeration, Reader.token]
  cases sound : r.fault with
  | some fault => rfl
  | none =>
      simp only [Reader.peekKind_beginValue sound, selectEnum]
      cases found : r.beginValue.rest.head?.bind ValueKind.ofByte? with
      | none => rfl
      | some kind =>
          cases kind with
          | number =>
              have again : r.beginValue.beginValue = r.beginValue := by
                rw [Reader.beginValue, Reader.beginValue, Reader.skipBlanks, Reader.skipBlanks,
                  dropBlanks_dropBlanks]
              have begun : r.beginValue.fault = none := sound
              simp only [Reader.int32, Reader.integer_eq, Reader.numericText, begun, again,
                Reader.peekKind_beginValue sound, found, Reader.scan_map]
              rcases r.beginValue.scan Scanner.number with ⟨_ | text, after⟩ <;> rfl
          | string =>
              simp only [Reader.scan_map]
              rcases r.beginValue.scan Scanner.string with ⟨_ | name, after⟩
              · rfl
              · simp only [Option.map_some, enumVerdict]
                cases (numberInTables tables name).or (int32OfNumeral? name) <;> rfl
          | null | bool | object | array => rfl

-----------------------------------------------------------------------------------------
-- Values with a form of their own
-----------------------------------------------------------------------------------------

/-- An object is read in one way, and every other value in another one. -/
theorem Program.objectOr {manner : Manner} {α : Type} {F G : Reading α} (h : Program manner F)
    (others : Program manner G)
    : Program manner fun read r =>
        match r.peekKind with
        | (some .object, r) => F read r
        | (_, r) => G read r := by
  have either (kind : Option ValueKind) : Program manner fun read r =>
      if kind = some .object then F read r else G read r := by
    split
    · exact h
    · exact others
  refine (Program.byKind either).of_eq fun read r => ?_
  rcases r.peekKind with ⟨_ | kind, after⟩
  · rfl
  · cases kind <;> rfl

/-- A field mask is one token, or an object with a list of texts. -/
theorem program_fieldMask
    : Program .whole fun _ r => r.fieldMask := by
  have path (paths : List String) : Program .delegated fun _ r =>
      (paths ++ [r.string.1], r.string.2) :=
    .delegated (.perhaps (program_string.map fun path => paths ++ [path]))
  have member (key : String) (paths : List String) : Program .delegated fun _ r =>
      if key = "paths" then r.array (fun paths r => (paths ++ [r.string.1], r.string.2)) paths
      else (paths, r.skip) := by
    refine .delegated (.perhaps ?_)
    split
    · exact .array paths path
    · exact program_skip paths
  have joined := (program_stringAs "field mask").parsedText "field mask"
    Reader.pathsOfText .naming []
  refine (Program.object [] member).objectOr (joined.of_eq fun _ r => ?_)
  rcases r.stringAs "field mask" with ⟨_ | text, after⟩
  · rfl
  · simp only
    cases Reader.pathsOfText text <;> rfl

/-- A value that may be null looks for the null first. -/
theorem Program.wrapped {α : Type} {f : Reader → α × Reader} (default : α)
    (h : Program .whole fun _ => f)
    : Program .whole fun _ r => r.wrapped default f := by
  have member (key : String) (value : α) : Program .delegated fun _ r =>
      if key = "value" then f r else (value, r.skip) := by
    refine .delegated (.perhaps ?_)
    split
    · exact h
    · exact program_skip value
  exact (Program.object default member).objectOr h

/-- A capacity is checked behind a value. -/
theorem Program.boundedBy {α : Type} {f : Reader → α × Reader} (capacity : Option Nat)
    (length : α → Nat) (empty : α) (h : Program .whole fun _ => f)
    : Program .whole fun _ r => boundedBy capacity length empty (f r) := by
  have judged := h.judged
    (fun v => if withinCapacity capacity (length v) then v else empty)
    (fun v => if withinCapacity capacity (length v) then none
      else some (.decode .capacityExceeded))
  refine judged.of_eq fun _ r => ?_
  rw [Json.boundedBy]
  split <;> rfl

/-- A scalar of any type is read in steps of the cursor. -/
theorem program_scalar (type : ScalarType)
    : Program .whole fun _ r => readScalar type r := by
  cases type with
  | int32 | sint32 | sfixed32 => exact program_int32.map Scalar.int32
  | int64 | sint64 | sfixed64 => exact program_int64.map Scalar.int64
  | uint32 | fixed32 => exact program_uint32.map Scalar.uint32
  | uint64 | fixed64 => exact program_uint64.map Scalar.uint64
  | bool => exact program_bool.map Scalar.bool
  | float => exact program_float.map Scalar.float
  | double => exact program_double.map Scalar.double
  | string capacity =>
      have bounded := program_string.boundedBy capacity (fun v => (Text.utf8 v).length) ""
      exact bounded.map Scalar.string
  | bytes capacity => exact (program_bytes.boundedBy capacity _ _).map Scalar.bytes
  | enumeration e => exact (program_enumeration _).map Scalar.int32

/-- So is the value of a type with one scalar. -/
theorem program_sole {t : MessageType} {type : ScalarType} (sole : soleType t = some type)
    (slots : List Slot) (wrapped : Bool)
    : Program .whole fun _ r => readSole t slots wrapped r := by
  simp only [readSole, sole]
  cases wrapped with
  | true =>
      exact ((program_scalar type).wrapped type.default).map fun v => [Slot.one (Value.scalar v)]
  | false => exact (program_scalar type).map fun v => [Slot.one (Value.scalar v)]

/-- So is a point or span of time. -/
theorem program_counters (members : List Member) (slots : List Slot)
    : Program .whole fun _ r => readCounters members slots r := by
  refine .object slots fun key slots => .delegated (.perhaps ?_)
  cases members.findIdx? fun m => m.name == key with
  | none => exact program_skip slots
  | some i => exact program_uint32.map fun v => slots.set i (.one (.scalar (.uint32 v)))

-----------------------------------------------------------------------------------------
-- Members
-----------------------------------------------------------------------------------------

section

variable (s : Schema)

/-- A value is a scalar or is handed on as a message. -/
theorem program_value (field : String) (type : ValueType) (current : Value)
    : Program .delegated fun read r => readValue s read field type current r := by
  cases type with
  | scalar type => exact .delegated (.perhaps ((program_scalar type).map Value.scalar))
  | message name =>
      cases current with
      | scalar v => exact .delegated (.leave (Value.scalar v))
      | message m => exact .field field ((Program.message (s.type name) m).map Value.message)

/-- An element is a value with a check of the capacity. -/
theorem program_element (field : String) (type : ValueType) (capacity : Option Nat)
    (vs : List Value)
    : Program .delegated fun read r => readElement s read field type capacity vs r := by
  have judged := (program_value s field type (s.emptyValue type)).judged
    (fun v => (appendValue capacity vs v).1)
    (fun v => (appendValue capacity vs v).2.map Cause.decode)
  refine judged.of_eq fun read r => ?_
  rw [readElement]
  rcases readValue s read field type (s.emptyValue type) r with ⟨v, after⟩
  simp only
  rcases appendValue capacity vs v with ⟨vs', _ | e⟩ <;> rfl

/-- An entry is a value with a check of its key. -/
theorem program_entry (field : String) (keyType : ScalarType) (type : ValueType) (key : String)
    (es : List Entry)
    : Program .delegated fun read r => readEntry s read field keyType type key es r := by
  unfold readEntry
  cases keyOfText keyType key with
  | error refusal => exact .delegated (.perhaps (.refuse es _))
  | ok key =>
      exact (program_value s field type (s.emptyValue type)).map fun v => insertEntry key v es

/-- A null that stands for no value is taken in the place of a value. -/
theorem Program.clearing {manner : Manner} {α : Type} {F : Reading α} (type : ValueType) (v : α)
    (h : Program manner F)
    : Program manner fun read r =>
        match clearingNull s type r with
        | (true, r) => (v, r)
        | (false, r) => F read r := by
  unfold clearingNull
  split
  · exact h
  · exact .nullOr v h

/-- A member is read in steps of the cursor, and the messages in it are handed on. -/
theorem program_slot (m : Member) (slot : Slot)
    : Program .delegated fun read r => readSlot s read m slot r := by
  have unread (slot : Slot) : Program .delegated fun _ r => (slot, r.addField m.name) :=
    .record m.name (.delegated (.leave slot))
  have single (type : ValueType) (v : Value) : Program .delegated fun read r =>
      (Slot.one (readValue s read m.name type v r).1, (readValue s read m.name type v r).2) :=
    (program_value s m.name type v).map Slot.one
  unfold readSlot
  cases m.shape with
  | single type =>
      cases slot with
      | one v => exact .record m.name ((single type v).clearing s type _)
      | none | many _ | entries _ | choice _ _ => exact unread _
  | optional type =>
      exact .record m.name ((single type _).clearing s type _)
  | repeated type packed capacity =>
      cases slot with
      | many vs =>
          have elements := (Program.array vs fun vs =>
            program_element s m.name type capacity vs).map Slot.many
          exact .record m.name (.nullOr _ (.delegated (.perhaps elements)))
      | none | one _ | entries _ | choice _ _ => exact unread _
  | map key type =>
      cases slot with
      | entries es =>
          have entries := (Program.object es fun name es =>
            program_entry s m.name key type name es).map Slot.entries
          exact .record m.name (.nullOr _ (.delegated (.perhaps entries)))
      | none | one _ | many _ | choice _ _ => exact unread _
  | oneof alternatives => exact unread slot

/-- An alternative is read in steps of the cursor, and a message in it is handed on. -/
theorem program_alternative (a : Alternative) (slot : Slot)
    : Program .delegated fun read r => readAlternative s read a slot r := by
  have value := (program_value s a.name a.type (s.emptyValue a.type)).map (Slot.choice a.tag)
  exact .record a.name (value.clearing s a.type slot)

/-- The key names nothing, or what reads its value is a program. -/
def Chooses (find : MessageReader → Reader → Option (List Slot × Reader)) : Prop :=
  (∀ read r, find read r = none)
    ∨ ∃ F, Program .delegated F ∧ ∀ read r, find read r = some (F read r)

/-- A choice among slots is one with another slot in front of them. -/
theorem Chooses.behind {find : MessageReader → Reader → Option (List Slot × Reader)}
    (h : Chooses find) (slot : Slot)
    : Chooses fun read r => (find read r).map fun result => (slot :: result.1, result.2) := by
  rcases h with missing | ⟨F, program, found⟩
  · exact .inl fun read r => by simp only [missing, Option.map_none]
  · exact .inr ⟨_, program.map fun slots => slot :: slots, fun read r => by
      simp only [found, Option.map_some]⟩

/-- By induction on the members. -/
theorem chooses_member (key : String) (members : List Member) (slots : List Slot)
    : Chooses fun read r => readMember s read key members slots r := by
  induction members generalizing slots with
  | nil => exact .inl fun _ _ => rfl
  | cons m members ih =>
      cases slots with
      | nil => exact .inl fun _ _ => rfl
      | cons slot slots =>
          have others := (ih slots).behind slot
          have own := (program_slot s m slot).map fun slot => slot :: slots
          simp only [readMember]
          cases m.shape with
          | oneof alternatives => exact others
          | single _ | optional _ | repeated _ _ _ | map _ _ =>
              cases isNamed m.name m.jsonName key with
              | true => exact .inr ⟨_, own, fun _ _ => rfl⟩
              | false => exact others

/-- By induction on the members. -/
theorem chooses_choice (key : String) (members : List Member) (slots : List Slot)
    : Chooses fun read r => readChoice s read key members slots r := by
  induction members generalizing slots with
  | nil => exact .inl fun _ _ => rfl
  | cons m members ih =>
      cases slots with
      | nil => exact .inl fun _ _ => rfl
      | cons slot slots =>
          have others := (ih slots).behind slot
          simp only [readChoice]
          cases m.shape with
          | oneof alternatives =>
              simp only
              cases alternatives.find? fun a => isNamed a.name a.jsonName key with
              | none => exact others
              | some a =>
                  have own := (program_alternative s a slot).map fun slot => slot :: slots
                  exact .inr ⟨_, own, fun _ _ => rfl⟩
          | single _ | optional _ | repeated _ _ _ | map _ _ => exact others

/-- The value of a key is read as its member, or passed over. -/
theorem program_key (t : MessageType) (key : String) (slots : List Slot)
    : Program .delegated fun read r => readKey s read t key slots r := by
  rcases chooses_member s key t.members slots with missing | ⟨F, program, found⟩
  · rcases chooses_choice s key t.members slots with unknown | ⟨F, program, found⟩
    · refine (program_skip slots).perhaps.delegated.of_eq fun read r => ?_
      simp only [readKey, missing, unknown]
    · refine program.of_eq fun read r => ?_
      simp only [readKey, missing, found]
  · refine program.of_eq fun read r => ?_
    simp only [readKey, found]

-----------------------------------------------------------------------------------------
-- Dynamic values
-----------------------------------------------------------------------------------------

theorem program_dynamic
    : Program .delegated fun read r => readDynamic s read r :=
  (Program.message (s.type dynamicType) (s.empty dynamicType)).map Value.message

/-- The fields of a dynamic object are handed on one by one. -/
theorem program_fields (es : List Entry)
    : Program .whole fun read r => readFields s read es r :=
  .object es fun key es =>
    ((program_dynamic s).field key).map fun v => insertEntry (Scalar.string key) v es

/-- The items of a dynamic array are handed on one by one. -/
theorem program_items (vs : List Value)
    : Program .whole fun read r => readItems s read vs r :=
  .array vs fun vs => (program_dynamic s).map fun v => vs ++ [v]

/-- A reader that has failed sees no value. -/
theorem Reader.peekKind_of_fault {r : Reader} (h : r.fault.isSome)
    : r.peekKind = (none, r) := by
  obtain ⟨fault, same⟩ := Option.isSome_iff_exists.mp h
  rw [peekKind, same]

/-- A reader that has failed keeps its fault. -/
theorem Reader.latch_of_fault {r : Reader} (h : r.fault.isSome) (cause : Cause)
    : r.latch cause = r := by
  obtain ⟨fault, same⟩ := Option.isSome_iff_exists.mp h
  rw [latch, same]

/-- Where the reader sees a null it takes it, or fails. -/
theorem Reader.null_of_kind {r r' : Reader} (h : r.peekKind = (some .null, r'))
    : r'.null.1 ∨ r'.null.2.fault.isSome := by
  have sound : r.fault = none := by
    cases sound : r.fault with
    | none => rfl
    | some fault =>
        rw [peekKind, sound] at h
        cases h
  have again : r'.peekKind = (some .null, r') := by
    rw [peekKind, sound] at h
    simp only [Prod.mk.injEq] at h
    obtain ⟨kind, rfl⟩ := h
    have begun : r.skipBlanks.fault = none := sound
    rw [peekKind, begun]
    simp only [skipBlanks, dropBlanks_dropBlanks] at kind ⊢
    rw [kind]
  rw [null, again]
  simp only [scan]
  cases Scanner.literal "null" r'.beginValue.rest with
  | ok _ rest => exact .inl rfl
  | error fault rest =>
      refine .inr ?_
      simp only [malformed, latch]
      split
      · exact Option.isSome_iff_exists.mpr ⟨_, ‹_›⟩
      · rfl

/-- A dynamic value is a token, an object or an array. -/
theorem program_kind (slots : List Slot)
    : Program .whole fun read r => readKind s read slots r := by
  have null := Program.nullOr (F := fun _ r => ([Slot.choice 1 (.scalar (.int32 0))],
      r.latch (.invalidValueType "null"))) [Slot.choice 1 (.scalar (.int32 0))] (.refuse _ _)
  have byKind := Program.byKind (F := fun kind read r =>
      match kind with
      | none => (slots, r.skip)
      | some .null =>
          match r.null with
          | (true, r) => ([.choice 1 (.scalar (.int32 0))], r)
          | (false, r) => ([.choice 1 (.scalar (.int32 0))], r.latch (.invalidValueType "null"))
      | some .number => ([.choice 2 (.scalar (.double r.double.1))], r.double.2)
      | some .string => ([.choice 3 (.scalar (.string r.string.1))], r.string.2)
      | some .bool => ([.choice 4 (.scalar (.bool r.bool.1))], r.bool.2)
      | some .object =>
          ([.choice 5 (.message ⟨[.entries (readFields s read [] r).1], []⟩)],
            (readFields s read [] r).2)
      | some .array =>
          ([.choice 6 (.message ⟨[.many (readItems s read [] r).1], []⟩)],
            (readItems s read [] r).2)) (by
    intro kind
    rcases kind with _ | kind
    · exact program_skip slots
    cases kind with
    | null => exact null
    | number => exact program_double.map fun v => [Slot.choice 2 (.scalar (.double v))]
    | string => exact program_string.map fun v => [Slot.choice 3 (.scalar (.string v))]
    | bool => exact program_bool.map fun v => [Slot.choice 4 (.scalar (.bool v))]
    | object =>
        exact (program_fields s []).map fun es =>
          [Slot.choice 5 (.message ⟨[.entries es], []⟩)]
    | array =>
        exact (program_items s []).map fun vs =>
          [Slot.choice 6 (.message ⟨[.many vs], []⟩)])
  refine byKind.of_eq fun read r => ?_
  rw [readKind]
  rcases peek : r.peekKind with ⟨_ | kind, after⟩
  · rfl
  · cases kind with
    | null =>
        have taken := Reader.null_of_kind peek
        simp only
        rcases same : after.null with ⟨_ | _, behind⟩
        · rw [same] at taken
          rcases taken with taken | failed
          · cases taken
          · simp only [Reader.latch_of_fault failed]
        · rfl
    | number | string | bool | object | array => rfl

-----------------------------------------------------------------------------------------
-- Messages of any type
-----------------------------------------------------------------------------------------

/-- What to read behind the type URL of an `Any`: nothing, or the message that it names. -/
def typeVerdict (currentUrl : String) (registry : Option Registry) (url : String)
    : Option (String × Resolution) × Option Cause :=
  if !currentUrl.isEmpty && currentUrl != url then
    (none, some (.anyTypeMismatch currentUrl url))
  else match resolve registry url with
    | none => (none, some (.unresolvableTypeUrl url))
    | some resolution => (some (url, resolution), none)

/-- Reads the object of an `Any` up to its type URL. -/
def readTypeUrl (currentUrl : String) (registry : Option Registry) (key : String) (r : Reader)
    : Option (String × Resolution) × Reader :=
  if key = "@type" then
    match r.string.2.fault with
    | some _ => (none, r.string.2)
    | none =>
        ((typeVerdict currentUrl registry r.string.1).1,
          r.string.2.settle (typeVerdict currentUrl registry r.string.1).2)
  else
    (none, (r.skip.keys (fun key misplaced r => (misplaced || key == "@type", r.skip))
      false).2.latch
      (if (r.skip.keys (fun key misplaced r => (misplaced || key == "@type", r.skip)) false).1 then
        .misplacedAnyType else .missingAnyType))

/-- The type URL of an `Any` is looked for among the keys of its object. -/
theorem program_typeUrl (currentUrl : String) (registry : Option Registry) (key : String)
    : Program .walk fun _ r => readTypeUrl currentUrl registry key r := by
  unfold readTypeUrl
  split
  · have verdict (url : String) (failed : Bool) : Program .walk fun _ r =>
        if failed then (none, r)
        else ((typeVerdict currentUrl registry url).1,
          r.settle (typeVerdict currentUrl registry url).2) := by
      cases failed with
      | true => exact .walk (.leave none)
      | false =>
          exact .walk ((Program.leave url).judged
            (fun url => (typeVerdict currentUrl registry url).1)
            (fun url => (typeVerdict currentUrl registry url).2))
    refine (program_string.perhaps.walk.next fun url => Program.failed.next (verdict url)).of_eq
      fun _ r => ?_
    simp only
    cases r.string.2.fault <;> rfl
  · have others := Program.keys
      (F := fun key misplaced _ r => (misplaced || key == "@type", r.skip))
      false fun key misplaced => (program_skip _).perhaps.delegated
    exact ((program_skip ()).perhaps.walk.next fun _ => others).judged (fun _ => none)
      fun misplaced =>
      some (if misplaced then .misplacedAnyType else .missingAnyType)

/-- The first member of the object of an `Any`. -/
def readTypeMember (currentUrl : String) (fresh : Reader)
    : Option (String × Resolution) × Reader :=
  match fresh.enter .object with
  | (false, inner) => (none, inner)
  | (true, inner) =>
      match inner.nextKey with
      | (none, inner) => (none, inner)
      | (some key, inner) => readTypeUrl currentUrl fresh.registry key inner

/-- The member with the type URL stands in an object of its own. -/
theorem program_typeMember (currentUrl : String)
    : Program .walk fun _ r => readTypeMember currentUrl r := by
  have behind (registry : Option Registry) (key : Option String) : Program .walk fun _ r =>
      key.elim (none, r) fun key => readTypeUrl currentUrl registry key r := by
    cases key with
    | none => exact .walk (.leave none)
    | some key => exact program_typeUrl currentUrl registry key
  have inside (registry : Option Registry) (entered : Bool) : Program .walk fun _ r =>
      if entered then
        r.nextKey.1.elim (none, r.nextKey.2) fun key =>
          readTypeUrl currentUrl registry key r.nextKey.2
      else (none, r) := by
    split
    · exact Program.nextKey.next (behind registry)
    · exact .walk (.leave none)
  refine (Program.registry.next fun registry =>
    (Program.enter .object).next (inside registry)).of_eq fun _ r => ?_
  rw [readTypeMember]
  rcases r.enter .object with ⟨_ | _, after⟩
  · rfl
  · simp only [if_true]
    rcases after.nextKey with ⟨_ | key, behind⟩ <;> rfl

/-- The encoding of a message that was read, or why there is none. -/
def payloadVerdict (name : String) (m : Message) : List UInt8 × Option Cause :=
  match s.encode (s.type name) m with
  | .ok payload => (payload, none)
  | .error e => ([], some (.encode e))

/-- A payload is a message and a verdict on its encoding. -/
theorem readPayload_eq (read : MessageReader) (name : String) (r : Reader)
    : readPayload s read name r
        = ((payloadVerdict s name (read (s.type name) (s.empty name) r).1).1,
          (read (s.type name) (s.empty name) r).2.settle
            (payloadVerdict s name (read (s.type name) (s.empty name) r).1).2) := by
  rw [readPayload, payloadVerdict]
  rcases read (s.type name) (s.empty name) r with ⟨m, after⟩
  simp only
  cases s.encode (s.type name) m <;> rfl

/-- A payload is handed on as a message and then packed. -/
theorem program_payload (name : String)
    : Program .delegated fun read r => readPayload s read name r := by
  have judged := (Program.message (s.type name) (s.empty name)).judged
    (fun m => (payloadVerdict s name m).1) (fun m => (payloadVerdict s name m).2)
  exact judged.of_eq (readPayload_eq s · name ·)

/-- The message that is read from the start of an `Any`. -/
def againTarget (named : Option (String × Resolution)) : Option (MessageType × Message) :=
  match named with
  | some (_, .registered name) =>
      if name ∈ wellKnownNames then none else some (s.type name, s.empty name)
  | _ => none

/-- What comes of the message that was read from the start of an `Any`. -/
def againVerdict (named : Option (String × Resolution)) (m : Message)
    : Option (String × List UInt8) × Option Cause :=
  match named with
  | some (url, .registered name) =>
      (some (url, (payloadVerdict s name m).1), (payloadVerdict s name m).2)
  | _ => (none, none)

/-- What is read behind the type URL of a well-known type. -/
def readWellKnown (named : Option (String × Resolution)) : Reading (Option (String × List UInt8)) :=
  fun read r =>
    match named with
    | some (url, .wellKnown name) =>
        (some (url, (r.keys (fun key payload r =>
            if key = "value" then readPayload s read name r else (payload, r.skip)) []).1),
          (r.keys (fun key payload r =>
            if key = "value" then readPayload s read name r else (payload, r.skip)) []).2)
    | _ => (none, r)

/-- The members around the value of a well-known type are walked through. -/
theorem program_wellKnown (named : Option (String × Resolution))
    : Program .walk (readWellKnown s named) := by
  rcases named with _ | ⟨url, name | name⟩
  · exact .walk (.leave none)
  · have member (key : String) (payload : List UInt8) : Program .delegated fun read r =>
        if key = "value" then readPayload s read name r else (payload, r.skip) := by
      split
      · exact program_payload s name
      · exact (program_skip payload).perhaps.delegated
    exact (Program.keys [] member).map fun payload => some (url, payload)
  · exact .walk (.leave none)

/-- A registered type is not well-known. -/
theorem resolve_registered {registry : Option Registry} {url name : String}
    (h : resolve registry url = some (.registered name))
    : name ∉ wellKnownNames := by
  unfold resolve at h
  simp only at h
  split at h
  · cases h
  · rename_i unknown
    cases registry with
    | none => cases h
    | some registry =>
        simp only at h
        split at h <;> cases h
        simpa using unknown

/-- Reads the object of an `Any` behind the member that names its type. -/
def readAnyMessage (currentUrl : String) : Reading (Option (String × List UInt8)) :=
    fun read fresh =>
  match againTarget s (readTypeMember currentUrl fresh).1 with
  | none =>
      readWellKnown s (readTypeMember currentUrl fresh).1 read (readTypeMember currentUrl fresh).2
  | some (t, m) =>
      ((againVerdict s (readTypeMember currentUrl fresh).1 (read t m fresh).1).1,
        (read t m fresh).2.settle
          (againVerdict s (readTypeMember currentUrl fresh).1 (read t m fresh).1).2)

/-- The message inside an `Any` is found by walking through the members of its object. -/
theorem program_anyMessage (flat : ∀ name, name ∉ wellKnownNames → (s.type name).form ≠ .any)
    (currentUrl : String)
    : Program .walk (readAnyMessage s currentUrl) := by
  refine Program.again (againTarget s) (fun named m => (againVerdict s named m).1)
    (fun named m => (againVerdict s named m).2) (program_typeMember currentUrl)
    (program_wellKnown s) fun named t m target => ?_
  unfold againTarget at target
  split at target
  · split at target <;> cases target
    exact flat _ ‹_›
  · cases target

/-- The object of an `Any` gives its message unless its walk ends in a fault. -/
theorem readAnyObject_eq (read : MessageReader) (currentUrl : String) (fresh : Reader)
    : readAnyObject s read currentUrl fresh
        = (if (readAnyMessage s currentUrl read fresh).2.fault.isSome then none
            else (readAnyMessage s currentUrl read fresh).1,
          (readAnyMessage s currentUrl read fresh).2) := by
  have stopped {inner : Reader} (h : readTypeMember currentUrl fresh = (none, inner))
      : readAnyMessage s currentUrl read fresh = (none, inner) := by
    rw [readAnyMessage, h]
    rfl
  rw [readAnyObject]
  rcases entered : fresh.enter .object with ⟨_ | _, inner⟩
  · rw [stopped (by rw [readTypeMember, entered]), ite_self]
  rcases reached : inner.nextKey with ⟨_ | key, behind⟩
  · have member : readTypeMember currentUrl fresh = (none, behind) := by
      rw [readTypeMember, entered]
      simp only [reached]
    simp only [stopped member, reached, ite_self]
  have member : readTypeMember currentUrl fresh
      = readTypeUrl currentUrl fresh.registry key behind := by
    rw [readTypeMember, entered]
    simp only [reached]
  simp only [reached]
  rw [readTypeUrl] at member
  by_cases type : key = "@type"
  · simp only [type, if_true] at member ⊢
    cases failed : behind.string.2.fault with
    | some fault =>
        simp only [failed] at member ⊢
        simp only [stopped member, ite_self]
    | none =>
        simp only [failed, typeVerdict] at member ⊢
        by_cases other : (!currentUrl.isEmpty && currentUrl != behind.string.1) = true
        · simp only [other, if_true, Reader.settle] at member ⊢
          simp only [stopped member, ite_self]
        simp only [other, if_false, Bool.false_eq_true] at member ⊢
        cases resolved : resolve fresh.registry behind.string.1 with
        | none =>
            simp only [resolved, Reader.settle] at member ⊢
            simp only [stopped member, ite_self]
        | some resolution =>
            simp only [resolved, Reader.settle] at member ⊢
            cases resolution with
            | wellKnown name =>
                simp only [readAnyMessage, member, againTarget, readWellKnown, readAnyPayload]
                rfl
            | registered name =>
                simp only [readAnyMessage, member, againTarget, resolve_registered resolved,
                  if_false, againVerdict, readAnyPayload, readPayload_eq]
  · simp only [type, if_false] at member ⊢
    simp only [stopped member, ite_self]

/-- The object of an `Any` is a document of its own. -/
theorem program_anyObject (flat : ∀ name, name ∉ wellKnownNames → (s.type name).form ≠ .any)
    (currentUrl : String)
    : Program .walk fun read r => readAnyObject s read currentUrl r := by
  have checked (result : Option (String × List UInt8)) : Program .walk fun _ r =>
      (if r.fault.isSome then none else result, r) :=
    Program.failed.map fun failed => if failed then none else result
  exact ((program_anyMessage s flat currentUrl).next checked).of_eq
    (readAnyObject_eq s · currentUrl ·)

/-- What an `Any` holds. -/
def anySlots (url : String) (payload : List UInt8) : List Slot :=
  [.one (.scalar (.string url)), .one (.scalar (.bytes payload))]

/-- An `Any` is kept as it stands and then walked through. -/
theorem program_any (flat : ∀ name, name ∉ wellKnownNames → (s.type name).form ≠ .any)
    (slots : List Slot)
    : Program .packed fun read r => readAny s read slots r := by
  have unread : Program .packed fun _ r =>
      match r.rawValue with
      | (none, r) => (slots, r)
      | (some document, r) => (slots, r.join (r.sub document)) :=
    .packed slots (fun slots => slots) (.walk (.leave slots))
  by_cases shape : ∃ url payload, slots = anySlots url payload
  · obtain ⟨url, payload, rfl⟩ := shape
    have packed := Program.packed (anySlots url payload)
      (fun named => match named with
        | none => anySlots url payload
        | some (url, more) => anySlots url (payload ++ more))
      (program_anyObject s flat url)
    refine packed.of_eq fun read r => ?_
    rw [readAny]
    rcases r.rawValue with ⟨_ | document, after⟩
    · rfl
    · simp only [anySlots]
      rcases readAnyObject s read url (after.sub document) with ⟨_ | ⟨url', more⟩, inner⟩ <;> rfl
  · refine unread.of_eq fun read r => ?_
    rw [readAny]
    rcases r.rawValue with ⟨_ | document, after⟩
    · rfl
    · simp only
      split
      · exact absurd ⟨_, _, rfl⟩ shape
      · rfl

/-- The slots are such as messages of the type have, as far as its form shows in them. -/
def Fits (t : MessageType) (slots : List Slot) : Prop :=
  match t.form with
  | .bare | .wrapper => (soleType t).isSome
  | .struct => ∃ es, slots = [.entries es]
  | .listValue => ∃ vs, slots = [.many vs]
  | _ => True

/-- A message that fits its type takes the value that comes next. -/
theorem program_slots_of_fits {t : MessageType} {slots : List Slot} (form : t.form ≠ .any)
    (fits : Fits t slots)
    : Program .whole fun read r => readSlots s read t slots r := by
  unfold Fits at fits
  simp only [readSlots]
  cases same : t.form with
  | members => exact .object slots fun key slots => program_key s t key slots
  | bare =>
      rw [same] at fits
      obtain ⟨type, sole⟩ := Option.isSome_iff_exists.mp fits
      exact program_sole sole slots false
  | wrapper =>
      rw [same] at fits
      obtain ⟨type, sole⟩ := Option.isSome_iff_exists.mp fits
      exact program_sole sole slots true
  | timestamp =>
      exact program_timestamp.map fun v =>
        [Slot.one (Value.scalar (.int64 v.seconds)), Slot.one (Value.scalar (.int32 v.nanos))]
  | duration =>
      exact program_duration.map fun v =>
        [Slot.one (Value.scalar (.int64 v.seconds)), Slot.one (Value.scalar (.int32 v.nanos))]
  | fieldMask =>
      exact program_fieldMask.map fun paths =>
        [Slot.many (paths.map fun path => Value.scalar (.string path))]
  | struct =>
      rw [same] at fits
      obtain ⟨es, rfl⟩ := fits
      exact (program_fields s es).map fun es => [Slot.entries es]
  | value => exact program_kind s slots
  | listValue =>
      rw [same] at fits
      obtain ⟨vs, rfl⟩ := fits
      exact (program_items s vs).map fun vs => [Slot.many vs]
  | any => exact absurd same form
  | filler => exact program_counters t.members slots

/-- Slots that do not fit the form of their type stay as they are. -/
theorem readSlots_of_not_fits {t : MessageType} {slots : List Slot} (misfit : ¬Fits t slots)
    (read : MessageReader) (r : Reader)
    : readSlots s read t slots r = (slots, r) := by
  unfold Fits at misfit
  unfold readSlots
  cases same : t.form with
  | bare | wrapper =>
      rw [same] at misfit
      have none : soleType t = none := Option.not_isSome_iff_eq_none.mp misfit
      simp only [readSole, none]
  | struct =>
      rw [same] at misfit
      simp only
      split
      · exact absurd ⟨_, rfl⟩ misfit
      · rfl
  | listValue =>
      rw [same] at misfit
      simp only
      split
      · exact absurd ⟨_, rfl⟩ misfit
      · rfl
  | members | timestamp | duration | fieldMask | value | any | filler =>
      rw [same] at misfit
      exact absurd trivial misfit

/-- How the forms of types treat the value that comes next. -/
def mannerOf (form : JsonForm) : Manner :=
  if form = .any then .packed else .perhaps

/-- A message is read by a program, whatever its type and what it holds. -/
theorem program_slots (flat : ∀ name, name ∉ wellKnownNames → (s.type name).form ≠ .any)
    (t : MessageType) (slots : List Slot)
    : Program (mannerOf t.form) fun read r => readSlots s read t slots r := by
  unfold mannerOf
  split
  · rename_i form
    simp only [readSlots, form]
    exact program_any s flat slots
  · by_cases fits : Fits t slots
    · exact .perhaps (program_slots_of_fits s ‹_› fits)
    · exact (Program.leave slots).of_eq (readSlots_of_not_fits s fits)

end

/-- Of the well-known types and others that are not written as `Any`, only `Any` is written so. -/
theorem form_type_ne_any {own : List MessageType} (plain : ∀ t ∈ own, t.form ≠ .any) (name : String)
    (other : name ∉ wellKnownNames)
    : ((WellKnown.schemaWith own).type name).form ≠ .any := by
  unfold Schema.type WellKnown.schemaWith
  cases found : (own ++ WellKnown.types).find? fun t => t.name == name with
  | none => exact fun same => nomatch same
  | some t =>
      have named : t.name = name := beq_iff_eq.mp (List.find?_some found :)
      rcases List.mem_append.mp (List.mem_of_find?_eq_some found) with listed | listed
      · exact plain t listed
      · have only : ∀ t ∈ WellKnown.types, t.form = .any → t.name ∈ wellKnownNames := by decide
        exact fun form => other (named ▸ only t listed form)

end Protobuf.Json
