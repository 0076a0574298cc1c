import Protobuf.Proofs.Json.Acceptance

/-! What stands between quotes.  A text comes back from its literal whatever characters it has and
whatever stands behind it, as a value and as a key; and bytes come back from their base 64, in
either alphabet and with padding or without.
-/

namespace Protobuf.Json

open FieldMask Text WellKnown

variable {s : Schema} {config : Config} {mask : PathSet} {read : MessageReader} {path : Path}
  {slack limit : Nat} {w : Writer} {r : Reader} {more : List UInt8}

-----------------------------------------------------------------------------------------
-- Literals in their places
-----------------------------------------------------------------------------------------

theorem Writer.raw_of_sound (sound : w.fault = none) (text : String)
    : w.raw text = { w with output := w.output ++ text } := by
  rw [raw, sound]

theorem Writer.key_of_sound (sound : w.fault = none) (name : String)
    : w.key name = { w with output := w.output ++ (stringLiteral name ++ ":") } := by
  simp only [key, string, raw, sound, String.append_assoc]

/-- Text is appended at any path. -/
theorem Writer.withField_raw (w : Writer) (field text : String)
    : (w.withField field fun w => w.raw text) = w.raw text := by
  obtain ⟨fault, output, config, path, mask⟩ := w
  cases fault <;> rfl

/-- A literal is taken off the front as its text. -/
theorem Reader.string_of_literal (sound : r.fault = none) {text : String}
    (visible : dropBlanks r.rest = utf8 (stringLiteral text) ++ more)
    : r.string = (text, { r with rest := more, pending := false }) := by
  obtain ⟨bytes, quote⟩ := utf8_stringLiteral_cons text
  have scanned := string_stringLiteral text more
  rw [quote, List.cons_append] at visible scanned
  exact string_of_scanned sound visible scanned

/-- The literal of a key is taken off the front with its colon, behind a comma unless it is the
first one.
-/
theorem Reader.nextKey_of_literal {first : Bool} {frames : List Frame} (sound : r.fault = none)
    (idle : r.pending = false) (inside : r.frames = ⟨.object, first⟩ :: frames) {key : String}
    (visible : dropBlanks r.rest
      = (if first then [] else [44]) ++ (utf8 (stringLiteral key) ++ 58 :: more))
    : r.nextKey
        = (some key,
          { r with rest := more, frames := ⟨.object, false⟩ :: frames, pending := true }) := by
  obtain ⟨bytes, quote⟩ := utf8_stringLiteral_cons key
  refine nextKey_of_begun sound idle inside ?_ ?_ (keyAndColon_append key more)
  · rw [visible, quote]
    cases first <;> (rintro ⟨⟩)
  · rw [visible]
    cases first <;> rfl

-----------------------------------------------------------------------------------------
-- Texts under texts
-----------------------------------------------------------------------------------------

/-- The members of the object of texts under texts. -/
def textFields (texts : List (String × String)) : List Field :=
  texts.map fun (key, text) => ⟨key, .string text⟩

/-- The entries of texts under texts, each in the value that holds it. -/
def textEntries (hold : String → Value) (texts : List (String × String)) : List Entry :=
  texts.map fun (key, text) => ⟨.string key, hold text⟩

/-- Texts under texts in ascending order of those that they stand under. -/
def textsByKey (texts : List (String × String)) : List (String × String) :=
  inKeyOrder (texts.map fun member => (.string member.1, member))

theorem byKey_textEntries (hold : String → Value) (texts : List (String × String))
    : byKey (textEntries hold texts) = textEntries hold (textsByKey texts) := by
  have values := inKeyOrder_map
    (fun member : String × String => (⟨.string member.1, hold member.2⟩ : Entry))
    (texts.map fun member => (.string member.1, member))
  rw [List.map_map] at values
  rw [byKey, textEntries, List.map_map]
  exact values

/-- A text as the value of a map. -/
def plainText (text : String) : Value :=
  .scalar (.string text)

/-- Texts that stand in order stay there. -/
theorem textsByKey_eq {texts : List (String × String)}
    (ordered : Ordered (.string none) (textEntries plainText texts))
    : textsByKey texts = texts := by
  have injective : Function.Injective fun member : String × String =>
      (⟨.string member.1, plainText member.2⟩ : Entry) := by
    rintro ⟨_, _⟩ ⟨_, _⟩ same
    cases same
    rfl
  have same := ordered.byKey_eq
  rw [byKey_textEntries] at same
  exact List.map_injective_iff.mpr injective same

/-- A text as a dynamic value. -/
def dynamicText (text : String) : Value :=
  .message (Tree.text text).message

/-- Entries are written as the members of an object, by induction on them. -/
theorem emits_textEntries {hold : String → Value} {write : List Entry → Bool → Writer → Writer}
    (none : ∀ behind w, write [] behind w = w)
    (next : ∀ key text es behind w, write (⟨.string key, hold text⟩ :: es) behind w
      = write es true (((w.commaIf behind).key key).string text))
    (texts : List (String × String)) (behind : Bool) (w : Writer)
    : Emits w (write (textEntries hold texts) behind w)
      (some (fieldsText behind (textFields texts))) := by
  induction texts generalizing behind w with
  | nil =>
      rw [textEntries, List.map_nil, none]
      exact emits_none behind w
  | cons member texts ih =>
      obtain ⟨key, text⟩ := member
      have first : Spells ((w.commaIf behind).key key) (((w.commaIf behind).key key).string text)
          (some (.string text)) := Emits.raw _ _
      have whole := Emits.field behind (some (textFields texts)) first (ih true _)
      rw [← next key text (textEntries hold texts) behind w] at whole
      exact whole

/-- The members of an object are read as the entries, by induction on them. -/
theorem takes_textFields {hold : String → Value}
    {step : String → List Entry → Reader → List Entry × Reader}
    (next : ∀ key text es,
      Takes slack limit (step key es) (.string text) path (insertEntry (.string key) (hold text) es)
        [])
    (texts : List (String × String)) (es : List Entry)
    : TakesFields slack limit step path (textFields texts) es
        (insertEntries es (textEntries hold texts)) [] := by
  induction texts generalizing es with
  | nil => exact .nil es
  | cons member texts ih =>
      obtain ⟨key, text⟩ := member
      exact .cons (next key text es) (ih _)

section

variable {m : Member} {texts : List (String × String)}

/-- A map of texts is written as their object, in the order of the keys. -/
theorem spells_textMap (any : AnyWriter)
    (shape : m.shape = .map (.string none) (.scalar (.string none)))
    (texts : List (String × String)) (w : Writer)
    : Spells w (writeSlot s any m (.entries (textEntries plainText texts)) w)
        (some (.object (textFields (textsByKey texts)))) := by
  have inside := @emits_textEntries plainText (writeEntries s any m.name (.scalar (.string none)))
    (fun _ _ => by rw [writeEntries])
    (fun key text es behind w => by rw [writeEntries, plainText, writeValue, writeScalar, keyText])
    (textsByKey texts) false w.beginObject
  rw [writeSlot]
  simp only [shape, writeEach_entryWriters, byKey_textEntries]
  exact spells_object (some (textFields (textsByKey texts))) inside

/-- The object of texts is read into an empty map. -/
theorem takes_textMap (shape : m.shape = .map (.string none) (.scalar (.string none)))
    (ordered : Ordered (.string none) (textEntries plainText texts))
    : Takes slack limit (readSlot s read m (.entries [])) (.object (textFields texts)) path
        (.entries (textEntries plainText texts)) [path.push m.name] := by
  have next (key text : String) (es : List Entry)
      : Takes slack limit (readEntry s read m.name (.string none) (.scalar (.string none)) key es)
          (.string text) path (insertEntry (.string key) (plainText text) es) [] := by
    have value : Reads (readScalar (.string none)) (.string text) (.string text) := by
      intro r more faces
      rw [readScalar, reads_string text r more faces]
      rfl
    have typed : (Scalar.string key).hasType (.string none) := rfl
    exact (value.takes.map Value.scalar).entry rfl typed es
  have inside := takes_textFields next texts []
  have whole := TakesFields.map inside shape
  rwa [show insertEntries [] (textEntries plainText texts) = textEntries plainText texts from
    ordered.sortEntries_eq rfl] at whole

/-- A struct of texts is written as their object. -/
theorem spells_textStruct (known : s.HasWellKnown) (any : AnyWriter)
    (texts : List (String × String)) (w : Writer)
    : Spells w (writeMessage s any structType ⟨[.entries (textEntries dynamicText texts)], []⟩ w)
        (some (.object (textFields texts))) := by
  have inside := @emits_textEntries dynamicText (writeFields s any)
    (fun _ _ => by rw [writeFields])
    (fun key text es behind w => by
      have own (w : Writer) : writeMessage s any valueType (Tree.text text).message w
        = w.string text := by
        rw [Tree.message, Tree.ofKind, writeMessage]
        rfl
      rw [writeFields, dynamicText, writeValue, keyText, type_value known]
      simp only [own]
      exact congrArg (writeFields s any es true) (Writer.withField_raw _ key _))
    texts false w.beginObject
  rw [writeMessage]
  exact spells_object (some (textFields texts)) inside

/-- Texts under texts as the fields of a dynamic struct. -/
def treeFields (texts : List (String × String)) : List TreeField :=
  texts.map fun (key, text) => ⟨key, .text text⟩

theorem treeFields_spec (texts : List (String × String))
    : Tree.fieldNodes (treeFields texts) = textFields texts
      ∧ Tree.fieldsLegible (treeFields texts) := by
  induction texts with
  | nil => exact ⟨rfl, trivial⟩
  | cons member texts ih =>
      obtain ⟨nodes, legible⟩ := ih
      exact ⟨congrArg (List.cons (⟨member.1, .string member.2⟩ : Field)) nodes, trivial, legible⟩

/-- The object of texts is read into an empty struct. -/
theorem takes_textStruct (lawful : s.Lawful) (known : s.HasWellKnown)
    (ordered : Ordered (.string none) (textEntries dynamicText texts))
    : Takes slack limit (readMessage s structType (s.empty structType.name))
      (.object (textFields texts))
        path ⟨[.entries (textEntries dynamicText texts)], []⟩ [] := by
  obtain ⟨nodes, legible⟩ := treeFields_spec texts
  have entries : Tree.fieldEntries (treeFields texts) = textEntries dynamicText texts := by
    rw [Tree.fieldEntries, treeFields, List.map_map]
    rfl
  have whole := @takes_structMessage s slack lawful known path _ legible (entries ▸ ordered) limit
  rwa [entries, nodes] at whole

end

/-- A text comes back from its literal, whatever bytes stand behind it: as a value, as the key of a
member, and as the keys and values of maps and structs, whose objects are read at any depth that
containers may have.
-/
theorem texts_return
    : (∀ text more, Scanner.string (utf8 (stringLiteral text) ++ more) = .ok text more)
      ∧ (∀ (w : Writer) text, w.fault = none
        → w.string text = { w with output := w.output ++ stringLiteral text }
          ∧ w.key text = { w with output := w.output ++ (stringLiteral text ++ ":") })
      ∧ (∀ (r : Reader) text more, r.fault = none
        → dropBlanks r.rest = utf8 (stringLiteral text) ++ more
        → r.string = (text, { r with rest := more, pending := false }))
      ∧ (∀ (r : Reader) first frames key more, r.fault = none → r.pending = false
        → r.frames = ⟨.object, first⟩ :: frames
        → dropBlanks r.rest
          = (if first then [] else [44]) ++ (utf8 (stringLiteral key) ++ 58 :: more)
        → r.nextKey = (some key,
            { r with rest := more, frames := ⟨.object, false⟩ :: frames, pending := true }))
      ∧ (∀ (s : Schema) any read (m : Member) texts,
        m.shape = .map (.string none) (.scalar (.string none))
        → let entries := textEntries plainText texts
          (∀ w, Spells w (writeSlot s any m (.entries entries) w)
            (some (.object (textFields (textsByKey texts)))))
          ∧ (Ordered (.string none) entries → textsByKey texts = texts ∧ ∀ limit path,
            Takes 0 limit (readSlot s read m (.entries [])) (.object (textFields texts)) path
              (.entries entries) [path.push m.name]))
      ∧ ∀ (s : Schema) any texts, s.Lawful → s.HasWellKnown
        → let entries := textEntries dynamicText texts
          (∀ w, Spells w (writeMessage s any structType ⟨[.entries entries], []⟩ w)
            (some (.object (textFields texts))))
          ∧ (Ordered (.string none) entries → ∀ limit path,
            Takes 0 limit (readMessage s structType (s.empty structType.name))
              (.object (textFields texts)) path ⟨[.entries entries], []⟩ []) := by
  refine ⟨string_stringLiteral, ?_, ?_, ?_, ?_, ?_⟩
  · intro w text sound
    exact ⟨w.raw_of_sound sound _, w.key_of_sound sound text⟩
  · intro r text more sound visible
    exact r.string_of_literal sound visible
  · intro r first frames key more sound idle inside visible
    exact r.nextKey_of_literal sound idle inside visible
  · intro s any read m texts shape
    exact ⟨spells_textMap any shape texts,
      fun ordered => ⟨textsByKey_eq ordered, fun _ _ => takes_textMap shape ordered⟩⟩
  · intro s any texts lawful known
    exact ⟨spells_textStruct known any texts,
      fun ordered _ _ => takes_textStruct lawful known ordered⟩

/-- A text of a quote, a backslash, a line break, a null character and a clef from beyond the first
plane, in front of another quote; and a map and a struct with such keys.
-/
theorem texts_return_clef
    : let text := "\"\\\n\x00𝄞"
      let texts := [("", text), (text, "\\")]
      let s := schemaWith []
      let m : Member := ⟨1, "names", "names", .map (.string none) (.scalar (.string none))⟩
      let w := Writer.ofConfig {} .empty
      let r := Reader.ofBytes (utf8 (stringLiteral text) ++ [34]) none
      let inner : Reader := { r with
        rest := 44 :: (utf8 (stringLiteral text) ++ [58, 34])
        frames := [⟨.object, false⟩] }
      Scanner.string (utf8 (stringLiteral text) ++ [34]) = .ok text [34]
      ∧ (w.string text).output = "\"\\\"\\\\\\n\\u0000𝄞\""
      ∧ r.string = (text, { r with rest := [34], pending := false })
      ∧ inner.nextKey = (some text,
        { inner with rest := [34], frames := [⟨.object, false⟩], pending := true })
      ∧ Takes 0 50 (readSlot s (fun _ m r => (m, r)) m (.entries []))
        (.object (textFields texts)) .root (.entries (textEntries plainText texts))
        [Path.root.push "names"]
      ∧ Takes 0 50 (readMessage s structType (s.empty structType.name))
        (.object (textFields texts)) .root
        ⟨[.entries (textEntries dynamicText texts)], []⟩ [] := by
  intro text texts s m w r inner
  have lawful : s.Lawful := lawful_types
  have ascending : Scalar.compareKeys (.string "") (.string text) = .lt := by decide +kernel
  have ordered (hold : String → Value) : Ordered (.string none) (textEntries hold texts) :=
    ⟨by simp [textEntries, texts, Scalar.hasType, withinCapacity],
      by simpa [textEntries, texts, Entry.Before] using ascending⟩
  obtain ⟨scanned, written, read, keyed, map, struct⟩ := texts_return
  refine ⟨scanned text [34], ?_, ?_, ?_, ?_, ?_⟩
  · rw [(written w text rfl).1]
    decide +kernel
  · exact read r text [34] rfl (by decide +kernel)
  · exact keyed inner false [] text [34] rfl rfl rfl (by decide +kernel)
  · exact ((map s (writeAny s) (fun _ m r => (m, r)) m texts rfl).2 (ordered plainText)).2 50 .root
  · exact (struct s (writeAny s) texts lawful (hasWellKnown lawful)).2
      (ordered dynamicText) 50 .root

-----------------------------------------------------------------------------------------
-- Bytes
-----------------------------------------------------------------------------------------

/-- A string is read in the place of a value of any type, or there is a fault. -/
theorem Reader.stringAs_cases (sound : r.fault = none)
    : (∃ text r', r'.fault = none ∧ ∀ type, r.stringAs type = (some text, r'))
      ∨ ∀ type, ∃ r', r'.fault ≠ none ∧ r.stringAs type = (none, r') := by
  have latched (r : Reader) (cause : Cause) : (r.latch cause).fault ≠ none :=
    Option.isSome_iff_ne_none.mp (isSome_latch r cause)
  simp only [stringAs, sound, peekKind_beginValue sound]
  generalize r.beginValue.rest.head?.bind ValueKind.ofByte? = kind
  by_cases string : kind = some .string
  · subst string
    simp only [scan]
    cases Scanner.string r.beginValue.rest with
    | ok text rest => exact .inl ⟨text, { r.beginValue with rest }, sound, fun _ => rfl⟩
    | error fault rest => exact .inr fun _ => ⟨_, latched _ _, rfl⟩
  · refine .inr fun type => ⟨_, latched r.beginValue (.invalidValueType type), ?_⟩
    split
    · rename_i same
      exact absurd (congrArg Prod.fst same) string
    · rename_i same
      cases same
      rfl

/-- Bytes are read where a text is read that spells them. -/
theorem Reader.bytes_eq_iff {v : List UInt8} {r' : Reader} (sound : r.fault = none)
    : r.bytes = (v, r') ∧ r'.fault = none
        ↔ ∃ text, (r.string = (text, r') ∧ r'.fault = none) ∧ ofBase64? text = some v := by
  rcases r.stringAs_cases sound with ⟨text, behind, calm, read⟩ | failed
  · have textual : r.string = (text, behind) := by simp only [string, read, Option.getD_some]
    have spelling : r.bytes
      = (ofBase64? text).elim (behind.refuse "bytes" .notBase64 []) (·, behind) := by
      simp only [bytes, read]
      cases ofBase64? text <;> rfl
    rw [textual]
    constructor
    · rintro ⟨same, calm'⟩
      rw [spelling] at same
      cases spelled : ofBase64? text with
      | none =>
          rw [spelled] at same
          obtain rfl := congrArg Prod.snd same
          exact absurd calm' (Option.isSome_iff_ne_none.mp (isSome_latch behind _))
      | some bytes =>
          rw [spelled] at same
          cases same
          exact ⟨text, ⟨rfl, calm⟩, spelled⟩
    · rintro ⟨_, ⟨same, calm'⟩, spelled⟩
      cases same
      rw [spelling, spelled]
      exact ⟨rfl, calm⟩
  · obtain ⟨own, fault, read⟩ := failed "bytes"
    obtain ⟨other, fault', read'⟩ := failed "string"
    simp only [bytes, string, read, read', Prod.mk.injEq]
    constructor
    · rintro ⟨⟨-, rfl⟩, calm⟩
      exact absurd calm fault
    · rintro ⟨text, ⟨⟨-, rfl⟩, calm⟩, -⟩
      exact absurd calm fault'

/-- Bytes come back from each of their four spellings, one of which is what was written for them;
and where bytes are read there is a text whose padding and alphabet apart it is their unpadded
spelling in the standard alphabet.
-/
theorem bytes_return
    : (∀ (r : Reader) more, ∀ alphabet ∈ [base64Alphabet, urlAlphabet], ∀ padded v, r.fault = none
        → dropBlanks r.rest
          = utf8 (stringLiteral (String.ofList (spelling alphabet padded v))) ++ more
        → r.bytes = (v, { r with rest := more, pending := false }))
      ∧ (∀ (w : Writer) v, w.fault = none
        → w.bytes v = { w with
            output := w.output ++ stringLiteral (String.ofList (spelling base64Alphabet true v)) })
      ∧ ∀ (r r' : Reader) v, r.fault = none
        → (r.bytes = (v, r') ∧ r'.fault = none
          ↔ ∃ text, (r.string = (text, r') ∧ r'.fault = none)
            ∧ (text.toList.rdropWhile (· == '=')).map
                (fun c => if c = '-' then '+' else if c = '_' then '/' else c)
              = spelling base64Alphabet false v) := by
  refine ⟨?_, ?_, ?_⟩
  · intro r more alphabet known padded v sound visible
    have read := r.string_of_literal sound visible
    exact ((Reader.bytes_eq_iff sound).mpr ⟨_, ⟨read, sound⟩, ofBase64?_spelling known padded v⟩).1
  · intro w v sound
    rw [Writer.bytes, Writer.plainQuoted, ← stringLiteral_of_plain (isPlain_base64 v),
      w.raw_of_sound sound, base64_eq_spelling]
  · intro r r' v sound
    rw [Reader.bytes_eq_iff sound]
    exact exists_congr fun text => and_congr_right fun _ => ofBase64?_eq_some_iff

/-- Two bytes are read in the alphabet for addresses and without padding, in which they are not
written.
-/
theorem bytes_return_pair
    : let r := Reader.ofBytes (utf8 "\"-_8\"") none
      let r' := { r with rest := [], pending := false }
      let w := Writer.ofConfig {} .empty
      r.bytes = ([251, 255], r')
      ∧ (w.bytes [251, 255]).output = "\"+/8=\""
      ∧ ∃ text, (r.string = (text, r') ∧ r'.fault = none)
        ∧ (text.toList.rdropWhile (· == '=')).map
            (fun c => if c = '-' then '+' else if c = '_' then '/' else c)
          = spelling base64Alphabet false [251, 255] := by
  intro r r' w
  obtain ⟨returned, written, spelled⟩ := bytes_return
  have read : r.bytes = ([251, 255], r') :=
    returned r [] urlAlphabet (by simp) false [251, 255] rfl (by decide +kernel)
  refine ⟨read, ?_, (spelled r r' [251, 255] rfl).mp ⟨read, rfl⟩⟩
  rw [written w [251, 255] rfl]
  decide +kernel

end Protobuf.Json
