import Protobuf.Proofs.Json.Tree
import Protobuf.Proofs.Message.Known
import Protobuf.Proofs.Message.Sources

/-! The writer spells out trees.  Every step of the writer appends a text to the document or fails,
and what it appends for a message is the text of the tree of the message.
-/

namespace Protobuf

-----------------------------------------------------------------------------------------
-- Types with a JSON form
-----------------------------------------------------------------------------------------

/-- A value of the type may be the kind of a `Value`. -/
def ValueType.isKind : ValueType → Bool
  | .scalar (.enumeration _) | .scalar .double | .scalar (.string _) | .scalar .bool => true
  | .scalar _ => false
  | .message _ => true

/-- The members of a type have the shapes that its JSON form is written from. -/
inductive JsonForm.Suits : JsonForm → List Shape → Prop
  | members {shapes : List Shape} : Suits .members shapes
  | filler {shapes : List Shape} : Suits .filler shapes
  | bare {type : ScalarType} : Suits .bare [.single (.scalar type)]
  | wrapper {type : ScalarType} : Suits .wrapper [.single (.scalar type)]
  | timestamp : Suits .timestamp [.single (.scalar .int64), .single (.scalar .int32)]
  | duration : Suits .duration [.single (.scalar .int64), .single (.scalar .int32)]
  | fieldMask : Suits .fieldMask [.repeated (.scalar (.string none)) false none]
  | struct : Suits .struct [.map (.string none) (.message "google.protobuf.Value")]
  | value {alternatives : List Alternative} (kinds : ∀ a ∈ alternatives, a.type.isKind)
    : Suits .value [.oneof alternatives]
  | listValue : Suits .listValue [.repeated (.message "google.protobuf.Value") false none]
  | any : Suits .any [.single (.scalar (.string none)), .single (.scalar (.bytes none))]

/-- Messages of the type have a JSON form. -/
def MessageType.HasJson (t : MessageType) : Prop :=
  t.form.Suits (t.members.map (·.shape))

/-- Messages of all types have a JSON form. -/
def Schema.HasJson (s : Schema) : Prop :=
  ∀ t ∈ s.types, t.HasJson

theorem Schema.HasJson.type {s : Schema} (h : s.HasJson) (name : String)
    : (s.type name).HasJson := by
  unfold Schema.type
  cases found : s.types.find? fun t => t.name == name with
  | none => exact .members
  | some t => exact h t (List.mem_of_find?_eq_some found)

namespace Json

open FieldMask Number

-----------------------------------------------------------------------------------------
-- Steps of the writer
-----------------------------------------------------------------------------------------

/-- The writer appends the text, or fails if there is none; after a fault it does nothing. -/
def Emits (w w' : Writer) (text? : Option String) : Prop :=
  match w.fault, text? with
  | some _, _ => w' = w
  | none, some text => w' = { w with output := w.output ++ text }
  | none, none => ∃ fault output, w' = { w with fault := some fault, output }

/-- How and where the writer writes. -/
def Writer.At (w : Writer) (config : Config) (mask : PathSet) (path : Path) : Prop :=
  w.config = config ∧ w.mask = mask ∧ w.path = path

namespace Emits

variable {w w₁ w₂ : Writer} {a b : Option String} {config : Config} {mask : PathSet} {path : Path}

/-- Writing nothing emits nothing. -/
theorem nothing (w : Writer)
    : Emits w w (some "") := by
  unfold Emits
  cases fault : w.fault with
  | some fault => rfl
  | none => simp [← fault]

/-- Raw text is emitted as it stands, unless the writer has failed. -/
theorem raw (w : Writer) (text : String)
    : Emits w (w.raw text) (some text) := by
  unfold Emits Writer.raw
  cases w.fault <;> rfl

/-- A writer that fails emits nothing any more. -/
theorem latch (w : Writer) (cause : Cause)
    : Emits w (w.latch cause) none := by
  unfold Emits Writer.latch
  cases w.fault with
  | some fault => rfl
  | none => exact ⟨_, _, rfl⟩

/-- Nothing but the fault and the document changes. -/
theorem at_ (h : Emits w w₁ a) (place : w.At config mask path)
    : w₁.At config mask path := by
  unfold Emits at h
  split at h
  · exact h ▸ place
  · exact h ▸ place
  · obtain ⟨_, _, rfl⟩ := h
    exact place

/-- One step after the other appends both texts. -/
theorem append (first : Emits w w₁ a) (second : Emits w₁ w₂ b)
    : Emits w w₂ (a.bind fun a => b.map (a ++ ·)) := by
  unfold Emits at first second ⊢
  cases fault : w.fault with
  | some e =>
      simp only [fault] at first
      subst first
      simpa only [fault] using second
  | none =>
      cases a with
      | none =>
          simp only [fault] at first
          obtain ⟨e, output, rfl⟩ := first
          simp only at second
          subst second
          exact ⟨e, output, rfl⟩
      | some a =>
          simp only [fault] at first
          subst first
          simp only at second
          cases b with
          | some b =>
              simp only at second
              subst second
              simp [String.append_assoc]
          | none =>
              obtain ⟨e, output, rfl⟩ := second
              exact ⟨e, output, rfl⟩

/-- Texts in front of what is appended and behind it. -/
theorem enclose (before behind : String) (h : Emits (w.raw before) w₁ a)
    : Emits w (w₁.raw behind) (a.map fun a => before ++ a ++ behind) := by
  have whole := ((raw w before).append h).append (raw w₁ behind)
  cases a <;> simpa using whole

end Emits

-----------------------------------------------------------------------------------------
-- Scalars
-----------------------------------------------------------------------------------------

variable {w w₁ w₂ : Writer} {config : Config} {mask : PathSet} {path : Path}

/-- What the writer appends is the text of the tree. -/
abbrev Spells (w w' : Writer) (n? : Option Node) : Prop :=
  Emits w w' (n?.map Node.text)

/-- Plain text in quotes spells a string. -/
theorem spells_plainQuoted (w : Writer) {text : String} (plain : IsPlain text.toList)
    : Spells w (w.plainQuoted text) (some (.string text)) := by
  have same : (Node.string text).text = "\"" ++ text ++ "\"" := stringLiteral_of_plain plain
  rw [Spells, Option.map_some, same]
  exact .raw w _

/-- A floating point number spells a number, or the name of one that is not finite. -/
theorem spells_floating (w : Writer) (f : Format) (bits : Nat)
    : Spells w (w.floating f bits) (some (floatNode f bits)) := by
  unfold Writer.floating floatNode
  split
  · rename_i text special
    split
    · rename_i text' same
      cases special.symm.trans same
      exact spells_plainQuoted w (isPlain_specialText special)
    · rename_i finite
      cases special.symm.trans finite
  · rename_i finite
    split
    · rename_i text special
      cases finite.symm.trans special
    · have same (legal : IsNumeral (floatText f bits).toList)
          : (Node.number ⟨_, legal⟩).text = floatText f bits := String.ofList_toList
      rw [Spells, Option.map_some, same]
      exact .raw w _

/-- The numeral of an integer spells a number. -/
theorem spells_int (w : Writer) (n : Int)
    : Spells w (w.raw (toString n)) (some (.number (.ofInt n))) := by
  have same : (Node.number (.ofInt n)).text = toString n := String.ofList_toList
  rw [Spells, Option.map_some, same]
  exact .raw w _

theorem spells_nat (w : Writer) (n : Nat)
    : Spells w (w.raw (toString n)) (some (.number (.ofNat n))) := by
  have same : (Node.number (.ofNat n)).text = toString n := String.ofList_toList
  rw [Spells, Option.map_some, same]
  exact .raw w _

/-- A value of an enumeration spells its name or its number. -/
theorem spells_enumeration (e : EnumType) (v : Int32) (place : w.At config mask path)
    : Spells w (w.enumeration [e.nameTable] v) (some (enumNode config e v)) := by
  unfold Writer.enumeration enumNode
  rw [place.1]
  split
  · exact spells_int w v.toInt
  · cases nameInTables [e.nameTable] v with
    | some name => exact .raw w _
    | none => exact spells_int w v.toInt

/-- A scalar is written by its kind, but for the numbers of an enumeration. -/
theorem spells_scalar (type : ScalarType) (v : Scalar) (place : w.At config mask path)
    : Spells w (writeScalar type v w) (some (scalarNode config type v)) := by
  cases v with
  | int32 v =>
      cases type with
      | enumeration e => exact spells_enumeration e v place
      | _ => exact spells_int w v.toInt
  | int64 v => cases type <;> exact spells_plainQuoted w (isPlain_int v.toInt)
  | uint32 v => cases type <;> exact spells_nat w v.toNat
  | uint64 v => cases type <;> exact spells_plainQuoted w (isPlain_nat v.toNat)
  | bool v => cases type <;> exact .raw w _
  | float bits => cases type <;> exact spells_floating w single bits.toNat
  | double bits => cases type <;> exact spells_floating w double bits.toNat
  | string v => cases type <;> exact .raw w _
  | bytes v => cases type <;> exact spells_plainQuoted w (isPlain_base64 v)

-----------------------------------------------------------------------------------------
-- Items and members
-----------------------------------------------------------------------------------------

/-- A comma stands between the parts of a container. -/
theorem Emits.commaIf (w : Writer) (behind : Bool)
    : Emits w (w.commaIf behind) (some (if behind then "," else "")) := by
  cases behind with
  | true => exact .raw w _
  | false => exact .nothing w

/-- A key is emitted as a string literal with a colon. -/
theorem Emits.key (w : Writer) (name : String)
    : Emits w (w.key name) (some (stringLiteral name ++ ":")) :=
  (raw w (stringLiteral name)).append (raw _ ":")

/-- Nothing is written for no members, and neither for no items. -/
theorem emits_none (behind : Bool) (w : Writer)
    : Emits w w (some (fieldsText behind [])) := by
  have text : fieldsText behind [] = "" := by cases behind <;> rfl
  rw [text]
  exact .nothing w

/-- A member of an object and those behind it. -/
theorem Emits.field {n? : Option Node} {key : String} (behind : Bool)
    (others? : Option (List Field)) (value : Spells ((w.commaIf behind).key key) w₁ n?)
    (others : Emits w₁ w₂ (others?.map (fieldsText true)))
    : Emits w w₂ (Option.map (fieldsText behind) (do
        let n ← n?
        let others ← others?
        return ⟨key, n⟩ :: others)) := by
  have whole := (((commaIf w behind).append (.key _ key)).append value).append others
  cases n? with
  | none => simpa using whole
  | some n =>
      cases others? with
      | none => simpa using whole
      | some others => simpa [fieldsText, String.append_assoc] using whole

/-- An item of an array and those behind it. -/
theorem Emits.item {n? : Option Node} {others? : Option (List Node)} {behind : Bool}
    (value : Spells (w.commaIf behind) w₁ n?)
    (others : Emits w₁ w₂ (others?.map (itemsText true)))
    : Emits w w₂ (Option.map (itemsText behind) (do
        let n ← n?
        let others ← others?
        return n :: others)) := by
  have whole := ((commaIf w behind).append value).append others
  cases n? with
  | none => simpa using whole
  | some n =>
      cases others? with
      | none => simpa using whole
      | some others => simpa [itemsText, String.append_assoc] using whole

/-- Braces around members spell an object. -/
theorem spells_object (fields? : Option (List Field))
    (h : Emits w.beginObject w₁ (fields?.map (fieldsText false)))
    : Spells w w₁.endObject (fields?.map .object) := by
  have whole := Emits.enclose "\x7b" "\x7d" h
  cases fields? <;> exact whole

/-- Brackets around items spell an array. -/
theorem spells_array (items? : Option (List Node))
    (h : Emits w.beginArray w₁ (items?.map (itemsText false)))
    : Spells w w₁.endArray (items?.map .array) := by
  have whole := Emits.enclose "[" "]" h
  cases items? <;> exact whole

/-- Strings with commas between them, by induction on them. -/
theorem emits_separated (w : Writer) (texts : List String)
    : Emits w (Writer.separated (fun text w => w.string text) w texts)
        (some (itemsText false (texts.map .string))) := by
  induction texts generalizing w with
  | nil => exact .nothing w
  | cons text texts ih =>
      cases texts with
      | nil =>
          have same : itemsText false [.string text] = stringLiteral text := by
            simp [itemsText, Node.text]
          simp only [List.map_cons, List.map_nil, same]
          exact .raw w _
      | cons next texts =>
          have same : itemsText false ((text :: next :: texts).map .string)
              = stringLiteral text ++ "," ++ itemsText false ((next :: texts).map .string) := by
            simp [itemsText, Node.text, String.append_assoc]
          rw [same]
          exact ((Emits.raw w (stringLiteral text)).append (.raw _ ",")).append (ih _)

/-- A field mask spells a string of paths, or an object with their list. -/
theorem spells_fieldMask (paths : List String) (place : w.At config mask path)
    : Spells w (w.fieldMask paths) (fieldMaskNode config paths) := by
  unfold Writer.fieldMask fieldMaskNode
  rw [place.1]
  split
  · have items := spells_array (some (paths.map .string))
      (emits_separated (w.beginObject.key "paths").beginArray paths)
    exact spells_object (some _) (Emits.field false (some [])
      items (.nothing _))
  · cases paths.mapM toCamelCase with
    | ok camel => exact .raw w _
    | error e => exact .latch w _

/-- A point or span of time spells a string, if it is in range. -/
theorem spells_time (type : String) {text : Except Time.TimeError String}
    (plain : ∀ t, text = .ok t → IsPlain t.toList)
    : Spells w (w.timeText type text) (timeNode text) := by
  cases text with
  | ok text => exact spells_plainQuoted w (plain text rfl)
  | error e => exact .latch w _

-----------------------------------------------------------------------------------------
-- Messages that hold only scalars
-----------------------------------------------------------------------------------------

variable {s : Schema} {t : MessageType} {any : AnyWriter} {tree : AnyTree} {P : Scalar → Prop}

/-- What is written for an `Any` is the text of its tree, if its scalars have the property. -/
def SpellsAny (config : Config) (mask : PathSet) (P : Scalar → Prop) (any : AnyWriter)
    (tree : AnyTree) : Prop :=
  ∀ url payload w path, P (.string url) → P (.bytes payload) → w.At config mask path
    → Spells w (any url payload w) (tree path url payload)

/-- The scalar of a dynamic value spells a number, a string, a boolean or null. -/
theorem spells_dynamic {type : ScalarType} {v : Scalar} (typed : v.hasType type)
    (kind : (ValueType.scalar type).isKind)
    : Spells w (writeDynamic v w) (dynamicNode v) := by
  cases v with
  | int32 v => exact .raw w _
  | double bits =>
      cases special : specialText (double.value bits.toNat) with
      | none =>
          simp only [writeDynamic, dynamicNode, special]
          exact spells_floating w double bits.toNat
      | some text =>
          simp only [writeDynamic, dynamicNode, special]
          exact .latch w _
  | string v => exact .raw w _
  | bool v => exact .raw w _
  | int64 _ | uint32 _ | uint64 _ | float _ | bytes _ =>
      cases type <;> simp [ValueType.isKind, Scalar.hasType] at kind typed

/-- The type of the only member is the type of the scalar. -/
theorem soleType_of_shapes {type : ScalarType} {m : Member}
    (members : t.members = [m]) (shape : m.shape = .single (.scalar type))
    : soleType t = some type := by
  simp only [soleType, members, shape]

/-- A message that is written as its only scalar, whether objects are read for it or not. -/
theorem spells_sole {slots : List Slot} {type : ScalarType}
    (form : t.form = .bare ∨ t.form = .wrapper)
    (shapes : t.members.map (·.shape) = [.single (.scalar type)])
    (typed : slotsConform s t.members (slotsKnown slots)) (place : w.At config mask path)
    : Spells w (writeScalarForm any t slots w) (scalarFormNode config tree path t slots) := by
  obtain ⟨m, members, shape⟩ := List.map_eq_singleton_iff.mp shapes
  rw [members] at typed
  obtain ⟨slot, others, rfl, one, none⟩ := slotsKnown_cons typed
  obtain ⟨v, rfl, known⟩ := Slot.one_of_known one shape
  obtain ⟨v, rfl, -⟩ := scalar_of_known known
  cases slotsKnown_nil none
  have sole := soleType_of_shapes members shape
  rcases form with form | form <;>
    simpa only [writeScalarForm, scalarFormNode, form, sole, Option.map_some]
      using spells_scalar type v place

/-- The two scalars of a message of two members without presence. -/
theorem scalars_of_pair {slots : List Slot} {first second : ScalarType}
    (shapes : t.members.map (·.shape) = [.single (.scalar first), .single (.scalar second)])
    (typed : slotsConform s t.members (slotsKnown slots))
    : ∃ v w, slots = [.one (.scalar v), .one (.scalar w)] ∧ v.hasType first
        ∧ w.hasType second := by
  obtain ⟨m, others, members, shape, rest⟩ := List.map_eq_cons_iff.mp shapes
  obtain ⟨n, rfl, shape'⟩ := List.map_eq_singleton_iff.mp rest
  rw [members] at typed
  obtain ⟨slot, slots, rfl, one, typed⟩ := slotsKnown_cons typed
  obtain ⟨slot', slots, rfl, one', none⟩ := slotsKnown_cons typed
  obtain ⟨v, rfl, known⟩ := Slot.one_of_known one shape
  obtain ⟨v, rfl, isFirst⟩ := scalar_of_known known
  obtain ⟨w, rfl, known'⟩ := Slot.one_of_known one' shape'
  obtain ⟨w, rfl, isSecond⟩ := scalar_of_known known'
  cases slotsKnown_nil none
  exact ⟨v, w, rfl, isFirst, isSecond⟩

/-- A message that holds only scalars, by cases on the form of its type. -/
theorem spells_scalarForm {slots : List Slot} (anySpells : SpellsAny config mask P any tree)
    (json : t.HasJson) (flat : t.form ∉ [.members, .struct, .value, .listValue])
    (typed : slotsConform s t.members (slotsKnown slots)) (all : slotsAll P slots)
    (place : w.At config mask path)
    : Spells w (writeScalarForm any t slots w) (scalarFormNode config tree path t slots) := by
  unfold MessageType.HasJson at json
  generalize form : t.form = f at json flat
  generalize shapes : t.members.map (·.shape) = shape at json
  cases json with
  | members | struct | value | listValue => simp at flat
  | bare => exact spells_sole (.inl form) shapes typed place
  | wrapper => exact spells_sole (.inr form) shapes typed place
  | filler =>
      simp only [writeScalarForm, scalarFormNode, form]
      exact spells_object (some []) (.nothing _)
  | timestamp =>
      obtain ⟨v, u, rfl, seconds, nanos⟩ := scalars_of_pair shapes typed
      cases v <;> cases seconds
      cases u <;> cases nanos
      simp only [writeScalarForm, scalarFormNode, form]
      exact spells_time "timestamp" fun _ => isPlain_timestamp
  | duration =>
      obtain ⟨v, u, rfl, seconds, nanos⟩ := scalars_of_pair shapes typed
      cases v <;> cases seconds
      cases u <;> cases nanos
      simp only [writeScalarForm, scalarFormNode, form]
      exact spells_time "duration" fun _ => isPlain_duration
  | fieldMask =>
      obtain ⟨m, members, shape⟩ := List.map_eq_singleton_iff.mp shapes
      rw [members] at typed
      obtain ⟨slot, others, rfl, many, none⟩ := slotsKnown_cons typed
      obtain ⟨vs, rfl, -⟩ := Slot.many_of_known many shape
      cases slotsKnown_nil none
      simp only [writeScalarForm, scalarFormNode, form]
      exact spells_fieldMask _ place
  | any =>
      obtain ⟨v, u, rfl, url, payload⟩ := scalars_of_pair shapes typed
      cases v <;> cases url
      cases u <;> cases payload
      simp only [writeScalarForm, scalarFormNode, form]
      exact anySpells _ _ _ _ all.1 all.2.1 place

-----------------------------------------------------------------------------------------
-- Messages
-----------------------------------------------------------------------------------------

/-- What is emitted for a field is emitted under its path. -/
theorem Emits.withField {field : String} {write : Writer → Writer} {text? : Option String}
    (h : Emits { w with path := w.path.push field } (write { w with path := w.path.push field })
      text?)
    : Emits w (w.withField field write) text? := by
  unfold Emits at h ⊢
  unfold Writer.withField
  simp only at h ⊢
  split at h
  · simp only [h]
  · simp only [h]
  · obtain ⟨fault, output, same⟩ := h
    simp only [same]
    exact ⟨fault, output, rfl⟩

/-- A scalar of a singular member spells its value. -/
theorem spells_singular (type : ScalarType) (v : Scalar) (place : w.At config mask path)
    : Spells w (writeSingular type v w) (some (singularNode config type v)) := by
  cases v with
  | bytes bytes =>
      cases bytes with
      | nil => exact .raw w _
      | cons b bytes => exact spells_scalar type (.bytes (b :: bytes)) place
  | int32 _ | int64 _ | uint32 _ | uint64 _ | bool _ | float _ | double _ | string _ =>
      exact spells_scalar type _ place

/-- The alternative that a number leads to is one of the choice. -/
theorem mem_of_alternative {m : Member} {tag : Nat} {a : Alternative}
    {alternatives : List Alternative} (shape : m.shape = .oneof alternatives)
    (found : m.alternative? tag = some a)
    : a ∈ alternatives := by
  simp only [Member.alternative?, shape] at found
  exact List.mem_of_find?_eq_some found

/-- The key of a member is its name or its JSON name, as the configuration says. -/
theorem memberKey_eq (place : w.At config mask path) (name jsonName : String) (behind : Bool)
    : (w.commaIf behind).memberKey name jsonName
        = (w.commaIf behind).key (config.nameOf name jsonName) := by
  have place' := (Emits.commaIf w behind).at_ place
  rw [Writer.memberKey, place'.1, Config.nameOf]

/-- Writing a key keeps the place. -/
theorem at_key (place : w.At config mask path) (behind : Bool) (name : String)
    : ((w.commaIf behind).key name).At config mask path :=
  (Emits.key _ name).at_ ((Emits.commaIf w behind).at_ place)

/-- The mask names a field if it names its path. -/
theorem hasField_eq (place : w.At config mask path) (field : String)
    : w.hasField field = names mask path field := by
  rw [Writer.hasField, names, place.2.1, place.2.2]

mutual

/-- A value spells its JSON value. -/
theorem spells_value (json : s.HasJson) (anySpells : SpellsAny config mask P any tree)
    (field : String) {type : ValueType} {w : Writer} {path : Path} (v : Value)
    (typed : v.known.Conforms s type) (all : v.All P) (place : w.At config mask path)
    : Spells w (writeValue s any field type v w)
        (valueNode s config tree mask path field type v) := by
  cases v with
  | scalar v =>
      cases type with
      | scalar type => exact spells_scalar type v place
      | message name => exact typed.elim
  | message m =>
      cases type with
      | scalar type => exact typed.elim
      | message name =>
          simp only [writeValue, valueNode]
          refine Emits.withField (spells_message json anySpells m (json.type name) typed all ?_)
          exact ⟨place.1, place.2.1, by rw [place.2.2]⟩

/-- The writer spells out the tree of a message, by induction on it; each form of JSON has its own
part of the writer.
-/
theorem spells_message (json : s.HasJson) (anySpells : SpellsAny config mask P any tree)
    {t : MessageType} {w : Writer} {path : Path} (m : Message)
    (form : t.HasJson) (typed : m.Typed s t) (all : m.All P) (place : w.At config mask path)
    : Spells w (writeMessage s any t m w) (messageNode s config tree mask path t m) := by
  cases m with
  | mk slots unknown =>
      have typed : slotsConform s t.members (slotsKnown slots) := typed.1
      have flat (other : t.form ∉ [.members, .struct, .value, .listValue])
          := spells_scalarForm anySpells form other typed all place
      unfold MessageType.HasJson at form
      generalize shapes : t.members.map (·.shape) = shape at form
      simp only [writeMessage, messageNode]
      cases kind : t.form with
      | members =>
          exact spells_object _
            (emits_members json anySpells false slots typed all ((Emits.raw w _).at_ place))
      | struct =>
          rw [kind] at form
          cases form
          exact spells_struct json anySpells slots shapes typed all place
      | value =>
          rw [kind] at form
          cases form with
          | value kinds => exact spells_kind json anySpells slots shapes kinds typed all place
      | listValue =>
          rw [kind] at form
          cases form
          exact spells_list json anySpells slots shapes typed all place
      | bare | wrapper | timestamp | duration | fieldMask | any | filler =>
          exact flat (by rw [kind]; decide)

/-- The members that are shown are emitted one after the other. -/
theorem emits_members (json : s.HasJson) (anySpells : SpellsAny config mask P any tree)
    {members : List Member} (behind : Bool) {w : Writer} {path : Path}
    (slots : List Slot) (typed : slotsConform s members (slotsKnown slots))
    (all : slotsAll P slots) (place : w.At config mask path)
    : Emits w (writeMembers s any members slots behind w)
        ((memberFields s config tree mask path members slots).map (fieldsText behind)) := by
  cases slots with
  | nil =>
      exact emits_none behind w
  | cons slot slots =>
      cases members with
      | nil => exact typed.elim
      | cons m members =>
          obtain ⟨own, behindIt⟩ := typed
          obtain ⟨allOwn, allBehind⟩ := all
          cases shape : m.shape with
          | oneof alternatives =>
              simp only [writeMembers, memberFields, shape]
              cases slot with
              | none =>
                  simp only [writeChoice, choiceFields, Slot.isSet, Bool.or_false]
                  simpa using emits_members json anySpells behind slots behindIt allBehind place
              | one _ | many _ | entries _ => simp only [Slot.known, Slot.Conforms, shape] at own
              | choice tag v =>
                  simp only [Slot.known, Slot.Conforms] at own
                  cases found : m.alternative? tag with
                  | none => simp only [found] at own
                  | some a =>
                      simp only [found] at own
                      simp only [writeChoice, choiceFields, Slot.isSet, Bool.or_true, found,
                        memberKey_eq place]
                      have value := spells_value json anySpells a.name v own allOwn
                        (at_key place behind (config.nameOf a.name a.jsonName))
                      have others := emits_members json anySpells true slots behindIt allBehind
                        (value.at_ (at_key place behind _))
                      have whole := Emits.field behind _ value others
                      simpa only [bind_assoc, pure_bind, List.singleton_append] using whole
          | single _ | optional _ | repeated _ _ _ | map _ _ =>
              simp only [writeMembers, memberFields, shape, hasField_eq place]
              split
              · rw [memberKey_eq place]
                have value := spells_slot json anySpells slot (by simp [shape]) own allOwn
                  (at_key place behind (config.nameOf m.name m.jsonName))
                have others := emits_members json anySpells true slots behindIt allBehind
                  (value.at_ (at_key place behind _))
                exact Emits.field behind _ value others
              · exact emits_members json anySpells behind slots behindIt allBehind place

/-- A member spells what is stored in its slot. -/
theorem spells_slot (json : s.HasJson) (anySpells : SpellsAny config mask P any tree)
    {m : Member} {w : Writer} {path : Path} (slot : Slot)
    (alone : ∀ alternatives, m.shape ≠ .oneof alternatives) (typed : slot.known.Conforms s m)
    (all : slot.All P) (place : w.At config mask path)
    : Spells w (writeSlot s any m slot w) (slotNode s config tree mask path m slot) := by
  cases slot with
  | none => exact .raw w _
  | one v =>
      simp only [Slot.known, Slot.Conforms] at typed
      cases shape : m.shape with
      | single type =>
          simp only [shape] at typed
          cases type with
          | scalar type =>
              cases v with
              | scalar v =>
                  unfold writeSlot slotNode
                  rw [shape]
                  exact spells_singular type v place
              | message m => exact typed.elim
          | message name =>
              have written := spells_value json anySpells m.name v typed all place
              unfold writeSlot slotNode
              rw [shape]
              cases v <;> exact written
      | optional type =>
          simp only [shape] at typed
          have written := spells_value json anySpells m.name v typed all place
          unfold writeSlot slotNode
          rw [shape]
          exact written
      | repeated _ _ _ | map _ _ | oneof _ => simp only [shape] at typed
  | many vs =>
      simp only [Slot.known, Slot.Conforms] at typed
      cases shape : m.shape with
      | repeated type packed capacity =>
          simp only [shape] at typed
          unfold writeSlot slotNode
          rw [shape]
          exact spells_array _
            (emits_elements json anySpells m.name false vs typed all ((Emits.raw w _).at_ place))
      | single _ | optional _ | map _ _ | oneof _ => simp only [shape] at typed
  | entries es =>
      simp only [Slot.known, Slot.Conforms] at typed
      cases shape : m.shape with
      | map key value =>
          simp only [shape] at typed
          have ordered := ordered_entriesKnown.mp typed.1
          rw [writeSlot_entries shape ordered, slotNode_entries shape ordered]
          exact spells_object _
            (emits_entries json anySpells m.name false es typed.2 all ((Emits.raw w _).at_ place))
      | single _ | optional _ | repeated _ _ _ | oneof _ => simp only [shape] at typed
  | choice tag v =>
      simp only [Slot.known, Slot.Conforms] at typed
      cases found : m.alternative? tag with
      | none => simp only [found] at typed
      | some a => exact absurd (Member.shape_of_alternative found).choose_spec (alone _)

/-- The elements of a list are emitted one after the other. -/
theorem emits_elements (json : s.HasJson) (anySpells : SpellsAny config mask P any tree)
    (field : String) {type : ValueType} (behind : Bool) {w : Writer}
    {path : Path} (vs : List Value) (typed : elementsConform s type (elementsKnown vs))
    (all : elementsAll P vs) (place : w.At config mask path)
    : Emits w (writeElements s any field type vs behind w)
        ((elementNodes s config tree mask path field type vs).map (itemsText behind)) := by
  cases vs with
  | nil => exact emits_none behind w
  | cons v vs =>
      have value := spells_value json anySpells field v typed.1 all.1
        ((Emits.commaIf w behind).at_ place)
      have others := emits_elements json anySpells field true vs typed.2 all.2
        (value.at_ ((Emits.commaIf w behind).at_ place))
      exact Emits.item value others

/-- The entries of a map are emitted one after the other. -/
theorem emits_entries (json : s.HasJson) (anySpells : SpellsAny config mask P any tree)
    (field : String) {type : ValueType} (behind : Bool) {w : Writer}
    {path : Path} (es : List Entry) (typed : entriesConform s type (entriesKnown es))
    (all : entriesAll P es) (place : w.At config mask path)
    : Emits w (writeEntries s any field type es behind w)
        ((entryFields s config tree mask path field type es).map (fieldsText behind)) := by
  cases es with
  | nil => exact emits_none behind w
  | cons e es =>
      cases e with
      | mk key v =>
          have value := spells_value json anySpells field v typed.1 all.1
            (at_key place behind (keyText key))
          have others := emits_entries json anySpells field true es typed.2 all.2
            (value.at_ (at_key place behind _))
          exact Emits.field behind _ value others

/-- A dynamic object spells an object. -/
theorem spells_struct (json : s.HasJson) (anySpells : SpellsAny config mask P any tree)
    {members : List Member} {w : Writer} {path : Path} (slots : List Slot)
    (shapes : members.map (·.shape) = [.map (.string none) (.message "google.protobuf.Value")])
    (typed : slotsConform s members (slotsKnown slots)) (all : slotsAll P slots)
    (place : w.At config mask path)
    : Spells w (writeStruct s any slots w) (structNode s config tree mask path slots) := by
  obtain ⟨m, rfl, shape⟩ := List.map_eq_singleton_iff.mp shapes
  cases slots with
  | nil => cases typed
  | cons slot slots =>
      have own := typed.1
      cases slot with
      | entries es =>
          simp only [Slot.known, Slot.Conforms, shape] at own
          exact spells_object _
            (emits_fields json anySpells false es own.2 all.1 ((Emits.raw w _).at_ place))
      | none | one _ | many _ => simp only [Slot.known, Slot.Conforms, shape] at own
      | choice _ _ => simp only [Slot.known, Slot.Conforms, Member.alternative?, shape] at own

/-- The fields of a dynamic object are emitted one after the other. -/
theorem emits_fields (json : s.HasJson) (anySpells : SpellsAny config mask P any tree)
    (behind : Bool) {w : Writer} {path : Path} (es : List Entry)
    (typed : entriesConform s (.message "google.protobuf.Value") (entriesKnown es))
    (all : entriesAll P es) (place : w.At config mask path)
    : Emits w (writeFields s any es behind w)
        ((structFields s config tree mask path es).map (fieldsText behind)) := by
  cases es with
  | nil => exact emits_none behind w
  | cons e es =>
      cases e with
      | mk key v =>
          have value := spells_value json anySpells (keyText key) v typed.1 all.1
            (at_key place behind (keyText key))
          have others := emits_fields json anySpells true es typed.2 all.2
            (value.at_ (at_key place behind _))
          exact Emits.field behind _ value others

/-- A dynamic value spells the value of its kind. -/
theorem spells_kind (json : s.HasJson) (anySpells : SpellsAny config mask P any tree)
    {members : List Member} {alternatives : List Alternative} {w : Writer}
    {path : Path} (slots : List Slot) (shapes : members.map (·.shape) = [.oneof alternatives])
    (kinds : ∀ a ∈ alternatives, a.type.isKind)
    (typed : slotsConform s members (slotsKnown slots)) (all : slotsAll P slots)
    (place : w.At config mask path)
    : Spells w (writeKind s any members slots w) (kindNode s config tree mask path members slots)
        := by
  obtain ⟨m, rfl, shape⟩ := List.map_eq_singleton_iff.mp shapes
  cases slots with
  | nil => cases typed
  | cons slot slots =>
      have own := typed.1
      cases slot with
      | none => exact .raw w _
      | one _ | many _ | entries _ => simp only [Slot.known, Slot.Conforms, shape] at own
      | choice tag v =>
          simp only [Slot.known, Slot.Conforms] at own
          cases found : m.alternative? tag with
          | none => simp only [found] at own
          | some a =>
              simp only [found] at own
              have kind := kinds a (mem_of_alternative shape found)
              cases v with
              | scalar v =>
                  simp only [writeKind, kindNode]
                  cases type : a.type with
                  | scalar type =>
                      rw [type] at own kind
                      exact spells_dynamic own kind
                  | message name =>
                      rw [type] at own
                      exact own.elim
              | message inner =>
                  simp only [writeKind, kindNode, List.findSome?_cons, found, Option.map_some]
                  cases type : a.type with
                  | scalar type =>
                      rw [type] at own
                      exact own.elim
                  | message name =>
                      rw [type] at own
                      exact spells_message json anySpells inner (json.type name) own all.1 place

/-- A dynamic array spells an array. -/
theorem spells_list (json : s.HasJson) (anySpells : SpellsAny config mask P any tree)
    {members : List Member} {w : Writer} {path : Path} (slots : List Slot)
    (shapes : members.map (·.shape) = [.repeated (.message "google.protobuf.Value") false none])
    (typed : slotsConform s members (slotsKnown slots)) (all : slotsAll P slots)
    (place : w.At config mask path)
    : Spells w (writeList s any slots w) (listNode s config tree mask path slots) := by
  obtain ⟨m, rfl, shape⟩ := List.map_eq_singleton_iff.mp shapes
  cases slots with
  | nil => cases typed
  | cons slot slots =>
      have own := typed.1
      cases slot with
      | many vs =>
          simp only [Slot.known, Slot.Conforms, shape] at own
          exact spells_array _
            (emits_items json anySpells false vs own all.1 ((Emits.raw w _).at_ place))
      | none | one _ | entries _ => simp only [Slot.known, Slot.Conforms, shape] at own
      | choice _ _ => simp only [Slot.known, Slot.Conforms, Member.alternative?, shape] at own

/-- The items of a dynamic array are emitted one after the other. -/
theorem emits_items (json : s.HasJson) (anySpells : SpellsAny config mask P any tree)
    (behind : Bool) {w : Writer} {path : Path} (vs : List Value)
    (typed : elementsConform s (.message "google.protobuf.Value") (elementsKnown vs))
    (all : elementsAll P vs) (place : w.At config mask path)
    : Emits w (writeItems s any vs behind w)
        ((itemNodes s config tree mask path vs).map (itemsText behind)) := by
  cases vs with
  | nil => exact emits_none behind w
  | cons v vs =>
      cases v with
      | scalar v => exact typed.1.elim
      | message m =>
          have place' := (Emits.commaIf w behind).at_ place
          have value := spells_message json anySpells m (json.type _) typed.1 all.1 place'
          have others := emits_items json anySpells true vs typed.2 all.2 (value.at_ place')
          exact Emits.item value others

end

end Json

end Protobuf
