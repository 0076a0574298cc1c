import Protobuf.Proofs.Json.Agreement
import Protobuf.Proofs.Json.DepthLimit
import Protobuf.Proofs.Json.Forms
import Protobuf.Proofs.Json.Layering

/-! JSON that is merged into an `Any`.  The message that the document holds is read by itself, and
its encoding is appended to the payload; so it goes on top of the message that is packed there, as
bytes do.
-/

namespace Protobuf.Json

open Text WellKnown

-----------------------------------------------------------------------------------------
-- The value inside the object
-----------------------------------------------------------------------------------------

/-- What stands behind the key in the object; the last one counts. -/
def lastValue? (key : String) (fields : List Field) : Option Node :=
  (fields.reverse.find? (·.key == key)).map (·.value)

/-- The document of the message that the object of an `Any` holds: it stands behind the key "value"
for a well-known type, and is the object itself for another one.
-/
def Node.heldValue? (name : String) (n : Node) : Option Node :=
  if name ∈ wellKnownNames then n.fields?.bind (lastValue? "value") else some n

theorem lastValue?_cons (key : String) (field : Field) (fields : List Field)
    : lastValue? key (field :: fields)
        = (lastValue? key fields).or (if field.key = key then some field.value else none) := by
  simp only [lastValue?, List.reverse_cons, List.find?_append]
  cases List.find? (fun field : Field => field.key == key) fields.reverse with
  | some _ => rfl
  | none =>
      by_cases same : field.key = key <;> simp [same]

-----------------------------------------------------------------------------------------
-- Documents
-----------------------------------------------------------------------------------------

section

variable {s : Schema} {registry : Option Registry} {t : MessageType} {m m' : Message}

theorem decodeInto_of_read {bytes : List UInt8} {q : Reader}
    (read : readMessage s t m (Reader.ofBytes bytes registry) = (m', q)) (sound : q.fault = none)
    (blank : dropBlanks q.rest = [])
    : decodeInto s registry t m bytes = (m', .ok q.mask) := by
  rw [decodeInto, read]
  simp only [Reader.finish_of_blank sound blank]
  rfl

theorem decodeInto_of_failed {bytes : List UInt8} {q : Reader} {fault : Fault}
    (read : readMessage s t m (Reader.ofBytes bytes registry) = (m', q))
    (failed : q.fault = some fault)
    : decodeInto s registry t m bytes = (m', .error fault) := by
  rw [decodeInto, read]
  simp only [Reader.finish_of_fault (Option.isSome_of_mem failed), failed]

variable (flat : ∀ name, name ∉ wellKnownNames → (s.type name).form ≠ .any)

include flat

/-- A text of the value is read as its shortest text is. -/
theorem decodeInto_of_spells {n : Node} {text : List Char} (spelled : Padded n.wide.Spells text)
    (registry : Option Registry) (t : MessageType) (m : Message)
    : let long := decodeInto s registry t m (utf8 (String.ofList text))
      let short := decodeInto s registry t m (utf8 n.text)
      long.1 = short.1 ∧ long.2.mapError Fault.sansOffset = short.2.mapError Fault.sansOffset := by
  have alike : (Reader.ofBytes (utf8 (String.ofList text)) registry).Alike
      (Reader.ofBytes (utf8 n.text) registry) :=
    ⟨rfl, rfl, rfl, rfl, rfl, rfl, fun _ => beside_text spelled⟩
  exact decodeInto_of_alike flat alike t m

theorem decodeInto_eq_ok_iff {n : Node} {text : List Char} (spelled : Padded n.wide.Spells text)
    {fields : FieldMask.PathSet}
    : decodeInto s registry t m (utf8 (String.ofList text)) = (m', .ok fields)
        ↔ decodeInto s registry t m (utf8 n.text) = (m', .ok fields) := by
  obtain ⟨same, outcome⟩ := decodeInto_of_spells flat spelled registry t m
  generalize decodeInto s registry t m (utf8 (String.ofList text)) = x₁ at same outcome ⊢
  generalize decodeInto s registry t m (utf8 n.text) = x₂ at same outcome ⊢
  obtain ⟨m₁, result₁⟩ := x₁
  obtain ⟨m₂, result₂⟩ := x₂
  cases same
  cases result₁ with
  | error fault =>
      cases result₂ with
      | error _ => simp
      | ok _ => cases outcome
  | ok fields' =>
      cases result₂ with
      | error _ => cases outcome
      | ok _ =>
          cases outcome
          rfl

/-- A fault that names no place in the text is the same for all texts of the value. -/
theorem decodeInto_eq_error {n : Node} {text : List Char} (spelled : Padded n.wide.Spells text)
    {path : String} {current url : String}
    (failed : decodeInto s registry t m (utf8 n.text)
      = (m', .error ⟨.unmarshal, path, .anyTypeMismatch current url⟩))
    : decodeInto s registry t m (utf8 (String.ofList text))
        = (m', .error ⟨.unmarshal, path, .anyTypeMismatch current url⟩) := by
  obtain ⟨same, outcome⟩ := decodeInto_of_spells flat spelled registry t m
  rw [failed] at same outcome
  generalize decodeInto s registry t m (utf8 (String.ofList text)) = x at same outcome ⊢
  obtain ⟨m₁, fault | _⟩ := x
  · cases same
    obtain ⟨operation, place, cause⟩ := fault
    cases cause <;> cases outcome
    rfl
  · cases outcome

end

section

variable {s : Schema} {registry : Option Registry} {name : String} {n : Node} {r : Reader}
  {payload : List UInt8}

/-- The payload is the encoding of the message in the document, which nests no deeper than it may.
-/
structure Holds (s : Schema) (registry : Option Registry) (name : String) (n : Node)
    (payload : List UInt8) : Prop where
  levels : n.levels ≤ maxDepth
  sound : (readMessage s (s.type name) (s.empty name)
    (Reader.ofBytes (utf8 n.text) registry)).2.fault = none
  encodes : payload = (readMessage s (s.type name) (s.empty name)
    (Reader.ofBytes (utf8 n.text) registry)).1.encoding s (s.type name)

/-- The payload is that of the document, or the one before it if there is none. -/
def HoldsLast (s : Schema) (registry : Option Registry) (name : String)
    (before payload : List UInt8)
    : Option Node → Prop
  | none => payload = before
  | some n => Holds s registry name n payload

theorem Reader.Recorded.level {r' : Reader} {fields : List FieldMask.Path}
    (h : r.Recorded r' fields)
    : r'.Level r :=
  ⟨h.path, h.registry⟩

variable (lawful : s.Lawful) (flat : ∀ name, name ∉ wellKnownNames → (s.type name).form ≠ .any)

include lawful flat

section

variable (dynamic : (s.type dynamicType).form ≠ .members)

include dynamic

/-- The payload of a well-known type is that of the last value in the object, by induction on its
members.
-/
theorem holds_of_keys {fields : List Field} {behind : Bool} (at_ : r.AtFields behind fields)
    (level : r.Level (.ofBytes [] registry)) {x : List UInt8 × Reader}
    (done : r.keys (fun key payload inner =>
      if key = "value" then readPayload s (readMessage s) name inner else (payload, inner.skip))
      payload = x) (sound : x.2.fault = none)
    : HoldsLast s registry name payload x.1 (lastValue? "value" fields) := by
  have onward (key : String) (payload : List UInt8) (r : Reader) : r.Onward
      (if key = "value" then readPayload s (readMessage s) name r else (payload, r.skip)).2 := by
    split
    · exact (program_payload s name).onward (onward_readMessage flat) r
    · exact (program_skip payload).onward (onward_readMessage flat) r
  induction fields generalizing r behind payload with
  | nil =>
      obtain ⟨q, reached, -⟩ := at_.nextKey_nil
      rw [Reader.keys, reached] at done
      exact congrArg Prod.fst done.symm
  | cons field fields ih =>
      obtain ⟨key, n⟩ := field
      obtain ⟨q, reached, front, pending, same, next⟩ := at_.nextKey_cons
      rw [Reader.keys_unfold onward, reached] at done
      rw [lastValue?_cons]
      dsimp only at done
      by_cases value : key = "value"
      · rw [if_pos value, readPayload_of_lawful lawful] at done
        have own := portable_readMessage flat (s.type name) (s.empty name) n
          (.ofBytes (utf8 n.text) registry) q (Reader.fronts_of_levels registry front.levels) front
          ⟨(same.trans level).path.symm, (same.trans level).registry.symm⟩
        obtain ⟨more, faces⟩ := front.faces
        have kept := notes_readMessage flat lawful dynamic n (s.type name) (s.empty name)
          (Message.slotted_of_typed _ (lawful.sound_empty name).1.typed) q more faces
        dsimp only at kept
        generalize reads : readMessage s (s.type name) (s.empty name) q = y at own done kept
        generalize bare : readMessage s (s.type name) (s.empty name)
          (.ofBytes (utf8 n.text) registry) = b
          at own
        cases own with
        | failed _ second =>
            rw [keys_of_fault _ _ second] at done
            rw [← done] at sound
            rw [sound] at second
            cases second
        | left m _ _ second =>
            have failed := Reader.isSome_keys_of_pending
              (fun key payload inner =>
                if key = "value" then readPayload s (readMessage s) name inner else (payload,
                  inner.skip))
              (m.encoding s (s.type name)) second.sound (second.pending.trans pending)
            rw [done, sound] at failed
            cases failed
        | took m _ first second =>
            have rest := ih (next _ second) (((kept second).level.trans same).trans level) done
            rw [if_pos value]
            cases last : lastValue? "value" fields with
            | some _ =>
                rw [last] at rest
                exact rest
            | none =>
                rw [last] at rest
                exact ⟨front.levels, by rw [bare]; exact first.sound, by rw [bare]; exact rest⟩
      · rw [if_neg value] at done
        obtain ⟨took, level'⟩ := front.skip
        have rest := ih (next _ took) ((level'.trans same).trans level) done
        simpa only [if_neg value, Option.or_none] using rest

-----------------------------------------------------------------------------------------
-- The object
-----------------------------------------------------------------------------------------

variable {url : String} {members : List Field}

/-- The payload behind the type URL is that of the document that the object holds. -/
theorem holdsLast_of_resolved {whole : Node}
    (object : whole = .object (⟨"@type", .string url⟩ :: members))
    (levels : whole.levels ≤ maxDepth) {resolution : Resolution} {inner : Reader}
    (at_ : inner.AtFields true members) (level : inner.Level (.ofBytes (utf8 whole.text) registry))
    (resolved : resolve registry url = some resolution)
    (sound : (readAnyPayload s (readMessage s) resolution (.ofBytes (utf8 whole.text) registry)
      inner).2.fault = none)
    : HoldsLast s registry (typeName url) []
        (readAnyPayload s (readMessage s) resolution (.ofBytes (utf8 whole.text) registry) inner).1
        (whole.heldValue? (typeName url)) := by
  unfold resolve at resolved
  simp only [List.contains_iff_mem] at resolved
  by_cases wellKnown : typeName url ∈ wellKnownNames
  · rw [if_pos wellKnown] at resolved
    cases resolved
    have value : whole.heldValue? (typeName url) = lastValue? "value" members := by
      rw [Node.heldValue?, if_pos wellKnown, object]
      have typeKey : "@type" ≠ "value" := by decide
      show lastValue? "value" (_ :: members) = _
      rw [lastValue?_cons, if_neg typeKey, Option.or_none]
    rw [value]
    exact holds_of_keys lawful flat dynamic at_ (level.trans ⟨rfl, rfl⟩) rfl sound
  · rw [if_neg wellKnown] at resolved
    rw [Node.heldValue?, if_neg wellKnown]
    cases registry with
    | none => cases resolved
    | some types =>
        simp only at resolved
        split at resolved
        · cases resolved
          rw [readAnyPayload, readPayload_of_lawful lawful] at sound ⊢
          exact ⟨levels, sound, rfl⟩
        · cases resolved

/-- What an `Any` is read from holds a payload, which goes behind the one that is there. -/
theorem exists_holds_of_accepted
    (accepted : ∃ fields, (decodeInto s registry WellKnown.anyType ⟨anySlots "" [], []⟩
      (utf8 (Node.object (⟨"@type", .string url⟩ :: members)).text)).2 = .ok fields)
    : let whole := Node.object (⟨"@type", .string url⟩ :: members)
      ∃ payload, HoldsLast s registry (typeName url) [] payload (whole.heldValue? (typeName url))
        ∧ ∀ current value, decodeInto s registry WellKnown.anyType ⟨anySlots current value, []⟩
            (utf8 whole.text)
          = if current = "" ∨ current = url then (⟨anySlots url (value ++ payload), []⟩, .ok .empty)
            else (⟨anySlots current value, []⟩,
              .error ⟨.unmarshal, "", .anyTypeMismatch current url⟩) := by
  intro whole
  let r := Reader.ofBytes (utf8 whole.text) registry
  obtain ⟨sound, -⟩ := decodeInto_ok.mp accepted
  change (readMessage s WellKnown.anyType ⟨anySlots "" [], []⟩ r).2.fault = none at sound
  have levels : whole.levels ≤ maxDepth := by
    rcases rawValue_of_faces (Reader.faces_ofBytes registry whole) with ⟨levels, -⟩
      | ⟨-, missing, failed⟩
    · exact levels
    · rw [readMessage_unfold flat] at sound
      simp only [readSlots, WellKnown.anyType, readAny] at sound
      rw [← Prod.mk.eta (p := r.rawValue), missing] at sound
      rw [sound] at failed
      cases failed
  have front : r.Fronts whole := Reader.fronts_of_levels registry levels
  obtain ⟨inner, at_, level, object⟩ := readAnyObject_of_fronts (s := s) (readMessage s) front
  have read := readMessage_any flat registry levels
  have opened := object ""
  rw [if_pos (.inl rfl)] at opened
  rw [read, opened] at sound
  cases resolved : resolve r.registry url with
  | none =>
      rw [resolved] at sound
      have failed := Reader.isSome_latch inner (.unresolvableTypeUrl url)
      rw [show (inner.latch (.unresolvableTypeUrl url)).fault = none from sound] at failed
      cases failed
  | some resolution =>
      rw [resolved] at sound
      have sound : (readAnyPayload s (readMessage s) resolution r inner).2.fault = none := sound
      simp only [resolved, sound, Option.isSome_none, Bool.false_eq_true, if_false] at object
      refine ⟨_, holdsLast_of_resolved lawful flat dynamic rfl levels at_ level resolved sound,
        fun current value => ?_⟩
      have own := read current value
      dsimp only at own
      rw [show readAnyObject s (readMessage s) current _ = _ from object current] at own
      by_cases matching : current = "" ∨ current = url
      · rw [if_pos matching] at own ⊢
        have ended : (r.behind [] []).join (readAnyPayload s (readMessage s) resolution r inner).2
            = r.behind [] [] := by
          rw [Reader.join, sound]
          rfl
        exact decodeInto_of_read (own.trans (congrArg _ ended)) rfl rfl
      · rw [if_neg matching] at own ⊢
        rw [Reader.latch_of_sound at_.sound, show inner.path = .root from level.path] at own
        exact decodeInto_of_failed own rfl

end

-----------------------------------------------------------------------------------------
-- On top of a message
-----------------------------------------------------------------------------------------

/-- The document is read by itself, and the payload is what its message is packed as.  So the
message goes on top of the one that is packed below, as far as bytes can be read; and it does where
the document is read into the message below, if nothing there is in the way.
-/
structure GoesOnTop (s : Schema) (registry : Option Registry) (name : String)
    (m : Message) (n : Node) (text : List Char) (value payload : List UInt8) (held : Message)
    (fields : FieldMask.PathSet)
    : Prop where
  alone : decodeInto s registry (s.type name) (s.empty name) (utf8 (String.ofList text))
    = (held, .ok fields)
  packed : s.encode (s.type name) held = .ok payload
  joined : held.nesting ≤ Wire.recursionLimit → held.size s (s.type name) < 2 ^ 63
    → (m.combine s (s.type name) held).Fits s (s.type name)
    → s.decode name (value ++ payload)
      = .ok ((m.combine s (s.type name) held).normal s (s.type name))
  direct : (m.combine s (s.type name) held).Fits s (s.type name) → Admits s (s.type name) m n
    → ∃ direct, decodeInto s registry (s.type name) m (utf8 (String.ofList text))
      = (direct, .ok fields)
      ∧ direct.normal s (s.type name) = (m.combine s (s.type name) held).normal s (s.type name)

theorem Holds.goesOnTop (json : s.HasJson) (known : s.HasWellKnown)
    (only : ∀ name, (s.type name).form = .value → s.type name = WellKnown.valueType)
    (holds : Holds s registry name n payload) {m : Message} (readable : m.Readable s (s.type name))
    {text : List Char} (spelled : Padded n.wide.Spells text)
    : ∃ held fields, GoesOnTop s registry name m n text (m.encoding s (s.type name)) payload held
        fields := by
  let t := s.type name
  let r := Reader.ofBytes (utf8 n.text) registry
  obtain ⟨levels, sound, encodes⟩ := holds
  have empty : (s.empty name).Sound s t := lawful.sound_empty name
  have after := sound_readMessage lawful known json only empty r
  have took : r.Took (readMessage s t (s.empty name) r).2 :=
    (outcome_readMessage_of_fits flat (fits_of_typed (json.type name) empty.1.typed) rfl).took sound
  have blank : dropBlanks (readMessage s t (s.empty name) r).2.rest = [] := by
    rw [took.rest_eq (Reader.faces_ofBytes registry n)]
    rfl
  have layers := layered_readMessage flat lawful known json only n name m (s.empty name) m r
    readable.conforms empty
  change (readMessage s t (s.empty name) r).2.fault = none at sound
  change payload = (readMessage s t (s.empty name) r).1.encoding s t at encodes
  generalize alone : readMessage s t (s.empty name) r = x at sound encodes after took blank layers
  obtain ⟨held, q⟩ := x
  refine ⟨held, q.mask, ?_, ?_, fun nesting size fits => ?_, fun fits admits => ?_⟩
  · exact (decodeInto_eq_ok_iff flat spelled).mpr (decodeInto_of_read alone sound blank)
  · rw [encodes]
    exact Schema.encode_eq lawful.sized (lawful.type name).form held
  · have merged : s.merge t (s.empty name) (m.encoding s t ++ held.encoding s t)
        = ((m.combine s t held).normal s t, none) :=
      (mergeRecords_append (Schema.merge_empty lawful readable) _).trans
        (Schema.merge_encoding lawful readable.conforms ⟨after.1, after.2, nesting, size⟩ fits)
    rw [encodes, Schema.decode, merged]
  · have layered := layers admits (Reader.fronts_of_levels registry levels)
    obtain ⟨same, joined⟩ := layered.onward sound (Message.room_of_fits held fits)
      (Message.joins_empty lawful readable.conforms)
    refine ⟨(readMessage s t m r).1, ?_, joined⟩
    refine (decodeInto_eq_ok_iff flat spelled).mpr (decodeInto_of_read ?_ sound blank)
    exact Prod.ext rfl same

end

/-- Only the well-known dynamic value has its form. -/
theorem type_eq_valueType {own : List MessageType}
    (forms : ∀ t ∈ own, t.form = .members ∨ t.form = .bare) (name : String)
    (form : ((schemaWith own).type name).form = .value)
    : (schemaWith own).type name = valueType := by
  unfold Schema.type schemaWith at form ⊢
  cases found : (own ++ types).find? fun t => t.name == name with
  | none => rw [found] at form; cases form
  | some t =>
      rw [found] at form
      rcases List.mem_append.mp (List.mem_of_find?_eq_some found) with listed | listed
      · rcases forms t listed with other | other <;> cases other.symm.trans form
      · have only : ∀ t ∈ types, t.form = .value → t = valueType := by decide
        exact only t listed form

/-- A scalar is read into the message that wraps it. -/
theorem reads_wrapper {s : Schema} (read : MessageReader) (name : String)
    {type : ScalarType} {v : Scalar} (typed : v.hasType type) (legible : type.Legible)
    (back : v.ReadsBack) (slots : List Slot)
    : Reads (readSlots s read (wrapperType name type) slots) (scalarNode {} type v)
        [.one (.scalar v.canonical)] :=
  (reads_wrapped (reads_scalar typed legible back {}) (kind_scalarNode_ne_object type v)
    type.default).map fun v => [Slot.one (.scalar v)]

theorem decodeInto_wrapper {s : Schema}
    (flat : ∀ name, name ∉ wellKnownNames → (s.type name).form ≠ .any) (registry : Option Registry)
    (name : String) {type : ScalarType} {v : Scalar} (typed : v.hasType type)
    (legible : type.Legible) (back : v.ReadsBack) (m : Message)
    : decodeInto s registry (wrapperType name type) m (utf8 (scalarNode {} type v).text)
        = (⟨[.one (.scalar v.canonical)], m.unknown⟩, .ok .empty) := by
  let r := Reader.ofBytes (utf8 (scalarNode {} type v).text) registry
  have read : readMessage s (wrapperType name type) m r
      = (⟨[.one (.scalar v.canonical)], m.unknown⟩, r.behind [] []) := by
    rw [readMessage_unfold flat,
      reads_wrapper (readMessage s) name typed legible back m.slots r [] (Reader.faces_ofBytes _ _)]
  exact decodeInto_of_read read rfl rfl

/-- An object that an empty `Any` is read from is read into a packed message if it has the type URL
of that message; then its payload goes behind the one that is packed.  Where it goes on top of the
message that is packed, as far as bytes can be read, the two together are read as what comes out if
the document inside the object is read into the message itself, unless that takes back what is set
there.
-/
theorem merge_into_packed {own : List MessageType} (lawful : (schemaWith own).Lawful)
    (json : ∀ t ∈ own, t.HasJson) (forms : ∀ t ∈ own, t.form = .members ∨ t.form = .bare)
    {url : String} {members : List Field} {text : List Char}
    {registry : Option Registry} {m : Message}
    (readable : m.Readable (schemaWith own) ((schemaWith own).type (typeName url)))
    (spelled : Padded (Node.object (⟨"@type", .string url⟩ :: members)).wide.Spells text)
    (accepted : ∃ fields, (decodeInto (schemaWith own) registry anyType ⟨anySlots "" [], []⟩
      (utf8 (String.ofList text))).2 = .ok fields)
    : let s := schemaWith own
      let name := typeName url
      let read (any : AnyMessage) :=
        decodeInto s registry anyType ⟨anySlots any.typeUrl any.value, []⟩
        (utf8 (String.ofList text))
      ∃ any payload, AnyMessage.pack s name m = .ok any
        ∧ read ⟨"", []⟩ = (⟨anySlots url payload, []⟩, .ok .empty)
        ∧ read any = (if url
          = any.typeUrl then (⟨anySlots url (any.value ++ payload), []⟩, .ok .empty)
          else (⟨anySlots any.typeUrl any.value, []⟩,
            .error ⟨.unmarshal, "", .anyTypeMismatch any.typeUrl url⟩))
        ∧ match (Node.object (⟨"@type", .string url⟩ :: members)).heldValue? name with
          | none => payload = []
          | some n => ∀ text, Padded n.wide.Spells text → ∃ held fields,
              GoesOnTop s registry name m n text any.value payload held fields := by
  intro s name read
  let t := s.type name
  have json : s.HasJson := hasJson_schemaWith json
  have known : s.HasWellKnown := hasWellKnown lawful
  have plain : ∀ t ∈ own, t.form ≠ .any := by
    intro t listed
    rcases forms t listed with form | form <;> rw [form] <;> decide
  have flat := form_type_ne_any plain
  have dynamic : (s.type dynamicType).form ≠ .members := by
    rw [show s.type dynamicType = valueType from type_value known]
    decide
  obtain ⟨fields, accepted⟩ := accepted
  have accepted := (decodeInto_eq_ok_iff flat spelled).mp (Prod.ext rfl accepted)
  obtain ⟨payload, holds, reads⟩ :=
    exists_holds_of_accepted lawful flat dynamic ⟨fields, congrArg Prod.snd accepted⟩
  refine ⟨⟨typeUrl name, m.encoding s t⟩, payload, ?_, ?_, ?_, ?_⟩
  · rw [AnyMessage.pack, Schema.encode_eq lawful.sized (lawful.type name).form]
  · exact (decodeInto_eq_ok_iff flat spelled).mpr ((reads "" []).trans (if_pos (.inl rfl)))
  · have own := reads (typeUrl name) (m.encoding s t)
    by_cases same : url = typeUrl name
    · rw [if_pos (.inr same.symm)] at own
      rw [if_pos same]
      exact (decodeInto_eq_ok_iff flat spelled).mpr own
    · have named : typeUrl name ≠ "" := fun empty => by
        have nonempty := isEmpty_typeUrl name
        rw [empty] at nonempty
        cases nonempty
      rw [if_neg (not_or.mpr ⟨named, Ne.symm same⟩)] at own
      rw [if_neg same]
      exact decodeInto_eq_error flat spelled own
  · revert holds
    generalize (Node.object (⟨"@type", .string url⟩ :: members)).heldValue? name = held
    intro holds
    cases held with
    | none => exact holds
    | some n =>
        exact fun text spelled =>
          holds.goesOnTop lawful flat json known (type_eq_valueType forms) readable spelled

/-- A number goes on top of another one, in the bytes and when it is read into it. -/
theorem merge_into_packed_number
    : let s := schemaWith []
      let t := wrapperType "Int32Value" .int32
      let url := "type.googleapis.com/google.protobuf.Int32Value"
      let m (v : Int32) : Message := ⟨[.one (.scalar (.int32 v))], []⟩
      let value := scalarNode {} .int32 (.int32 7)
      let n : Node := .object [⟨"@type", .string url⟩, ⟨"value", value⟩]
      let read (n : Node) (t : MessageType) (m : Message) :=
        decodeInto s none t m (utf8 (String.ofList n.text.toList))
      s.Lawful ∧ (∀ t ∈ ([] : List MessageType), t.HasJson)
        ∧ (∀ t ∈ ([] : List MessageType), t.form = .members ∨ t.form = .bare)
        ∧ (m 5).Readable s (s.type (typeName url)) ∧ Padded n.wide.Spells n.text.toList
        ∧ (∃ fields, (read n anyType ⟨anySlots "" [], []⟩).2 = .ok fields)
        ∧ ∃ any payload, AnyMessage.pack s t.name (m 5) = .ok any
          ∧ read n anyType ⟨anySlots any.typeUrl any.value, []⟩
            = (⟨anySlots url (any.value ++ payload), []⟩, .ok .empty)
          ∧ s.decode t.name (any.value ++ payload) = .ok (m 7)
          ∧ ∃ direct fields, read value t (m 5) = (direct, .ok fields)
            ∧ direct.normal s t = m 7 := by
  intro s t url m value n read
  have lawful : s.Lawful := lawful_types
  have json : ∀ t ∈ ([] : List MessageType), t.HasJson :=
    fun _ listed => absurd listed List.not_mem_nil
  have forms : ∀ t ∈ ([] : List MessageType), t.form = .members ∨ t.form = .bare :=
    fun _ listed => absurd listed List.not_mem_nil
  have named : typeName url = t.name := by decide
  have readable : (m 5).Readable s (s.type (typeName url)) := by
    rw [named]
    exact ⟨⟨⟨rfl, rfl⟩, rfl⟩, ⟨trivial, trivial⟩, by decide, by decide⟩
  have spelled (n : Node) : Padded n.wide.Spells n.text.toList :=
    padded_of_spells (n.spells_wide n.spells_text)
  have accepted : ∃ fields, (read n anyType ⟨anySlots "" [], []⟩).2 = .ok fields :=
    ⟨.empty, by decide +kernel⟩
  refine ⟨lawful, json, forms, readable, spelled n, accepted, ?_⟩
  obtain ⟨any, payload, packed, -, merged, held⟩ :=
    merge_into_packed lawful json forms readable (spelled n) accepted
  have inside : n.heldValue? (typeName url) = some value := by
    rw [Node.heldValue?, named, if_pos (by decide)]
    rfl
  rw [show Node.heldValue? _ _ = some value from inside, named] at held
  rw [named] at packed
  obtain ⟨above, fields, alone, encoded, joined, direct⟩ := held value.text.toList (spelled value)
  have reads (slots : List Slot)
      : Reads (readSlots s (readMessage s) t slots) value [.one (.scalar (.int32 7))] :=
    @reads_wrapper s (readMessage s) "Int32Value" .int32 (.int32 7) rfl trivial trivial slots
  have own : read value t (m 0) = (m 7, .ok .empty) := by
    have flat : ∀ name, name ∉ wellKnownNames → (s.type name).form ≠ .any :=
      form_type_ne_any fun _ listed => absurd listed List.not_mem_nil
    exact (decodeInto_eq_ok_iff flat (spelled value)).mpr
      (@decodeInto_wrapper s flat none "Int32Value" .int32 (.int32 7) rfl trivial trivial (m 0))
  obtain ⟨rfl, -⟩ := Prod.ext_iff.mp (alone.symm.trans own)
  have fits : ((m 5).combine s t (m 7)).Fits s t := ⟨trivial, trivial⟩
  have admits : Admits s t (m 5) value := by
    refine .scalars (by decide) fun r front _ => ?_
    obtain ⟨more, faces⟩ := front.faces
    rw [reads _ r more faces]
    refine .cons (fun u v below above => .inr ?_) .nil
    cases above
    rfl
  obtain ⟨whole, read', same⟩ := direct fits admits
  have five : AnyMessage.pack s t.name (m 5) = .ok ⟨url, [8, 5]⟩ := by decide +kernel
  obtain rfl := Except.ok.inj (packed.symm.trans five)
  exact ⟨_, payload, five, merged.trans (if_pos rfl), joined (by decide) (by decide) fits, whole,
    fields, read', same⟩

/-- A default that stands in the object is not packed, so the number below stays; read into the
message itself, it counts.
-/
theorem merge_into_packed_default
    : let s := schemaWith []
      let t := wrapperType "Int32Value" .int32
      let url := "type.googleapis.com/google.protobuf.Int32Value"
      let m (v : Int32) : Message := ⟨[.one (.scalar (.int32 v))], []⟩
      let value := scalarNode {} .int32 (.int32 0)
      let n : Node := .object [⟨"@type", .string url⟩, ⟨"value", value⟩]
      let read (n : Node) (t : MessageType) (m : Message) := decodeInto s none t m (utf8 n.text)
      AnyMessage.pack s t.name (m 5) = .ok ⟨url, [8, 5]⟩ ∧ s.decode t.name [8, 5] = .ok (m 5)
        ∧ read n anyType ⟨anySlots "" [], []⟩ = (⟨anySlots url [], []⟩, .ok .empty)
        ∧ read n anyType ⟨anySlots url [8, 5], []⟩ = (⟨anySlots url [8, 5], []⟩, .ok .empty)
        ∧ read value t (m 5) = (m 0, .ok .empty) ∧ m 5 ≠ m 0 := by
  intro s t url m value n read
  have lawful : s.Lawful := lawful_types
  have flat : ∀ name, name ∉ wellKnownNames → (s.type name).form ≠ .any :=
    form_type_ne_any fun _ listed => absurd listed List.not_mem_nil
  have dynamic : (s.type dynamicType).form ≠ .members := by decide
  have readable : (m 5).Readable s (s.type t.name) :=
    ⟨⟨⟨rfl, rfl⟩, rfl⟩, ⟨trivial, trivial⟩, by decide, by decide⟩
  have accepted : ∃ fields, (read n anyType ⟨anySlots "" [], []⟩).2 = .ok fields :=
    ⟨.empty, by decide +kernel⟩
  obtain ⟨payload, holds, reads⟩ := exists_holds_of_accepted lawful flat dynamic accepted
  have inside : n.heldValue? (typeName url) = some value := by
    rw [Node.heldValue?, if_pos (by decide)]
    rfl
  rw [show Node.heldValue? _ _ = some value from inside] at holds
  obtain rfl : payload = [] := holds.encodes.trans (by decide +kernel)
  have below : s.decode t.name [8, 5] = .ok (m 5) := by
    have merged := Schema.merge_empty lawful readable
    rw [show (m 5).encoding s (s.type t.name) = [8, 5] by decide +kernel] at merged
    rw [Schema.decode, merged]
    rfl
  exact ⟨by decide +kernel, below, (reads "" []).trans (if_pos (.inl rfl)),
    (reads url [8, 5]).trans (if_pos (.inr rfl)),
    @decodeInto_wrapper s flat none "Int32Value" .int32 (.int32 0) rfl trivial trivial (m 5),
    by simp [m]⟩

end Protobuf.Json
