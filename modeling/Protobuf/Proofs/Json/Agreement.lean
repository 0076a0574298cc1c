import Protobuf.Proofs.Json.Envelopes
import Protobuf.Proofs.Json.Payloads
import Protobuf.WellKnown.Any

/-! Messages inside an `Any` and by themselves.  The document of the `Any` is that of the message
with the type URL in front, and a message is read from the one as it is read from the other.
-/

namespace Protobuf.Json

open FieldMask Text WellKnown

-----------------------------------------------------------------------------------------
-- Types that may stand inside an `Any`
-----------------------------------------------------------------------------------------

variable {s : Schema} {config : Config} {registry : Option Registry} {name : String}

/-- The type is known inside an `Any`: it is well-known, or it is a registered type of objects with
a full name that is found in its type URL.
-/
def KnowsInside (s : Schema) (registry : Option Registry) (name : String) : Prop :=
  name ∈ wellKnownNames
    ∨ ('/' ∉ name.toList ∧ (s.type name).form = .members
      ∧ ∃ r, registry = some r ∧ r.contains name)

theorem takeWhile_behind_slash {host name : List Char} (whole : '/' ∉ name)
    : ((host ++ ['/'] ++ name).reverse.takeWhile (· != '/')).reverse = name := by
  have behind : ∀ c ∈ name.reverse, (c != '/') = true := by
    intro c listed
    simp only [bne_iff_ne]
    rintro rfl
    exact whole (List.mem_reverse.mp listed)
  have slash : (host ++ ['/']).reverse.takeWhile (· != '/') = [] := by
    rw [List.reverse_concat, List.takeWhile_cons_of_neg (by simp)]
  rw [List.reverse_append, List.takeWhile_append_of_pos behind, slash, List.append_nil,
    List.reverse_reverse]

theorem exists_host (name : String)
    : ∃ host, (typeUrl name).toList = host ++ ['/'] ++ name.toList := by
  have ends : "type.googleapis.com/".toList = "type.googleapis.com".toList ++ ['/'] := by decide
  refine ⟨"type.googleapis.com".toList, ?_⟩
  rw [← ends]
  exact String.toList_append

/-- The full name stands behind the last slash of the type URL. -/
theorem typeName_typeUrl (whole : '/' ∉ name.toList)
    : typeName (typeUrl name) = name := by
  obtain ⟨host, url⟩ := exists_host name
  unfold typeName
  rw [url, takeWhile_behind_slash whole, String.ofList_toList]

theorem isEmpty_typeUrl (name : String)
    : (typeUrl name).isEmpty = false := by
  obtain ⟨host, url⟩ := exists_host name
  rw [Bool.eq_false_iff, Ne, String.isEmpty_iff]
  intro empty
  simp [empty] at url

theorem not_mem_toList_wellKnown
    : ∀ name ∈ wellKnownNames, '/' ∉ name.toList := by
  decide +kernel

theorem resolve_typeUrl (known : KnowsInside s registry name)
    : name ∈ wellKnownNames ∧ resolve registry (typeUrl name) = some (.wellKnown name)
      ∨ name ∉ wellKnownNames ∧ resolve registry (typeUrl name) = some (.registered name)
        ∧ (s.type name).form = .members := by
  by_cases wellKnown : name ∈ wellKnownNames
  · refine .inl ⟨wellKnown, ?_⟩
    simp [resolve, typeName_typeUrl (not_mem_toList_wellKnown name wellKnown), wellKnown]
  · obtain ⟨whole, form, r, rfl, listed⟩ := known.resolve_left wellKnown
    refine .inr ⟨wellKnown, ?_, form⟩
    simp [resolve, typeName_typeUrl whole, wellKnown, listed]

-----------------------------------------------------------------------------------------
-- Documents of packed messages
-----------------------------------------------------------------------------------------

variable {any : AnyWriter} {tree : AnyTree} {mask : PathSet} {payload : List UInt8} {w : Writer}
  {fault : Fault}

/-- The document is the text of the tree. -/
theorem result_of_spells {n : Node} (h : Spells (Writer.ofConfig config mask) w (some n))
    : w.result = .ok n.text := by
  simp only [Spells, Emits, Writer.ofConfig, Option.map_some] at h
  subst h
  simp [Writer.result]

/-- What has no tree has a fault. -/
theorem exists_fault_of_spells (h : Spells (Writer.ofConfig config mask) w none)
    : ∃ fault, w.fault = some fault ∧ w.result = .error fault := by
  simp only [Spells, Emits, Writer.ofConfig, Option.map_none] at h
  obtain ⟨fault, output, rfl⟩ := h
  exact ⟨fault, rfl, rfl⟩

theorem result_writeWellKnown (sound : w.fault = none)
    (failed : (writePayload s any name payload w.subMessage).fault = some fault)
    : (writeWellKnown s any name payload w).result = .error fault := by
  obtain ⟨_, output, config, path, mask⟩ := w
  cases sound
  simp only [writeWellKnown, Writer.join, Writer.raw, Writer.endObject, Writer.comma, Writer.key,
    Writer.string, Writer.subMessage, Writer.result] at failed ⊢
  simp only [failed]

theorem result_writeRegistered
    (failed : (writePayload s any name payload w.subMessage).fault = some fault)
    : (writeRegistered s any name payload w).result = .error fault := by
  simp only [writeRegistered, Writer.join, failed, Writer.result]

theorem object_of_payloadNode {path : Path} {n : Node} (form : (s.type name).form = .members)
    (h : payloadNode s config tree path name payload = some n)
    : ∃ fields, n = .object fields := by
  unfold payloadNode at h
  split at h
  · rename_i m _
    cases m with
    | mk slots unknown =>
        simp only [messageNode, form, Option.map_eq_some_iff] at h
        obtain ⟨fields, -, rfl⟩ := h
        exact ⟨fields, rfl⟩
  · cases h

/-- The writer behind the type URL of an `Any`. -/
def Writer.behindUrl (w : Writer) (url : String) : Writer :=
  (w.beginObject.key "@type").string url

theorem encode_any {resolution : Resolution}
    (resolved : resolve config.registry (typeUrl name) = some resolution)
    : encode s config .empty anyType ⟨anySlots (typeUrl name) payload, []⟩
        = Writer.result (match resolution with
            | .wellKnown inner =>
                writeWellKnown s (writeAnyWithin s (payload.length + 1)) inner payload
                  ((Writer.ofConfig config .empty).behindUrl (typeUrl name))
            | .registered inner =>
                writeRegistered s (writeAnyWithin s (payload.length + 1)) inner payload
                  ((Writer.ofConfig config .empty).behindUrl (typeUrl name))) := by
  have found : resolve (Writer.ofConfig config .empty).config.registry (typeUrl name)
      = some resolution := resolved
  unfold encode writeMessage
  simp only [anyType, writeScalarForm, anySlots, writeAny]
  rw [writeAnyWithin]
  simp only [isEmpty_typeUrl, Bool.false_eq_true, if_false, found]
  cases resolution <;> rfl

/-- The document of an `Any` holds that of the message inside it, and it fails as that does. -/
theorem encode_inAny (lawful : s.Lawful) (json : s.HasJson)
    (known : KnowsInside s config.registry name) {m : Message}
    (accepted : s.decode name payload = .ok m)
    : match encode s config .empty (s.type name) m with
      | .ok document => ∃ n : Node, document = n.text
          ∧ (name ∉ wellKnownNames → ∃ fields, n = .object fields)
          ∧ encode s config .empty anyType ⟨anySlots (typeUrl name) payload, []⟩
            = .ok (n.inAny name).text
      | .error fault =>
          encode s config .empty anyType ⟨anySlots (typeUrl name) payload, []⟩ = .error fault := by
  let any := writeAnyWithin s (payload.length + 1)
  let tree := anyNodeWithin s config (payload.length + 1)
  have anySpells : SpellsAny config .empty (Inside payload) any tree :=
    fun _ _ _ _ text bytes place =>
    spells_anyWithin lawful json (room_inside text bytes (Nat.le_refl _)) place
  have place : (Writer.ofConfig config .empty).At config .empty .root := ⟨rfl, rfl, rfl⟩
  have bare := spells_payload name lawful json anySpells place
  have inner : encode s config .empty (s.type name) m
      = (writePayload s any name payload (Writer.ofConfig config .empty)).result :=
    congrArg Writer.result (writePayload_within lawful accepted _).symm
  have whole (resolution : Resolution)
      : Spells (Writer.ofConfig config .empty) _
        (resolvedNode s config tree .root (typeUrl name) payload resolution) :=
    spells_resolved lawful json anySpells place resolution
  -- Either there is a tree, of which both documents are texts, or the writer of the message has
  -- failed.
  cases node : payloadNode s config tree .root name payload with
  | some n =>
      rw [node] at bare
      rw [inner, result_of_spells bare]
      refine ⟨n, rfl, ?_, ?_⟩
      · intro other
        rcases resolve_typeUrl known with ⟨wellKnown, -⟩ | ⟨-, -, form⟩
        · exact absurd wellKnown other
        · exact object_of_payloadNode form node
      · rcases resolve_typeUrl known with ⟨wellKnown, resolved⟩ | ⟨other, resolved, form⟩
        · have spelled := whole (.wellKnown name)
          simp only [resolvedNode, node, Option.map_some] at spelled
          rw [encode_any resolved, Node.inAny, if_pos wellKnown]
          exact result_of_spells spelled
        · obtain ⟨fields, rfl⟩ := object_of_payloadNode form node
          have spelled := whole (.registered name)
          simp only [resolvedNode, node, Option.bind_some, Node.fields?, Option.map_some] at spelled
          rw [encode_any resolved, Node.inAny, if_neg other]
          exact result_of_spells spelled
  | none =>
      rw [node] at bare
      obtain ⟨fault, failed, result⟩ := exists_fault_of_spells bare
      rw [inner, result]
      rcases resolve_typeUrl known with ⟨-, resolved⟩ | ⟨-, resolved, -⟩
      · rw [encode_any resolved]
        exact result_writeWellKnown rfl failed
      · rw [encode_any resolved]
        exact result_writeRegistered failed

-----------------------------------------------------------------------------------------
-- Packing, writing and reading
-----------------------------------------------------------------------------------------

/-- The `Any` is read exactly if the message inside it is read from its own document, and then it
holds that message.
-/
def ReadInside (s : Schema) (registry : Option Registry) (name : String) (n : Node) : Prop :=
  match decodeInto s registry (s.type name) (s.empty name) (utf8 n.text) with
  | (m, .ok _) => ∃ value, s.encode (s.type name) m = .ok value
      ∧ decodeInto s registry anyType ⟨anySlots "" [], []⟩ (utf8 (n.inAny name).text)
        = (⟨anySlots (typeUrl name) value, []⟩, .ok .empty)
  | (_, .error _) => ∃ fault,
      (decodeInto s registry anyType ⟨anySlots "" [], []⟩ (utf8 (n.inAny name).text)).2
        = .error fault

theorem readInside_of_known (lawful : s.Lawful)
    (flat : ∀ name, name ∉ wellKnownNames → (s.type name).form ≠ .any) {n : Node}
    (known : KnowsInside s registry name)
    (unnamed : name ∉ wellKnownNames → (s.type name).declared? "@type" = none)
    (object : name ∉ wellKnownNames → ∃ fields, n = .object fields) (shallow : n.nesting ≤ 126)
    : ReadInside s registry name n := by
  have read := decodeInto_inAny lawful flat
    ((resolve_typeUrl known).imp_right fun ⟨other, resolved, form⟩ =>
      ⟨other, resolved, form, unnamed other, object other⟩)
    (Nat.lt_of_le_of_lt (Nat.succ_le_succ shallow) (by decide))
  unfold ReadInside
  generalize decodeInto s registry (s.type name) (s.empty name) (utf8 n.text) = bare at read ⊢
  rcases bare with ⟨m, fault | fields⟩
  · exact read
  · exact ⟨_, Schema.encode_eq lawful.sized (lawful.type name).form m, read⟩

/-- A message that is packed into an `Any` is written there as it is written by itself: a well-known
type as a value behind the type URL, a registered type member by member behind it; and it fails with
the same fault.  What is packed is the message that its bytes hold, and that is written as the
message itself unless a zero with a sign is all that some message in it is written as.  The document
of the `Any` is read as that of the message, if no member of the message is called like that with
the type URL.
-/
theorem encode_pack {own : List MessageType} (lawful : (schemaWith own).Lawful)
    (json : ∀ t ∈ own, t.HasJson) (plain : ∀ t ∈ own, t.form ≠ .any) {m : Message}
    (readable : m.Readable (schemaWith own) ((schemaWith own).type name))
    (known : KnowsInside (schemaWith own) config.registry name)
    : let s := schemaWith own
      let t := s.type name
      let held := m.normal s t
      (m.Everywhere s Unsigned .root t → encode s config .empty t held = encode s config .empty t m)
      ∧ ∃ any, AnyMessage.pack s name m = .ok any ∧
        let packed := encode s config .empty anyType ⟨anySlots any.typeUrl any.value, []⟩
        match encode s config .empty t held with
        | .error fault => packed = .error fault
        | .ok document => ∃ n : Node, document = n.text
            ∧ (name ∉ wellKnownNames → ∃ fields, n = .object fields)
            ∧ packed = .ok (n.inAny name).text
            ∧ ∀ registry, KnowsInside s registry name
              → (name ∉ wellKnownNames → t.declared? "@type" = none) → n.nesting ≤ 126
              → ReadInside s registry name n := by
  intro s t held
  have json : s.HasJson := hasJson_schemaWith json
  have decoded : s.decode name (m.encoding s t) = .ok held := by
    rw [Schema.decode, Schema.merge_empty lawful readable]
  refine ⟨encode_normal lawful json config (json.type name) readable.conforms.typed,
    ⟨typeUrl name, m.encoding s t⟩, ?_, ?_⟩
  · rw [AnyMessage.pack, Schema.encode_eq lawful.sized (lawful.type name).form]
  · have written := encode_inAny lawful json known decoded
    intro packed
    change match encode s config .empty t held with
      | .ok document => _
      | .error fault => _ at written
    cases document : encode s config .empty t held with
    | error fault =>
        rw [document] at written
        exact written
    | ok text =>
        rw [document] at written
        obtain ⟨n, rfl, object, whole⟩ := written
        exact ⟨n, rfl, object, whole, fun registry known unnamed shallow =>
          readInside_of_known lawful (form_type_ne_any plain) known unnamed object shallow⟩

mutual

/-- A document nests no deeper than it is long, by induction on it. -/
theorem nesting_le_text (n : Node)
    : n.nesting ≤ n.text.toList.length := by
  cases n with
  | null | bool _ | number _ | string _ => exact Nat.zero_le _
  | array items =>
      have inside := itemsNesting_le_text false items
      simp only [Node.nesting, Node.text, String.toList_append, List.length_append]
      simp
      omega
  | object fields =>
      have inside := fieldsNesting_le_text false fields
      simp only [Node.nesting, Node.text, String.toList_append, List.length_append]
      simp
      omega

theorem itemsNesting_le_text (behind : Bool) (items : List Node)
    : itemsNesting items ≤ (itemsText behind items).toList.length := by
  cases items with
  | nil => exact Nat.zero_le _
  | cons n items =>
      have first := nesting_le_text n
      have others := itemsNesting_le_text true items
      simp only [itemsNesting, itemsText, String.toList_append, List.length_append]
      omega

theorem fieldsNesting_le_text (behind : Bool) (fields : List Field)
    : fieldsNesting fields ≤ (fieldsText behind fields).toList.length := by
  cases fields with
  | nil => exact Nat.zero_le _
  | cons field fields =>
      cases field with
      | mk key n =>
          have first := nesting_le_text n
          have others := fieldsNesting_le_text true fields
          simp only [fieldsNesting, fieldsText, String.toList_append, List.length_append]
          omega

end

/-- A registered note with an empty `Any` inside it. -/
theorem encode_pack_note
    : let note : MessageType := ⟨"Note", [
        ⟨1, "text", "text", .single (.scalar (.string none))⟩,
        ⟨3, "more_info", "moreInfo", .optional (.message "google.protobuf.Any")⟩], false, .members⟩
      let s := schemaWith [note]
      let config : Config := { registry := some ⟨["Note"]⟩ }
      let m : Message := ⟨[.one (.scalar (.string "a")), .one (.message ⟨anySlots "" [], []⟩)], []⟩
      let document := "\x7b\"text\":\"a\",\"more_info\":\x7b\x7d\x7d"
      encode s config .empty (s.type "Note") m = .ok document
      ∧ ∃ any, AnyMessage.pack s "Note" m = .ok any ∧ ∃ n : Node, n.text = document
        ∧ encode s config .empty anyType ⟨anySlots any.typeUrl any.value, []⟩
          = .ok (n.inAny "Note").text
        ∧ ReadInside s config.registry "Note" n := by
  intro note s config m document
  have lawful : s.Lawful := lawful_schemaWith (by decide) (by decide) (by decide)
  have json : ∀ t ∈ [note], t.HasJson := List.forall_mem_singleton.mpr .members
  have plain : ∀ t ∈ [note], t.form ≠ .any := by decide
  have readable : m.Readable s (s.type "Note") :=
    ⟨⟨⟨rfl, ⟨⟨rfl, rfl, rfl⟩, rfl⟩, rfl⟩, rfl⟩, ⟨trivial, ⟨trivial, trivial, trivial⟩, trivial⟩,
      by decide, by decide⟩
  have known : KnowsInside s config.registry "Note" :=
    .inr ⟨by decide, rfl, ⟨["Note"]⟩, rfl, rfl⟩
  have unsigned : m.Everywhere s Unsigned .root (s.type "Note") :=
    ⟨nofun, trivial, ⟨nofun, trivial, trivial, trivial⟩, trivial⟩
  have written : encode s config .empty (s.type "Note") m = .ok document := by decide
  obtain ⟨same, any, packed, whole⟩ := encode_pack lawful json plain readable known
  rw [same unsigned, written] at whole
  obtain ⟨n, text, -, encoded, reads⟩ := whole
  refine ⟨written, any, packed, n, text.symm, encoded, reads _ known (fun _ => rfl) ?_⟩
  have long := nesting_le_text n
  rw [← text] at long
  exact Nat.le_trans long (by decide)

/-- A zero loses its sign on the way into an `Any`; a member that is called like the one with the
type URL is read from that; and a type whose full name has a slash is not found.
-/
theorem packed_otherwise
    : let packed (s : Schema) (config : Config) (name : String) (m : Message) :=
        (AnyMessage.pack s name m).map fun any =>
          encode s config .empty anyType ⟨anySlots any.typeUrl any.value, []⟩
      let accepts (s : Schema) (config : Config) (name document : String) : Bool :=
        (decodeInto s config.registry (s.type name) (s.empty name) (utf8 document)).2.isOk
      let s := schemaWith [
        ⟨"Odd", [⟨1, "kind", "@type", .single (.scalar .int32)⟩], false, .members⟩,
        ⟨"a/b", [], false, .members⟩]
      let config : Config := { registry := some ⟨["Odd", "a/b"]⟩ }
      let zero : Message := ⟨[.one (.scalar (.double 0x8000000000000000))], []⟩
      let kind : Message := ⟨[.one (.scalar (.int32 1))], []⟩
      encode s config .empty (s.type "google.protobuf.DoubleValue") zero = .ok "-0"
      ∧ packed s config "google.protobuf.DoubleValue" zero
        = .ok (.ok
          "\x7b\"@type\":\"type.googleapis.com/google.protobuf.DoubleValue\",\"value\":0\x7d")
      ∧ encode s config .empty (s.type "Odd") kind = .ok "\x7b\"kind\":1\x7d"
      ∧ packed s config "Odd" kind
        = .ok (.ok
          "\x7b\"@type\":\"type.googleapis.com/Odd\",\"kind\":1\x7d")
      ∧ accepts s config "Odd" "\x7b\"kind\":1\x7d"
      ∧ ¬accepts s config "google.protobuf.Any"
        "\x7b\"@type\":\"type.googleapis.com/Odd\",\"kind\":1\x7d"
      ∧ encode s config .empty (s.type "a/b") ⟨[], []⟩ = .ok "\x7b\x7d"
      ∧ packed s config "a/b" ⟨[], []⟩ = .ok (.error
        ⟨.marshal, "", .unresolvableTypeUrl "type.googleapis.com/a/b"⟩) := by
  decide +kernel

end Protobuf.Json
