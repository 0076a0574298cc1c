import Protobuf.Proofs.Json.Writing
import Protobuf.Proofs.Message.RoundTrip

/-! Whatever the writer produces is a JSON text.  An `Any` is written with room for as many others
as can stand inside it, because its payload is longer than theirs; so the writer spells out the tree
of every message.
-/

namespace Protobuf.Json

open FieldMask Wire

-----------------------------------------------------------------------------------------
-- Payloads inside payloads
-----------------------------------------------------------------------------------------

/-- A byte string that is read is shorter than the input, for its length stands there too. -/
theorem length_of_readBytes {type : ScalarType} {data v rest : List UInt8}
    (h : Wire.readScalar type data = .ok (.bytes v) rest)
    : v.length < data.length := by
  have typed := hasType_readScalar type _ _ _ h
  cases type <;> try cases typed
  rename_i capacity
  simp only [Wire.readScalar, Bind.bind, EStateM.bind] at h
  cases read : Decoder.lengthDelimited data with
  | error e rest => simp [read] at h
  | ok payload behind =>
      simp only [read] at h
      split at h
      · cases h
        obtain ⟨length, nonempty, rfl⟩ := Decoder.split_of_lengthDelimited read
        have := List.length_pos_iff.mpr nonempty
        simp only [List.length_append]
        omega
      · cases h

/-- What a scalar inside a payload can be: no text but the empty one if the payload is empty, and no
byte string that is as long as the payload otherwise.
-/
def Inside (payload : List UInt8) : Scalar → Prop
  | .string text => payload = [] → text = ""
  | .bytes v => payload ≠ [] → v.length < payload.length
  | _ => True

theorem sourced_inside (payload : List UInt8)
    : Sourced (Inside payload) payload.length where
  default type := by
    cases type with
    | string capacity => exact fun _ => rfl
    | bytes capacity => exact fun nonempty => List.length_pos_iff.mpr nonempty
    | _ => trivial
  read type data v rest short read := by
    cases v with
    | string text =>
        intro empty
        rw [empty, List.length_nil, Nat.le_zero, List.length_eq_zero_iff] at short
        have consumed := consumes_readScalar type data
        rw [read, short] at consumed
        exact absurd consumed (Nat.not_lt_zero _)
    | bytes v => exact fun _ => Nat.lt_of_lt_of_le (length_of_readBytes read) short
    | _ => trivial

/-- Room for a payload is room for an `Any` inside it. -/
theorem room_inside {payload inner : List UInt8} {url : String} {depth : Nat}
    (text : Inside payload (.string url)) (bytes : Inside payload (.bytes inner))
    (room : payload.length + 1 ≤ depth)
    : (url = "" ∧ 1 ≤ depth) ∨ inner.length + 2 ≤ depth := by
  by_cases empty : payload = []
  · exact .inl ⟨text empty, by omega⟩
  · have := bytes empty
    exact .inr (by omega)

-----------------------------------------------------------------------------------------
-- Messages inside an `Any`
-----------------------------------------------------------------------------------------

variable {s : Schema} {config : Config} {mask : PathSet} {path : Path} {any : AnyWriter}
  {tree : AnyTree} {w inner : Writer} {url name : String} {payload : List UInt8}

theorem spells_payload (name : String) (lawful : s.Lawful) (json : s.HasJson)
    (anySpells : SpellsAny config .empty (Inside payload) any tree)
    (place : w.At config .empty path)
    : Spells w (writePayload s any name payload w)
        (payloadNode s config tree path name payload) := by
  unfold writePayload payloadNode
  cases accepted : s.decode name payload with
  | error e => exact .latch w _
  | ok m =>
      have sound := lawful.sound_decode accepted
      exact spells_message json anySpells m (json.type name) (Message.Conforms.typed m sound.1)
        (Schema.Sized.all_decode lawful.sized (sourced_inside payload) accepted) place

/-- A document that was written apart is taken over with its fault. -/
theorem spells_joined {n? : Option Node} (h : Spells w.subMessage inner n?)
    : Spells w ((w.join inner).raw inner.output) n? := by
  obtain ⟨fault, output, config, path, mask⟩ := w
  unfold Spells Emits at h ⊢
  cases fault with
  | some e =>
      simp only [Writer.subMessage] at h
      subst h
      rfl
  | none =>
      simp only [Writer.subMessage] at h
      cases n? with
      | some n =>
          simp only [Option.map_some] at h
          subst h
          simp [Writer.join, Writer.raw]
      | none =>
          simp only [Option.map_none] at h
          obtain ⟨e, text, rfl⟩ := h
          exact ⟨e, output, rfl⟩

theorem fieldsText_true (fields : List Field)
    : fieldsText true fields = (if fields.isEmpty then "" else ",") ++ fieldsText false fields := by
  cases fields with
  | nil => rfl
  | cons field fields =>
      obtain ⟨key, n⟩ := field
      simp [fieldsText, String.append_assoc]

/-- Members are some text, for each has a key. -/
theorem toList_fieldsText {fields : List Field}
    : (fieldsText false fields).toList = [] ↔ fields = [] := by
  cases fields with
  | nil => simp [fieldsText]
  | cons field fields =>
      obtain ⟨key, n⟩ := field
      simp [fieldsText, stringLiteral, String.toList_append]

/-- Only the texts of objects begin with a brace. -/
theorem object_of_brace {n : Node} {rest : List Char} (h : n.text.toList = '\x7b' :: rest)
    : ∃ fields, n = .object fields := by
  cases n with
  | object fields => exact ⟨fields, rfl⟩
  | null => simp [Node.text] at h
  | bool v => cases v <;> simp [Node.text] at h
  | string v => simp [Node.text, stringLiteral] at h
  | array items => simp [Node.text, String.toList_append] at h
  | number v =>
      obtain ⟨c, others, same, first⟩ := v.legal.exists_cons
      simp only [Node.text, String.toList_ofList, same, List.cons.injEq] at h
      rw [h.1] at first
      simp at first

/-- A registered message gives its members to the object around it: the brace at its front is cut
off, and a comma stands in its place if there are members.
-/
theorem emits_registered {n? : Option Node} (cause : Cause) (h : Spells w.subMessage inner n?)
    : Emits w
        (match (w.join inner).fault with
          | some _ => w.join inner
          | none =>
              match inner.output.toList with
              | '\x7b' :: rest =>
                  (if rest = ['\x7d'] then w.join inner else (w.join inner).comma).raw
                    (String.ofList rest)
              | _ => (w.join inner).latch cause)
        ((n?.bind Node.fields?).map fun fields => fieldsText true fields ++ "\x7d") := by
  obtain ⟨fault, output, config, path, mask⟩ := w
  unfold Spells Emits at h
  cases fault with
  | some e =>
      simp only [Writer.subMessage] at h
      subst h
      rfl
  | none =>
      simp only [Writer.subMessage] at h
      cases n? with
      | none =>
          simp only [Option.map_none] at h
          obtain ⟨e, text, rfl⟩ := h
          exact ⟨e, output, rfl⟩
      | some n =>
          simp only [Option.map_some] at h
          subst h
          simp only [Writer.join, String.empty_append]
          split
          · rename_i rest brace
            obtain ⟨fields, rfl⟩ := object_of_brace brace
            have behind : rest = (fieldsText false fields).toList ++ ['\x7d'] := by
              simpa [Node.text, String.toList_append] using brace.symm
            have text : String.ofList rest = fieldsText false fields ++ "\x7d" := by
              rw [behind]
              exact String.toList_injective (by simp)
            have empty : rest = ['\x7d'] ↔ fields = [] := by
              rw [behind, ← toList_fieldsText]
              simp
            simp only [Option.bind_some, Node.fields?, Option.map_some, text, fieldsText_true]
            by_cases none : fields = []
            · rw [if_pos (empty.mpr none)]
              subst none
              exact .raw _ _
            · rw [if_neg (mt empty.mp none), List.isEmpty_eq_false_iff.mpr none]
              simp only [Bool.false_eq_true, if_false, String.append_assoc]
              exact (Emits.raw _ ",").append (.raw _ _)
          · rename_i other
            cases n with
            | object fields =>
                refine (other ((fieldsText false fields).toList ++ ['\x7d']) ?_).elim
                simp [Node.text, String.toList_append]
            | _ => exact .latch _ cause

theorem at_subMessage (place : w.At config mask path)
    : w.subMessage.At config .empty path :=
  ⟨place.1, rfl, place.2.2⟩

/-- The object of an `Any` that names a type, by cases on how the message inside it is written. -/
theorem spells_resolved (lawful : s.Lawful) (json : s.HasJson)
    (anySpells : SpellsAny config .empty (Inside payload) any tree)
    (place : w.At config mask path) (resolution : Resolution)
    : Spells w
        (match resolution with
          | .wellKnown name =>
              writeWellKnown s any name payload ((w.beginObject.key "@type").string url)
          | .registered name =>
              writeRegistered s any name payload ((w.beginObject.key "@type").string url))
        (resolvedNode s config tree path url payload resolution) := by
  have front : Emits w ((w.beginObject.key "@type").string url)
      (some ("\x7b" ++ (stringLiteral "@type" ++ ":") ++ stringLiteral url)) :=
    ((Emits.raw w "\x7b").append (.key _ "@type")).append (.raw _ (stringLiteral url))
  have place := front.at_ place
  generalize (w.beginObject.key "@type").string url = opened at front place ⊢
  cases resolution with
  | wellKnown name =>
      have key := (Emits.raw opened ",").append (.key _ "value")
      have message := spells_joined
        (spells_payload name lawful json anySpells (at_subMessage (key.at_ place)))
      have whole := ((front.append key).append message).append (.raw _ "\x7d")
      simp only [resolvedNode]
      cases tree : payloadNode s config tree path name payload with
      | none =>
          rw [tree] at whole
          exact whole
      | some n =>
          rw [tree] at whole
          have text : (Node.object [⟨"@type", .string url⟩, ⟨"value", n⟩]).text
              = "\x7b" ++ (stringLiteral "@type" ++ ":") ++ stringLiteral url
                ++ ("," ++ (stringLiteral "value" ++ ":")) ++ n.text ++ "\x7d" := by
            simp [Node.text, fieldsText, String.append_assoc]
          rw [Spells, Option.map_some, Option.map_some, text]
          exact whole
  | registered name =>
      have message := spells_payload name lawful json anySpells (at_subMessage place)
      have whole := front.append
        (emits_registered (.custom (name ++ " did not marshal to a JSON object")) message)
      simp only [resolvedNode]
      cases inner : (payloadNode s config tree path name payload).bind Node.fields? with
      | none =>
          rw [inner] at whole
          exact whole
      | some fields =>
          rw [inner] at whole
          have text : (Node.object (⟨"@type", .string url⟩ :: fields)).text
              = "\x7b" ++ (stringLiteral "@type" ++ ":") ++ stringLiteral url
                ++ (fieldsText true fields ++ "\x7d") := by
            simp [Node.text, fieldsText, String.append_assoc]
          rw [Spells, Option.map_some, Option.map_some, text]
          exact whole

/-- An `Any` is written if there is room for those that can stand inside it, by induction on the
room.
-/
theorem spells_anyWithin (lawful : s.Lawful) (json : s.HasJson) {depth : Nat}
    (room : (url = "" ∧ 1 ≤ depth) ∨ payload.length + 2 ≤ depth)
    (place : w.At config mask path)
    : Spells w (writeAnyWithin s depth url payload w)
        (anyNodeWithin s config depth path url payload) := by
  induction depth generalizing url payload w mask path with
  | zero => rcases room with ⟨-, room⟩ | room <;> omega
  | succ depth ih =>
      simp only [writeAnyWithin, anyNodeWithin]
      split
      · exact spells_object (some []) (emits_none false _)
      · rename_i named
        have room : payload.length + 1 ≤ depth := by
          rcases room with ⟨rfl, -⟩ | room
          · exact absurd rfl named
          · omega
        have anySpells : SpellsAny config .empty (Inside payload) (writeAnyWithin s depth)
            (anyNodeWithin s config depth) :=
          fun _ _ _ _ text bytes place => ih (room_inside text bytes room) place
        rw [place.1]
        cases resolve config.registry url with
        | none => exact .latch w _
        | some resolution =>
            exact spells_resolved lawful json anySpells place resolution

/-- The document of a message is the text of its tree, and a message without a tree has none. -/
theorem encode_treeOf (config : Config) (mask : PathSet) (lawful : s.Lawful) (json : s.HasJson)
    {t : MessageType} {m : Message} (form : t.HasJson) (typed : m.Typed s t)
    : (encode s config mask t m).toOption = (treeOf s config mask t m).map Node.text := by
  have anySpells : SpellsAny config mask (fun _ => True) (writeAny s) (anyNode s config) :=
    fun _ _ _ _ _ _ place => spells_anyWithin lawful json (.inr (Nat.le_refl _)) place
  have written := spells_message json anySpells m form typed (m.all_of_forall fun _ => trivial)
    (show (Writer.ofConfig config mask).At config mask .root from ⟨rfl, rfl, rfl⟩)
  unfold encode treeOf
  unfold Spells Emits at written
  simp only [Writer.ofConfig] at written ⊢
  cases tree : messageNode s config (anyNode s config) mask .root t m with
  | some n =>
      simp only [tree, Option.map_some] at written
      rw [written]
      simp [Writer.result, Except.toOption]
  | none =>
      simp only [tree, Option.map_none] at written
      obtain ⟨fault, output, same⟩ := written
      rw [same]
      rfl

theorem hasJson_wellKnown
    : ∀ t ∈ WellKnown.types, t.HasJson := by
  intro t listed
  simp only [WellKnown.types, WellKnown.wrapperTypes, List.cons_append, List.nil_append,
    List.mem_cons, List.not_mem_nil, or_false] at listed
  rcases listed with rfl | rfl | rfl | rfl | rfl | rfl | rfl | rfl | rfl | rfl | rfl | rfl | rfl
    | rfl | rfl | rfl | rfl
  · exact .any
  · exact .duration
  · exact .timestamp
  · exact .struct
  · refine .value (fun a listed => ?_)
    simp only [List.mem_cons, List.not_mem_nil, or_false] at listed
    rcases listed with rfl | rfl | rfl | rfl | rfl | rfl <;> rfl
  · exact .listValue
  · exact .fieldMask
  · exact .members
  all_goals exact .wrapper

theorem hasJson_schemaWith {own : List MessageType} (json : ∀ t ∈ own, t.HasJson)
    : (WellKnown.schemaWith own).HasJson := by
  intro t listed
  rcases List.mem_append.mp listed with listed | listed
  · exact json t listed
  · exact hasJson_wellKnown t listed

-----------------------------------------------------------------------------------------
-- Documents
-----------------------------------------------------------------------------------------

/-- What a message is written as is one JSON value and nothing else, for all types of objects and
all well-known types, whatever mask, names and registry there are.
-/
theorem spells_encode {own : List MessageType} (lawful : (WellKnown.schemaWith own).Lawful)
    (json : ∀ t ∈ own, t.HasJson) {name : String} {m : Message} {document : String}
    (typed : m.Typed (WellKnown.schemaWith own) ((WellKnown.schemaWith own).type name))
    (written : encode (WellKnown.schemaWith own) config mask
      ((WellKnown.schemaWith own).type name) m = .ok document)
    : ∃ n : Node, n.Spells document.toList := by
  have json : (WellKnown.schemaWith own).HasJson := by
    intro t listed
    rcases List.mem_append.mp listed with listed | listed
    · exact json t listed
    · exact hasJson_wellKnown t listed
  have tree := encode_treeOf config mask lawful json (json.type name) typed
  rw [written] at tree
  obtain ⟨n, -, rfl⟩ := Option.map_eq_some_iff.mp tree.symm
  exact ⟨n, n.spells_text⟩

/-- A text that needs escapes, and behind it an `Any` that holds a registered message with an empty
`Any`; the mask names a field that is not set.
-/
theorem spells_encode_registered
    : let note : MessageType := ⟨"Note", [
        ⟨1, "text", "text", .single (.scalar (.string none))⟩,
        ⟨2, "stars", "stars", .optional (.scalar .int32)⟩,
        ⟨3, "more_info", "moreInfo", .optional (.message "google.protobuf.Any")⟩], false, .members⟩
      let config : Config := ⟨false, true, false, some ⟨["Note"]⟩⟩
      let inside : Message :=
        ⟨[.one (.scalar (.string "x/Note")), .one (.scalar (.bytes [0x0a, 1, 97, 0x1a, 0]))], []⟩
      let m : Message := ⟨[.one (.scalar (.string "\"\n")), .none, .one (.message inside)], []⟩
      let document := "\x7b\"text\":\"\\\"\\n\",\"stars\":null,\"moreInfo\":"
        ++ "\x7b\"@type\":\"x/Note\",\"text\":\"a\",\"moreInfo\":\x7b\x7d\x7d\x7d"
      encode (WellKnown.schemaWith [note]) config ⟨["stars"]⟩ note m = .ok document
      ∧ ∃ n : Node, n.Spells document.toList := by
  intro note config inside m document
  have lawful : (WellKnown.schemaWith [note]).Lawful :=
    WellKnown.lawful_schemaWith (by decide) (by decide) (by decide)
  have json : ∀ t ∈ [note], t.HasJson := List.forall_mem_singleton.mpr .members
  have typed : m.Typed (WellKnown.schemaWith [note])
      ((WellKnown.schemaWith [note]).type "Note") :=
    ⟨⟨rfl, trivial, ⟨⟨rfl, rfl, rfl⟩, rfl⟩, rfl⟩, rfl⟩
  have written : encode (WellKnown.schemaWith [note]) config ⟨["stars"]⟩ note m = .ok document := by
    decide +kernel
  exact ⟨written, spells_encode lawful json typed written⟩

end Protobuf.Json
