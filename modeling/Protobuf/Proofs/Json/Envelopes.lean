import Protobuf.Proofs.Json.Places
import Protobuf.Proofs.Message.RoundTrip

/-! Reading an `Any`.  Its document holds that of the message inside it, as a value behind the type
URL or member by member; the message is read from there as it is read from its own document.
-/

namespace Protobuf.Json

open Text

/-- The document of an `Any` around that of the message in it: a well-known type stands behind the
type URL as a value of its own, and the members of another one stand there one by one.
-/
def Node.inAny (name : String) (n : Node) : Node :=
  if name ∈ wellKnownNames then
    .object [⟨"@type", .string (typeUrl name)⟩, ⟨"value", n⟩]
  else .object (⟨"@type", .string (typeUrl name)⟩ :: n.fields?.getD [])

section

variable {s : Schema} {registry : Option Registry} {name : String} {n : Node} {r : Reader}

-----------------------------------------------------------------------------------------
-- The member that names the type
-----------------------------------------------------------------------------------------

theorem Reader.Fronts.skip (h : r.Fronts n)
    : r.Took r.skip ∧ r.skip.Level r := by
  obtain ⟨more, faces⟩ := h.faces
  have skipped : r.skip = r.behind more [] := by
    rw [Reader.skip, faces.sound]
    simp only [faces.beginValue, faces.begun.scan (skipValue_of_levels h.levels faces.ends)]
    rfl
  rw [skipped]
  exact ⟨faces.took_behind [], rfl, rfl⟩

theorem Reader.Fronts.string {text : String} (h : r.Fronts (.string text))
    : ∃ r', r.string = (text, r') ∧ r.Took r' ∧ r'.Level r := by
  obtain ⟨more, faces⟩ := h.faces
  exact ⟨_, reads_string text r more faces, faces.took_behind [], rfl, rfl⟩

/-- The type URL is read, and then the payload behind it or from the start of the document; it makes
no difference whether the `Any` is empty or holds a message of the same type URL.
-/
theorem readAnyObject_of_fronts (read : MessageReader) {url : String} {others : List Field}
    (front : r.Fronts (.object (⟨"@type", .string url⟩ :: others)))
    : ∃ inner, inner.AtFields true others ∧ inner.Level r ∧ ∀ current,
        readAnyObject s read current r
          = if current = "" ∨ current = url then
              match resolve r.registry url with
              | none => (none, inner.latch (.unresolvableTypeUrl url))
              | some resolution =>
                  (if (readAnyPayload s read resolution r inner).2.fault.isSome then none
                    else some (url, (readAnyPayload s read resolution r inner).1),
                  (readAnyPayload s read resolution r inner).2)
            else (none, inner.latch (.anyTypeMismatch current url)) := by
  obtain ⟨r₁, entered, inside, level₁⟩ := front.enter_object
  obtain ⟨r₂, reached, front₂, _, level₂, behind⟩ := inside.nextKey_cons
  obtain ⟨r₃, named, took, level₃⟩ := front₂.string
  refine ⟨r₃, behind r₃ took, (level₃.trans level₂).trans level₁, fun current => ?_⟩
  have agrees : (!current.isEmpty && current != url) = !decide (current = "" ∨ current = url) := by
    by_cases empty : current = "" <;> by_cases same : current = url <;> simp [empty, same]
  rw [readAnyObject, entered]
  simp only [reached, if_true, named, took.sound, agrees]
  by_cases matching : current = "" ∨ current = url
  · cases resolve r.registry url <;>
      simp only [matching, decide_true, Bool.not_true, Bool.false_eq_true, if_false, if_true]
  · simp only [matching, decide_false, Bool.not_false, if_true, if_false]

-----------------------------------------------------------------------------------------
-- Payloads
-----------------------------------------------------------------------------------------

/-- The payload is the encoding of the message that the document of the value holds; and the reader
fails if it holds none.
-/
def Delivers (s : Schema) (registry : Option Registry) (name : String) (n : Node)
    (x : List UInt8 × Reader) : Prop :=
  match decodeInto s registry (s.type name) (s.empty name) (utf8 n.text) with
  | (m, .ok _) => x.1 = m.encoding s (s.type name) ∧ x.2.fault = none
  | (_, .error _) => x.2.fault.isSome

variable {x : List UInt8 × Reader}

theorem delivers_of_refused
    (refused : ¬∃ fields,
      (decodeInto s registry (s.type name) (s.empty name) (utf8 n.text)).2 = .ok fields)
    (failed : x.2.fault.isSome)
    : Delivers s registry name n x := by
  unfold Delivers
  rcases same : decodeInto s registry (s.type name) (s.empty name)
    (utf8 n.text) with ⟨m, _ | fields⟩
  · exact failed
  · exact absurd ⟨fields, by rw [same]⟩ refused

theorem not_ok_of_fault
    (failed : (readMessage s (s.type name) (s.empty name)
      (Reader.ofBytes (utf8 n.text) registry)).2.fault.isSome)
    : ¬∃ fields,
        (decodeInto s registry (s.type name) (s.empty name) (utf8 n.text)).2 = .ok fields := by
  rw [decodeInto_ok]
  rintro ⟨sound, _⟩
  rw [sound] at failed
  cases failed

/-- In front of a value there are not only blanks. -/
theorem Reader.Left.dropBlanks_ne {q : Reader} {more : List UInt8} (left : r.Left q)
    (faces : r.Faces n more)
    : dropBlanks q.rest ≠ [] := by
  obtain ⟨b, bytes, written, -⟩ := n.utf8_text_cons
  have same : dropBlanks q.rest = r.rest := by
    rcases left.rest with same | same
    · rw [same, faces.dropBlanks]
    · rw [same, dropBlanks_dropBlanks, faces.dropBlanks]
  rw [same, faces.text, written]
  exact List.cons_ne_nil _ _

theorem delivers_of_took
    (took : (Reader.ofBytes (utf8 n.text) registry).Took
      (readMessage s (s.type name) (s.empty name) (Reader.ofBytes (utf8 n.text) registry)).2)
    (payload : x.1 = (readMessage s (s.type name) (s.empty name)
      (Reader.ofBytes (utf8 n.text) registry)).1.encoding s (s.type name))
      (sound : x.2.fault = none)
    : Delivers s registry name n x := by
  have rest := took.rest_eq (Reader.faces_ofBytes registry n)
  have blank : dropBlanks (readMessage s (s.type name) (s.empty name)
      (Reader.ofBytes (utf8 n.text) registry)).2.rest = [] := by
    rw [rest]
    rfl
  unfold Delivers
  rw [decodeInto]
  simp only [Reader.finish_of_blank took.sound blank]
  exact ⟨payload, sound⟩

/-- The encoding of what was read, whether the reader has failed or not. -/
theorem readPayload_of_lawful (lawful : s.Lawful) (read : MessageReader) (r : Reader)
    : readPayload s read name r
        = ((read (s.type name) (s.empty name) r).1.encoding s (s.type name),
          (read (s.type name) (s.empty name) r).2) := by
  rw [readPayload]
  simp only [Schema.encode_eq lawful.sized (lawful.type name).form]

variable (lawful : s.Lawful) (flat : ∀ name, name ∉ wellKnownNames → (s.type name).form ≠ .any)

include lawful flat

/-- A well-known type is read from the value of the only other member. -/
theorem delivers_wellKnown (room : n.nesting < maxDepth) (at_ : r.AtFields true [⟨"value", n⟩])
    (level : r.Level (.ofBytes (utf8 n.text) registry)) (fresh : Reader)
    : Delivers s registry name n (readAnyPayload s (readMessage s) (.wellKnown name) fresh r) := by
  obtain ⟨q, reached, front, pending, same, behind⟩ := at_.nextKey_cons
  have onward (key : String) (payload : List UInt8) (r : Reader) : r.Onward
      (if key = "value" then readPayload s (readMessage s) name r else (payload, r.skip)).2 := by
    split
    · exact (program_payload s name).onward (onward_readMessage flat) r
    · exact (program_skip payload).onward (onward_readMessage flat) r
  have own := portable_readMessage flat (s.type name) (s.empty name) n
    (.ofBytes (utf8 n.text) registry) q (Reader.fronts_ofBytes registry room) front
    (same.trans level).symm
  simp only [readAnyPayload]
  rw [Reader.keys_unfold onward, reached]
  simp only [if_true, readPayload_of_lawful lawful]
  generalize reads : readMessage s (s.type name) (s.empty name) q = y at own ⊢
  generalize bare : readMessage s (s.type name) (s.empty name) (.ofBytes (utf8 n.text) registry) = x
    at own
  cases own with
  | failed first second =>
      refine delivers_of_refused (not_ok_of_fault (bare ▸ first)) ?_
      rwa [keys_of_fault _ _ second]
  | left m _ first second =>
      refine delivers_of_refused ?_
        (Reader.isSome_keys_of_pending _ _ second.sound (second.pending.trans pending))
      rw [decodeInto_ok, bare]
      rintro ⟨-, blank⟩
      exact first.dropBlanks_ne (Reader.faces_ofBytes registry n) blank
  | took m _ first second =>
      obtain ⟨q', ended, sound, _⟩ := (behind _ second).nextKey_nil
      refine delivers_of_took (bare ▸ first) ?_ ?_
      · rw [Reader.keys, ended, bare]
      · rwa [Reader.keys, ended]

/-- A message of another type is read from the start of the document; the type URL is no member of
it.
-/
theorem delivers_registered {fields : List Field} {url : String}
    (form : (s.type name).form = .members) (unnamed : (s.type name).declared? "@type" = none)
    (front : r.Fronts (.object (⟨"@type", .string url⟩ :: fields)))
    (bareFront : (Reader.ofBytes (utf8 (Node.object fields).text) registry).Fronts (.object fields))
    (level : r.Level (.ofBytes (utf8 (Node.object fields).text) registry)) (inner : Reader)
    : Delivers s registry name (.object fields)
        (readAnyPayload s (readMessage s) (.registered name) r inner) := by
  let t := s.type name
  let m := s.empty name
  have slotted : slotsSlotted s t.members m.slots :=
    (m.slotted_of_typed (Message.Conforms.typed m (lawful.conforms_empty name))).slots form
  have onward (key : String) (slots : List Slot) (r : Reader)
      : r.Onward (readKey s (readMessage s) t key slots r).2 :=
    (program_key s t key slots).onward (onward_readMessage flat) r
  have unfolded (r : Reader) : readMessage s t m r
      = (⟨(r.object (readKey s (readMessage s) t) m.slots).1, m.unknown⟩,
        (r.object (readKey s (readMessage s) t) m.slots).2) := by
    rw [readMessage_unfold flat]
    simp only [readSlots, show t.form = .members from form]
  obtain ⟨q₁, entered₁, at₁, level₁⟩ := bareFront.enter_object
  obtain ⟨q₂, entered₂, at₂, level₂⟩ := front.enter_object
  obtain ⟨p₂, reached, typeFront, -, level₃, behind⟩ := at₂.nextKey_cons
  obtain ⟨took, level₄⟩ := typeFront.skip
  -- Behind the type URL both readers face the same members.
  have skipped : readKey s (readMessage s) t "@type" m.slots p₂ = (m.slots, p₂.skip) := by
    rcases readKey_cases (readMessage s) form "@type" slotted p₂ with ⟨_, same⟩
      | ⟨_, _, _, declared, _⟩ | ⟨_, _, _, declared, _⟩
    · exact same
    · cases unnamed.symm.trans declared
    · cases unnamed.symm.trans declared
  have accord := accord_keys onward
    (fun field _ slots => portable_readKey flat t field.key slots field.value) at₁ (behind _ took)
    (level₁.trans ((((level₄.trans level₃).trans level₂).trans level).symm)) m.slots
  have object₁ : (Reader.ofBytes (utf8 (Node.object fields).text) registry).object
      (readKey s (readMessage s) t) m.slots = q₁.keys (readKey s (readMessage s) t) m.slots := by
    rw [Reader.object, entered₁]
  have object₂ : r.object (readKey s (readMessage s) t) m.slots
      = p₂.skip.keys (readKey s (readMessage s) t) m.slots := by
    rw [Reader.object, entered₂]
    simp only
    rw [Reader.keys_unfold onward, reached]
    simp only [skipped]
  have bare := unfolded (.ofBytes (utf8 (Node.object fields).text) registry)
  simp only [readAnyPayload, readPayload_of_lawful lawful]
  rw [object₁] at bare
  rw [unfolded r, object₂]
  rcases accord with ⟨failed₁, failed₂⟩ | ⟨same, sound₁, sound₂, -⟩
  · refine delivers_of_refused (not_ok_of_fault ?_) failed₂
    rw [bare]
    exact failed₁
  · refine delivers_of_took (Reader.Outcome.took ?_ ?_) ?_ sound₂
    · refine outcome_readMessage_of_fits flat ?_ rfl
      unfold Fits
      rw [form]
      trivial
    · rw [bare]
      exact sound₁
    · rw [bare, same]

-----------------------------------------------------------------------------------------
-- Documents
-----------------------------------------------------------------------------------------

omit lawful in
/-- A document that holds an `Any` is read as its object says, and the payload is appended. -/
theorem readMessage_any (registry : Option Registry) {whole : Node}
    (levels : whole.levels ≤ maxDepth) (current : String) (value : List UInt8)
    : let r := Reader.ofBytes (utf8 whole.text) registry
      let object := readAnyObject s (readMessage s) current r
      readMessage s WellKnown.anyType ⟨anySlots current value, []⟩ r
        = (⟨object.1.elim (anySlots current value) fun (url, payload) =>
              anySlots url (value ++ payload), []⟩,
          (r.behind [] []).join object.2) := by
  intro r object
  have raw : r.rawValue = (some (utf8 whole.text), r.behind [] []) :=
    rawValue_of_levels (Reader.faces_ofBytes registry whole) levels
  rw [readMessage_unfold flat]
  simp only [readSlots, WellKnown.anyType, readAny, raw, anySlots]
  have fresh
      : readAnyObject s (readMessage s) current ((r.behind [] []).sub (utf8 whole.text))
        = object := rfl
  rw [fresh]
  clear_value object
  rcases object with ⟨_ | ⟨url, payload⟩, inner⟩ <;> rfl

/-- An `Any` is read from a document exactly if the message inside it is read from its own, and it
holds the encoding of that message then.
-/
theorem decodeInto_inAny
    (known : name ∈ wellKnownNames ∧ resolve registry (typeUrl name) = some (.wellKnown name)
      ∨ name ∉ wellKnownNames ∧ resolve registry (typeUrl name) = some (.registered name)
        ∧ (s.type name).form = .members ∧ (s.type name).declared? "@type" = none
        ∧ ∃ fields, n = .object fields)
    (shallow : n.nesting + 1 < maxDepth)
    : match decodeInto s registry (s.type name) (s.empty name) (utf8 n.text) with
      | (m, .ok _) =>
          decodeInto s registry WellKnown.anyType ⟨anySlots "" [], []⟩ (utf8 (n.inAny name).text)
            = (⟨anySlots (typeUrl name) (m.encoding s (s.type name)), []⟩, .ok .empty)
      | (_, .error _) => ∃ fault,
          (decodeInto s registry WellKnown.anyType ⟨anySlots "" [], []⟩
            (utf8 (n.inAny name).text)).2
            = .error fault := by
  let r := Reader.ofBytes (utf8 (n.inAny name).text) registry
  have delivered : ∃ x, Delivers s registry name n x ∧ (n.inAny name).nesting < maxDepth
      ∧ readAnyObject s (readMessage s) "" r
        = (if x.2.fault.isSome then none else some (typeUrl name, x.1), x.2) := by
    rcases known with ⟨wellKnown, resolved⟩ | ⟨other, resolved, form, unnamed, fields, rfl⟩
    · have whole : n.inAny name = .object [⟨"@type", .string (typeUrl name)⟩, ⟨"value", n⟩] :=
        if_pos wellKnown
      have room : (n.inAny name).nesting < maxDepth := by
        rw [whole]
        simp only [Node.nesting, fieldsNesting]
        omega
      have front : r.Fronts (n.inAny name) := Reader.fronts_ofBytes registry room
      rw [whole] at front
      obtain ⟨inner, at_, level, same⟩ := readAnyObject_of_fronts (s := s) (readMessage s) front
      refine ⟨_, delivers_wellKnown lawful flat (by omega) at_ (level.trans ⟨rfl, rfl⟩) r, room, ?_⟩
      rw [same, if_pos (.inl rfl), show resolve r.registry (typeUrl name) = _ from resolved]
    · have whole : (Node.object fields).inAny name
          = .object (⟨"@type", .string (typeUrl name)⟩ :: fields) := if_neg other
      have room : ((Node.object fields).inAny name).nesting < maxDepth := by
        rw [whole]
        simp only [Node.nesting, fieldsNesting] at shallow ⊢
        omega
      have front : r.Fronts ((Node.object fields).inAny name) := Reader.fronts_ofBytes registry room
      rw [whole] at front
      obtain ⟨inner, _, _, same⟩ := readAnyObject_of_fronts (s := s) (readMessage s) front
      refine ⟨_, delivers_registered lawful flat form unnamed front
        (Reader.fronts_ofBytes registry (by omega)) ⟨rfl, rfl⟩ inner, room, ?_⟩
      rw [same, if_pos (.inl rfl), show resolve r.registry (typeUrl name) = _ from resolved]
  obtain ⟨x, delivers, room, object⟩ := delivered
  have read := readMessage_any flat registry
    (Nat.le_trans (Node.levels_bounds _).2 room) "" []
  dsimp only at read
  rw [show Reader.ofBytes _ registry = r from rfl, object] at read
  unfold Delivers at delivers
  generalize decodeInto s registry (s.type name) (s.empty name) (utf8 n.text) = own at delivers ⊢
  rcases own with ⟨m, _ | fields⟩
  · obtain ⟨fault, failed⟩ := Option.isSome_iff_exists.mp delivers
    refine ⟨fault, decodeInto_of_fault ?_⟩
    rw [show Reader.ofBytes _ registry = r from rfl, read]
    exact failed
  · obtain ⟨payload, sound⟩ := delivers
    rw [sound, payload] at read
    have ended : (r.behind [] []).join x.2 = r.behind [] [] := by
      rw [Reader.join, sound]
      rfl
    rw [ended] at read
    rw [decodeInto, show Reader.ofBytes _ registry = r from rfl, read]
    rfl

end

end Protobuf.Json
