import Protobuf.Proofs.Json.Envelopes
import Protobuf.Proofs.Json.Forms

/-! Messages inside an `Any` that come back.  The bytes of the `Any` are decoded when it is written
and made anew when it is read; they need not be the same bytes, but are written in the same way.
-/

namespace Protobuf.Json

open FieldMask Number Text WellKnown Wire

variable {s : Schema} {path : Path} {url name : String} {n : Node} {m : Message}

/-- The URL of a well-known type is resolved without a registry. -/
theorem resolve_of_none (registry : Option Registry)
    (resolved : resolve none url = some (.wellKnown name))
    : resolve registry url = some (.wellKnown name) := by
  unfold resolve at resolved ⊢
  simp only at resolved ⊢
  split at resolved
  · rename_i known
    rw [if_pos known]
    exact resolved
  · cases resolved

/-- The object of an `Any` is read from a document of its own, unless it nests too deep for that. -/
def Opens (s : Schema) (n : Node) (path : Path) (payload? : Option (String × List UInt8)) : Prop :=
  ∀ read (r : Reader), Serves s r.rest.length read → r.Faces n [] → r.frames = [] → r.path = path
    → readAnyObject s read "" r = (payload?, r.behind [] [])
      ∨ (readAnyObject s read "" r).1 = none ∧ (readAnyObject s read "" r).2.fault.isSome
        ∧ maxDepth ≤ n.nesting

/-- An `Any` is cut out of the document as a document of its own. -/
theorem Opens.takes (lawful : s.Lawful) (known : s.HasWellKnown)
    {payload? : Option (String × List UInt8)} (h : Opens s n path payload?) (limit : Nat)
    : Takes 1 limit (readMessage s anyType (s.empty anyType.name)) n path
        ⟨payload?.elim (anySlots "" []) fun named => anySlots named.1 named.2, []⟩ [] := by
  have empty : s.empty anyType.name = ⟨anySlots "" [], []⟩ := by
    rw [lawful.empty_eq, known anyType (by simp [types])]
    rfl
  rw [empty]
  refine takes_slots (fun read r more faces place serves => ?_) limit
  simp only [readSlots, anyType, readAny, anySlots]
  have ends : Ends [] := by
    intro b first
    cases first
  rcases rawValue_of_faces faces with ⟨-, raw⟩ | ⟨deep, refused, failed⟩
  · have less : (utf8 n.text).length ≤ r.rest.length := by
      rw [faces.text, List.length_append]
      exact Nat.le_add_right _ _
    simp only [raw]
    rcases h read ((r.behind more []).sub (utf8 n.text))
      (fun t m r short => serves t m r (Nat.lt_of_lt_of_le short less))
      ⟨faces.sound, (List.append_nil _).symm, ends⟩ rfl place with opened | ⟨refused, failed, deep⟩
    · refine .inl ?_
      rw [opened]
      rcases payload? with _ | ⟨url, payload⟩ <;> rfl
    · refine .inr ⟨?_, by omega⟩
      rw [← Prod.mk.eta (p := readAnyObject _ _ _ _), refused]
      exact failed
  · have bounds := n.levels_bounds
    refine .inr ⟨?_, by omega⟩
    rw [← Prod.mk.eta (p := r.rawValue), refused]
    exact failed

theorem opens_empty (s : Schema) (path : Path)
    : Opens s (.object []) path none := by
  intro read r serves faces frames place
  have text : utf8 (Node.object []).text ++ []
    = 123 :: (utf8 (fieldsText false [] ++ "\x7d") ++ []) :=
    rfl
  rcases enter_of_faces .object faces text (Nat.succ_pos _) with entered | ⟨-, -, deep⟩
  · refine .inl ?_
    have ended : Reader.nextKey
      (r.inside .object (!false) (utf8 (fieldsText false [] ++ "\x7d") ++ []) [])
        = (none, r.behind [] []) := nextKey_end faces.sound false
    rw [readAnyObject, entered]
    simp only [Bool.not_false] at ended
    simp only [ended]
  · rw [frames] at deep
    exact absurd deep (by decide)

/-- The type URL is read, and then the message behind it. -/
theorem opens_wellKnown (lawful : s.Lawful) (resolved : resolve none url = some (.wellKnown name))
    {t : MessageType} (own : s.type name = t)
    (h : ∀ limit, Takes 1 limit (readMessage s t (s.empty name)) n path m [])
    : Opens s (.object [⟨"@type", .string url⟩, ⟨"value", n⟩]) path
        (some (url, m.encoding s t)) := by
  subst own
  intro read r serves faces frames place
  have text : utf8 (Node.object [⟨"@type", .string url⟩, ⟨"value", n⟩]).text ++ []
      = 123 :: (utf8 (fieldsText false [⟨"@type", .string url⟩, ⟨"value", n⟩] ++ "\x7d")
        ++ []) := by
    rw [Node.text, String.append_assoc, utf8_append]
    rfl
  rcases enter_of_faces .object faces text (Nat.succ_pos _) with entered | ⟨refused, failed, deep⟩
  · have reached := nextKey_inside faces.sound false "@type" (.string url) [⟨"value", n⟩] [] []
    simp only [Bool.not_false] at reached
    have ends := ends_fieldsText [⟨"value", n⟩] []
    have named := reads_string url _ _
      (show Reader.Faces (r.reached .object (utf8 (Node.string url).text
          ++ (utf8 (fieldsText true [⟨"value", n⟩] ++ "\x7d") ++ [])) []) (.string url) _ from
        ⟨by simp only [Reader.reached, Reader.inside, faces.sound], rfl, ends⟩)
    have short : (utf8 (fieldsText true [⟨"value", n⟩] ++ "\x7d") ++ []).length
      ≤ r.rest.length := by
      rw [faces.text, text, utf8_fieldsText_cons false]
      simp only [List.length_append, List.length_cons]
      omega
    have payload : Takes 1 r.rest.length (fun inner => readPayload s read name inner) n r.path
        (m.encoding s (s.type name)) [] := by
      simp only [readPayload_of_lawful lawful]
      rw [place]
      exact (serves.takes (h _)).map fun m => m.encoding s (s.type name)
    have inside : TakesFields 1 r.rest.length (fun key payload inner =>
        if key = "value" then readPayload s read name inner else (payload, inner.skip)) r.path
        [⟨"value", n⟩] [] (m.encoding s (s.type name)) ([] ++ []) := by
      refine .cons ?_ (.nil _)
      simpa only [if_true] using payload
    have keys := keys_inside inside faces.sound true [] short
    generalize utf8 (fieldsText true [⟨"value", n⟩] ++ "\x7d") ++ [] = bytes at reached named keys
    obtain ⟨x, same⟩ : ∃ x, x = readAnyPayload s read (.wellKnown name) r
        (r.inside .object (!true) bytes []) := ⟨_, rfl⟩
    have object : readAnyObject s read "" r
        = (if x.2.fault.isSome then none else some (url, x.1), x.2) := by
      have sound : ((r.reached .object (utf8 (Node.string url).text ++ bytes) []).behind bytes
          []).fault = none := by
        simp only [Reader.behind, Reader.reached, Reader.inside, faces.sound]
      rw [readAnyObject, entered, same]
      simp only [reached, if_true, named, sound, resolve_of_none r.registry resolved]
      rfl
    have keys : x = (m.encoding s (s.type name), r.behind [] [])
        ∨ x.2.fault.isSome ∧ maxDepth
          < r.frames.length + (fieldsNesting [⟨"value", n⟩] + 1) + 1 := by
      rw [same]
      exact keys
    rw [object]
    rcases keys with rfl | ⟨failed, deep⟩
    · have sound : (r.behind [] []).fault = none := faces.sound
      exact .inl (by simp only [sound, Option.isSome_none, Bool.false_eq_true, if_false])
    · refine .inr ⟨if_pos failed, failed, ?_⟩
      simp only [frames, List.length_nil, fieldsNesting, Node.nesting] at deep ⊢
      omega
  · refine .inr ⟨?_, ?_, ?_⟩
    · rw [readAnyObject, ← Prod.mk.eta (p := r.enter .object), refused]
    · rw [readAnyObject, ← Prod.mk.eta (p := r.enter .object), refused]
      exact failed
    · rw [frames] at deep
      simpa using Nat.le_of_lt deep

-----------------------------------------------------------------------------------------
-- Payloads that come back
-----------------------------------------------------------------------------------------

/-- The message inside an `Any`, and those inside that, come back from JSON and from their bytes:
the texts of their numbers and field masks lead back to them, no zero that is all there is has a
sign, and they nest no deeper than they may.
-/
inductive AnyReturns (s : Schema) : String → List UInt8 → Prop
  | empty (payload : List UInt8) : AnyReturns s "" payload
  | any {url url' : String} {payload payload' unknown : List UInt8}
    (resolved : resolve none url = some (.wellKnown anyType.name))
    (held : s.decode anyType.name payload = .ok ⟨anySlots url' payload', unknown⟩)
    (inner : AnyReturns s url' payload') : AnyReturns s url payload
  | message {t : MessageType} {url : String} {payload : List UInt8} {m : Message}
    (listed : t ∈ types) (other : t.form ≠ .any)
    (resolved : resolve none url = some (.wellKnown t.name))
    (held : s.decode t.name payload = .ok m) (back : m.All Scalar.ReadsBack)
    (shallow : m.nesting ≤ recursionLimit) (unsigned : Unsigned .root t m.slots)
    (paths : PathsReturn t m.slots) : AnyReturns s url payload

theorem ne_empty_of_resolved (resolved : resolve none url = some (.wellKnown name))
    : url ≠ "" := by
  rintro rfl
  cases resolved

/-- The `Any` of a URL that is resolved is the object of the URL and the message behind it. -/
theorem anyNodeWithin_succ {payload : List UInt8} {depth : Nat}
    (resolved : resolve none url = some (.wellKnown name)) (held : s.decode name payload = .ok m)
    : anyNodeWithin s {} (depth + 1) path url payload
        = (messageNode s {} (anyNodeWithin s {} depth) .empty path (s.type name) m).map fun n =>
            .object [⟨"@type", .string url⟩, ⟨"value", n⟩] := by
  have named : url.isEmpty = false :=
    Bool.eq_false_iff.mpr (mt String.isEmpty_iff.mp (ne_empty_of_resolved resolved))
  have resolved : resolve ({} : Config).registry url = some (.wellKnown name) := resolved
  simp only [anyNodeWithin, named, Bool.false_eq_true, if_false, resolved, resolvedNode,
    payloadNode, held]

/-- A message of a well-known type comes back from its encoding. -/
theorem decode_encoding (lawful : s.Lawful) {t : MessageType} (own : s.type t.name = t)
    (conforms : m.Conforms s t) (fits : m.Fits s t) (shallow : m.nesting ≤ recursionLimit)
    (normal : m.normal s t = m) (small : (m.encoding s t).length < 2 ^ 63)
    : s.decode t.name (m.encoding s t) = .ok m := by
  have form : t.form ≠ .filler := own ▸ (lawful.type t.name).form
  rw [m.length_encoding lawful.sized form] at small
  have merged : s.merge (s.type t.name) (s.empty t.name) (m.encoding s (s.type t.name))
      = (m.normal s (s.type t.name), none) :=
    Schema.merge_empty lawful ⟨own.symm ▸ conforms, own.symm ▸ fits, shallow, own.symm ▸ small⟩
  rw [own] at merged
  rw [Schema.decode, own, merged, normal]

/-- What is read for an `Any` is written again as it was, by induction on the messages inside it. -/
theorem AnyReturns.exists_payload (lawful : s.Lawful) (known : s.HasWellKnown)
    {payload : List UInt8} (h : AnyReturns s url payload) {depth : Nat}
    (node : anyNodeWithin s {} depth path url payload = some n)
    : ∃ next : List UInt8,
        (∀ limit path, Takes 1 limit (readMessage s anyType (s.empty anyType.name)) n path
          ⟨anySlots url next, []⟩ [])
        ∧ ∀ depth path, (url = "" ∧ 1 ≤ depth) ∨ (next.length < 2 ^ 63 ∧ next.length + 2 ≤ depth)
          → anyNodeWithin s {} depth path url next = some n := by
  induction h generalizing depth path n with
  | empty payload =>
      cases depth with
      | zero => cases node
      | succ depth =>
          cases node
          refine ⟨[], fun limit path => (opens_empty s path).takes lawful known limit,
            fun depth path room => ?_⟩
          cases depth with
          | zero => omega
          | succ depth => rfl
  | @any url url' payload payload' unknown resolved held inner ih =>
      have own : s.type anyType.name = anyType := known anyType (by simp [types])
      cases depth with
      | zero => cases node
      | succ depth =>
          rw [anyNodeWithin_succ resolved held, own] at node
          obtain ⟨n, inside, rfl⟩ := Option.map_eq_some_iff.mp node
          obtain ⟨next, read, written⟩ := ih inside
          refine ⟨Message.encoding s anyType ⟨anySlots url' next, []⟩, fun limit path =>
            (opens_wellKnown lawful resolved own fun limit => read limit path).takes lawful known
              limit,
            fun depth path room => ?_⟩
          obtain ⟨empty, -⟩ | ⟨small, room⟩ := room
          · exact absurd empty (ne_empty_of_resolved resolved)
          have held : s.decode anyType.name (Message.encoding s anyType ⟨anySlots url' next, []⟩)
              = .ok ⟨anySlots url' next, []⟩ :=
            decode_encoding lawful own ⟨⟨rfl, rfl, rfl⟩, rfl⟩ ⟨trivial, trivial, trivial⟩
              (Nat.zero_le _) rfl small
          generalize Message.encoding s anyType ⟨anySlots url' next, []⟩
            = packed at small room held ⊢
          obtain ⟨text, bytes, -⟩ : Inside packed (.string url')
            ∧ Inside packed (.bytes next) ∧ True :=
            Schema.Sized.all_decode lawful.sized (sourced_inside packed) held
          obtain ⟨depth, rfl⟩ : ∃ d, depth = d + 1 := ⟨depth - 1, by omega⟩
          have again : anyNodeWithin s {} depth path url' next = some n := by
            refine written depth path ?_
            by_cases none : packed = []
            · exact .inl ⟨text none, by omega⟩
            · have shorter := bytes none
              exact .inr ⟨Nat.lt_trans shorter small, by omega⟩
          rw [anyNodeWithin_succ resolved held, own]
          exact congrArg (Option.map _) again
  | @message t url payload m listed other resolved held back shallow unsigned paths =>
      have own : s.type t.name = t := known t listed
      cases depth with
      | zero => cases node
      | succ depth =>
          rw [anyNodeWithin_succ resolved held, own] at node
          obtain ⟨n, inside, rfl⟩ := Option.map_eq_some_iff.mp node
          have sound : m.Sound s (s.type t.name) := lawful.sound_decode held
          rw [own] at sound
          obtain ⟨next, returns, nesting, normal⟩ :=
            exists_next lawful known listed other (Message.Conforms.typed m sound.1)
              back paths inside
          refine ⟨_, fun limit path => (opens_wellKnown lawful resolved own
            fun limit => returns.read 1 limit path).takes lawful known limit,
            fun depth path room => ?_⟩
          obtain ⟨empty, -⟩ | ⟨small, room⟩ := room
          · exact absurd empty (ne_empty_of_resolved resolved)
          obtain ⟨depth, rfl⟩ : ∃ d, depth = d + 1 := ⟨depth - 1, by omega⟩
          rw [anyNodeWithin_succ resolved (decode_encoding lawful own returns.conforms returns.fits
            (Nat.le_trans nesting shallow) (normal unsigned) small), own, returns.written]
          rfl

end Protobuf.Json
