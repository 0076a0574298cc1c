import Protobuf.Proofs.Json.Capture

/-! Where a value stands does not matter.  Readers that face the same value in different containers,
with room for it, do the same: a program of theirs ends with the same result, or fails, in front of
the value or behind it.
-/

namespace Protobuf.Json

open Scanner Text

-----------------------------------------------------------------------------------------
-- Readers of the same value
-----------------------------------------------------------------------------------------

/-- The reader stands in front of the value, and there is room for the containers in it and for its
levels.
-/
structure Reader.Fronts (r : Reader) (n : Node) : Prop where
  faces : ∃ more, r.Faces n more
  room : r.frames.length + n.nesting ≤ maxDepth
  levels : n.levels ≤ maxDepth

/-- The readers go on at the same path, and with the same registry. -/
structure Reader.Level (r₁ r₂ : Reader) : Prop where
  path : r₁.path = r₂.path
  registry : r₁.registry = r₂.registry

/-- Both readings failed, or both gave the same. -/
def Accord {α : Type} (x₁ x₂ : α × Reader) : Prop :=
  x₁.2.fault.isSome ∧ x₂.2.fault.isSome
  ∨ x₁.1 = x₂.1 ∧ x₁.2.fault = none ∧ x₂.2.fault = none ∧ x₁.2.Level x₂.2

/-- Both readings failed, or they gave the same and both left the value or both took it. -/
inductive Concur {α : Type} (r₁ r₂ : Reader) : α × Reader → α × Reader → Prop
  | failed {x₁ x₂ : α × Reader} (first : x₁.2.fault.isSome) (second : x₂.2.fault.isSome)
    : Concur r₁ r₂ x₁ x₂
  | left (v : α) {q₁ q₂ : Reader} (level : q₁.Level q₂) (first : r₁.Left q₁) (second : r₂.Left q₂)
    : Concur r₁ r₂ (v, q₁) (v, q₂)
  | took (v : α) {q₁ q₂ : Reader} (level : q₁.Level q₂) (first : r₁.Took q₁) (second : r₂.Took q₂)
    : Concur r₁ r₂ (v, q₁) (v, q₂)

/-- The reading does the same wherever the value stands. -/
def Portable {α : Type} (read : Reader → α × Reader) (n : Node) : Prop :=
  ∀ r₁ r₂ : Reader, r₁.Fronts n → r₂.Fronts n → r₁.Level r₂ → Concur r₁ r₂ (read r₁) (read r₂)

namespace Reader

variable {α : Type} {r r' r₁ r₂ r₃ : Reader} {n : Node}

theorem Level.symm (h : r₁.Level r₂)
    : r₂.Level r₁ :=
  ⟨h.path.symm, h.registry.symm⟩

theorem Level.trans (first : r₁.Level r₂) (second : r₂.Level r₃)
    : r₁.Level r₃ :=
  ⟨first.path.trans second.path, first.registry.trans second.registry⟩

theorem Outcome.took (h : r.Outcome False r') (sound : r'.fault = none)
    : r.Took r' := by
  rcases h with failed | ⟨never, _⟩ | took
  · rw [sound] at failed
    cases failed
  · exact never.elim
  · exact took

theorem Fronts.sound (h : r.Fronts n)
    : r.fault = none :=
  h.faces.choose_spec.sound

/-- A reader of a document stands in front of its value. -/
theorem faces_ofBytes (registry : Option Registry) (n : Node)
    : (ofBytes (utf8 n.text) registry).Faces n [] :=
  ⟨rfl, (List.append_nil _).symm, nofun⟩

theorem fronts_of_levels (registry : Option Registry) (levels : n.levels ≤ maxDepth)
    : (ofBytes (utf8 n.text) registry).Fronts n := by
  refine ⟨⟨[], faces_ofBytes registry n⟩, ?_, levels⟩
  show 0 + n.nesting ≤ maxDepth
  rw [Nat.zero_add]
  exact Nat.le_trans n.levels_bounds.1 levels

theorem fronts_ofBytes (registry : Option Registry) (room : n.nesting < maxDepth)
    : (ofBytes (utf8 n.text) registry).Fronts n :=
  fronts_of_levels registry (Nat.le_trans n.levels_bounds.2 room)

theorem Faces.took_behind {more : List UInt8} (h : r.Faces n more) (fields : List FieldMask.Path)
    : r.Took (r.behind more fields) := by
  refine ⟨h.sound, ⟨n.nesting + 1, ?_⟩, rfl, rfl⟩
  rw [h.text]
  exact skipValue_of_room (Nat.lt_succ_self n.nesting) h.ends

end Reader

theorem Accord.concur {α : Type} {r₁ r₂ : Reader} {x₁ x₂ : α × Reader} (h : Accord x₁ x₂)
    (first : r₁.Outcome False x₁.2) (second : r₂.Outcome False x₂.2)
    : Concur r₁ r₂ x₁ x₂ := by
  obtain ⟨v₁, q₁⟩ := x₁
  obtain ⟨v₂, q₂⟩ := x₂
  rcases h with ⟨failed₁, failed₂⟩ | ⟨rfl, sound₁, sound₂, level⟩
  · exact .failed failed₁ failed₂
  · exact .took v₁ level (first.took sound₁) (second.took sound₂)

section

variable {α β : Type} {n : Node} {read : Reader → α × Reader}

-----------------------------------------------------------------------------------------
-- Tokens
-----------------------------------------------------------------------------------------

theorem Node.kind_of_first {b : UInt8} (first : (utf8 n.text).head? = some b)
    : ValueKind.ofByte? b = some n.kind := by
  obtain ⟨b', bytes, text, kind⟩ := n.utf8_text_cons
  rw [text] at first
  cases first
  exact kind

/-- What is scanned at the first byte of a value is the value, whatever stands behind it. -/
theorem ScansAt.scans {first : Option UInt8} {scanner : Scanner α} (h : ScansAt first scanner)
    (first_ : (utf8 n.text).head? = first) (levels : n.levels ≤ maxDepth)
    : ∃ v, ∀ more, Ends more → scanner (utf8 n.text ++ more) = .ok v more := by
  induction h with
  | string =>
      have kind := n.kind_of_first first_
      cases n with
      | string text => exact ⟨text, fun more _ => string_stringLiteral text more⟩
      | null | bool _ | number _ | array _ | object _ => cases kind
  | number kind =>
      have own := kind.symm.trans (n.kind_of_first first_)
      cases n with
      | number v => exact ⟨_, fun more ends => number_text v ends⟩
      | null | bool _ | string _ | array _ | object _ => cases own
  | true =>
      have kind := n.kind_of_first first_
      cases n with
      | bool v =>
          cases v with
          | true => exact ⟨(), fun more _ => literal_utf8 "true" more⟩
          | false => cases first_
      | null | number _ | string _ | array _ | object _ => cases kind
  | false =>
      have kind := n.kind_of_first first_
      cases n with
      | bool v =>
          cases v with
          | true => cases first_
          | false => exact ⟨(), fun more _ => literal_utf8 "false" more⟩
      | null | number _ | string _ | array _ | object _ => cases kind
  | value first =>
      exact ⟨(), fun more ends => skipValue_of_levels levels ends⟩
  | map f _ ih =>
      obtain ⟨v, scans⟩ := ih first_
      refine ⟨f v, fun more ends => ?_⟩
      rw [map_eq_pure_bind, bind_of_ok (scans more ends)]
      rfl

theorem portable_token {select : Option UInt8 → Option (Scanner α)} (missing : Cause)
    (selects : ∀ first scanner, select first = some scanner → ScansAt first scanner)
    : Portable (Reader.token select missing) n := by
  intro r₁ r₂ front₁ front₂ level
  have begun {r : Reader} (front : r.Fronts n) : ∃ more, Ends more ∧ r.fault = none
      ∧ r.beginValue.rest = utf8 n.text ++ more
      ∧ r.beginValue.rest.head? = (utf8 n.text).head? := by
    obtain ⟨more, faces⟩ := front.faces
    have text : r.beginValue.rest = utf8 n.text ++ more := by rw [faces.beginValue, ← faces.text]
    refine ⟨more, faces.ends, faces.sound, text, ?_⟩
    obtain ⟨b, bytes, written, -⟩ := n.utf8_text_cons
    rw [text, written]
    rfl
  obtain ⟨more₁, ends₁, sound₁, text₁, first₁⟩ := begun front₁
  obtain ⟨more₂, ends₂, sound₂, text₂, first₂⟩ := begun front₂
  have outcome (r : Reader) := Reader.outcome_token (r := r) missing selects
  refine Accord.concur ?_ (outcome r₁) (outcome r₂)
  cases selected : select (utf8 n.text).head? with
  | none =>
      simp only [Reader.token, sound₁, sound₂, first₁, first₂, selected]
      exact .inl ⟨Reader.isSome_latch _ _, Reader.isSome_latch _ _⟩
  | some scanner =>
      obtain ⟨v, scans⟩ := (selects _ _ selected).scans rfl front₁.levels
      simp only [Reader.token, sound₁, sound₂, first₁, first₂, selected]
      simp only [Reader.scan, text₁, text₂, scans _ ends₁, scans _ ends₂]
      exact .inr ⟨rfl, sound₁, sound₂, level.path, level.registry⟩

-----------------------------------------------------------------------------------------
-- Steps in front of a value
-----------------------------------------------------------------------------------------

theorem portable_leave (v : α)
    : Portable (fun r => (v, r)) n := by
  intro r₁ r₂ front₁ front₂ level
  have left {r : Reader} (front : r.Fronts n) : r.Left r := by
    obtain ⟨_, faces⟩ := front.faces
    exact ⟨faces.sound, .inl rfl, rfl, rfl⟩
  exact .left v level (left front₁) (left front₂)

theorem portable_refuse (v : α) (cause : Cause)
    : Portable (fun r => (v, r.latch cause)) n :=
  fun _ _ _ _ _ => .failed (Reader.isSome_latch _ _) (Reader.isSome_latch _ _)

theorem Portable.judged (h : Portable read n) (value : α → β) (cause : α → Option Cause)
    : Portable (fun r => (value (read r).1, (read r).2.settle (cause (read r).1))) n := by
  intro r₁ r₂ front₁ front₂ level
  have own := h r₁ r₂ front₁ front₂ level
  dsimp only
  generalize read r₁ = x₁ at own ⊢
  generalize read r₂ = x₂ at own ⊢
  cases own with
  | failed first second =>
      refine .failed ?_ ?_
      · rwa [Reader.settle_of_fault first]
      · rwa [Reader.settle_of_fault second]
  | left v level first second =>
      cases cause v with
      | none => exact .left _ level first second
      | some cause => exact .failed (Reader.isSome_latch _ _) (Reader.isSome_latch _ _)
  | took v level first second =>
      cases cause v with
      | none => exact .took _ level first second
      | some cause => exact .failed (Reader.isSome_latch _ _) (Reader.isSome_latch _ _)

theorem Portable.map (h : Portable read n) (value : α → β)
    : Portable (fun r => (value (read r).1, (read r).2)) n :=
  h.judged value fun _ => none

theorem Portable.nullOr (h : Portable read n) (v : α)
    : Portable (fun r => match r.null with
        | (true, r) => (v, r)
        | (false, r) => read r) n := by
  intro r₁ r₂ front₁ front₂ level
  obtain ⟨more₁, faces₁⟩ := front₁.faces
  obtain ⟨more₂, faces₂⟩ := front₂.faces
  dsimp only
  by_cases null : n.kind = .null
  · obtain rfl : n = .null := by
      cases n with
      | null => rfl
      | bool | number | string | array | object => cases null
    have took₁ := faces₁.took_behind []
    have took₂ := faces₂.took_behind []
    rw [reads_null _ _ faces₁, reads_null _ _ faces₂]
    exact .took v ⟨level.path, level.registry⟩ took₁ took₂
  · rw [faces₁.null_of_ne null, faces₂.null_of_ne null]
    exact h r₁ r₂ front₁ front₂ level

theorem Reader.Fronts.congr {r q : Reader} (h : r.Fronts n) (fault : q.fault = r.fault)
    (rest : q.rest = r.rest) (frames : q.frames = r.frames)
    : q.Fronts n := by
  obtain ⟨more, faces⟩ := h.faces
  exact ⟨⟨more, fault.trans faces.sound, rest.trans faces.text, faces.ends⟩, frames ▸ h.room,
    h.levels⟩

theorem Portable.record (h : Portable read n) (name : String)
    : Portable (fun r => read (r.addField name)) n := by
  intro r₁ r₂ front₁ front₂ level
  have own := h (r₁.addField name) (r₂.addField name) (front₁.congr rfl rfl rfl)
    (front₂.congr rfl rfl rfl) ⟨level.path, level.registry⟩
  dsimp only
  generalize read (r₁.addField name) = x₁ at own ⊢
  generalize read (r₂.addField name) = x₂ at own ⊢
  cases own with
  | failed first second => exact .failed first second
  | left v level first second =>
      exact .left v level ⟨first.sound, first.rest, first.frames, first.pending⟩
        ⟨second.sound, second.rest, second.frames, second.pending⟩
  | took v level first second =>
      exact .took v level ⟨first.sound, first.skips, first.frames, first.pending⟩
        ⟨second.sound, second.skips, second.frames, second.pending⟩

theorem Portable.field (h : Portable read n) (name : String)
    : Portable (fun r => r.withField name read) n := by
  intro r₁ r₂ front₁ front₂ level
  have own := h { r₁ with path := r₁.path.push name } { r₂ with path := r₂.path.push name }
    (front₁.congr rfl rfl rfl) (front₂.congr rfl rfl rfl)
    ⟨congrArg (·.push name) level.path, level.registry⟩
  dsimp only [Reader.withField]
  generalize read { r₁ with path := r₁.path.push name } = x₁ at own ⊢
  generalize read { r₂ with path := r₂.path.push name } = x₂ at own ⊢
  cases own with
  | failed first second => exact .failed first second
  | left v same first second =>
      exact .left v ⟨level.path, same.registry⟩ ⟨first.sound, first.rest, first.frames,
        first.pending⟩
        ⟨second.sound, second.rest, second.frames, second.pending⟩
  | took v same first second =>
      exact .took v ⟨level.path, same.registry⟩ ⟨first.sound, first.skips, first.frames,
        first.pending⟩
        ⟨second.sound, second.skips, second.frames, second.pending⟩

theorem portable_byKind (read : Option ValueKind → Reader → α × Reader)
    (h : Portable (read (some n.kind)) n)
    : Portable (fun r => read r.peekKind.1 r.peekKind.2) n := by
  intro r₁ r₂ front₁ front₂ level
  obtain ⟨_, faces₁⟩ := front₁.faces
  obtain ⟨_, faces₂⟩ := front₂.faces
  simp only [faces₁.peekKind, faces₂.peekKind]
  exact h r₁ r₂ front₁ front₂ level

/-- A value is cut out wherever it stands, and what reads its text has the same document before it.
-/
theorem portable_packed {inner : Reader → α × Reader} (v : β) (value : α → β)
    (outcome : ∀ r : Reader, r.fault = none → r.Outcome False (match r.rawValue with
        | (none, r) => (v, r)
        | (some document, r) =>
            (value (inner (r.sub document)).1, r.join (inner (r.sub document)).2)).2)
    : Portable (fun r => match r.rawValue with
        | (none, r) => (v, r)
        | (some document, r) =>
            (value (inner (r.sub document)).1, r.join (inner (r.sub document)).2)) n := by
  intro r₁ r₂ front₁ front₂ level
  have cut {r : Reader} (front : r.Fronts n)
      : ∃ more, r.fault = none ∧ r.rawValue = (some (utf8 n.text), r.behind more []) := by
    obtain ⟨more, faces⟩ := front.faces
    exact ⟨more, faces.sound, rawValue_of_levels faces front.levels⟩
  obtain ⟨more₁, sound₁, same₁⟩ := cut front₁
  obtain ⟨more₂, sound₂, same₂⟩ := cut front₂
  refine Accord.concur ?_ (outcome r₁ sound₁) (outcome r₂ sound₂)
  have fresh : (r₁.behind more₁ []).sub (utf8 n.text) = (r₂.behind more₂ []).sub (utf8 n.text) := by
    simp only [Reader.sub, Reader.behind, sound₁, sound₂, level.path, level.registry]
  simp only [same₁, same₂, fresh, Reader.join]
  cases done : (inner ((r₂.behind more₂ []).sub (utf8 n.text))).2.fault with
  | some fault => exact .inl ⟨rfl, rfl⟩
  | none => exact .inr ⟨rfl, rfl, rfl, level.path, level.registry⟩

end

-----------------------------------------------------------------------------------------
-- Objects
-----------------------------------------------------------------------------------------

/-- The reader stands in an object, at its start or behind some of its members, in front of the
others.
-/
structure Reader.AtFields (r : Reader) (behind : Bool) (fields : List Field) : Prop where
  sound : r.fault = none
  idle : r.pending = false
  inside : ∃ frames, r.frames = ⟨.object, !behind⟩ :: frames
  text : ∃ more, r.rest = utf8 (fieldsText behind fields ++ "\x7d") ++ more
  room : r.frames.length + fieldsNesting fields ≤ maxDepth
  levels : fieldsLevels fields ≤ maxDepth

/-- The reader stands in an array, at its start or behind some of its elements, in front of the
others.
-/
structure Reader.AtItems (r : Reader) (behind : Bool) (items : List Node) : Prop where
  sound : r.fault = none
  idle : r.pending = false
  inside : ∃ frames, r.frames = ⟨.array, !behind⟩ :: frames
  text : ∃ more, r.rest = utf8 (itemsText behind items ++ "]") ++ more
  room : r.frames.length + itemsNesting items ≤ maxDepth
  levels : itemsLevels items ≤ maxDepth

section

variable {α : Type} {r r₁ r₂ : Reader} {behind behind₁ behind₂ : Bool} {n : Node} {key : String}
  {fields : List Field} {items : List Node}

/-- At the end of an object the cursor leaves it. -/
theorem Reader.AtFields.nextKey_nil (h : r.AtFields behind [])
    : ∃ r', r.nextKey = (none, r') ∧ r'.fault = none ∧ r'.Level r := by
  obtain ⟨frames, inside⟩ := h.inside
  obtain ⟨more, text⟩ := h.text
  have reached : (Reader.inside { r with frames } .object (!behind)
      (utf8 (fieldsText behind [] ++ "\x7d") ++ more) []).nextKey = _ :=
    nextKey_end (r := { r with frames }) h.sound behind
  rw [← text, ← eq_inside h.idle inside] at reached
  exact ⟨_, reached, h.sound, rfl, rfl⟩

/-- The cursor moves to the next member, and behind its value it stands in front of the others. -/
theorem Reader.AtFields.nextKey_cons (h : r.AtFields behind (⟨key, n⟩ :: fields))
    : ∃ r', r.nextKey = (some key, r') ∧ r'.Fronts n ∧ r'.pending = true ∧ r'.Level r
        ∧ ∀ q, r'.Took q → q.AtFields true fields := by
  obtain ⟨frames, inside⟩ := h.inside
  obtain ⟨more, text⟩ := h.text
  have room := h.room
  rw [inside, fieldsNesting, List.length_cons] at room
  obtain ⟨levels, others⟩ := Nat.max_le.mp h.levels
  have reached := nextKey_inside (r := { r with frames }) h.sound behind key n fields more []
  rw [← text, ← eq_inside h.idle inside] at reached
  have faces : (Reader.reached { r with frames } .object
      (utf8 n.text ++ (utf8 (fieldsText true fields ++ "\x7d") ++ more)) []).Faces n
      (utf8 (fieldsText true fields ++ "\x7d") ++ more) :=
    ⟨h.sound, rfl, ends_fieldsText fields more⟩
  refine ⟨_, reached, ⟨⟨_, faces⟩, ?_, levels⟩, rfl, ⟨rfl, rfl⟩, fun q took => ?_⟩
  · show frames.length + 1 + n.nesting ≤ maxDepth
    omega
  · refine ⟨took.sound, took.pending, ⟨frames, took.frames⟩, ⟨more, took.rest_eq faces⟩, ?_, others⟩
    rw [took.frames]
    show frames.length + 1 + fieldsNesting fields ≤ maxDepth
    omega

/-- Members are read to the same result in both objects, by induction on them. -/
theorem accord_keys {read : String → α → Reader → α × Reader}
    (onward : ∀ key v (r : Reader), r.Onward (read key v r).2)
    (portable : ∀ field ∈ fields, ∀ v, Portable (read field.key v) field.value)
    (at₁ : r₁.AtFields behind₁ fields) (at₂ : r₂.AtFields behind₂ fields)
    (level : r₁.Level r₂) (v : α)
    : Accord (r₁.keys read v) (r₂.keys read v) := by
  induction fields generalizing v r₁ r₂ behind₁ behind₂ with
  | nil =>
      obtain ⟨q₁, reached₁, sound₁, level₁⟩ := at₁.nextKey_nil
      obtain ⟨q₂, reached₂, sound₂, level₂⟩ := at₂.nextKey_nil
      rw [Reader.keys, Reader.keys, reached₁, reached₂]
      exact .inr ⟨rfl, sound₁, sound₂, (level₁.trans level).trans level₂.symm⟩
  | cons field fields ih =>
      obtain ⟨key, n⟩ := field
      obtain ⟨first, others⟩ := List.forall_mem_cons.mp portable
      obtain ⟨q₁, reached₁, front₁, pending₁, level₁, behind₁⟩ := at₁.nextKey_cons
      obtain ⟨q₂, reached₂, front₂, pending₂, level₂, behind₂⟩ := at₂.nextKey_cons
      rw [Reader.keys_unfold onward, Reader.keys_unfold onward, reached₁, reached₂]
      have own := first v q₁ q₂ front₁ front₂ ((level₁.trans level).trans level₂.symm)
      dsimp only at own ⊢
      generalize read key v q₁ = x₁ at own ⊢
      generalize read key v q₂ = x₂ at own ⊢
      cases own with
      | failed failed₁ failed₂ =>
          rw [keys_of_fault _ _ failed₁, keys_of_fault _ _ failed₂]
          exact .inl ⟨failed₁, failed₂⟩
      | left v level left₁ left₂ =>
          exact .inl
            ⟨Reader.isSome_keys_of_pending read v left₁.sound (left₁.pending.trans pending₁),
              Reader.isSome_keys_of_pending read v left₂.sound (left₂.pending.trans pending₂)⟩
      | took v level took₁ took₂ => exact ih others (behind₁ _ took₁) (behind₂ _ took₂) level v

/-- A reader in front of an object steps into it. -/
theorem Reader.Fronts.enter_object (h : r.Fronts (.object fields))
    : ∃ r', r.enter .object = (true, r') ∧ r'.AtFields false fields ∧ r'.Level r := by
  obtain ⟨more, faces⟩ := h.faces
  have room := h.room
  rw [Node.nesting] at room
  have text : utf8 (Node.object fields).text ++ more
      = 123 :: (utf8 (fieldsText false fields ++ "\x7d") ++ more) := by
    rw [Node.text, String.append_assoc, utf8_append]
    rfl
  rcases enter_of_faces .object faces text (Nat.succ_pos _) with entered | ⟨_, _, deep⟩
  · refine ⟨_, entered, ⟨faces.sound, rfl, ⟨_, rfl⟩, ⟨more, rfl⟩, ?_, ?_⟩, rfl, rfl⟩
    · show r.frames.length + 1 + fieldsNesting fields ≤ maxDepth
      omega
    · have levels := h.levels
      rw [Node.levels] at levels
      omega
  · rw [Node.nesting] at deep
    omega

/-- No value of another kind is a container of this one. -/
theorem Reader.Fronts.isSome_enter (h : r.Fronts n) (container : Container)
    (other : ValueKind.ofByte? container.opening ≠ some n.kind)
    : (r.enter container).1 = false ∧ (r.enter container).2.fault.isSome := by
  obtain ⟨_, faces⟩ := h.faces
  rcases Reader.enter_cases container r with ⟨failed, same⟩ | ⟨r', same, failed, _⟩
    | ⟨rest, _, opening, _, same⟩
  · rw [faces.sound] at failed
    cases failed
  · rw [same]
    exact ⟨rfl, failed⟩
  · exact absurd (faces.eq_of_opening opening) other

/-- An object is read to the same result wherever it stands, and other values are refused. -/
theorem portable_object {read : String → α → Reader → α × Reader}
    (onward : ∀ key v (r : Reader), r.Onward (read key v r).2)
    (outcome : ∀ key v (r : Reader), r.fault = none → r.Outcome True (read key v r).2)
    (portable : ∀ key v n, Portable (read key v) n) (v : α)
    : Portable (fun r => r.object read v) n := by
  intro r₁ r₂ front₁ front₂ level
  refine Accord.concur ?_ (Reader.outcome_object outcome v) (Reader.outcome_object outcome v)
  dsimp only [Reader.object]
  cases n with
  | object fields =>
      obtain ⟨q₁, entered₁, at₁, level₁⟩ := front₁.enter_object
      obtain ⟨q₂, entered₂, at₂, level₂⟩ := front₂.enter_object
      rw [entered₁, entered₂]
      exact accord_keys onward (fun field _ v => portable field.key v field.value) at₁ at₂
        ((level₁.trans level).trans level₂.symm) v
  | null | bool _ | number _ | string _ | array _ =>
      obtain ⟨refused₁, failed₁⟩ := front₁.isSome_enter .object nofun
      obtain ⟨refused₂, failed₂⟩ := front₂.isSome_enter .object nofun
      rw [show r₁.enter .object = (false, (r₁.enter .object).2) from Prod.ext refused₁ rfl,
        show r₂.enter .object = (false, (r₂.enter .object).2) from Prod.ext refused₂ rfl]
      exact .inl ⟨failed₁, failed₂⟩

-----------------------------------------------------------------------------------------
-- Arrays
-----------------------------------------------------------------------------------------

/-- At the end of an array the cursor leaves it. -/
theorem Reader.AtItems.nextElement_nil (h : r.AtItems behind [])
    : ∃ r', r.nextElement = (false, r') ∧ r'.fault = none ∧ r'.Level r := by
  obtain ⟨frames, inside⟩ := h.inside
  obtain ⟨more, text⟩ := h.text
  have reached : (Reader.inside { r with frames } .array (!behind)
      (utf8 (itemsText behind [] ++ "]") ++ more) []).nextElement = _ :=
    nextElement_end (r := { r with frames }) h.sound behind
  rw [← text, ← eq_inside h.idle inside] at reached
  exact ⟨_, reached, h.sound, rfl, rfl⟩

/-- The cursor moves to the next element, and behind it it stands in front of the others. -/
theorem Reader.AtItems.nextElement_cons (h : r.AtItems behind (n :: items))
    : ∃ r', r.nextElement = (true, r') ∧ r'.Fronts n ∧ r'.pending = true ∧ r'.Level r
        ∧ ∀ q, r'.Took q → q.AtItems true items := by
  obtain ⟨frames, inside⟩ := h.inside
  obtain ⟨more, text⟩ := h.text
  have room := h.room
  rw [inside, itemsNesting, List.length_cons] at room
  obtain ⟨levels, others⟩ := Nat.max_le.mp h.levels
  have reached := nextElement_inside (r := { r with frames }) h.sound behind n items more []
  rw [← text, ← eq_inside h.idle inside] at reached
  have faces : (Reader.reached { r with frames } .array
      (utf8 n.text ++ (utf8 (itemsText true items ++ "]") ++ more)) []).Faces n
      (utf8 (itemsText true items ++ "]") ++ more) :=
    ⟨h.sound, rfl, ends_itemsText items more⟩
  refine ⟨_, reached, ⟨⟨_, faces⟩, ?_, levels⟩, rfl, ⟨rfl, rfl⟩, fun q took => ?_⟩
  · show frames.length + 1 + n.nesting ≤ maxDepth
    omega
  · refine ⟨took.sound, took.pending, ⟨frames, took.frames⟩, ⟨more, took.rest_eq faces⟩, ?_, others⟩
    rw [took.frames]
    show frames.length + 1 + itemsNesting items ≤ maxDepth
    omega

/-- Elements are read to the same result in both arrays, by induction on them. -/
theorem accord_elements {read : α → Reader → α × Reader}
    (outcome : ∀ v (r : Reader), r.fault = none → r.Outcome True (read v r).2)
    (portable : ∀ n ∈ items, ∀ v, Portable (read v) n)
    (at₁ : r₁.AtItems behind₁ items) (at₂ : r₂.AtItems behind₂ items) (level : r₁.Level r₂) (v : α)
    : Accord (r₁.elements read v) (r₂.elements read v) := by
  induction items generalizing v r₁ r₂ behind₁ behind₂ with
  | nil =>
      obtain ⟨q₁, reached₁, sound₁, level₁⟩ := at₁.nextElement_nil
      obtain ⟨q₂, reached₂, sound₂, level₂⟩ := at₂.nextElement_nil
      rw [Reader.elements, Reader.elements, reached₁, reached₂]
      exact .inr ⟨rfl, sound₁, sound₂, (level₁.trans level).trans level₂.symm⟩
  | cons n items ih =>
      obtain ⟨first, others⟩ := List.forall_mem_cons.mp portable
      obtain ⟨q₁, reached₁, front₁, pending₁, level₁, behind₁⟩ := at₁.nextElement_cons
      obtain ⟨q₂, reached₂, front₂, pending₂, level₂, behind₂⟩ := at₂.nextElement_cons
      rw [Reader.elements_unfold outcome, Reader.elements_unfold outcome, reached₁, reached₂]
      have own := first v q₁ q₂ front₁ front₂ ((level₁.trans level).trans level₂.symm)
      dsimp only at own ⊢
      generalize read v q₁ = x₁ at own ⊢
      generalize read v q₂ = x₂ at own ⊢
      cases own with
      | failed failed₁ failed₂ =>
          rw [elements_of_fault _ _ failed₁, elements_of_fault _ _ failed₂]
          exact .inl ⟨failed₁, failed₂⟩
      | left v level left₁ left₂ =>
          exact .inl
            ⟨Reader.isSome_elements_of_pending read v left₁.sound (left₁.pending.trans pending₁),
              Reader.isSome_elements_of_pending read v left₂.sound (left₂.pending.trans pending₂)⟩
      | took v level took₁ took₂ => exact ih others (behind₁ _ took₁) (behind₂ _ took₂) level v

/-- A reader in front of an array steps into it. -/
theorem Reader.Fronts.enter_array (h : r.Fronts (.array items))
    : ∃ r', r.enter .array = (true, r') ∧ r'.AtItems false items ∧ r'.Level r := by
  obtain ⟨more, faces⟩ := h.faces
  have room := h.room
  rw [Node.nesting] at room
  have text : utf8 (Node.array items).text ++ more
      = 91 :: (utf8 (itemsText false items ++ "]") ++ more) := by
    rw [Node.text, String.append_assoc, utf8_append]
    rfl
  rcases enter_of_faces .array faces text (Nat.succ_pos _) with entered | ⟨_, _, deep⟩
  · refine ⟨_, entered, ⟨faces.sound, rfl, ⟨_, rfl⟩, ⟨more, rfl⟩, ?_, ?_⟩, rfl, rfl⟩
    · show r.frames.length + 1 + itemsNesting items ≤ maxDepth
      omega
    · have levels := h.levels
      rw [Node.levels] at levels
      omega
  · rw [Node.nesting] at deep
    omega

/-- An array is read to the same result wherever it stands, and other values are refused. -/
theorem portable_array {read : α → Reader → α × Reader}
    (outcome : ∀ v (r : Reader), r.fault = none → r.Outcome True (read v r).2)
    (portable : ∀ v n, Portable (read v) n) (v : α)
    : Portable (fun r => r.array read v) n := by
  intro r₁ r₂ front₁ front₂ level
  refine Accord.concur ?_ (Reader.outcome_array outcome v) (Reader.outcome_array outcome v)
  dsimp only [Reader.array]
  cases n with
  | array items =>
      obtain ⟨q₁, entered₁, at₁, level₁⟩ := front₁.enter_array
      obtain ⟨q₂, entered₂, at₂, level₂⟩ := front₂.enter_array
      rw [entered₁, entered₂]
      exact accord_elements outcome (fun n _ v => portable v n) at₁ at₂
        ((level₁.trans level).trans level₂.symm) v
  | null | bool _ | number _ | string _ | object _ =>
      obtain ⟨refused₁, failed₁⟩ := front₁.isSome_enter .array nofun
      obtain ⟨refused₂, failed₂⟩ := front₂.isSome_enter .array nofun
      rw [show r₁.enter .array = (false, (r₁.enter .array).2) from Prod.ext refused₁ rfl,
        show r₂.enter .array = (false, (r₂.enter .array).2) from Prod.ext refused₂ rfl]
      exact .inl ⟨failed₁, failed₂⟩

end

-----------------------------------------------------------------------------------------
-- Programs
-----------------------------------------------------------------------------------------

/-- What a reader of messages does in general, and that it does the same wherever a value stands. -/
structure MessageReader.Settled (read : MessageReader) : Prop where
  onward : ∀ t m (r : Reader), r.Onward (read t m r).2
  still : ∀ t m (r : Reader), r.fault.isSome → r.Still (read t m r).2
  outcome : ∀ t m (r : Reader), r.fault = none → r.Outcome True (read t m r).2
  portable : ∀ t m n, Portable (read t m) n

/-- A program does the same wherever a value stands: by induction on how it is built. -/
theorem Program.portable {manner : Manner} {α : Type} {F : Reading α} (h : Program manner F)
    (value : manner ≠ .walk) {read : MessageReader} (settled : read.Settled) (n : Node)
    : Portable (F read) n := by
  induction h generalizing n with
  | leave v => exact portable_leave v
  | refuse v cause => exact portable_refuse v cause
  | token missing selects => exact portable_token missing selects
  | judged out cause _ ih => exact (ih value n).judged out cause
  | nullOr v _ ih => exact (ih value n).nullOr v
  | record name _ ih => exact (ih value n).record name
  | field name _ ih => exact (ih value n).field name
  | @byKind manner α F _ ih => exact portable_byKind (fun kind => F kind read) (ih _ value n)
  | object v program ih =>
      exact portable_object (fun key v r => (program key v).onward settled.onward r)
        (fun key v r sound =>
          (program key v).outcome (by decide) settled.still settled.outcome sound)
        (fun key v n => ih key v (by decide) n) v
  | array v program ih =>
      exact portable_array
        (fun v r sound => (program v).outcome (by decide) settled.still settled.outcome sound)
        (fun v n => ih v (by decide) n) v
  | perhaps _ ih | delegated _ ih => exact ih (by decide) n
  | message t m => exact settled.portable t m n
  | packed v out program _ =>
      have packed := Program.packed v out program
      exact portable_packed v out fun r sound =>
        packed.outcome (by decide) settled.still settled.outcome sound
  | walk | enter | nextKey | keys | failed | registry | next | again => exact absurd rfl value

-----------------------------------------------------------------------------------------
-- Messages
-----------------------------------------------------------------------------------------

section

variable {s : Schema} (flat : ∀ name, name ∉ wellKnownNames → (s.type name).form ≠ .any)

include flat

/-- Messages are read to the same result as deep as they nest: by induction on the depth. -/
theorem settled_readWithin (depth : Nat)
    : (readWithin s leaveMessage depth).Settled := by
  have faithful := faithful_readWithin flat depth
  refine ⟨faithful.onward, faithful.still, faithful.outcome, ?_⟩
  clear faithful
  induction depth with
  | zero => exact fun _ m _ => portable_leave m
  | succ depth ih =>
      intro t m n
      have inner := faithful_readWithin flat depth
      have value : mannerOf t.form ≠ .walk := by unfold mannerOf; split <;> decide
      exact ((program_slots s flat t m.slots).portable value
        ⟨inner.onward, inner.still, inner.outcome, ih⟩ n).map (Message.mk · m.unknown)

/-- A message is read to the same result wherever the value stands. -/
theorem portable_readMessage (t : MessageType) (m : Message) (n : Node)
    : Portable (readMessage s t m) n := by
  intro r₁ r₂ front₁ front₂ level
  have depth₁ : readMeasure t r₁ < max (readMeasure t r₁) (readMeasure t r₂) + 1 := by omega
  have depth₂ : readMeasure t r₂ < max (readMeasure t r₁) (readMeasure t r₂) + 1 := by omega
  rw [readMessage_eq_readWithin flat leaveMessage depth₁,
    readMessage_eq_readWithin flat leaveMessage depth₂]
  exact (settled_readWithin flat _).portable t m n r₁ r₂ front₁ front₂ level

/-- The value of a key is read to the same result wherever it stands. -/
theorem portable_readKey (t : MessageType) (key : String) (slots : List Slot) (n : Node)
    : Portable (readKey s (readMessage s) t key slots) n :=
  (program_key s t key slots).portable (by decide) ⟨onward_readMessage flat, still_readMessage flat,
    outcome_readMessage flat, portable_readMessage flat⟩ n

end

end Protobuf.Json
