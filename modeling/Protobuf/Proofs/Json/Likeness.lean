import Protobuf.Proofs.Json.Termination
import Protobuf.Proofs.Json.WideTree

/-! What is read depends on the tree of the document alone.  Readers of documents that spell the
same tokens stay alike in every step, and so in every program; they end with the same message and
the same fields, or with the same fault.
-/

namespace Protobuf.Json

open Scanner Text

-----------------------------------------------------------------------------------------
-- Readers of documents that spell the same tokens
-----------------------------------------------------------------------------------------

/-- The cause without the offset in the document. -/
def Cause.sansOffset : Cause → Cause
  | .malformed _ fault => .malformed 0 fault
  | cause => cause

/-- The fault without the offset in the document. -/
def Fault.sansOffset (fault : Fault) : Fault :=
  { fault with cause := fault.cause.sansOffset }

/-- The readers are the same but for the spelling of what is left of their documents. -/
structure Reader.Alike (r₁ r₂ : Reader) : Prop where
  fault : r₁.fault.map Fault.sansOffset = r₂.fault.map Fault.sansOffset
  path : r₁.path = r₂.path
  mask : r₁.mask = r₂.mask
  frames : r₁.frames = r₂.frames
  pending : r₁.pending = r₂.pending
  registry : r₁.registry = r₂.registry
  rest : r₁.fault = none → Beside r₁.rest r₂.rest

/-- The answers are the same and the readers are alike. -/
def Same {α : Type} (x₁ x₂ : α × Reader) : Prop :=
  x₁.1 = x₂.1 ∧ x₁.2.Alike x₂.2

/-- Results that are the same have one value and readers that are alike. -/
theorem Same.exists_eq {α : Type} {x₁ x₂ : α × Reader} (h : Same x₁ x₂)
    : ∃ v r₁ r₂, x₁ = (v, r₁) ∧ x₂ = (v, r₂) ∧ r₁.Alike r₂ :=
  ⟨x₁.1, x₁.2, x₂.2, rfl, by rw [h.1], h.2⟩

namespace Reader

variable {α : Type} {r₁ r₂ : Reader}

/-- Readers that are alike have failed together. -/
theorem Alike.isSome_fault (h : r₁.Alike r₂)
    : r₁.fault.isSome = r₂.fault.isSome := by
  have same := congrArg Option.isSome h.fault
  rwa [Option.isSome_map, Option.isSome_map] at same

/-- Readers that are alike are sound together. -/
theorem Alike.sound (h : r₁.Alike r₂) (sound : r₁.fault = none)
    : r₂.fault = none := by
  have same := h.isSome_fault
  rw [sound] at same
  exact Option.not_isSome_iff_eq_none.mp (by rw [← same]; exact Bool.false_ne_true)

/-- Readers that are alike fail alike. -/
theorem Alike.latch (h : r₁.Alike r₂) {cause₁ cause₂ : Cause}
    (same : cause₁.sansOffset = cause₂.sansOffset)
    : (r₁.latch cause₁).Alike (r₂.latch cause₂) := by
  by_cases sound : r₁.fault = none
  · rw [latch_of_sound sound, latch_of_sound (h.sound sound)]
    refine ⟨?_, h.path, h.mask, h.frames, h.pending, h.registry, nofun⟩
    simp only [Option.map_some, Fault.sansOffset, same, h.path]
  · have failed := Option.isSome_iff_ne_none.mpr sound
    rw [latch_of_fault failed, latch_of_fault (h.isSome_fault ▸ failed)]
    exact h

theorem Alike.malformed (h : r₁.Alike r₂) (fault : SyntaxFault)
    : (r₁.malformed fault).Alike (r₂.malformed fault) :=
  h.latch rfl

theorem Alike.settle (h : r₁.Alike r₂) (cause : Option Cause)
    : (r₁.settle cause).Alike (r₂.settle cause) := by
  cases cause with
  | none => exact h
  | some cause => exact h.latch rfl

/-- Blanks make no difference. -/
theorem Alike.skipBlanks (h : r₁.Alike r₂)
    : r₁.skipBlanks.Alike r₂.skipBlanks :=
  ⟨h.fault, h.path, h.mask, h.frames, h.pending, h.registry,
    fun sound => (h.rest sound).dropBlanks.rest⟩

theorem Alike.beginValue (h : r₁.Alike r₂)
    : r₁.beginValue.Alike r₂.beginValue :=
  ⟨h.fault, h.path, h.mask, h.frames, rfl, h.registry, fun sound => (h.rest sound).dropBlanks.rest⟩

/-- Fields are recorded alike. -/
theorem Alike.addField (h : r₁.Alike r₂) (name : String)
    : (r₁.addField name).Alike (r₂.addField name) :=
  ⟨h.fault, h.path, by rw [Reader.addField, Reader.addField, h.mask, h.path], h.frames, h.pending,
    h.registry, h.rest⟩

/-- Paths are set alike. -/
theorem Alike.withPath (h : r₁.Alike r₂) {path₁ path₂ : FieldMask.Path} (same : path₁ = path₂)
    : Alike { r₁ with path := path₁ } { r₂ with path := path₂ } :=
  ⟨h.fault, same, h.mask, h.frames, h.pending, h.registry, h.rest⟩

/-- The same byte comes next. -/
theorem Alike.head? (h : r₁.Alike r₂) (sound : r₁.fault = none)
    : (dropBlanks r₁.rest).head? = (dropBlanks r₂.rest).head? :=
  (h.rest sound).head?_dropBlanks

/-- Readers that fail in the same way are alike, wherever they stop. -/
theorem Alike.malformed_at (h : r₁.Alike r₂) (sound : r₁.fault = none) (fault : SyntaxFault)
    (rest₁ rest₂ : List UInt8)
    : Alike (({ r₁ with rest := rest₁ } : Reader).malformed fault)
        (({ r₂ with rest := rest₂ } : Reader).malformed fault) := by
  unfold Reader.malformed
  rw [latch_of_sound (r := { r₁ with rest := rest₁ }) sound,
    latch_of_sound (r := { r₂ with rest := rest₂ }) (h.sound sound)]
  refine ⟨?_, h.path, h.mask, h.frames, h.pending, h.registry, nofun⟩
  simp only [Option.map_some, Fault.sansOffset, Cause.sansOffset, h.path]

/-- Scanners that agree on what is left read the same. -/
theorem same_scan {scanner : Scanner α} {bytes₁ bytes₂ : List UInt8} (h : r₁.Alike r₂)
    (sound : r₁.fault = none) (agree : Agree bytes₁ bytes₂ (scanner r₁.rest) (scanner r₂.rest))
    : Same (r₁.scan scanner) (r₂.scan scanner) := by
  unfold Reader.scan
  generalize scanner r₁.rest = x₁ at agree
  generalize scanner r₂.rest = x₂ at agree
  cases agree with
  | @ok v rest₁ rest₂ parallel =>
      exact ⟨rfl, h.fault, h.path, h.mask, h.frames, h.pending, h.registry, fun _ => parallel.rest⟩
  | @error fault rest₁ rest₂ => exact ⟨rfl, h.malformed_at sound fault rest₁ rest₂⟩

end Reader

theorem ScansAt.followsAt {α : Type} {first : Option UInt8} {scanner : Scanner α}
    (h : ScansAt first scanner)
    : FollowsAt first scanner := by
  induction h with
  | string => exact followsAt_string
  | number kind => exact followsAt_number kind
  | true => exact followsAt_literal (by decide)
  | false => exact followsAt_literal (by decide)
  | value first => exact (follows_skipValue maxDepth).at first
  | map f _ ih =>
      rw [map_eq_pure_bind]
      exact ih.bind fun v => follows_pure (f v)

namespace Reader

variable {α : Type} {r₁ r₂ : Reader}

-----------------------------------------------------------------------------------------
-- Steps
-----------------------------------------------------------------------------------------

/-- Readers that have failed stay alike. -/
theorem same_of_fault {f : Reader → α × Reader} {v : α} (h : r₁.Alike r₂)
    (idle : ∀ {r : Reader}, r.fault.isSome → f r = (v, r)) (failed : ¬r₁.fault = none)
    : Same (f r₁) (f r₂) := by
  have failed₁ := Option.isSome_iff_ne_none.mpr failed
  rw [idle failed₁, idle (h.isSome_fault ▸ failed₁)]
  exact ⟨rfl, h⟩

/-- A token is the same for readers that are alike. -/
theorem same_token {select : Option UInt8 → Option (Scanner α)} (missing : Cause)
    (selects : ∀ first scanner, select first = some scanner → ScansAt first scanner)
    (h : r₁.Alike r₂)
    : Same (r₁.token select missing) (r₂.token select missing) := by
  by_cases sound : r₁.fault = none
  · have first : r₁.beginValue.rest.head? = r₂.beginValue.rest.head? := h.head? sound
    rw [token, token, sound, h.sound sound]
    dsimp only
    rw [← first]
    cases selected : select r₁.beginValue.rest.head? with
    | none => exact ⟨rfl, h.beginValue.latch rfl⟩
    | some scanner =>
        exact same_scan h.beginValue sound
          ((selects _ _ selected).followsAt _ _ (h.rest sound) rfl)
  · exact same_of_fault h (fun failed => token_of_fault failed select missing) sound

theorem same_peekKind (h : r₁.Alike r₂)
    : Same r₁.peekKind r₂.peekKind := by
  by_cases sound : r₁.fault = none
  · rw [peekKind_of_sound sound, peekKind_of_sound (h.sound sound), h.head? sound]
    exact ⟨rfl, h.skipBlanks⟩
  · exact same_of_fault h peekKind_of_fault sound

theorem same_null (h : r₁.Alike r₂)
    : Same r₁.null r₂.null := by
  by_cases sound : r₁.fault = none
  · have first := h.head? sound
    rw [null, null, peekKind_of_sound sound, peekKind_of_sound (h.sound sound), ← first]
    cases kind : (dropBlanks r₁.rest).head?.bind ValueKind.ofByte? with
    | none => exact ⟨rfl, h.skipBlanks⟩
    | some found =>
        cases found with
        | null =>
            obtain ⟨b, at_, null⟩ := Option.bind_eq_some_iff.mp kind
            cases eq_of_kind_null null
            have literal : FollowsAt (some 110) (Scanner.literal "null") :=
              followsAt_literal (by decide)
            have again : (dropBlanks r₁.skipBlanks.rest).head? = some 110 :=
              (congrArg List.head? (dropBlanks_dropBlanks r₁.rest)).trans at_
            have scanned := same_scan h.skipBlanks.beginValue sound
              (literal _ _ (h.skipBlanks.rest sound) again)
            obtain ⟨v, q₁, q₂, same₁, same₂, alike⟩ := scanned.exists_eq
            dsimp only
            rw [same₁, same₂]
            cases v with
            | none => exact ⟨rfl, alike⟩
            | some _ => exact ⟨rfl, alike⟩
        | bool | number | string | object | array => exact ⟨rfl, h.skipBlanks⟩
  · exact same_of_fault h null_of_fault sound

/-- Behind a mark the documents go on alike. -/
theorem beside_of_mark {b : UInt8} {bytes₁ bytes₂ rest₁ rest₂ : List UInt8}
    (beside : Beside bytes₁ bytes₂) (legal : b ∈ [44, 58, 91, 93, 123, 125])
    (visible₁ : dropBlanks bytes₁ = b :: rest₁) (visible₂ : dropBlanks bytes₂ = b :: rest₂)
    : Beside rest₁ rest₂ := by
  have taken := followsAt_advance legal bytes₁ bytes₂ beside (by rw [visible₁]; rfl)
  rw [visible₁, visible₂] at taken
  cases taken with
  | ok parallel => exact parallel.rest

theorem same_enter (container : Container) (h : r₁.Alike r₂)
    : Same (r₁.enter container) (r₂.enter container) := by
  by_cases sound : r₁.fault = none
  · have first : r₁.beginValue.rest.head? = r₂.beginValue.rest.head? := h.head? sound
    unfold enter
    rw [sound, h.sound sound]
    dsimp only
    rw [← first]
    have frames : r₁.beginValue.frames = r₂.beginValue.frames := h.frames
    split
    · rename_i opening
      rw [← frames]
      split
      · exact ⟨rfl, h.beginValue.malformed _⟩
      · obtain ⟨rest₁, visible₁⟩ := List.head?_eq_some_iff.mp opening
        obtain ⟨rest₂, visible₂⟩ := List.head?_eq_some_iff.mp (first.symm.trans opening)
        have legal : container.opening ∈ [44, 58, 91, 93, 123, 125] := by
          cases container <;> decide
        have behind := beside_of_mark (h.rest sound) legal visible₁ visible₂
        rw [visible₁, visible₂]
        exact ⟨rfl, h.fault, h.path, h.mask, rfl, rfl, h.registry, fun _ => behind⟩
    · exact ⟨rfl, h.beginValue.latch rfl⟩
  · exact same_of_fault h (fun failed => enter_of_fault failed container) sound

/-- Inside a container of the kind the cursor looks for its end or a comma. -/
theorem same_advance_of_inside {container : Container} {first : Bool} {frames : List Frame}
    (h : r₁.Alike r₂) (sound : r₁.fault = none) (idle : r₁.pending = false)
    (inside : r₁.frames = ⟨container, first⟩ :: frames)
    : Same (r₁.advance container) (r₂.advance container) := by
  have head := h.head? sound
  have beside := h.rest sound
  rw [advance_of_inside sound idle inside,
    advance_of_inside (h.sound sound) (h.pending ▸ idle) (h.frames ▸ inside), ← head]
  split
  · rename_i closing
    obtain ⟨rest₁, visible₁⟩ := List.head?_eq_some_iff.mp closing
    obtain ⟨rest₂, visible₂⟩ := List.head?_eq_some_iff.mp (head.symm.trans closing)
    have legal : container.closing ∈ [44, 58, 91, 93, 123, 125] := by cases container <;> decide
    have behind := beside_of_mark beside legal visible₁ visible₂
    rw [visible₁, visible₂]
    exact ⟨rfl, h.fault, h.path, h.mask, rfl, h.pending, h.registry, fun _ => behind⟩
  split
  · exact ⟨rfl, h.fault, h.path, h.mask, rfl, h.pending, h.registry,
      fun _ => beside.dropBlanks.rest⟩
  split
  · rename_i comma
    obtain ⟨rest₁, visible₁⟩ := List.head?_eq_some_iff.mp comma
    obtain ⟨rest₂, visible₂⟩ := List.head?_eq_some_iff.mp (head.symm.trans comma)
    have behind := beside_of_mark beside (by decide) visible₁ visible₂
    rw [visible₁, visible₂]
    exact ⟨rfl, h.fault, h.path, h.mask, rfl, h.pending, h.registry, fun _ => behind⟩
  · have moved : Alike { r₁ with
        rest := dropBlanks r₁.rest
        frames := ⟨container, false⟩ :: frames } { r₂ with
        rest := dropBlanks r₂.rest
        frames := ⟨container, false⟩ :: frames } :=
      ⟨h.fault, h.path, h.mask, rfl, h.pending, h.registry, fun _ => beside.dropBlanks.rest⟩
    exact ⟨rfl, moved.malformed _⟩

theorem same_advance (container : Container) (h : r₁.Alike r₂)
    : Same (r₁.advance container) (r₂.advance container) := by
  by_cases sound : r₁.fault = none
  · by_cases waits : r₁.pending = true
    · rw [advance_of_pending container sound waits,
        advance_of_pending container (h.sound sound) (h.pending ▸ waits)]
      exact ⟨rfl, h.latch rfl⟩
    rw [Bool.not_eq_true] at waits
    cases open_ : r₁.frames with
    | nil =>
        unfold advance
        rw [sound, h.sound sound, ← h.pending, ← h.frames, waits, open_]
        exact ⟨rfl, h.latch rfl⟩
    | cons frame frames =>
        obtain ⟨kind, first⟩ := frame
        by_cases own : kind = container
        · subst own
          exact same_advance_of_inside h sound waits open_
        · unfold advance
          rw [sound, h.sound sound, ← h.pending, ← h.frames, waits, open_]
          simp only [Bool.false_eq_true, if_false, ne_eq, own, not_false_eq_true, if_true]
          exact ⟨rfl, h.latch rfl⟩
  · exact same_of_fault h (fun failed => advance_of_fault container failed) sound

/-- A reader that goes on to a next item is sound. -/
theorem sound_of_advance {container : Container} {r r' : Reader}
    (moved : r.advance container = (true, r'))
    : r'.fault = none := by
  rcases advance_cases container r with ⟨_, same⟩ | ⟨_, same, _, _⟩ | ⟨_, _, _, _, _, _, _, same⟩
    | ⟨_, _, _, sound, _, _, _, _, same⟩ <;> cases moved.symm.trans same
  exact sound

theorem same_nextKey (h : r₁.Alike r₂)
    : Same r₁.nextKey r₂.nextKey := by
  obtain ⟨moved, q₁, q₂, same₁, same₂, alike⟩ := (same_advance .object h).exists_eq
  rw [nextKey_eq, nextKey_eq, same₁, same₂]
  cases moved with
  | false => exact ⟨rfl, alike⟩
  | true =>
      have sound := sound_of_advance same₁
      have scanned := same_scan alike sound (follows_keyAndColon _ _ (alike.rest sound))
      obtain ⟨key, p₁, p₂, same₁, same₂, alike⟩ := scanned.exists_eq
      dsimp only
      rw [same₁, same₂]
      cases key with
      | none => exact ⟨rfl, alike⟩
      | some key =>
          exact ⟨rfl, alike.fault, alike.path, alike.mask, alike.frames, rfl,
            alike.registry, alike.rest⟩

theorem same_nextElement (h : r₁.Alike r₂)
    : Same r₁.nextElement r₂.nextElement := by
  obtain ⟨moved, q₁, q₂, same₁, same₂, alike⟩ := (same_advance .array h).exists_eq
  rw [nextElement, nextElement, same₁, same₂]
  cases moved with
  | false => exact ⟨rfl, alike⟩
  | true =>
      exact ⟨rfl, alike.fault, alike.path, alike.mask, alike.frames, rfl,
        alike.registry, alike.rest⟩

/-- Members are read alike, by induction on what is left of one of the documents. -/
theorem same_keys {read : String → α → Reader → α × Reader}
    (onward : ∀ key v (r : Reader), r.Onward (read key v r).2)
    (same : ∀ key v {q₁ q₂ : Reader}, q₁.Alike q₂ → Same (read key v q₁) (read key v q₂)) (v : α)
    (h : r₁.Alike r₂)
    : Same (r₁.keys read v) (r₂.keys read v) := by
  induction length : r₁.rest.length using Nat.strongRecOn generalizing v r₁ r₂ with
  | ind n ih =>
      obtain ⟨key, q₁, q₂, reached₁, reached₂, alike⟩ := (same_nextKey h).exists_eq
      rw [keys_unfold onward, keys_unfold onward, reached₁, reached₂]
      cases key with
      | none => exact ⟨rfl, alike⟩
      | some key =>
          obtain ⟨w, p₁, p₂, value₁, value₂, alike⟩ := (same key v alike).exists_eq
          have shorter := Nat.lt_of_le_of_lt (onward key v q₁).length_le
            (length_lt_nextKey reached₁)
          rw [value₁] at shorter
          dsimp only
          rw [value₁, value₂]
          exact ih _ (length ▸ shorter) w alike rfl

/-- Elements are read alike, by induction on what is left of one of the documents. -/
theorem same_elements {read : α → Reader → α × Reader}
    (outcome : ∀ v (r : Reader), r.fault = none → r.Outcome True (read v r).2)
    (same : ∀ v {q₁ q₂ : Reader}, q₁.Alike q₂ → Same (read v q₁) (read v q₂)) (v : α)
    (h : r₁.Alike r₂)
    : Same (r₁.elements read v) (r₂.elements read v) := by
  induction length : r₁.rest.length using Nat.strongRecOn generalizing v r₁ r₂ with
  | ind n ih =>
      obtain ⟨moved, q₁, q₂, reached₁, reached₂, alike⟩ := (same_nextElement h).exists_eq
      rw [elements_unfold outcome, elements_unfold outcome, reached₁, reached₂]
      cases moved with
      | false => exact ⟨rfl, alike⟩
      | true =>
          obtain ⟨sound, pending⟩ := pending_of_reached (.inr reached₁)
          have onward := onward_nextElement r₁
          rw [reached₁] at onward
          have own := outcome v q₁ sound
          obtain ⟨w, p₁, p₂, value₁, value₂, alike⟩ := (same v alike).exists_eq
          rw [value₁] at own
          dsimp only
          rw [value₁, value₂]
          rcases own with failed | ⟨_, left⟩ | took
          · exact same_of_fault alike (fun failed => elements_of_fault read w failed)
              (Option.isSome_iff_ne_none.mp failed)
          · have waits := left.pending.trans pending
            dsimp only
            rw [elements, elements, nextElement_of_pending left.sound waits,
              nextElement_of_pending (alike.sound left.sound) (alike.pending ▸ waits)]
            exact ⟨rfl, alike.latch rfl⟩
          · have shorter := Nat.lt_of_lt_of_le took.skips.length_lt onward.length_le
            exact ih _ (length ▸ shorter) w alike rfl

/-- Objects are read in the same way where their members are. -/
theorem same_object {read : String → α → Reader → α × Reader}
    (onward : ∀ key v (r : Reader), r.Onward (read key v r).2)
    (same : ∀ key v {q₁ q₂ : Reader}, q₁.Alike q₂ → Same (read key v q₁) (read key v q₂)) (v : α)
    (h : r₁.Alike r₂)
    : Same (r₁.object read v) (r₂.object read v) := by
  obtain ⟨entered, q₁, q₂, same₁, same₂, alike⟩ := (same_enter .object h).exists_eq
  rw [object, object, same₁, same₂]
  cases entered with
  | false => exact ⟨rfl, alike⟩
  | true => exact same_keys onward same v alike

/-- Arrays are read in the same way where their elements are. -/
theorem same_array {read : α → Reader → α × Reader}
    (outcome : ∀ v (r : Reader), r.fault = none → r.Outcome True (read v r).2)
    (same : ∀ v {q₁ q₂ : Reader}, q₁.Alike q₂ → Same (read v q₁) (read v q₂)) (v : α)
    (h : r₁.Alike r₂)
    : Same (r₁.array read v) (r₂.array read v) := by
  obtain ⟨entered, q₁, q₂, same₁, same₂, alike⟩ := (same_enter .array h).exists_eq
  rw [array, array, same₁, same₂]
  cases entered with
  | false => exact ⟨rfl, alike⟩
  | true => exact same_elements outcome same v alike

/-- A value is passed over in both documents, or in none; and its bytes spell the same tokens. -/
theorem same_rawValue (h : r₁.Alike r₂)
    : (∃ q₁ q₂, r₁.rawValue = (none, q₁) ∧ r₂.rawValue = (none, q₂) ∧ q₁.Alike q₂)
      ∨ ∃ document₁ document₂ q₁ q₂, r₁.rawValue = (some document₁, q₁)
        ∧ r₂.rawValue = (some document₂, q₂) ∧ q₁.Alike q₂ ∧ Beside q₁.rest q₂.rest
        ∧ Beside document₁ document₂ := by
  by_cases sound : r₁.fault = none
  · have agree := follows_skipValue maxDepth _ _ (h.rest sound).dropBlanks.rest
    generalize skipped₁ : skipValue maxDepth (dropBlanks r₁.rest) = x₁ at agree
    generalize skipped₂ : skipValue maxDepth (dropBlanks r₂.rest) = x₂ at agree
    cases agree with
    | @error fault rest₁ rest₂ =>
        exact .inl ⟨_, _, rawValue_of_error sound skipped₁,
          rawValue_of_error (h.sound sound) skipped₂,
            h.beginValue.malformed_at sound fault rest₁ rest₂⟩
    | ok parallel =>
        obtain ⟨document₁, whole₁, same₁⟩ := rawValue_of_skipped sound skipped₁
        obtain ⟨document₂, whole₂, same₂⟩ := rawValue_of_skipped (h.sound sound) skipped₂
        refine .inr ⟨document₁, document₂, _, _, same₁, same₂, ?_, parallel.rest, ?_⟩
        · exact ⟨h.fault, h.path, h.mask, h.frames, rfl, h.registry, fun _ => parallel.rest⟩
        · rw [whole₁, whole₂] at parallel
          exact parallel.front
  · have failed := Option.isSome_iff_ne_none.mpr sound
    exact .inl ⟨r₁, r₂, rawValue_of_fault failed, rawValue_of_fault (h.isSome_fault ▸ failed), h⟩

end Reader

-----------------------------------------------------------------------------------------
-- Programs
-----------------------------------------------------------------------------------------

/-- What a reader of messages does in general, and that it does the same with readers that are
alike.
-/
structure MessageReader.Faithful (read : MessageReader) : Prop where
  onward : ∀ t m (r : Reader), r.Onward (read t m r).2
  still : ∀ t m (r : Reader), r.fault.isSome → r.Still (read t m r).2
  outcome : ∀ t m (r : Reader), r.fault = none → r.Outcome True (read t m r).2
  same : ∀ t m {r₁ r₂ : Reader}, r₁.Alike r₂ → Same (read t m r₁) (read t m r₂)

/-- A program does the same with readers that are alike: by induction on how it is built. -/
theorem Program.same {manner : Manner} {α : Type} {F : Reading α} (h : Program manner F)
    {read : MessageReader} (faithful : read.Faithful) {r₁ r₂ : Reader} (alike : r₁.Alike r₂)
    : Same (F read r₁) (F read r₂) := by
  induction h generalizing r₁ r₂ with
  | leave v => exact ⟨rfl, alike⟩
  | refuse v cause => exact ⟨rfl, alike.latch rfl⟩
  | token missing selects => exact Reader.same_token missing selects alike
  | judged value cause _ ih =>
      obtain ⟨v, q₁, q₂, same₁, same₂, alike⟩ := (ih alike).exists_eq
      simp only [same₁, same₂]
      exact ⟨rfl, alike.settle _⟩
  | nullOr v _ ih =>
      obtain ⟨taken, q₁, q₂, same₁, same₂, alike⟩ := (Reader.same_null alike).exists_eq
      simp only [same₁, same₂]
      cases taken with
      | true => exact ⟨rfl, alike⟩
      | false => exact ih alike
  | record name _ ih => exact ih (alike.addField name)
  | field name _ ih =>
      have own := ih (alike.withPath (congrArg (·.push name) alike.path))
      exact ⟨own.1, own.2.withPath alike.path⟩
  | byKind _ ih =>
      obtain ⟨kind, q₁, q₂, same₁, same₂, alike⟩ := (Reader.same_peekKind alike).exists_eq
      simp only [same₁, same₂]
      exact ih kind alike
  | object v program ih =>
      exact Reader.same_object (fun key v r => (program key v).onward faithful.onward r)
        (fun key v _ _ alike => ih key v alike) v alike
  | array v program ih =>
      exact Reader.same_array
        (fun v r sound => (program v).outcome (by decide) faithful.still faithful.outcome sound)
        (fun v _ _ alike => ih v alike) v alike
  | perhaps _ ih | delegated _ ih | walk _ ih => exact ih alike
  | message t m => exact faithful.same t m alike
  | packed v value _ ih =>
      rcases Reader.same_rawValue alike with ⟨q₁, q₂, same₁, same₂, alike⟩
        | ⟨document₁, document₂, q₁, q₂, same₁, same₂, alike, behind, beside⟩
      · simp only [same₁, same₂]
        exact ⟨rfl, alike⟩
      · simp only [same₁, same₂]
        have fresh : (q₁.sub document₁).Alike (q₂.sub document₂) :=
          ⟨alike.fault, alike.path, rfl, rfl, rfl, alike.registry, fun _ => beside⟩
        obtain ⟨w, p₁, p₂, inner₁, inner₂, inner⟩ := (ih fresh).exists_eq
        simp only [inner₁, inner₂]
        exact ⟨rfl, inner.fault, alike.path, alike.mask, alike.frames, alike.pending,
          alike.registry, fun _ => behind⟩
  | enter container => exact Reader.same_enter container alike
  | nextKey => exact Reader.same_nextKey alike
  | keys v program ih =>
      exact Reader.same_keys (fun key v r => (program key v).onward faithful.onward r)
        (fun key v _ _ alike => ih key v alike) v alike
  | failed => exact ⟨alike.isSome_fault, alike⟩
  | registry => exact ⟨alike.registry, alike⟩
  | next _ _ first second =>
      obtain ⟨v, q₁, q₂, same₁, same₂, alike⟩ := (first alike).exists_eq
      simp only [same₁, same₂]
      exact second v alike
  | again target value cause _ _ _ first second =>
      obtain ⟨v, q₁, q₂, same₁, same₂, alike'⟩ := (first alike).exists_eq
      simp only [same₁, same₂]
      cases target v with
      | none => exact second v alike'
      | some found =>
          obtain ⟨t, m⟩ := found
          obtain ⟨w, p₁, p₂, inner₁, inner₂, inner⟩ := (faithful.same t m alike).exists_eq
          simp only [inner₁, inner₂]
          exact ⟨rfl, inner.settle _⟩

-----------------------------------------------------------------------------------------
-- Messages
-----------------------------------------------------------------------------------------

theorem faithful_leaveMessage : leaveMessage.Faithful where
  onward _ _ r := .refl r
  still _ _ r _ := .refl r
  outcome _ _ _ sound := .inr (.inl ⟨trivial, sound, .inl rfl, rfl, rfl⟩)
  same _ _ _ _ alike := ⟨rfl, alike⟩

section

variable {s : Schema} (flat : ∀ name, name ∉ wellKnownNames → (s.type name).form ≠ .any)

include flat

/-- Messages are read alike as deep as they nest: by induction on the depth. -/
theorem faithful_readWithin (depth : Nat)
    : (readWithin s leaveMessage depth).Faithful := by
  induction depth with
  | zero => exact faithful_leaveMessage
  | succ depth ih =>
      have program (t : MessageType) (m : Message) := program_slots s flat t m.slots
      have value (t : MessageType) : mannerOf t.form ≠ .walk := by unfold mannerOf; split <;> decide
      refine ⟨fun t m r => ?_,
        fun t m r failed => ?_, fun t m r sound => ?_, fun t m r₁ r₂ alike => ?_⟩
      · exact (program t m).onward ih.onward r
      · exact (program t m).still ih.still failed
      · exact ((program t m).outcome (value t) ih.still ih.outcome sound).weaken fun _ => trivial
      · obtain ⟨same, alike⟩ := (program t m).same ih alike
        exact ⟨congrArg (Message.mk · m.unknown) same, alike⟩

/-- Reading a message does the same with readers that are alike. -/
theorem same_readMessage (t : MessageType) (m : Message) {r₁ r₂ : Reader} (alike : r₁.Alike r₂)
    : Same (readMessage s t m r₁) (readMessage s t m r₂) := by
  have depth₁ : readMeasure t r₁ < max (readMeasure t r₁) (readMeasure t r₂) + 1 := by omega
  have depth₂ : readMeasure t r₂ < max (readMeasure t r₁) (readMeasure t r₂) + 1 := by omega
  rw [readMessage_eq_readWithin flat leaveMessage depth₁,
    readMessage_eq_readWithin flat leaveMessage depth₂]
  exact (faithful_readWithin flat _).same t m alike

end

/-- At the end nothing may be left in either document. -/
theorem Reader.same_finish {r₁ r₂ : Reader} (h : r₁.Alike r₂)
    : r₁.finish.1.map Fault.sansOffset = r₂.finish.1.map Fault.sansOffset
      ∧ r₁.finish.2.Alike r₂.finish.2 := by
  by_cases sound : r₁.fault = none
  · have sound' := h.sound sound
    have head := h.head? sound
    have blank : dropBlanks r₁.rest = [] ↔ dropBlanks r₂.rest = [] := by
      rw [← List.head?_eq_none_iff, ← List.head?_eq_none_iff, head]
    by_cases ends : dropBlanks r₁.rest = []
    · rw [finish_of_blank sound ends, finish_of_blank sound' (blank.mp ends)]
      exact ⟨rfl, h.skipBlanks⟩
    · have refused : (r₁.skipBlanks.latch .trailingData).Alike
        (r₂.skipBlanks.latch .trailingData) :=
        h.skipBlanks.latch rfl
      rw [finish_of_trailing sound ends, finish_of_trailing sound' (blank.not.mp ends)]
      exact ⟨refused.fault, refused⟩
  · have failed := Option.isSome_iff_ne_none.mpr sound
    rw [finish_of_fault failed, finish_of_fault (h.isSome_fault ▸ failed)]
    exact ⟨h.fault, h⟩

/-- Documents that look alike to a reader are read in the same way. -/
theorem decodeInto_of_alike {s : Schema}
    (flat : ∀ name, name ∉ wellKnownNames → (s.type name).form ≠ .any) {a b : List UInt8}
    {registry : Option Registry}
    (alike : (Reader.ofBytes a registry).Alike (Reader.ofBytes b registry))
    (t : MessageType) (m : Message)
    : (decodeInto s registry t m a).1 = (decodeInto s registry t m b).1
        ∧ (decodeInto s registry t m a).2.mapError Fault.sansOffset
          = (decodeInto s registry t m b).2.mapError Fault.sansOffset := by
  obtain ⟨v, r₁, r₂, same₁, same₂, alike⟩ := (same_readMessage flat t m alike).exists_eq
  obtain ⟨fault, alike⟩ := Reader.same_finish alike
  simp only [decodeInto, same₁, same₂]
  generalize r₁.finish = x₁ at fault alike
  generalize r₂.finish = x₂ at fault alike
  obtain ⟨fault₁, r₁⟩ := x₁
  obtain ⟨fault₂, r₂⟩ := x₂
  cases fault₁ with
  | none =>
      cases fault₂ with
      | none => exact ⟨rfl, congrArg Except.ok alike.mask⟩
      | some _ => cases fault
  | some _ =>
      cases fault₂ with
      | none => cases fault
      | some _ => exact ⟨rfl, congrArg Except.error (Option.some.inj fault)⟩

/-- Texts of the same tree, with other blanks and escapes in them, are read in the same way: with
the same message and the same fields, or with the same fault at the same path.
-/
theorem decodeInto_of_same_tree {own : List MessageType} (plain : ∀ t ∈ own, t.form ≠ .any)
    {n : WideNode} {a b : List Char} (first : Padded n.Spells a) (second : Padded n.Spells b)
    (registry : Option Registry) (t : MessageType) (m : Message)
    : let read (text : List Char) :=
        decodeInto (WellKnown.schemaWith own) registry t m (utf8 (String.ofList text))
      (read a).1 = (read b).1
        ∧ (read a).2.mapError Fault.sansOffset = (read b).2.mapError Fault.sansOffset := by
  intro read
  have alike : (Reader.ofBytes (utf8 (String.ofList a)) registry).Alike
      (Reader.ofBytes (utf8 (String.ofList b)) registry) :=
    ⟨rfl, rfl, rfl, rfl, rfl, rfl, fun _ => beside_of_spells first second⟩
  exact decodeInto_of_alike (form_type_ne_any plain) alike t m

/-- An array with other blanks in it, and a letter that is escaped. -/
theorem decodeInto_of_same_tree_escaped
    : let one : Numeral := ⟨['1'], isNumeral_nat 1⟩
      let n : WideNode := .array [.number one, .string [65]]
      let a := "[1,\"A\"]".toList
      let b := " [1 ,\t\"\\u0041\"]".toList
      let read (text : List Char) := decodeInto (WellKnown.schemaWith []) none WellKnown.valueType
        ⟨[.none], []⟩ (utf8 (String.ofList text))
      (∀ t ∈ ([] : List MessageType), t.form ≠ .any) ∧ Padded n.Spells a ∧ Padded n.Spells b
        ∧ (read a).1 = (read b).1
        ∧ (read a).2.mapError Fault.sansOffset = (read b).2.mapError Fault.sansOffset := by
  intro one n a b read
  have plain : ∀ t ∈ ([] : List MessageType), t.form ≠ .any :=
    fun _ listed => absurd listed List.not_mem_nil
  have none : IsBlank [] := fun _ listed => absurd listed List.not_mem_nil
  have bare {spells : List Char → Prop} {text : List Char} (h : spells text) : Padded spells text :=
    ⟨[], text, [], by simp, none, h, none⟩
  have blank : ∀ c ∈ [' ', '\t'], IsBlank [c] :=
    fun c listed c' same => List.mem_singleton.mp same ▸ List.mem_append_left ['\n', '\r'] listed
  have space := blank ' ' (by decide)
  have tab := blank '\t' (by decide)
  have letter : IsWideLiteral [65] ['"', 'A', '"'] :=
    ⟨['A'], .plain (c := 'A') (by decide) (by decide) (by decide) .nil, rfl⟩
  have code : codeUnit? ['0', '0', '4', '1'] = some 65 := rfl
  have escape : IsWideLiteral [65] ['"', '\\', 'u', '0', '0', '4', '1', '"'] :=
    ⟨_, .unit code .nil, rfl⟩
  have first : Padded n.Spells a :=
    bare ⟨['1', ',', '"', 'A', '"'], rfl, ['1'], [',', '"', 'A', '"'], rfl, bare rfl,
      ['"', 'A', '"'], [], rfl, bare letter, rfl⟩
  have second : Padded n.Spells b :=
    ⟨[' '], _, [], rfl, space,
      ⟨_, rfl, ['1', ' '], _, rfl, ⟨[], ['1'], [' '], rfl, none, rfl, space⟩,
        ['\t', '"', '\\', 'u', '0', '0', '4', '1', '"'], [], rfl,
      ⟨['\t'], _, [], rfl, tab, escape, none⟩, rfl⟩, none⟩
  have same := decodeInto_of_same_tree plain first second Option.none
    WellKnown.valueType ⟨[.none], []⟩
  exact ⟨plain, first, second, same⟩

end Protobuf.Json
