import Protobuf.Proofs.Json.Programs

/-! What the steps of the cursor do.  Each step has its cases told once; that a reader only moves on
in its document, and that it stands still after a fault, then follows for every program.
-/

namespace Protobuf.Json

/-- The reader has moved on in its document, and has no more containers open than may be. -/
structure Reader.Onward (r r' : Reader) : Prop where
  rest : r'.rest <:+ r.rest
  input : r'.input = r.input
  depth : r.frames.length ≤ maxDepth → r'.frames.length ≤ maxDepth

namespace Reader

variable {α : Type} {r r' r'' : Reader} {container : Container}

/-- A reader that stands still has moved on by nothing. -/
theorem Onward.refl (r : Reader)
    : r.Onward r :=
  ⟨List.suffix_refl _, rfl, id⟩

/-- Moving on twice is moving on. -/
theorem Onward.trans (first : r.Onward r') (second : r'.Onward r'')
    : r.Onward r'' :=
  ⟨second.rest.trans first.rest, second.input.trans first.input,
    fun few => second.depth (first.depth few)⟩

/-- No bytes come back. -/
theorem Onward.length_le (h : r.Onward r')
    : r'.rest.length ≤ r.rest.length :=
  h.rest.length_le

/-- A fault leaves the bytes that are left. -/
@[simp]
theorem latch_rest (r : Reader) (cause : Cause)
    : (r.latch cause).rest = r.rest := by
  unfold latch
  split <;> rfl

@[simp]
theorem latch_input (r : Reader) (cause : Cause)
    : (r.latch cause).input = r.input := by
  unfold latch
  split <;> rfl

/-- A fault leaves the open containers. -/
@[simp]
theorem latch_frames (r : Reader) (cause : Cause)
    : (r.latch cause).frames = r.frames := by
  unfold latch
  split <;> rfl

/-- A fault leaves the value that is to be read. -/
@[simp]
theorem latch_pending (r : Reader) (cause : Cause)
    : (r.latch cause).pending = r.pending := by
  unfold latch
  split <;> rfl

/-- There is a fault once one is kept. -/
theorem isSome_latch (r : Reader) (cause : Cause)
    : (r.latch cause).fault.isSome := by
  unfold latch
  split
  · exact Option.isSome_iff_exists.mpr ⟨_, ‹_›⟩
  · rfl

/-- A sound reader keeps the cause with its path. -/
theorem latch_of_sound (sound : r.fault = none) (cause : Cause)
    : r.latch cause = { r with fault := some ⟨.unmarshal, r.path.dotted, cause⟩ } := by
  rw [latch, sound]

/-- A reader that has failed keeps its fault. -/
theorem settle_of_fault (failed : r.fault.isSome) (cause : Option Cause)
    : r.settle cause = r := by
  cases cause with
  | none => rfl
  | some cause => exact latch_of_fault failed cause

/-- Failing moves nothing. -/
theorem onward_latch (r : Reader) (cause : Cause)
    : r.Onward (r.latch cause) :=
  ⟨by simp, by simp, by simp⟩

theorem onward_settle (r : Reader) (cause : Option Cause)
    : r.Onward (r.settle cause) := by
  cases cause with
  | none => exact .refl r
  | some cause => exact onward_latch r cause

/-- Passing over blanks moves on. -/
theorem onward_beginValue (r : Reader)
    : r.Onward r.beginValue :=
  ⟨dropBlanks_suffix _, rfl, id⟩

theorem onward_skipBlanks (r : Reader)
    : r.Onward r.skipBlanks :=
  ⟨dropBlanks_suffix _, rfl, id⟩

theorem onward_addField (r : Reader) (name : String)
    : r.Onward (r.addField name) :=
  ⟨List.suffix_refl _, rfl, id⟩

-----------------------------------------------------------------------------------------
-- Tokens
-----------------------------------------------------------------------------------------

/-- A scan goes behind the token, or fails. -/
theorem scan_cases {scanner : Scanner α} (suffixes : scanner.Suffixes) (r : Reader)
    : (∃ v rest, scanner r.rest = .ok v rest ∧ r.scan scanner = (some v, { r with rest }))
      ∨ ∃ r', r.scan scanner = (none, r') ∧ r'.fault.isSome ∧ r.Onward r' := by
  rw [scan]
  cases scanned : scanner r.rest with
  | ok v rest => exact .inl ⟨v, rest, rfl, rfl⟩
  | error fault rest =>
      have moved : r.Onward { r with rest } := ⟨suffixes.of_error scanned, rfl, id⟩
      exact .inr ⟨_, rfl, isSome_latch _ _, moved.trans (onward_latch _ _)⟩

/-- A token is scanned, unless the reader has failed or fails. -/
theorem token_cases {select : Option UInt8 → Option (Scanner α)} (missing : Cause)
    (suffixes : ∀ first scanner, select first = some scanner → scanner.Suffixes) (r : Reader)
    : r.fault.isSome ∧ r.token select missing = (none, r)
      ∨ (∃ r', r.token select missing = (none, r') ∧ r'.fault.isSome ∧ r.Onward r')
      ∨ ∃ scanner v rest, r.fault = none ∧ select (dropBlanks r.rest).head? = some scanner
          ∧ scanner (dropBlanks r.rest) = .ok v rest
          ∧ r.token select missing = (some v, { r with pending := false, rest }) := by
  unfold token
  split
  · rename_i fault failed
    exact .inl ⟨by rw [failed]; rfl, rfl⟩
  rename_i sound
  refine .inr ?_
  split
  · exact .inl ⟨_, rfl, isSome_latch _ _, (onward_beginValue r).trans (onward_latch _ _)⟩
  rename_i scanner selected
  rcases scan_cases (suffixes _ _ selected) r.beginValue with
    ⟨v, rest, ok, same⟩ | ⟨r', same, failed, onward⟩
  · exact .inr ⟨scanner, v, rest, sound, selected, ok, same⟩
  · exact .inl ⟨r', same, failed, (onward_beginValue r).trans onward⟩

/-- A value that can be passed over gives its bytes. -/
theorem rawValue_of_skipped {rest : List UInt8} (sound : r.fault = none)
    (skipped : Scanner.skipValue maxDepth (dropBlanks r.rest) = .ok () rest)
    : ∃ document, dropBlanks r.rest = document ++ rest
      ∧ r.rawValue = (some document, { r with pending := false, rest }) := by
  obtain ⟨document, whole⟩ := (Scanner.suffixes_skipValue maxDepth).of_ok skipped
  have begun : Scanner.skipValue maxDepth r.beginValue.rest = .ok () rest := skipped
  have taken : r.beginValue.rest.take (r.beginValue.rest.length - rest.length) = document := by
    rw [show r.beginValue.rest = document ++ rest from whole.symm, List.length_append,
      Nat.add_sub_cancel, List.take_left]
  refine ⟨document, whole.symm, ?_⟩
  unfold rawValue
  rw [sound]
  simp only [scan, begun, taken]
  rw [← sound]
  rfl

/-- A value that can not be passed over fails the reader. -/
theorem rawValue_of_error {fault : SyntaxFault} {rest : List UInt8} (sound : r.fault = none)
    (skipped : Scanner.skipValue maxDepth (dropBlanks r.rest) = .error fault rest)
    : r.rawValue = (none, ({ r with pending := false, rest } : Reader).malformed fault) := by
  have begun : Scanner.skipValue maxDepth r.beginValue.rest = .error fault rest := skipped
  unfold rawValue
  rw [sound]
  simp only [scan, begun]
  rw [← sound]
  rfl

/-- A value that is passed over gives its bytes, unless the reader has failed or fails. -/
theorem rawValue_cases (r : Reader)
    : r.fault.isSome ∧ r.rawValue = (none, r)
      ∨ (∃ r', r.rawValue = (none, r') ∧ r'.fault.isSome ∧ r.Onward r')
      ∨ ∃ document rest, r.fault = none
        ∧ Scanner.skipValue maxDepth (dropBlanks r.rest) = .ok () rest
          ∧ dropBlanks r.rest = document ++ rest
          ∧ r.rawValue = (some document, { r with pending := false, rest }) := by
  by_cases sound : r.fault = none
  · refine .inr ?_
    cases skipped : Scanner.skipValue maxDepth (dropBlanks r.rest) with
    | ok _ rest =>
        obtain ⟨document, whole, same⟩ := rawValue_of_skipped sound skipped
        exact .inr ⟨document, rest, sound, rfl, whole, same⟩
    | error fault rest =>
        have kept := (Scanner.suffixes_skipValue maxDepth).of_error skipped
        have moved : r.Onward { r with pending := false, rest } :=
          ⟨kept.trans (dropBlanks_suffix _), rfl, id⟩
        exact .inl ⟨_, rawValue_of_error sound skipped, isSome_latch _ _,
          moved.trans (onward_latch _ _)⟩
  · have failed := Option.isSome_iff_ne_none.mpr sound
    obtain ⟨fault, same⟩ := Option.isSome_iff_exists.mp failed
    exact .inl ⟨failed, by rw [rawValue, same]⟩

/-- Looking at the next value moves over blanks only. -/
theorem onward_peekKind (r : Reader)
    : r.Onward r.peekKind.2 := by
  rw [peekKind]
  cases r.fault with
  | some fault => exact .refl r
  | none => exact onward_skipBlanks r

/-- The type of the value in front of a sound reader shows in its first byte. -/
theorem peekKind_of_sound (sound : r.fault = none)
    : r.peekKind = ((dropBlanks r.rest).head?.bind ValueKind.ofByte?, r.skipBlanks) := by
  rw [peekKind, sound]
  rfl

/-- A null is taken, or the reader fails, or there is no null and the reader stays in front of the
value.
-/
theorem null_cases (r : Reader)
    : r.fault.isSome ∧ r.null = (false, r)
      ∨ (∃ r', r.null = (false, r') ∧ r'.fault.isSome ∧ r.Onward r')
      ∨ r.fault = none ∧ r.null = (false, r.skipBlanks)
      ∨ ∃ rest, r.fault = none ∧ (dropBlanks r.rest).head? = some 110
          ∧ Scanner.literal "null" (dropBlanks r.rest) = .ok () rest
          ∧ r.null = (true, { r with pending := false, rest }) := by
  by_cases failed : r.fault.isSome
  · refine .inl ⟨failed, ?_⟩
    rw [null, peekKind_of_fault failed]
  rw [Option.not_isSome_iff_eq_none] at failed
  refine .inr ?_
  have begun : r.skipBlanks.beginValue = r.beginValue := by
    simp only [beginValue, skipBlanks, dropBlanks_dropBlanks]
  rw [null, peekKind_of_sound failed]
  cases kind : (dropBlanks r.rest).head?.bind ValueKind.ofByte? with
  | none => exact .inr (.inl ⟨failed, rfl⟩)
  | some found =>
      cases found with
      | null =>
          obtain ⟨b, first, null⟩ := Option.bind_eq_some_iff.mp kind
          cases eq_of_kind_null null
          simp only [begun]
          rcases scan_cases (Scanner.suffixes_literal "null") r.beginValue with
            ⟨v, rest, ok, same⟩ | ⟨r', same, failed, onward⟩
          · exact .inr (.inr ⟨rest, failed, first, ok, by simp only [same]; rfl⟩)
          · exact .inl ⟨r', by simp only [same], failed, (onward_beginValue r).trans onward⟩
      | bool | number | string | object | array => exact .inr (.inl ⟨failed, rfl⟩)

/-- A reader that has failed ends with its fault. -/
theorem finish_of_fault {r : Reader} (failed : r.fault.isSome)
    : r.finish = (r.fault, r) := by
  obtain ⟨fault, known⟩ := Option.isSome_iff_exists.mp failed
  rw [finish, known]

/-- A document ends where only blanks are left. -/
theorem finish_of_blank {r : Reader} (sound : r.fault = none) (blank : dropBlanks r.rest = [])
    : r.finish = (none, r.skipBlanks) := by
  rw [finish, sound]
  simp only [skipBlanks, blank, List.isEmpty_nil, if_true, sound]

/-- Anything else behind a document is a fault. -/
theorem finish_of_trailing {r : Reader} (sound : r.fault = none) (more : dropBlanks r.rest ≠ [])
    : r.finish = ((r.skipBlanks.latch .trailingData).fault, r.skipBlanks.latch .trailingData) := by
  have nonempty : r.skipBlanks.rest.isEmpty = false := List.isEmpty_eq_false_iff.mpr more
  rw [finish, sound]
  simp only [nonempty, Bool.false_eq_true, if_false]

/-- In the end the first fault comes out, or nothing but blanks is left, or what is left is one. -/
theorem finish_cases (r : Reader)
    : r.fault.isSome ∧ r.finish = (r.fault, r)
      ∨ (r.fault = none ∧ dropBlanks r.rest = [] ∧ r.finish = (none, r.skipBlanks))
      ∨ r.fault = none ∧ dropBlanks r.rest ≠ []
        ∧ r.finish = ((r.skipBlanks.latch .trailingData).fault,
          r.skipBlanks.latch .trailingData) := by
  by_cases sound : r.fault = none
  · refine .inr ?_
    by_cases blank : dropBlanks r.rest = []
    · exact .inl ⟨sound, blank, finish_of_blank sound blank⟩
    · exact .inr ⟨sound, blank, finish_of_trailing sound blank⟩
  · have failed := Option.isSome_iff_ne_none.mpr sound
    exact .inl ⟨failed, finish_of_fault failed⟩

-----------------------------------------------------------------------------------------
-- Containers
-----------------------------------------------------------------------------------------

/-- A container is entered, unless the reader has failed or fails. -/
theorem enter_cases (container : Container) (r : Reader)
    : r.fault.isSome ∧ r.enter container = (false, r)
      ∨ (∃ r', r.enter container = (false, r') ∧ r'.fault.isSome ∧ r.Onward r')
      ∨ ∃ rest, r.fault = none ∧ dropBlanks r.rest = container.opening :: rest
          ∧ r.frames.length < maxDepth
          ∧ r.enter container
              = (true,
                { r with pending := false, rest, frames := ⟨container, true⟩ :: r.frames }) := by
  unfold enter
  split
  · rename_i fault failed
    exact .inl ⟨by rw [failed]; rfl, rfl⟩
  rename_i sound
  refine .inr ?_
  simp only
  split
  · rename_i opening
    split
    · exact .inl ⟨_, rfl, isSome_latch _ _, (onward_beginValue r).trans (onward_latch _ _)⟩
    · rename_i room
      obtain ⟨rest, visible⟩ := List.head?_eq_some_iff.mp opening
      refine .inr ⟨rest, sound, visible, Nat.lt_of_not_le room, ?_⟩
      rw [visible]
      rfl
  · exact .inl ⟨_, rfl, isSome_latch _ _, (onward_beginValue r).trans (onward_latch _ _)⟩

/-- The step of the cursor inside a container of the kind. -/
theorem advance_of_inside {first : Bool} {frames : List Frame} (sound : r.fault = none)
    (idle : r.pending = false) (inside : r.frames = ⟨container, first⟩ :: frames)
    : r.advance container
        = if (dropBlanks r.rest).head? = some container.closing then
            (false, { r with rest := (dropBlanks r.rest).tail, frames })
          else if first then
            (true, { r with rest := dropBlanks r.rest, frames := ⟨container, false⟩ :: frames })
          else if (dropBlanks r.rest).head? = some 44 then
            (true, { r with
              rest := (dropBlanks r.rest).tail
              frames := ⟨container, false⟩ :: frames })
          else
            (false, ({ r with
              rest := dropBlanks r.rest
              frames := ⟨container, false⟩ :: frames } : Reader).malformed .expectedComma) := by
  unfold advance
  rw [sound, idle, inside]
  simp only [ne_eq, not_true_eq_false, if_false, Bool.false_eq_true]
  rfl

/-- The cursor moves to the first member of a container, behind a comma or out of the container,
unless the reader has failed or fails.
-/
theorem advance_cases (container : Container) (r : Reader)
    : r.fault.isSome ∧ r.advance container = (false, r)
      ∨ (∃ r', r.advance container = (false, r') ∧ r'.fault.isSome ∧ r.Onward r')
      ∨ (∃ first frames rest, r.fault = none ∧ r.pending = false
          ∧ r.frames = ⟨container, first⟩ :: frames ∧ dropBlanks r.rest = container.closing :: rest
          ∧ r.advance container = (false, { r with rest, frames }))
      ∨ ∃ first frames rest, r.fault = none ∧ r.pending = false
          ∧ r.frames = ⟨container, first⟩ :: frames
          ∧ (dropBlanks r.rest).head? ≠ some container.closing
          ∧ dropBlanks r.rest = (if first then rest else 44 :: rest)
          ∧ r.advance container
              = (true, { r with rest, frames := ⟨container, false⟩ :: frames }) := by
  by_cases inner : r.fault = none ∧ r.pending = false ∧ ∃ first frames,
      r.frames = ⟨container, first⟩ :: frames
  · obtain ⟨sound, idle, first, frames, inside⟩ := inner
    refine .inr ?_
    rw [advance_of_inside sound idle inside]
    have moved : r.Onward { r with
        rest := dropBlanks r.rest
        frames := ⟨container, false⟩ :: frames } :=
      ⟨dropBlanks_suffix _, rfl, by rw [inside]; exact id⟩
    by_cases closing : (dropBlanks r.rest).head? = some container.closing
    · obtain ⟨rest, visible⟩ := List.head?_eq_some_iff.mp closing
      refine .inr (.inl ⟨first, frames, rest, sound, idle, inside, visible, ?_⟩)
      rw [if_pos closing, visible]
      rfl
    rw [if_neg closing]
    cases first with
    | true => exact .inr (.inr ⟨true, frames, _, sound, idle, inside, closing, rfl, rfl⟩)
    | false =>
        rw [if_neg Bool.false_ne_true]
        by_cases comma : (dropBlanks r.rest).head? = some 44
        · obtain ⟨rest, visible⟩ := List.head?_eq_some_iff.mp comma
          refine .inr (.inr ⟨false, frames, rest, sound, idle, inside, closing, visible, ?_⟩)
          rw [if_pos comma, visible]
          rfl
        · rw [if_neg comma]
          exact .inl ⟨_, rfl, isSome_latch _ _, moved.trans (onward_latch _ _)⟩
  · unfold advance
    split
    · rename_i fault failed
      exact .inl ⟨by rw [failed]; rfl, rfl⟩
    rename_i sound
    refine .inr (.inl ?_)
    split
    · exact ⟨_, rfl, isSome_latch _ _, onward_latch _ _⟩
    rename_i idle
    split
    · exact ⟨_, rfl, isSome_latch _ _, onward_latch _ _⟩
    rename_i frame frames inside
    split
    · exact ⟨_, rfl, isSome_latch _ _, onward_latch _ _⟩
    rename_i own
    rw [ne_eq, Decidable.not_not] at own
    subst own
    exact absurd ⟨sound, Bool.not_eq_true _ ▸ idle, frame.first, frames, inside⟩ inner

/-- What the reader keeps in front of the next member fails the next step of the cursor. -/
theorem advance_of_pending (container : Container) (sound : r.fault = none)
    (pending : r.pending = true)
    : r.advance container = (false, r.latch .unconsumedValue) := by
  unfold advance
  rw [sound]
  simp only [pending, if_true]

/-- The next key is scanned if the cursor can move to it. -/
theorem nextKey_eq (r : Reader)
    : r.nextKey
        = match r.advance .object with
          | (false, r) => (none, r)
          | (true, r) =>
              match r.scan Scanner.keyAndColon with
              | (none, r) => (none, r)
              | (some key, r) => (some key, { r with pending := true }) :=
  rfl

/-- The cursor reaches a key or leaves the object, unless the reader has failed or fails. -/
theorem nextKey_cases (r : Reader)
    : r.fault.isSome ∧ r.nextKey = (none, r)
      ∨ (∃ r', r.nextKey = (none, r') ∧ r'.fault.isSome ∧ r.Onward r')
      ∨ (∃ first frames rest, r.fault = none ∧ r.pending = false
          ∧ r.frames = ⟨.object, first⟩ :: frames ∧ dropBlanks r.rest = 125 :: rest
          ∧ r.nextKey = (none, { r with rest, frames }))
      ∨ ∃ key first frames start rest, r.fault = none ∧ r.pending = false
          ∧ r.frames = ⟨.object, first⟩ :: frames ∧ (dropBlanks r.rest).head? ≠ some 125
          ∧ dropBlanks r.rest = (if first then start else 44 :: start)
          ∧ Scanner.keyAndColon start = .ok key rest
          ∧ r.nextKey
              = (some key,
                { r with rest, frames := ⟨.object, false⟩ :: frames, pending := true }) := by
  rw [nextKey_eq]
  rcases advance_cases .object r with ⟨failed, same⟩ | ⟨r', same, failed, onward⟩
    | ⟨first, frames, rest, sound, idle, inside, closing, same⟩
    | ⟨first, frames, start, sound, idle, inside, other, begun, same⟩
  · exact .inl ⟨failed, by rw [same]⟩
  · exact .inr (.inl ⟨r', by rw [same], failed, onward⟩)
  · exact .inr (.inr (.inl ⟨first, frames, rest, sound, idle, inside, closing, by rw [same]⟩))
  · refine .inr ?_
    rw [same]
    have kept : start <:+ dropBlanks r.rest := by
      rw [begun]
      split
      · exact List.suffix_refl _
      · exact List.suffix_cons _ _
    have moved : r.Onward { r with rest := start, frames := ⟨.object, false⟩ :: frames } :=
      ⟨kept.trans (dropBlanks_suffix _), rfl, by rw [inside]; exact id⟩
    rcases scan_cases Scanner.suffixes_keyAndColon
        { r with rest := start, frames := ⟨.object, false⟩ :: frames } with
      ⟨key, rest, ok, same⟩ | ⟨r', same, failed, onward⟩
    · refine .inr (.inr ⟨key, first, frames, start, rest, sound, idle, inside, other,
        begun, ok, ?_⟩)
      simp only [same]
    · exact .inl ⟨r', by simp only [same], failed, moved.trans onward⟩

/-- The cursor reaches an element or leaves the array, unless the reader has failed or fails. -/
theorem nextElement_cases (r : Reader)
    : r.fault.isSome ∧ r.nextElement = (false, r)
      ∨ (∃ r', r.nextElement = (false, r') ∧ r'.fault.isSome ∧ r.Onward r')
      ∨ (∃ first frames rest, r.fault = none ∧ r.pending = false
          ∧ r.frames = ⟨.array, first⟩ :: frames ∧ dropBlanks r.rest = 93 :: rest
          ∧ r.nextElement = (false, { r with rest, frames }))
      ∨ ∃ first frames rest, r.fault = none ∧ r.pending = false
          ∧ r.frames = ⟨.array, first⟩ :: frames ∧ (dropBlanks r.rest).head? ≠ some 93
          ∧ dropBlanks r.rest = (if first then rest else 44 :: rest)
          ∧ r.nextElement
              = (true, { r with rest, frames := ⟨.array, false⟩ :: frames, pending := true }) := by
  rw [nextElement]
  rcases advance_cases .array r with ⟨failed, same⟩ | ⟨r', same, failed, onward⟩
    | ⟨first, frames, rest, sound, idle, inside, closing, same⟩
    | ⟨first, frames, rest, sound, idle, inside, other, begun, same⟩
  · exact .inl ⟨failed, by rw [same]⟩
  · exact .inr (.inl ⟨r', by rw [same], failed, onward⟩)
  · exact .inr (.inr (.inl ⟨first, frames, rest, sound, idle, inside, closing, by rw [same]⟩))
  · exact .inr (.inr (.inr ⟨first, frames, rest, sound, idle, inside, other, begun, by rw [same]⟩))

-----------------------------------------------------------------------------------------
-- Onward
-----------------------------------------------------------------------------------------

/-- Stepping into a container opens at most one, within the limit. -/
theorem onward_enter (container : Container) (r : Reader)
    : r.Onward (r.enter container).2 := by
  rcases enter_cases container r with ⟨_, same⟩ | ⟨r', same, _, onward⟩
    | ⟨rest, _, opening, room, same⟩ <;> rw [same]
  · exact .refl r
  · exact onward
  · refine ⟨?_, rfl, fun _ => room⟩
    have kept := dropBlanks_suffix r.rest
    rw [opening] at kept
    exact (List.suffix_cons _ _).trans kept

/-- Moving in a container moves on and may close it. -/
theorem onward_advance (container : Container) (r : Reader)
    : r.Onward (r.advance container).2 := by
  rcases advance_cases container r with ⟨_, same⟩ | ⟨r', same, _, onward⟩
    | ⟨first, frames, rest, _, _, inside, closing, same⟩
    | ⟨first, frames, rest, _, _, inside, _, begun, same⟩ <;> rw [same]
  · exact .refl r
  · exact onward
  · refine ⟨?_, rfl, fun few => ?_⟩
    · have kept := dropBlanks_suffix r.rest
      rw [closing] at kept
      exact (List.suffix_cons _ _).trans kept
    · rw [inside] at few
      exact Nat.le_of_succ_le few
  · refine ⟨?_, rfl, by rw [inside]; exact id⟩
    have kept := dropBlanks_suffix r.rest
    rw [begun] at kept
    cases first with
    | true => exact kept
    | false => exact (List.suffix_cons _ _).trans kept

/-- A scan that leaves a suffix moves on. -/
theorem onward_scan {scanner : Scanner α} (suffixes : scanner.Suffixes) (r : Reader)
    : r.Onward (r.scan scanner).2 := by
  rcases scan_cases suffixes r with ⟨v, rest, ok, same⟩ | ⟨r', same, _, onward⟩ <;> rw [same]
  · exact ⟨suffixes.of_ok ok, rfl, id⟩
  · exact onward

/-- The next key lies further on. -/
theorem onward_nextKey (r : Reader)
    : r.Onward r.nextKey.2 := by
  have moved := onward_advance .object r
  rw [nextKey_eq]
  rcases advanced : r.advance .object with ⟨_ | _, r'⟩ <;> rw [advanced] at moved
  · exact moved
  · have whole := moved.trans (onward_scan Scanner.suffixes_keyAndColon r')
    simp only
    rcases scanned : r'.scan Scanner.keyAndColon with ⟨_ | key, r''⟩ <;> rw [scanned] at whole
    · exact whole
    · exact ⟨whole.rest, whole.input, whole.depth⟩

/-- The next element lies further on. -/
theorem onward_nextElement (r : Reader)
    : r.Onward r.nextElement.2 := by
  have moved := onward_advance .array r
  rw [nextElement]
  rcases advanced : r.advance .array with ⟨_ | _, r'⟩ <;> rw [advanced] at moved
  · exact moved
  · exact ⟨moved.rest, moved.input, moved.depth⟩

/-- A token moves on if its scanner leaves a suffix. -/
theorem onward_token {select : Option UInt8 → Option (Scanner α)} (missing : Cause)
    (suffixes : ∀ first scanner, select first = some scanner → scanner.Suffixes) (r : Reader)
    : r.Onward (r.token select missing).2 := by
  rcases token_cases missing suffixes r with ⟨_, same⟩ | ⟨r', same, _, onward⟩
    | ⟨scanner, v, rest, _, selected, ok, same⟩ <;> rw [same]
  · exact .refl r
  · exact onward
  · exact ⟨((suffixes _ _ selected).of_ok ok).trans (dropBlanks_suffix _), rfl, id⟩

/-- Passing over a value moves on. -/
theorem onward_rawValue (r : Reader)
    : r.Onward r.rawValue.2 := by
  rcases rawValue_cases r with ⟨_, same⟩ | ⟨r', same, _, onward⟩
    | ⟨document, rest, _, _, whole, same⟩ <;> rw [same]
  · exact .refl r
  · exact onward
  · exact ⟨List.IsSuffix.trans ⟨document, whole.symm⟩ (dropBlanks_suffix _), rfl, id⟩

/-- Looking for a null moves on. -/
theorem onward_null (r : Reader)
    : r.Onward r.null.2 := by
  rcases null_cases r with ⟨_, same⟩ | ⟨r', same, _, onward⟩ | ⟨_, same⟩ | ⟨rest, _, _, ok, same⟩
    <;> rw [same]
  · exact .refl r
  · exact onward
  · exact onward_skipBlanks r
  · exact ⟨((Scanner.suffixes_literal _).of_ok ok).trans (dropBlanks_suffix _), rfl, id⟩

/-- By induction on what is left of the document. -/
theorem onward_keys {read : String → α → Reader → α × Reader}
    (onward : ∀ key v (r : Reader), r.Onward (read key v r).2) (v : α) (r : Reader)
    : r.Onward (r.keys read v).2 := by
  fun_induction Reader.keys read v r with
  | case1 v r r' reached =>
      have moved := onward_nextKey r
      rwa [reached] at moved
  | case2 v r key r' reached next _ ih =>
      have moved := onward_nextKey r
      rw [reached] at moved
      exact (moved.trans (onward key v r')).trans ih
  | case3 v r key r' reached next _ =>
      have moved := onward_nextKey r
      rw [reached] at moved
      exact moved.trans (onward key v r')

/-- By induction on what is left of the document. -/
theorem onward_elements {read : α → Reader → α × Reader}
    (onward : ∀ v (r : Reader), r.Onward (read v r).2) (v : α) (r : Reader)
    : r.Onward (r.elements read v).2 := by
  fun_induction Reader.elements read v r with
  | case1 v r r' reached =>
      have moved := onward_nextElement r
      rwa [reached] at moved
  | case2 v r r' reached next _ ih =>
      have moved := onward_nextElement r
      rw [reached] at moved
      exact (moved.trans (onward v r')).trans ih
  | case3 v r r' reached next _ =>
      have moved := onward_nextElement r
      rw [reached] at moved
      exact (moved.trans (onward v r')).trans (onward_nextElement _)

/-- An object moves on if its members do. -/
theorem onward_object {read : String → α → Reader → α × Reader}
    (onward : ∀ key v (r : Reader), r.Onward (read key v r).2) (v : α) (r : Reader)
    : r.Onward (r.object read v).2 := by
  have moved := onward_enter .object r
  rw [object]
  rcases entered : r.enter .object with ⟨_ | _, r'⟩ <;> rw [entered] at moved
  · exact moved
  · exact moved.trans (onward_keys onward v r')

/-- An array moves on if its elements do. -/
theorem onward_array {read : α → Reader → α × Reader}
    (onward : ∀ v (r : Reader), r.Onward (read v r).2) (v : α) (r : Reader)
    : r.Onward (r.array read v).2 := by
  have moved := onward_enter .array r
  rw [array]
  rcases entered : r.enter .array with ⟨_ | _, r'⟩ <;> rw [entered] at moved
  · exact moved
  · exact moved.trans (onward_elements onward v r')

end Reader

/-- The scanner of a token leaves a suffix. -/
theorem ScansAt.suffixes {α : Type} {first : Option UInt8} {scanner : Scanner α}
    (h : ScansAt first scanner)
    : scanner.Suffixes := by
  induction h with
  | string => exact Scanner.suffixes_string
  | number _ => exact Scanner.suffixes_number
  | true | false => exact Scanner.suffixes_literal _
  | value _ => exact Scanner.suffixes_skipValue _
  | map f _ ih => exact ih.map f

/-- A program moves the reader on in its document, if the readers of messages do: by induction on
how it is built.
-/
theorem Program.onward {manner : Manner} {α : Type} {F : Reading α} (h : Program manner F)
    {read : MessageReader} (onward : ∀ t m (r : Reader), r.Onward (read t m r).2) (r : Reader)
    : r.Onward (F read r).2 := by
  induction h generalizing r with
  | leave v => exact .refl r
  | refuse v cause => exact Reader.onward_latch r cause
  | token missing selects =>
      exact Reader.onward_token missing (fun _ _ selected => (selects _ _ selected).suffixes) r
  | judged value cause _ ih => exact (ih r).trans (Reader.onward_settle _ _)
  | @nullOr manner α F v _ ih =>
      have moved := Reader.onward_null r
      dsimp only
      rcases taken : r.null with ⟨_ | _, r'⟩ <;> rw [taken] at moved
      · exact moved.trans (ih r')
      · exact moved
  | record name _ ih => exact (Reader.onward_addField r name).trans (ih _)
  | @field manner α F name _ ih =>
      have moved := ih { r with path := r.path.push name }
      exact ⟨moved.rest, moved.input, moved.depth⟩
  | byKind _ ih => exact (Reader.onward_peekKind r).trans (ih _ _)
  | object v _ ih => exact Reader.onward_object (fun key v r => ih key v r) v r
  | array v _ ih => exact Reader.onward_array (fun v r => ih v r) v r
  | perhaps _ ih | delegated _ ih | walk _ ih => exact ih r
  | message t m => exact onward t m r
  | packed v value _ ih =>
      have moved := Reader.onward_rawValue r
      dsimp only
      rcases passed : r.rawValue with ⟨_ | document, r'⟩ <;> rw [passed] at moved
      · exact moved
      · exact ⟨moved.rest, moved.input, moved.depth⟩
  | enter container => exact Reader.onward_enter container r
  | nextKey => exact Reader.onward_nextKey r
  | keys v _ ih => exact Reader.onward_keys (fun key v r => ih key v r) v r
  | failed | registry => exact .refl r
  | next _ _ first second => exact (first r).trans (second _ _)
  | again target value cause _ _ _ first second =>
      simp only
      split
      · exact (first r).trans (second _ _)
      · exact (onward _ _ r).trans (Reader.onward_settle _ _)

/-- Reading a message moves on in the document: by induction on the measure that bounds the messages
inside it.
-/
theorem onward_readMessage {s : Schema}
    (flat : ∀ name, name ∉ wellKnownNames → (s.type name).form ≠ .any)
    (t : MessageType) (m : Message) (r : Reader)
    : r.Onward (readMessage s t m r).2 := by
  induction measure : readMeasure t r using Nat.strongRecOn generalizing t m r with
  | ind n ih =>
      rw [readMessage]
      refine (program_slots s flat t m.slots).onward (fun t' m' r' => ?_) r
      split
      · rename_i less
        exact ih _ (measure ▸ less) t' m' r' rfl
      · exact .refl r'

-----------------------------------------------------------------------------------------
-- Readers that have failed
-----------------------------------------------------------------------------------------

/-- The reader is the same, but for fields that were recorded. -/
def Reader.Still (r r' : Reader) : Prop :=
  ∃ mask, r' = { r with mask }

namespace Reader

variable {α : Type} {r r' r'' : Reader}

/-- Nothing has changed in a reader that did nothing. -/
theorem Still.refl (r : Reader)
    : r.Still r :=
  ⟨r.mask, rfl⟩

/-- Changing nothing twice changes nothing. -/
theorem Still.trans (first : r.Still r') (second : r'.Still r'')
    : r.Still r'' := by
  obtain ⟨_, rfl⟩ := first
  obtain ⟨mask, rfl⟩ := second
  exact ⟨mask, rfl⟩

/-- The fault stays. -/
theorem Still.fault (h : r.Still r')
    : r'.fault = r.fault := by
  obtain ⟨mask, rfl⟩ := h
  rfl

theorem Still.isSome (h : r.Still r') (failed : r.fault.isSome)
    : r'.fault.isSome := by
  rwa [h.fault]

theorem Still.settle (h : r.Still r') (failed : r.fault.isSome) (cause : Option Cause)
    : r.Still (r'.settle cause) := by
  rwa [settle_of_fault (h.isSome failed)]

theorem still_addField (r : Reader) (name : String)
    : r.Still (r.addField name) :=
  ⟨_, rfl⟩

/-- A reader that has failed scans no token. -/
theorem token_of_fault (failed : r.fault.isSome) (select : Option UInt8 → Option (Scanner α))
    (missing : Cause)
    : r.token select missing = (none, r) := by
  obtain ⟨fault, same⟩ := Option.isSome_iff_exists.mp failed
  rw [token, same]

/-- A reader that has failed passes over no value. -/
theorem rawValue_of_fault (failed : r.fault.isSome)
    : r.rawValue = (none, r) := by
  obtain ⟨fault, same⟩ := Option.isSome_iff_exists.mp failed
  rw [rawValue, same]

/-- A reader that has failed takes no null. -/
theorem null_of_fault (failed : r.fault.isSome)
    : r.null = (false, r) := by
  rw [null, peekKind_of_fault failed]

/-- A reader that has failed steps into no container. -/
theorem enter_of_fault (failed : r.fault.isSome) (container : Container)
    : r.enter container = (false, r) := by
  obtain ⟨fault, same⟩ := Option.isSome_iff_exists.mp failed
  rw [enter, same]

/-- A reader that has failed reads no member. -/
theorem object_of_fault (failed : r.fault.isSome) (read : String → α → Reader → α × Reader) (v : α)
    : r.object read v = (v, r) := by
  rw [object, enter_of_fault failed]

/-- A reader that has failed reads no element. -/
theorem array_of_fault (failed : r.fault.isSome) (read : α → Reader → α × Reader) (v : α)
    : r.array read v = (v, r) := by
  rw [array, enter_of_fault failed]

end Reader

/-- A program leaves a reader that has failed as it is, if the readers of messages do: by induction
on how it is built.
-/
theorem Program.still {manner : Manner} {α : Type} {F : Reading α} (h : Program manner F)
    {read : MessageReader} (still : ∀ t m (r : Reader), r.fault.isSome → r.Still (read t m r).2)
    {r : Reader} (failed : r.fault.isSome)
    : r.Still (F read r).2 := by
  induction h generalizing r with
  | leave v => exact .refl r
  | refuse v cause => exact Reader.Still.settle (.refl r) failed (some cause)
  | token missing selects =>
      simp only [Reader.token_of_fault failed]
      exact .refl r
  | judged value cause _ ih => exact (ih failed).settle failed _
  | nullOr v _ ih =>
      simp only [Reader.null_of_fault failed]
      exact ih failed
  | record name _ ih =>
      exact (Reader.still_addField r name).trans (ih (r := r.addField name) failed)
  | field name _ ih =>
      obtain ⟨mask, same⟩ := ih (r := { r with path := r.path.push name }) failed
      refine ⟨mask, ?_⟩
      simp only [Reader.withField, same]
  | byKind _ ih =>
      simp only [Reader.peekKind_of_fault failed]
      exact ih none failed
  | object v _ _ =>
      simp only [Reader.object_of_fault failed]
      exact .refl r
  | array v _ _ =>
      simp only [Reader.array_of_fault failed]
      exact .refl r
  | perhaps _ ih | delegated _ ih | walk _ ih => exact ih failed
  | message t m => exact still t m r failed
  | packed v value _ _ =>
      simp only [Reader.rawValue_of_fault failed]
      exact .refl r
  | enter container =>
      simp only [Reader.enter_of_fault failed]
      exact .refl r
  | nextKey =>
      simp only [nextKey_of_fault failed]
      exact .refl r
  | keys v _ _ =>
      simp only [keys_of_fault _ _ failed]
      exact .refl r
  | failed | registry => exact .refl r
  | next _ _ first second => exact (first failed).trans (second _ ((first failed).isSome failed))
  | again target value cause _ _ _ first second =>
      simp only
      split
      · exact (first failed).trans (second _ ((first failed).isSome failed))
      · exact (still _ _ r failed).settle failed _

/-- Reading a message leaves a reader that has failed as it is. -/
theorem still_readMessage {s : Schema}
    (flat : ∀ name, name ∉ wellKnownNames → (s.type name).form ≠ .any)
    (t : MessageType) (m : Message) (r : Reader) (failed : r.fault.isSome)
    : r.Still (readMessage s t m r).2 := by
  induction measure : readMeasure t r using Nat.strongRecOn generalizing t m r with
  | ind n ih =>
      rw [readMessage]
      refine (program_slots s flat t m.slots).still (fun t' m' r' failed' => ?_) failed
      split
      · rename_i less
        exact ih _ (measure ▸ less) t' m' r' failed' rfl
      · exact .refl r'

end Protobuf.Json
