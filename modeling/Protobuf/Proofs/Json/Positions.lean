import Protobuf.Json.Cursor
import Protobuf.Proofs.Json.IndexedScanner
import Protobuf.Proofs.Json.Operations

/-! Cursors never leave their document.  A cursor that stands inside is nothing but a reader that
keeps the offset in place of the bytes that are left: no operation reads out of range, each leaves
the cursor inside, and it answers what the reader answers.
-/

namespace Protobuf.Json

namespace Cursor

open Indexed

variable {α β : Type} {c c' c'' : Cursor}

-----------------------------------------------------------------------------------------
-- Cursors and readers
-----------------------------------------------------------------------------------------

/-- The offset is not behind the end of the document. -/
def Inside (c : Cursor) : Prop :=
  c.position ≤ c.data.length

/-- The reader that keeps the bytes that are left in place of their offset. -/
def reader (c : Cursor) : Reader :=
  ⟨c.fault, c.data, c.data.drop c.position, c.path, c.mask, c.frames, c.pending, c.registry⟩

/-- The second cursor is at a place inside the document of the first one. -/
structure Moved (c c' : Cursor) : Prop where
  data : c'.data = c.data
  inside : c'.Inside

/-- A cursor that stands still has moved on by nothing. -/
theorem Moved.refl (inside : c.Inside)
    : c.Moved c :=
  ⟨rfl, inside⟩

/-- Moving on twice is moving on. -/
theorem Moved.trans (h : c.Moved c') (h' : c'.Moved c'')
    : c.Moved c'' :=
  ⟨h'.data.trans h.data, h'.inside⟩

/-- An operation without access and the operation of the reader: the same answer, and the cursor is
inside and shows the same reader.
-/
inductive Shows (c : Cursor) : α × Cursor → α × Reader → Prop
  | mk {v : α} {c' : Cursor} (moved : c.Moved c') : Shows c (v, c') (v, c'.reader)

/-- An operation that reads and the operation of the reader: it is in range, and the cursor shows
what the reader comes to.
-/
inductive Tracks (c : Cursor) : Option (α × Cursor) → α × Reader → Prop
  | mk {v : α} {c' : Cursor} (moved : c.Moved c') : Tracks c (some (v, c')) (v, c'.reader)

/-- What shows what a reader does tracks it. -/
theorem Shows.tracks {result : α × Cursor} {seen : α × Reader} (h : c.Shows result seen)
    : c.Tracks (some result) seen := by
  cases h with
  | mk moved => exact .mk moved

/-- Cursors that show the same reader give the same. -/
theorem Shows.of_reader {v : α} {r : Reader} (moved : c.Moved c') (same : c'.reader = r)
    : c.Shows (v, c') (v, r) :=
  same ▸ .mk moved

/-- What is tracked from a later position is tracked from an earlier one. -/
theorem Tracks.of_moved {result : Option (α × Cursor)} {seen : α × Reader}
    (h : c'.Tracks result seen) (moved : c.Moved c')
    : c.Tracks result seen := by
  cases h with
  | mk later => exact .mk (moved.trans later)

/-- What is shown from a later position is shown from an earlier one. -/
theorem Shows.of_moved {result : α × Cursor} {seen : α × Reader} (h : c'.Shows result seen)
    (moved : c.Moved c')
    : c.Shows result seen := by
  cases h with
  | mk later => exact .mk (moved.trans later)

/-- Going on from where an operation without access has come to. -/
@[elab_as_elim]
theorem Shows.elim {result : α × Cursor} {seen : α × Reader}
    {motive : α × Cursor → α × Reader → Prop} (h : c.Shows result seen)
    (mk : ∀ v c', c.Moved c' → motive (v, c') (v, c'.reader))
    : motive result seen := by
  cases h with
  | mk moved => exact mk _ _ moved

/-- Going on from where an operation that reads has come to. -/
@[elab_as_elim]
theorem Tracks.elim {result : Option (α × Cursor)} {seen : α × Reader}
    {motive : Option (α × Cursor) → α × Reader → Prop} (h : c.Tracks result seen)
    (mk : ∀ v c', c.Moved c' → motive (some (v, c')) (v, c'.reader))
    : motive result seen := by
  cases h with
  | mk moved => exact mk _ _ moved

/-- A cursor that shows a reader ends further on, with the same answer. -/
theorem Shows.exists {result : α × Cursor} {seen : α × Reader} (h : c.Shows result seen)
    : ∃ v c', c.Moved c' ∧ result = (v, c') ∧ seen = (v, c'.reader) := by
  cases h with
  | mk moved => exact ⟨_, _, moved, rfl, rfl⟩

/-- A cursor that tracks a reader ends further on, with the same answer, and reads nothing out of
range.
-/
theorem Tracks.exists {result : Option (α × Cursor)} {seen : α × Reader} (h : c.Tracks result seen)
    : ∃ v c', c.Moved c' ∧ result = some (v, c') ∧ seen = (v, c'.reader) := by
  cases h with
  | mk moved => exact ⟨_, _, moved, rfl, rfl⟩

-----------------------------------------------------------------------------------------
-- Places and faults
-----------------------------------------------------------------------------------------

/-- The bytes that are left are those the reader sees. -/
theorem left_reader (c : Cursor)
    : c.reader.rest.length = c.left :=
  List.length_drop

/-- The offset of a cursor is the position of its reader. -/
theorem position_reader (inside : c.Inside)
    : c.reader.position = c.position := by
  unfold Inside at inside
  simp only [Reader.position, reader, List.length_drop]
  omega

/-- The byte at the offset is the first one that the reader sees. -/
theorem byte?_reader (c : Cursor)
    : c.reader.rest.head? = c.byte? :=
  List.head?_drop

/-- A fault is kept with the same path. -/
theorem reader_latch (c : Cursor) (cause : Cause)
    : (c.latch cause).reader = c.reader.latch cause := by
  cases failed : c.fault <;> simp only [latch, Reader.latch, reader, failed]

theorem moved_latch (inside : c.Inside) (cause : Cause)
    : c.Moved (c.latch cause) := by
  unfold latch
  split <;> exact ⟨rfl, inside⟩

/-- A cursor that fails shows a reader that fails. -/
theorem shows_latch (inside : c.Inside) (v : α) (cause : Cause)
    : c.Shows (v, c.latch cause) (v, c.reader.latch cause) :=
  .of_reader (moved_latch inside cause) (reader_latch c cause)

/-- A cursor fails at its offset as a reader does at its position. -/
theorem shows_malformed (inside : c.Inside) (v : α) (fault : SyntaxFault)
    : c.Shows (v, c.malformed fault) (v, c.reader.malformed fault) := by
  rw [malformed, Reader.malformed, position_reader inside]
  exact shows_latch inside v _

theorem shows_idle (inside : c.Inside) (v : α)
    : c.Shows (v, c) (v, c.reader) :=
  .mk (.refl inside)

/-- A byte that is there is moved over as it is dropped. -/
theorem moved_step {b : UInt8} (found : c.byte? = some b)
    : c.Moved c.step :=
  ⟨rfl, IndexedScanner.lt_of_getElem? found⟩

/-- The reader of the next offset sees one byte less. -/
theorem rest_step (c : Cursor)
    : c.reader.rest.tail = c.step.reader.rest :=
  List.tail_drop

/-- Passing over blanks moves on and stays inside the document. -/
theorem moved_skipBlanks (inside : c.Inside)
    : c.Moved c.skipBlanks :=
  ⟨rfl, (IndexedScanner.bounds_runEnd isBlank inside).2⟩

/-- The cursor passes over the blanks that the reader drops. -/
theorem reader_skipBlanks (c : Cursor)
    : c.skipBlanks.reader = c.reader.skipBlanks := by
  simp only [skipBlanks, Reader.skipBlanks, reader, IndexedScanner.drop_runEnd, dropBlanks]

/-- A scanner by index keeps what the scanner of the bytes keeps. -/
theorem tracks_scan_of_agrees {scanner : IndexedScanner α} {seen : Scanner α}
    (own : Agrees c.data (scanner c.data c.position) (seen (c.data.drop c.position)))
    : c.Tracks (c.scan scanner) (c.reader.scan seen) := by
  have rest : c.reader.rest = c.data.drop c.position := rfl
  rw [scan, Reader.scan, rest]
  generalize scanner c.data c.position = result at own ⊢
  generalize seen (c.data.drop c.position) = read at own ⊢
  cases own with
  | @ok v i inside => exact .mk (⟨rfl, inside⟩ : c.Moved { c with position := i })
  | @failed fault i inside =>
      exact (shows_malformed (c := { c with position := i }) inside none fault).tracks.of_moved
        ⟨rfl, inside⟩

/-- A scan by index tracks the scan of the bytes that are left. -/
theorem tracks_scan {scanner : IndexedScanner α} {seen : Scanner α} (h : Views scanner seen)
    (inside : c.Inside)
    : c.Tracks (c.scan scanner) (c.reader.scan seen) :=
  tracks_scan_of_agrees (h c.data c.position inside)

/-- A string is scanned where a byte stands. -/
theorem tracks_scan_string {b : UInt8} (found : c.byte? = some b)
    : c.Tracks (c.scan .string) (c.reader.scan Scanner.string) :=
  tracks_scan_of_agrees (IndexedScanner.agrees_string found)

/-- A scanner that gives back no bytes does not move the offset backwards. -/
theorem le_of_scan {scanner : IndexedScanner α} {seen : Scanner α} (h : Views scanner seen)
    (suffixes : seen.Suffixes) (inside : c.Inside) {v : α}
    (found : c.scan scanner = some (some v, c'))
    : c.position ≤ c'.position := by
  rw [scan] at found
  split at found
  · rename_i v' i scanned
    cases found
    obtain ⟨inside', same⟩ := h.of_ok inside scanned
    have shorter := (suffixes.of_ok same).length_le
    rw [List.length_drop, List.length_drop] at shorter
    unfold Inside at inside
    simp only
    omega
  · cases found
  · cases found

/-- The end of the document shows at the offset. -/
theorem shows_finish (inside : c.Inside)
    : c.Shows c.finish c.reader.finish := by
  have fault : c.reader.fault = c.fault := rfl
  rw [finish, Reader.finish, fault]
  cases c.fault with
  | some failed => exact shows_idle inside _
  | none =>
      have moved := moved_skipBlanks inside
      simp only [← reader_skipBlanks]
      have end_ : c.skipBlanks.reader.rest.isEmpty = true
          ↔ c.skipBlanks.position = c.skipBlanks.data.length := by
        have within := moved.inside
        unfold Inside at within
        rw [List.isEmpty_iff, reader, List.drop_eq_nil_iff]
        omega
      by_cases done : c.skipBlanks.position = c.skipBlanks.data.length
      · rw [if_pos done, if_pos (end_.mpr done)]
        exact .mk moved
      · rw [if_neg done, if_neg (fun empty => done (end_.mp empty)), ← reader_latch]
        exact .mk (moved.trans (moved_latch moved.inside _))

-----------------------------------------------------------------------------------------
-- Containers
-----------------------------------------------------------------------------------------

theorem moved_beginValue (inside : c.Inside)
    : c.Moved c.beginValue :=
  ⟨rfl, (IndexedScanner.bounds_runEnd isBlank inside).2⟩

theorem reader_beginValue (c : Cursor)
    : c.beginValue.reader = c.reader.beginValue :=
  reader_skipBlanks { c with pending := false }

/-- The byte at the offset tells the type of the value that comes next. -/
theorem shows_peekKind (inside : c.Inside)
    : c.Shows c.peekKind c.reader.peekKind := by
  have fault : c.reader.fault = c.fault := rfl
  rw [peekKind, Reader.peekKind, fault]
  cases c.fault with
  | some failed => exact shows_idle inside _
  | none =>
      simp only [← reader_skipBlanks, byte?_reader]
      exact .mk (moved_skipBlanks inside)

/-- A value that has a type begins with a byte. -/
theorem byte?_of_peekKind {kind : ValueKind} (looked : c.peekKind = (some kind, c'))
    : ∃ b, c'.byte? = some b := by
  unfold peekKind at looked
  split at looked
  · cases looked
  · simp only [Prod.mk.injEq] at looked
    obtain ⟨known, rfl⟩ := looked
    obtain ⟨b, found, -⟩ := Option.bind_eq_some_iff.mp known
    exact ⟨b, found⟩

/-- A null is taken where the reader takes one. -/
theorem tracks_null (inside : c.Inside)
    : c.Tracks c.null c.reader.null := by
  rw [null, Reader.null]
  refine (shows_peekKind inside).elim fun kind c' moved => ?_
  have begun := moved_beginValue moved.inside
  have scanned := tracks_scan (IndexedScanner.views_literal "null") begun.inside
  rw [reader_beginValue] at scanned
  cases kind with
  | none => exact .mk moved
  | some kind =>
      cases kind with
      | null =>
          simp only
          refine scanned.elim fun found c'' moved' => ?_
          cases found <;> exact .mk ((moved.trans begun).trans moved')
      | _ => exact .mk moved

/-- The cursor steps into the containers that the reader steps into. -/
theorem shows_enter (container : Container) (inside : c.Inside)
    : c.Shows (c.enter container) (c.reader.enter container) := by
  have fault : c.reader.fault = c.fault := rfl
  rw [enter, Reader.enter, fault]
  cases c.fault with
  | some failed => exact shows_idle inside _
  | none =>
      have begun := moved_beginValue inside
      simp only [← reader_beginValue, byte?_reader]
      split
      · rename_i opens
        have depth : c.beginValue.reader.frames = c.beginValue.frames := rfl
        rw [depth]
        split
        · exact (shows_malformed begun.inside false _).of_moved begun
        · rw [rest_step]
          refine .mk ?_
          exact ⟨rfl, (moved_step opens).inside⟩
      · exact (shows_latch begun.inside false _).of_moved begun

/-- The next member or element, as the reader moves to it. -/
def partOf (r : Reader) (container : Container) (first : Bool) (outer : List Frame)
    : Bool × Reader :=
  let r := r.skipBlanks
  if r.rest.head? = some container.closing then
    (false, { r with rest := r.rest.tail, frames := outer })
  else if first then (true, r)
  else if r.rest.head? = some 44 then (true, { r with rest := r.rest.tail })
  else (false, r.malformed .expectedComma)

/-- The next part of a container is found where the reader finds it. -/
theorem shows_nextPart (container : Container) (first : Bool) (outer : List Frame)
    (inside : c.Inside)
    : c.Shows (c.nextPart container first outer) (partOf c.reader container first outer) := by
  have moved := moved_skipBlanks inside
  simp only [nextPart, partOf, ← reader_skipBlanks, byte?_reader]
  split
  · rename_i ends
    rw [rest_step]
    refine .mk ?_
    exact ⟨rfl, (moved_step ends).inside⟩
  split
  · exact .mk moved
  split
  · rename_i comma
    rw [rest_step]
    exact .mk (moved.trans (moved_step comma))
  · exact (shows_malformed moved.inside false _).of_moved moved

/-- The cursor moves in a container as the reader does. -/
theorem shows_advance (container : Container) (inside : c.Inside)
    : c.Shows (c.advance container) (c.reader.advance container) := by
  obtain ⟨fault, data, position, path, mask, frames, pending, registry⟩ := c
  cases fault with
  | some failed => exact shows_idle inside _
  | none =>
      cases pending with
      | true => exact shows_latch inside false _
      | false =>
          cases frames with
          | nil => exact shows_latch inside false _
          | cons frame outer =>
              simp only [advance, Reader.advance, reader, Bool.false_eq_true, if_false]
              split
              · exact shows_latch inside false _
              · let start : Cursor :=
                  ⟨none, data, position, path, mask, { frame with first := false } :: outer, false,
                    registry⟩
                have part := shows_nextPart (c := start) container frame.first outer inside
                exact part.of_moved ⟨rfl, inside⟩

/-- The next key is the one that the reader finds. -/
theorem tracks_nextKey (inside : c.Inside)
    : c.Tracks c.nextKey c.reader.nextKey := by
  rw [nextKey, Reader.nextKey]
  refine (shows_advance .object inside).elim fun more c' moved => ?_
  cases more with
  | false => exact .mk moved
  | true =>
      dsimp only
      have scanned := tracks_scan IndexedScanner.views_keyAndColon moved.inside
      refine scanned.elim fun key c'' moved' => ?_
      cases key with
      | none => exact .mk (moved.trans moved')
      | some key =>
          have same := moved'.data.trans moved.data
          exact .mk (⟨same, moved'.inside⟩ : c.Moved { c'' with pending := true })

/-- There is a next element where the reader finds one. -/
theorem shows_nextElement (inside : c.Inside)
    : c.Shows c.nextElement c.reader.nextElement := by
  rw [nextElement, Reader.nextElement]
  refine (shows_advance .array inside).elim fun more c' moved => ?_
  cases more with
  | false => exact .mk moved
  | true => exact .mk (⟨moved.data, moved.inside⟩ : c.Moved { c' with pending := true })

section

variable {read : String → α → Cursor → Option (α × Cursor)}
  {seen : String → α → Reader → α × Reader}

/-- Loops over members track each other if their turns do, by induction on the bytes that are left.
-/
theorem tracks_keys
    (turn : ∀ key v (c : Cursor), c.Inside → c.Tracks (read key v c) (seen key v c.reader)) (v : α)
    (inside : c.Inside)
    : c.Tracks (c.keys read v) (c.reader.keys seen v) := by
  induction size : c.left using Nat.strongRecOn generalizing v c with
  | ind n ih =>
      rw [keys, Reader.keys]
      refine (tracks_nextKey inside).elim fun key c' moved => ?_
      cases key with
      | none => exact .mk moved
      | some key =>
          simp only
          refine (turn key v c' moved.inside).elim fun v' c'' moved' => ?_
          simp only [left_reader]
          split
          · rename_i fewer
            exact (ih _ (size ▸ fewer) _ moved'.inside rfl).of_moved (moved.trans moved')
          · exact .mk (moved.trans moved')

/-- An object is tracked if its members are. -/
theorem tracks_object
    (turn : ∀ key v (c : Cursor), c.Inside → c.Tracks (read key v c) (seen key v c.reader)) (v : α)
    (inside : c.Inside)
    : c.Tracks (c.object read v) (c.reader.object seen v) := by
  rw [object, Reader.object]
  refine (shows_enter .object inside).elim fun opened c' moved => ?_
  cases opened with
  | false => exact .mk moved
  | true => exact (tracks_keys turn v moved.inside).of_moved moved

end

section

variable {read : α → Cursor → Option (α × Cursor)} {seen : α → Reader → α × Reader}

/-- Loops over elements track each other if their turns do, by induction on the bytes that are left.
-/
theorem tracks_elements
    (turn : ∀ v (c : Cursor), c.Inside → c.Tracks (read v c) (seen v c.reader)) (v : α)
    (inside : c.Inside)
    : c.Tracks (c.elements read v) (c.reader.elements seen v) := by
  induction size : c.left using Nat.strongRecOn generalizing v c with
  | ind n ih =>
      rw [elements, Reader.elements]
      refine (shows_nextElement inside).elim fun more c' moved => ?_
      cases more with
      | false => exact .mk moved
      | true =>
          simp only
          refine (turn v c' moved.inside).elim fun v' c'' moved' => ?_
          simp only [left_reader]
          split
          · rename_i fewer
            exact (ih _ (size ▸ fewer) _ moved'.inside rfl).of_moved (moved.trans moved')
          · refine Tracks.of_moved ?_ (moved.trans moved')
            refine (shows_nextElement moved'.inside).elim fun _ c'' moved => ?_
            exact .mk moved

/-- An array is tracked if its elements are. -/
theorem tracks_array
    (turn : ∀ v (c : Cursor), c.Inside → c.Tracks (read v c) (seen v c.reader)) (v : α)
    (inside : c.Inside)
    : c.Tracks (c.array read v) (c.reader.array seen v) := by
  rw [array, Reader.array]
  refine (shows_enter .array inside).elim fun opened c' moved => ?_
  cases opened with
  | false => exact .mk moved
  | true => exact (tracks_elements turn v moved.inside).of_moved moved

end

-----------------------------------------------------------------------------------------
-- Values
-----------------------------------------------------------------------------------------

/-- A value is passed over as the reader does. -/
theorem tracks_skip (inside : c.Inside)
    : c.Tracks c.skip ((), c.reader.skip) := by
  have fault : c.reader.fault = c.fault := rfl
  rw [skip, Reader.skip, fault]
  cases c.fault with
  | some failed => exact (shows_idle inside _).tracks
  | none =>
      have begun := moved_beginValue inside
      have scanned := tracks_scan (IndexedScanner.views_skipValue maxDepth) begun.inside
      simp only [← reader_beginValue]
      refine scanned.elim fun passed c' moved => ?_
      exact .mk (begun.trans moved)

/-- The bytes between two offsets are those of the value that the reader passes over. -/
theorem tracks_rawValue (inside : c.Inside)
    : c.Tracks c.rawValue c.reader.rawValue := by
  have fault : c.reader.fault = c.fault := rfl
  rw [rawValue, Reader.rawValue, fault]
  cases c.fault with
  | some failed => exact (shows_idle inside _).tracks
  | none =>
      have begun := moved_beginValue inside
      have scanned := tracks_scan (IndexedScanner.views_skipValue maxDepth) begun.inside
      obtain ⟨passed, c', moved, found, same⟩ := scanned.exists
      have there := moved.inside
      unfold Inside at there
      simp only [← reader_beginValue, found, same]
      cases passed with
      | none => exact .mk (begun.trans moved)
      | some done =>
          have order := le_of_scan (IndexedScanner.views_skipValue maxDepth)
            (Scanner.suffixes_skipValue maxDepth) begun.inside found
          have taken : c.beginValue.reader.rest.length - c'.reader.rest.length
              = c'.position - c.beginValue.position := by
            rw [left_reader, left_reader, left, left, moved.data] at *
            omega
          simp only [taken]
          rw [moved.data] at there
          rw [moved.data, between?_eq_some order there]
          exact .mk (begun.trans moved)

/-- The conversion of a text that a reader has read. -/
def converted {α : Type} (default : α) (value : String → Except Cause α)
    : Option String × Reader → α × Reader
  | (none, r) => (default, r)
  | (some text, r) =>
      match value text with
      | .ok v => (v, r)
      | .error cause => (default, r.latch cause)

/-- A text is converted alike on both sides. -/
theorem tracks_convert {result : Option (Option String × Cursor)} {seen : Option String × Reader}
    (h : c.Tracks result seen) (default : α) (value : String → Except Cause α)
    : c.Tracks (result.map (convert default value)) (converted default value seen) := by
  refine h.elim fun text c' moved => ?_
  cases text with
  | none => exact .mk moved
  | some text =>
      simp only [Option.map_some, convert, converted]
      cases value text with
      | ok v => exact .mk moved
      | error cause => exact (shows_latch moved.inside default cause).tracks.of_moved moved

/-- The next value, by its type: the cursor stands at it, and shows what the reader sees. -/
theorem exists_peekKind (inside : c.Inside)
    : ∃ kind c', c.Moved c' ∧ c.beginValue.peekKind = (kind, c')
        ∧ c.reader.beginValue.peekKind = (kind, c'.reader)
        ∧ (kind.isSome → ∃ b, c'.byte? = some b) := by
  have begun := moved_beginValue inside
  obtain ⟨kind, c', moved, looked, same⟩ := (shows_peekKind begun.inside).exists
  rw [reader_beginValue] at same
  refine ⟨kind, c', begun.trans moved, looked, same, fun known => ?_⟩
  obtain ⟨kind, rfl⟩ := Option.isSome_iff_exists.mp known
  exact byte?_of_peekKind looked

/-- The text of a number is the one that the reader scans. -/
theorem tracks_numericText (inside : c.Inside) (type : String)
    : c.Tracks (c.numericText type) (c.reader.numericText type) := by
  have fault : c.reader.fault = c.fault := rfl
  obtain ⟨kind, c', moved, looked, same, there⟩ := exists_peekKind inside
  rw [numericText, Reader.numericText, fault, looked, same]
  cases c.fault with
  | some failed => exact (shows_idle inside _).tracks
  | none =>
      refine Tracks.of_moved ?_ moved
      rcases kind with _ | _ | _ | _ | _ | _ | _
      case some.number => exact tracks_scan IndexedScanner.views_number moved.inside
      case some.string => exact tracks_scan_string (there rfl).choose_spec
      all_goals exact (shows_latch moved.inside none _).tracks

/-- A text is the one that the reader scans. -/
theorem tracks_stringAs (inside : c.Inside) (type : String)
    : c.Tracks (c.stringAs type) (c.reader.stringAs type) := by
  have fault : c.reader.fault = c.fault := rfl
  obtain ⟨kind, c', moved, looked, same, there⟩ := exists_peekKind inside
  rw [stringAs, Reader.stringAs, fault, looked, same]
  cases c.fault with
  | some failed => exact (shows_idle inside _).tracks
  | none =>
      refine Tracks.of_moved ?_ moved
      rcases kind with _ | _ | _ | _ | _ | _ | _
      case some.string => exact tracks_scan_string (there rfl).choose_spec
      all_goals exact (shows_latch moved.inside none _).tracks

/-- A boolean is the one that the reader scans. -/
theorem tracks_bool (inside : c.Inside)
    : c.Tracks c.bool c.reader.bool := by
  have fault : c.reader.fault = c.fault := rfl
  obtain ⟨kind, c', moved, looked, same, there⟩ := exists_peekKind inside
  rw [bool, Reader.bool, fault, looked, same]
  cases c.fault with
  | some failed => exact (shows_idle inside _).tracks
  | none =>
      refine Tracks.of_moved ?_ moved
      rcases kind with _ | _ | _ | _ | _ | _ | _
      case some.bool =>
        obtain ⟨b, found⟩ := there rfl
        simp only [byte?_reader, found, Option.some.injEq]
        split
        · refine (tracks_scan (IndexedScanner.views_literal "true") moved.inside).elim ?_
          exact fun _ _ moved => .mk moved
        · refine (tracks_scan (IndexedScanner.views_literal "false") moved.inside).elim ?_
          exact fun _ _ moved => .mk moved
      case some.string =>
        simp only
        refine (tracks_scan_string (there rfl).choose_spec).elim fun text c'' moved => ?_
        cases text with
        | none => exact .mk moved
        | some text =>
            simp only [Option.map_some, convert, Reader.refuse]
            by_cases yes : text = "true"
            · rw [if_pos yes, if_pos yes]
              exact .mk moved
            by_cases no : text = "false"
            · rw [if_neg yes, if_neg yes, if_pos no, if_pos no]
              exact .mk moved
            · rw [if_neg yes, if_neg yes, if_neg no, if_neg no]
              exact (shows_latch moved.inside false _).tracks.of_moved moved
      all_goals exact (shows_latch moved.inside false _).tracks

-----------------------------------------------------------------------------------------
-- Converted texts
-----------------------------------------------------------------------------------------

/-- An integer is a converted text. -/
theorem integer_eq (r : Reader) (type : String) (low high : Int)
    : r.integer type low high = converted 0 (integerWithin type low high) (r.numericText type) := by
  rw [Reader.integer]
  rcases r.numericText type with ⟨_ | text, r'⟩
  · rfl
  · simp only [converted, integerWithin, Reader.refuse]
    cases Reader.integerOfText text with
    | error refusal => rfl
    | ok n =>
        simp only
        split <;> rfl

/-- A `float` is a converted text. -/
theorem float_eq (r : Reader)
    : r.float = converted 0 floatOfText (r.numericText "float32") := by
  rw [Reader.float, Reader.floating]
  rcases r.numericText "float32" with ⟨_ | text, r'⟩
  · rfl
  · simp only [converted, floatOfText, Reader.refuse]
    cases Reader.doubleOfText text with
    | error refusal => rfl
    | ok bits =>
        simp only
        split <;> rfl

theorem double_eq (r : Reader)
    : r.double = converted 0 doubleText (r.numericText "float64") := by
  rw [Reader.double, Reader.floating]
  rcases r.numericText "float64" with ⟨_ | text, r'⟩
  · rfl
  · simp only [converted, doubleText, Reader.refuse]
    cases Reader.doubleOfText text <;> rfl

theorem string_eq (r : Reader)
    : r.string = converted "" .ok (r.stringAs "string") := by
  rw [Reader.string]
  rcases r.stringAs "string" with ⟨_ | text, r'⟩ <;> rfl

theorem bytes_eq (r : Reader)
    : r.bytes = converted [] bytesOfText (r.stringAs "bytes") := by
  rw [Reader.bytes]
  rcases r.stringAs "bytes" with ⟨_ | text, r'⟩
  · rfl
  · simp only [converted, bytesOfText, Reader.refuse]
    cases Text.ofBase64? text <;> rfl

/-- The paths of a mask that is no object are a converted text. -/
theorem fieldMask_of_ne {r r' : Reader} {kind : Option ValueKind} (looked : r.peekKind = (kind, r'))
    (other : kind ≠ some .object)
    : r.fieldMask = converted [] pathsOfText (r'.stringAs "field mask") := by
  rw [Reader.fieldMask, looked]
  rcases kind with _ | _ | _ | _ | _ | _ | _
  case some.object => exact absurd rfl other
  all_goals
    simp only
    rcases r'.stringAs "field mask" with ⟨_ | joined, r''⟩
    · rfl
    · simp only [converted, pathsOfText, Reader.refuse]
      cases Reader.pathsOfText joined <;> rfl

/-- A point in time is a converted text. -/
theorem timestamp_eq (r : Reader)
    : r.timestamp = converted ⟨0, 0⟩ timestampOfText (r.stringAs "timestamp") := by
  rw [Reader.timestamp]
  rcases r.stringAs "timestamp" with ⟨_ | text, r'⟩
  · rfl
  · simp only [converted, timestampOfText, Reader.refuse]
    cases Time.Timestamp.ofText text <;> rfl

theorem duration_eq (r : Reader)
    : r.duration = converted ⟨0, 0⟩ durationOfText (r.stringAs "duration") := by
  rw [Reader.duration]
  rcases r.stringAs "duration" with ⟨_ | text, r'⟩
  · rfl
  · simp only [converted, durationOfText, Reader.refuse]
    cases Time.Duration.ofText text <;> rfl

/-- An integer of any type is the one that the reader reads. -/
theorem tracks_integer (inside : c.Inside) (type : String) (low high : Int)
    : c.Tracks (c.integer type low high) (c.reader.integer type low high) := by
  rw [integer, integer_eq]
  exact tracks_convert (tracks_numericText inside type) 0 _

/-- An integer of a range, as a number of its width. -/
theorem tracks_integer_map (inside : c.Inside) (type : String) (low high : Int) (width : Int → α)
    : c.Tracks ((c.integer type low high).map fun (n, c) => (width n, c))
        (width (c.reader.integer type low high).1, (c.reader.integer type low high).2) := by
  refine (tracks_integer inside type low high).elim fun n c' moved => ?_
  exact .mk moved

theorem tracks_int32 (inside : c.Inside)
    : c.Tracks c.int32 c.reader.int32 :=
  tracks_integer_map inside _ _ _ Int32.ofInt

/-- A value of an enumeration is the one that the reader reads. -/
theorem tracks_enumeration (inside : c.Inside) (tables : List (List (String × Int32)))
    : c.Tracks (c.enumeration tables) (c.reader.enumeration tables) := by
  have fault : c.reader.fault = c.fault := rfl
  obtain ⟨kind, c', moved, looked, same, there⟩ := exists_peekKind inside
  rw [enumeration, Reader.enumeration, fault, looked, same]
  cases c.fault with
  | some failed => exact (shows_idle inside _).tracks
  | none =>
      refine Tracks.of_moved ?_ moved
      rcases kind with _ | _ | _ | _ | _ | _ | _
      case some.number => exact tracks_int32 moved.inside
      case some.string =>
        simp only
        refine (tracks_scan_string (there rfl).choose_spec).elim fun name c'' moved => ?_
        cases name with
        | none => exact .mk moved
        | some name =>
            simp only [Option.map_some, convert]
            cases (numberInTables tables name).or (int32OfNumeral? name) with
            | some number => exact .mk moved
            | none => exact (shows_latch moved.inside 0 _).tracks.of_moved moved
      all_goals exact (shows_latch moved.inside 0 _).tracks

/-- A string is the one that the reader reads. -/
theorem tracks_string (inside : c.Inside)
    : c.Tracks c.string c.reader.string := by
  rw [string, string_eq]
  exact tracks_convert (tracks_stringAs inside "string") "" _

/-- A field mask is the one that the reader reads. -/
theorem tracks_fieldMask (inside : c.Inside)
    : c.Tracks c.fieldMask c.reader.fieldMask := by
  obtain ⟨kind, c', moved, looked, same⟩ := (shows_peekKind inside).exists
  rw [fieldMask, looked]
  rcases kind with _ | _ | _ | _ | _ | _ | _
  case some.object =>
    rw [Reader.fieldMask, same]
    refine Tracks.of_moved (tracks_object (fun key paths c inside => ?_) [] moved.inside) moved
    split
    · refine tracks_array (fun paths c inside => ?_) paths inside
      exact (tracks_string inside).elim fun _ _ moved => .mk moved
    · obtain ⟨_, c', moved, passed, same⟩ := (tracks_skip inside).exists
      have shown : c.reader.skip = c'.reader := congrArg Prod.snd same
      rw [passed, shown]
      exact .mk moved
  all_goals
    rw [fieldMask_of_ne same (by simp)]
    exact (tracks_convert (tracks_stringAs moved.inside "field mask") [] pathsOfText).of_moved moved

end Cursor

-----------------------------------------------------------------------------------------
-- Operations
-----------------------------------------------------------------------------------------

/-- Carries out an operation with a cursor; nothing comes of it if it reads out of range. -/
def Reader.Operation.attempt {α : Type} : Reader.Operation α → Cursor → Option (α × Cursor)
  | peekKind, c => some c.peekKind
  | null, c => c.null
  | enter container, c => some (c.enter container)
  | nextKey, c => c.nextKey
  | nextElement, c => some c.nextElement
  | skip, c => c.skip
  | rawValue, c => c.rawValue
  | bool, c => c.bool
  | int32, c => c.int32
  | int64, c => c.int64
  | uint32, c => c.uint32
  | uint64, c => c.uint64
  | float, c => c.float
  | double, c => c.double
  | string, c => c.string
  | bytes, c => c.bytes
  | enumeration tables, c => c.enumeration tables
  | timestamp, c => c.timestamp
  | duration, c => c.duration
  | fieldMask, c => c.fieldMask
  | addField name, c => some ((), c.addField name)
  | latch cause, c => some ((), c.latch cause)
  | finish, c => some c.finish

/-- Every operation of a cursor inside its document is in range, and comes to what the reader comes
to.
-/
theorem Cursor.tracks_attempt {α : Type} {c : Cursor} (op : Reader.Operation α) (inside : c.Inside)
    : c.Tracks (op.attempt c) (op.run c.reader) := by
  cases op with
  | peekKind => exact (shows_peekKind inside).tracks
  | null => exact tracks_null inside
  | enter container => exact (shows_enter container inside).tracks
  | nextKey => exact tracks_nextKey inside
  | nextElement => exact (shows_nextElement inside).tracks
  | skip => exact tracks_skip inside
  | rawValue => exact tracks_rawValue inside
  | bool => exact tracks_bool inside
  | int32 => exact tracks_int32 inside
  | int64 => exact tracks_integer_map inside _ _ _ Int64.ofInt
  | uint32 => exact tracks_integer_map inside _ _ _ fun n => UInt32.ofNat n.toNat
  | uint64 => exact tracks_integer_map inside _ _ _ fun n => UInt64.ofNat n.toNat
  | float =>
      rw [Reader.Operation.run, float_eq]
      exact tracks_convert (tracks_numericText inside "float32") 0 _
  | double =>
      rw [Reader.Operation.run, double_eq]
      exact tracks_convert (tracks_numericText inside "float64") 0 _
  | string => exact tracks_string inside
  | bytes =>
      rw [Reader.Operation.run, bytes_eq]
      exact tracks_convert (tracks_stringAs inside "bytes") [] _
  | enumeration tables => exact tracks_enumeration inside tables
  | timestamp =>
      rw [Reader.Operation.run, timestamp_eq]
      exact tracks_convert (tracks_stringAs inside "timestamp") _ _
  | duration =>
      rw [Reader.Operation.run, duration_eq]
      exact tracks_convert (tracks_stringAs inside "duration") _ _
  | fieldMask => exact tracks_fieldMask inside
  | addField name => exact .mk (⟨rfl, inside⟩ : c.Moved (c.addField name))
  | latch cause => exact (shows_latch inside () cause).tracks
  | finish => exact (shows_finish inside).tracks

end Protobuf.Json
