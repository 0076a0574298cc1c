import Protobuf.Proofs.Json.Positions
import Protobuf.Proofs.Json.Progress

/-! Cursors that share their fault, and what they do in any order.  Each stays inside its document
and no operation of it reads out of range, so what holds of readers holds of it: it has to read what
it has reached before it moves on, and it gets ahead.
-/

namespace Protobuf.Json

namespace Cursor

variable {α : Type} {c c' c'' : Cursor}

-----------------------------------------------------------------------------------------
-- Moves
-----------------------------------------------------------------------------------------

instance : Sharing Cursor where
  fault := Cursor.fault
  share fault c := { c with fault }
  fault_share _ _ := rfl
  share_fault _ := rfl

/-- An operation is carried out with the cursor, or the path is changed for a field or back. -/
inductive Moves (c : Cursor) : Cursor → Prop
  | operation {α : Type} (op : Reader.Operation α) {answer : α} {c' : Cursor}
    (done : op.attempt c = some (answer, c'))
    : Moves c c'
  | place (path : FieldMask.Path) : Moves c { c with path }

/-- A move that neither reads a value nor begins to. -/
inductive Idles (c : Cursor) : Cursor → Prop
  | operation {α : Type} (op : Reader.Operation α) {answer : α} {c' : Cursor}
    (done : op.attempt c = some (answer, c')) (untaken : op.takes answer = false)
    : Idles c c'
  | place (path : FieldMask.Path) : Idles c { c with path }

/-- A cursor over a document inside the document goes on from the cursor. -/
def Forks (c c' : Cursor) : Prop :=
  ∃ document, c' = c.sub document

/-- The cursor reaches a member or an element. -/
def Reaches (c c' : Cursor) : Prop :=
  (∃ key, c.nextKey = some (some key, c')) ∨ c.nextElement = (true, c')

/-- The cursor is inside its document, not too many containers are open, and whatever operation
comes next, it does not read out of range.
-/
structure Safe (c : Cursor) : Prop where
  position : c.position ≤ c.data.length
  frames : c.frames.length ≤ 128
  in_range : ∀ {α : Type} (op : Reader.Operation α), (op.attempt c).isSome

/-- What an operation comes to, with the cursor and with the reader. -/
theorem run_of_attempt (op : Reader.Operation α) {answer : α} (inside : c.Inside)
    (done : op.attempt c = some (answer, c'))
    : c.Moved c' ∧ op.run c.reader = (answer, c'.reader) := by
  obtain ⟨v, after, moved, found, same⟩ := (tracks_attempt op inside).exists
  cases done.symm.trans found
  exact ⟨moved, same⟩

/-- What moves a cursor moves its reader. -/
theorem Moves.reader (h : c.Moves c') (inside : c.Inside)
    : c.Moved c' ∧ c.reader.Moves c'.reader := by
  cases h with
  | operation op done =>
      obtain ⟨moved, same⟩ := run_of_attempt op inside done
      have shown : c'.reader = (op.run c.reader).2 := (congrArg Prod.snd same).symm
      exact ⟨moved, shown ▸ .operation op⟩
  | place path => exact ⟨⟨rfl, inside⟩, .place path⟩

/-- What idles a cursor idles its reader. -/
theorem Idles.reader (h : c.Idles c') (inside : c.Inside)
    : c.Moved c' ∧ c.reader.Idles c'.reader := by
  cases h with
  | operation op done untaken =>
      obtain ⟨moved, same⟩ := run_of_attempt op inside done
      have shown : c'.reader = (op.run c.reader).2 := (congrArg Prod.snd same).symm
      exact ⟨moved, shown ▸ .operation op (by rw [same, untaken])⟩
  | place path => exact ⟨⟨rfl, inside⟩, .place path⟩

/-- What forks a cursor forks its reader. -/
theorem Forks.reader (h : c.Forks c')
    : c'.Inside ∧ c.reader.Forks c'.reader := by
  obtain ⟨document, rfl⟩ := h
  exact ⟨Nat.zero_le _, document, rfl⟩

/-- What a cursor reaches its reader reaches. -/
theorem Reaches.reader (h : c.Reaches c') (inside : c.Inside)
    : c.Moved c' ∧ c.reader.Reaches c'.reader := by
  rcases h with ⟨key, reached⟩ | reached
  · obtain ⟨moved, same⟩ := run_of_attempt .nextKey inside reached
    exact ⟨moved, .inl ⟨key, same⟩⟩
  · obtain ⟨moved, same⟩ := run_of_attempt .nextElement inside (congrArg some reached)
    exact ⟨moved, .inr same⟩

-----------------------------------------------------------------------------------------
-- Sessions
-----------------------------------------------------------------------------------------

variable {σ σ' : Session Cursor} {i : Nat}

/-- A run of cursors is one of their readers, and keeps them inside. -/
theorem reader_of_runs
    (inside : ∀ c ∈ σ, c.Inside) (runs : Session.Runs (fun _ => Moves) Forks σ σ')
    : (∀ c ∈ σ', c.Inside)
        ∧ Session.Runs (fun _ => Reader.Moves) Reader.Forks (σ.map reader) (σ'.map reader) :=
  runs.map (P := Inside) (fun _ => rfl) (fun _ _ => rfl) inside (fun _ _ inside => inside)
    (fun _ _ _ inside moved => ⟨(moved.reader inside).1.inside, (moved.reader inside).2⟩)
    (fun _ _ _ forked => forked.reader)

theorem reader_of_idles
    (inside : ∀ c ∈ σ, c.Inside)
    (runs : Session.Runs (fun j => if j = i then Idles else Moves) Forks σ σ')
    : (∀ c ∈ σ', c.Inside)
        ∧ Session.Runs (fun j => if j = i then Reader.Idles else Reader.Moves) Reader.Forks
            (σ.map reader) (σ'.map reader) := by
  refine runs.map (P := Inside) (fun _ => rfl) (fun _ _ => rfl) inside (fun _ _ inside => inside)
    (fun j _ _ inside moved => ?_) (fun _ _ _ forked => forked.reader)
  split at moved <;> rename_i own
  · rw [if_pos own]
    exact ⟨(moved.reader inside).1.inside, (moved.reader inside).2⟩
  · rw [if_neg own]
    exact ⟨(moved.reader inside).1.inside, (moved.reader inside).2⟩

theorem map_update (σ : Session Cursor) (i : Nat) (c : Cursor)
    : (σ.update i c).map reader = Session.update (σ.map reader) i c.reader :=
  Session.map_update (f := reader) (fun _ => rfl) (fun _ _ => rfl) i c

theorem getElem?_reader (found : σ[i]? = some c)
    : (σ.map reader)[i]? = some c.reader := by
  rw [List.getElem?_map, found, Option.map_some]

/-- What one of the cursors comes to keeps all of them inside. -/
theorem inside_update (inside : ∀ c ∈ σ, c.Inside) (own : c'.Inside)
    : ∀ c ∈ σ.update i c', c.Inside := by
  intro c member
  obtain ⟨z, old, rfl⟩ := List.mem_map.mp member
  rcases List.mem_or_eq_of_mem_set old with old | rfl
  · exact inside z old
  · exact own

/-- A cursor keeps its document, whatever is done. -/
theorem data_of_runs (inside : ∀ c ∈ σ, c.Inside) (own : c'.Inside) (found : σ[i]? = some c)
    (runs : Session.Runs (fun _ => Moves) Forks (σ.update i c') σ') (found' : σ'[i]? = some c'')
    : c''.data = c'.data := by
  have bound : i < σ.length := (List.getElem?_eq_some_iff.mp found).1
  refine ((runs.invariant (P := fun j z => z.Inside ∧ (j = i → z.data = c'.data))
    (Session.shared_update σ i c') ?_ ?_ ?_ ?_ ?_).2.2 i c'' found').2 rfl
  · rintro x _ ⟨document, rfl⟩
    rfl
  · intro j z at_
    refine ⟨inside_update inside own z (List.mem_of_getElem? at_), ?_⟩
    rintro rfl
    cases (Session.getElem?_update_self found c').symm.trans at_
    rfl
  · rintro j x y ⟨there, kept⟩ moved
    have later := (moved.reader there).1
    exact ⟨later.inside, fun same => later.data.trans (kept same)⟩
  · exact fun _ _ _ _ _ _ _ kept _ => kept
  · rintro k j x y - forked beyond
    refine ⟨forked.reader.1, ?_⟩
    rintro rfl
    rw [Session.length_update] at beyond
    omega

/-- Whatever is done with cursors from the start of a document on, they are safe. -/
theorem safe_of_runs {bytes : List UInt8} {registry : Option Registry}
    (runs : Session.Runs (fun _ => Moves) Forks [ofBytes bytes registry] σ)
    : ∀ c ∈ σ, c.Safe := by
  have start : ∀ c ∈ [ofBytes bytes registry], c.Inside := by
    intro c member
    rw [List.mem_singleton.mp member]
    exact Nat.zero_le _
  obtain ⟨inside, shown⟩ := reader_of_runs start runs
  intro c member
  refine ⟨inside c member, ?_, fun op => ?_⟩
  · exact (Reader.contained_of_runs shown c.reader (List.mem_map_of_mem member)).frames
  · obtain ⟨v, c', -, found, -⟩ := (tracks_attempt op (inside c member)).exists
    rw [found]
    rfl

/-- What was reached and not read is refused in an object. -/
theorem nextKey_of_pending (sound : c.fault = none) (pending : c.pending = true)
    : c.nextKey = some (none, c.latch .unconsumedValue) := by
  simp only [nextKey, advance, sound, pending, if_true]

/-- What was reached and not read is refused in an array. -/
theorem nextElement_of_pending (sound : c.fault = none) (pending : c.pending = true)
    : c.nextElement = (false, c.latch .unconsumedValue) := by
  simp only [nextElement, advance, sound, pending, if_true]

/-- What a cursor has reached and not read is refused when it moves on. -/
theorem refused_of_idles (inside : ∀ c ∈ σ, c.Inside) (found : σ[i]? = some c)
    (reached : c.Reaches c')
    (runs : Session.Runs (fun j => if j = i then Idles else Moves) Forks (σ.update i c') σ')
    (found' : σ'[i]? = some c'') (sound : c''.fault = none)
    : c''.nextKey = some (none, c''.latch .unconsumedValue)
        ∧ c''.nextElement = (false, c''.latch .unconsumedValue) := by
  obtain ⟨moved, shown⟩ := reached.reader (inside c (List.mem_of_getElem? found))
  obtain ⟨-, idles⟩ := reader_of_idles (inside_update inside moved.inside) runs
  rw [map_update] at idles
  have pending : c''.pending = true :=
    Reader.pending_of_idles (getElem?_reader found) shown idles (getElem?_reader found') sound
  exact ⟨nextKey_of_pending sound pending, nextElement_of_pending sound pending⟩

/-- From where a cursor has reached a member or element, it stands further on when it comes to the
next one or to the end of a container, unless it fails.
-/
theorem further_of_runs {next : Cursor} (inside : ∀ c ∈ σ, c.Inside) (found : σ[i]? = some c)
    (reached : c.Reaches c') (runs : Session.Runs (fun _ => Moves) Forks (σ.update i c') σ')
    (found' : σ'[i]? = some c'')
    (advanced : (∃ key, c''.nextKey = some (key, next)) ∨ ∃ more, c''.nextElement = (more, next))
    : next.fault.isSome ∨ c'.position < next.position := by
  obtain ⟨moved, shown⟩ := reached.reader (inside c (List.mem_of_getElem? found))
  obtain ⟨inside', shown'⟩ := reader_of_runs (inside_update inside moved.inside) runs
  rw [map_update] at shown'
  have there := inside' c'' (List.mem_of_getElem? found')
  obtain ⟨onward, seen⟩ : c''.Moved next
      ∧ (next.reader = c''.reader.nextKey.2 ∨ next.reader = c''.reader.nextElement.2) := by
    rcases advanced with ⟨key, advanced⟩ | ⟨more, advanced⟩
    · obtain ⟨onward, same⟩ := run_of_attempt .nextKey there advanced
      exact ⟨onward, .inl (congrArg Prod.snd same).symm⟩
    · obtain ⟨onward, same⟩ := run_of_attempt .nextElement there (congrArg some advanced)
      exact ⟨onward, .inr (congrArg Prod.snd same).symm⟩
  refine (Reader.ahead_of_next (getElem?_reader found) shown shown' (getElem?_reader found')
    seen).imp_right fun less => ?_
  -- The document stays the same, so less is left of it only behind a larger offset.
  have same := onward.data.trans (data_of_runs inside moved.inside found runs found')
  rw [left_reader, left_reader, left, left, same] at less
  omega

end Cursor

/-- The cursor is safe and gets ahead.  Every cursor that comes up while bytes are read in any
manner is inside its document and never reads out of range.  What it reaches has to be read before
it moves on, or it fails; and in any case a byte is taken before it reaches the next member or
element, or it fails.  Reading a message ends: it reads no message so deep inside as its measure
tells, it is a program whose loops end after finitely many turns that take a byte each or fail, and
so do the loops of the passage over values.
-/
theorem cursor_safe_and_ahead {own : List MessageType} (plain : ∀ t ∈ own, t.form ≠ .any)
    {bytes : List UInt8} {registry : Option Registry} {σ : Session Cursor}
    (runs : Session.Runs (fun _ => Cursor.Moves) Cursor.Forks [Cursor.ofBytes bytes registry] σ)
    : let s := WellKnown.schemaWith own
      (∀ c ∈ σ, c.Safe)
      ∧ (∀ i c c' σ' c'', σ[i]? = some c → c.Reaches c'
        → Session.Runs (fun j => if j = i then Cursor.Idles else Cursor.Moves) Cursor.Forks
            (σ.update i c') σ'
        → σ'[i]? = some c'' → c''.fault = none
        → let refused := { c'' with fault := some ⟨.unmarshal, c''.path.dotted, .unconsumedValue⟩ }
          c''.nextKey = some (none, refused) ∧ c''.nextElement = (false, refused))
      ∧ (∀ i c c' σ' c'', σ[i]? = some c → c.Reaches c'
        → Session.Runs (fun _ => Cursor.Moves) Cursor.Forks (σ.update i c') σ' → σ'[i]? = some c''
        → ∀ next, (∃ key, c''.nextKey = some (key, next)) ∨ (∃ more, c''.nextElement = (more, next))
        → next.fault.isSome ∨ c'.position < next.position)
      ∧ (∀ t m r deeper, readMessage s t m r = readWithin s deeper (readMeasure t r + 1) t m r)
      ∧ (∀ t slots, Program (mannerOf t.form) fun read r => readSlots s read t slots r)
      ∧ (∀ {α : Type} {F : String → α → Reading α}, (∀ key v, Program .delegated (F key v))
        → ∀ v r, Reader.KeyTurns (fun key v => F key v (readMessage s)) v r
            (r.keys (fun key v => F key v (readMessage s)) v))
      ∧ (∀ {α : Type} {F : α → Reading α}, (∀ v, Program .delegated (F v))
        → ∀ v r, Reader.ElementTurns (fun v => F v (readMessage s)) v r
            (r.elements (fun v => F v (readMessage s)) v))
      ∧ ∀ depth, (Scanner.skipValue depth).Consumes
        ∧ Scanner.skipMembers (Scanner.skipValue depth) = (do
            let _ ← Scanner.keyAndColon
            Scanner.skipValue depth
            Scanner.proceed 125 .expectedCommaOrBrace
              (Scanner.skipMembers (Scanner.skipValue depth)) : Scanner Unit)
        ∧ Scanner.skipElements (Scanner.skipValue depth) = (do
            Scanner.skipValue depth
            Scanner.proceed 93 .expectedCommaOrBracket
              (Scanner.skipElements (Scanner.skipValue depth)) : Scanner Unit) := by
  intro s
  have flat := form_type_ne_any plain
  have still : ∀ t m (r : Reader), r.fault.isSome → r.Still (readMessage s t m r).2 :=
    still_readMessage flat
  have safe := Cursor.safe_of_runs runs
  have inside (c : Cursor) (member : c ∈ σ) : c.Inside := (safe c member).position
  refine ⟨safe, ?_, ?_, ?_, program_slots s flat, ?_, ?_, fun depth => ?_⟩
  · intro i c c' σ' c'' found reached later found' sound refused
    have latched : c''.latch .unconsumedValue = refused := by
      simp only [Cursor.latch, sound, refused]
    exact latched ▸ Cursor.refused_of_idles inside found reached later found' sound
  · intro i c c' σ' c'' found reached later found' next
    exact Cursor.further_of_runs inside found reached later found'
  · exact fun t m r deeper => readMessage_eq_readWithin flat deeper (Nat.lt_succ_self _)
  · intro α F program v r
    exact Reader.keyTurns (fun key v r => (program key v).onward (onward_readMessage flat) r) v r
  · intro α F program v r
    exact Reader.elementTurns (fun v r sound =>
      (program v).outcome (by decide) still (outcome_readMessage flat) sound) v r
  · have suffixes := Scanner.suffixes_skipValue depth
    have taken := Scanner.consumes_skipValue depth
    exact ⟨taken, Scanner.skipMembers_unfold suffixes, Scanner.skipElements_unfold taken⟩

/-- An element that the cursor has reached and that was not read. -/
theorem cursor_safe_and_ahead_unread
    : let start := Cursor.ofBytes [91, 49] none
      let c : Cursor := { start with position := 1, frames := [⟨.array, true⟩] }
      let c' : Cursor := { c with frames := [⟨.array, false⟩], pending := true }
      (∀ t ∈ ([] : List MessageType), t.form ≠ .any)
      ∧ Session.Runs (fun _ => Cursor.Moves) Cursor.Forks [start] [c]
      ∧ c.nextElement = (true, c')
      ∧ c'.nextElement = (false, { c' with fault := some ⟨.unmarshal, "", .unconsumedValue⟩ }) := by
  intro start c c'
  have plain : ∀ t ∈ ([] : List MessageType), t.form ≠ .any := nofun
  have front : IndexedScanner.runEnd isBlank [91, 49] 0 = 0 :=
    IndexedScanner.runEnd_of_neg rfl (by decide)
  have behind : IndexedScanner.runEnd isBlank [91, 49] 1 = 1 :=
    IndexedScanner.runEnd_of_neg rfl (by decide)
  have entered : start.enter .array = (true, c) := by
    simp [start, c, Cursor.enter, Cursor.ofBytes, Cursor.beginValue, Cursor.skipBlanks, front,
      Cursor.byte?, Container.opening, maxDepth, Cursor.step]
  have reached : c.nextElement = (true, c') := by
    simp [start, c, c', Cursor.nextElement, Cursor.advance, Cursor.nextPart, Cursor.ofBytes,
      Cursor.skipBlanks, behind, Cursor.byte?, Container.closing]
  have moved : start.Moves c := .operation (.enter .array) (congrArg some entered)
  have step : Session.Step (fun _ => Cursor.Moves) Cursor.Forks [start]
      (Session.update [start] 0 c) := .move rfl moved
  have runs : Session.Runs (fun _ => Cursor.Moves) Cursor.Forks [start] [c] := .single step
  have unread := (cursor_safe_and_ahead plain runs).2.1 0 c c' _ c' rfl (.inr reached) .refl rfl rfl
  exact ⟨plain, runs, reached, unread.2⟩

end Protobuf.Json
