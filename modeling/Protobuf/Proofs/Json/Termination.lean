import Protobuf.Proofs.Json.Passage

/-! Reading ends by itself.  The loops over members and elements, and the messages inside messages,
are guarded by what is left of the document; the guards never decide anything, so what is read is
what would be read without them.
-/

namespace Protobuf.Json

namespace Reader

variable {α : Type} {r : Reader}

-----------------------------------------------------------------------------------------
-- Steps that take a byte
-----------------------------------------------------------------------------------------

theorem length_lt_nextKey {key : String} {r' : Reader} (reached : r.nextKey = (some key, r'))
    : r'.rest.length < r.rest.length := by
  rcases nextKey_cases r with ⟨_, same⟩ | ⟨_, same, _, _⟩ | ⟨_, _, _, _, _, _, _, same⟩
    | ⟨key', first, frames, start, rest, _, _, _, _, begun, keyed, same⟩
    <;> cases reached.symm.trans same
  have short := Scanner.consumes_keyAndColon _ _ _ keyed
  have kept := (dropBlanks_suffix r.rest).length_le
  rw [begun] at kept
  split at kept
  · exact Nat.lt_of_lt_of_le short kept
  · exact Nat.lt_trans short (Nat.lt_of_succ_le kept)

theorem length_lt_enter {container : Container} {r' : Reader}
    (entered : r.enter container = (true, r'))
    : r'.rest.length < r.rest.length := by
  rcases enter_cases container r with ⟨_, same⟩ | ⟨_, same, _, _⟩ | ⟨rest, _, opening, _, same⟩
    <;> cases entered.symm.trans same
  have kept := (dropBlanks_suffix r.rest).length_le
  rw [opening] at kept
  exact kept

/-- A cursor that has reached a member or element is in front of its value. -/
theorem pending_of_reached {r' : Reader}
    (reached : (∃ key, r.nextKey = (some key, r')) ∨ r.nextElement = (true, r'))
    : r'.fault = none ∧ r'.pending = true := by
  rcases reached with ⟨key, reached⟩ | reached
  · rcases nextKey_cases r with ⟨_, same⟩ | ⟨_, same, _, _⟩ | ⟨_, _, _, _, _, _, _, same⟩
      | ⟨_, _, _, _, _, sound, _, _, _, _, _, same⟩ <;> cases reached.symm.trans same
    exact ⟨sound, rfl⟩
  · rcases nextElement_cases r with ⟨_, same⟩ | ⟨_, same, _, _⟩ | ⟨_, _, _, _, _, _, _, same⟩
      | ⟨_, _, _, sound, _, _, _, _, same⟩ <;> cases reached.symm.trans same
    exact ⟨sound, rfl⟩

-----------------------------------------------------------------------------------------
-- Loops without guards
-----------------------------------------------------------------------------------------

/-- Each turn through the members takes a byte, so the members are read to the end. -/
theorem keys_unfold {read : String → α → Reader → α × Reader}
    (onward : ∀ key v (r : Reader), r.Onward (read key v r).2) (v : α) (r : Reader)
    : r.keys read v
        = match r.nextKey with
          | (none, r') => (v, r')
          | (some key, r') => (read key v r').2.keys read (read key v r').1 := by
  rw [keys]
  rcases reached : r.nextKey with ⟨_ | key, r'⟩
  · rfl
  · have shorter := Nat.lt_of_le_of_lt (onward key v r').length_le (length_lt_nextKey reached)
    simp only [shorter, if_true]

/-- Each turn through the elements takes a byte, or the cursor fails in the next one, so the
elements are read to the end.
-/
theorem elements_unfold {read : α → Reader → α × Reader}
    (outcome : ∀ v (r : Reader), r.fault = none → r.Outcome True (read v r).2) (v : α) (r : Reader)
    : r.elements read v
        = match r.nextElement with
          | (false, r') => (v, r')
          | (true, r') => (read v r').2.elements read (read v r').1 := by
  rw [elements]
  rcases reached : r.nextElement with ⟨_ | _, r'⟩
  · rfl
  · obtain ⟨sound, pending⟩ := pending_of_reached (.inr reached)
    have moved := onward_nextElement r
    rw [reached] at moved
    simp only
    split
    · rfl
    · rename_i longer
      rcases outcome v r' sound with failed | ⟨_, left⟩ | took
      · rw [nextElement_of_fault failed, elements_of_fault read _ failed]
      · rw [elements, nextElement_of_pending left.sound (left.pending.trans pending)]
      · exact absurd (Nat.lt_of_lt_of_le took.skips.length_lt moved.length_le) longer

-----------------------------------------------------------------------------------------
-- Loops that do the same
-----------------------------------------------------------------------------------------

/-- By induction on what is left of the document. -/
theorem keys_congr {bound : Nat} {read read' : String → α → Reader → α × Reader}
    (same : ∀ key v (r : Reader), r.rest.length < bound → read key v r = read' key v r) (v : α)
    (inside : r.rest.length ≤ bound)
    : r.keys read v = r.keys read' v := by
  fun_induction Reader.keys read v r with
  | case1 v r r' reached => rw [keys, reached]
  | case2 v r key r' reached next shorter =>
      rename_i ih
      have equal := same key v r' (Nat.lt_of_lt_of_le (length_lt_nextKey reached) inside)
      have unfolded : r.keys read' v = (read' key v r').2.keys read' (read' key v r').1 := by
        rw [keys, reached]
        simp only [← equal]
        rw [if_pos shorter]
      rw [ih (Nat.le_trans (Nat.le_of_lt shorter) inside), unfolded, ← equal]
  | case3 v r key r' reached next =>
      rename_i longer
      have equal := same key v r' (Nat.lt_of_lt_of_le (length_lt_nextKey reached) inside)
      rw [keys, reached]
      simp only [← equal]
      rw [if_neg longer]

/-- By induction on what is left of the document. -/
theorem elements_congr {bound : Nat} {read read' : α → Reader → α × Reader}
    (same : ∀ v (r : Reader), r.rest.length < bound → read v r = read' v r) (v : α)
    (inside : r.rest.length < bound)
    : r.elements read v = r.elements read' v := by
  fun_induction Reader.elements read v r with
  | case1 v r r' reached => rw [elements, reached]
  | case2 v r r' reached next shorter =>
      rename_i ih
      have moved := onward_nextElement r
      rw [reached] at moved
      have equal := same v r' (Nat.lt_of_le_of_lt moved.length_le inside)
      have unfolded : r.elements read' v = (read' v r').2.elements read' (read' v r').1 := by
        rw [elements, reached]
        simp only [← equal]
        rw [if_pos shorter]
      rw [ih (Nat.lt_trans shorter inside), unfolded, ← equal]
  | case3 v r r' reached next =>
      rename_i longer
      have moved := onward_nextElement r
      rw [reached] at moved
      have equal := same v r' (Nat.lt_of_le_of_lt moved.length_le inside)
      rw [elements, reached]
      simp only [← equal]
      rw [if_neg longer]

theorem object_congr {bound : Nat} {read read' : String → α → Reader → α × Reader}
    (same : ∀ key v (r : Reader), r.rest.length < bound → read key v r = read' key v r) (v : α)
    (inside : r.rest.length ≤ bound)
    : r.object read v = r.object read' v := by
  rw [object, object]
  rcases entered : r.enter .object with ⟨_ | _, r'⟩
  · rfl
  · exact keys_congr same v (Nat.le_trans (Nat.le_of_lt (length_lt_enter entered)) inside)

theorem array_congr {bound : Nat} {read read' : α → Reader → α × Reader}
    (same : ∀ v (r : Reader), r.rest.length < bound → read v r = read' v r) (v : α)
    (inside : r.rest.length ≤ bound)
    : r.array read v = r.array read' v := by
  rw [array, array]
  rcases entered : r.enter .array with ⟨_ | _, r'⟩
  · rfl
  · exact elements_congr same v (Nat.lt_of_lt_of_le (length_lt_enter entered) inside)

end Reader

-----------------------------------------------------------------------------------------
-- Programs read messages only where less is left
-----------------------------------------------------------------------------------------

/-- Two readers of messages agree wherever a program of the manner, with so much left of the
document, may call them.
-/
def Manner.Agree (manner : Manner) (read read' : MessageReader) (length : Nat) : Prop :=
  ∀ t m (r : Reader), r.rest.length ≤ length
    → (match manner with
      | .whole | .perhaps => r.rest.length < length
      | .delegated => True
      | .packed | .walk => t.form = .any → r.rest.length < length)
    → read t m r = read' t m r

section

variable {manner : Manner} {read read' : MessageReader} {length length' : Nat}

theorem Manner.Agree.mono (h : manner.Agree read read' length) (less : length' ≤ length)
    : manner.Agree read read' length' := by
  intro t m r inside allowed
  refine h t m r (Nat.le_trans inside less) ?_
  cases manner with
  | whole | perhaps => exact Nat.lt_of_lt_of_le allowed less
  | delegated => trivial
  | packed | walk => exact fun any => Nat.lt_of_lt_of_le (allowed any) less

/-- Inside a container less is left, and every message may be read. -/
theorem Manner.Agree.inside (h : manner.Agree read read' length) (less : length' < length)
    : Manner.Agree .delegated read read' length' := by
  intro t m r shorter _
  have strictly := Nat.lt_of_le_of_lt shorter less
  refine h t m r (Nat.le_of_lt strictly) ?_
  cases manner with
  | whole | perhaps => exact strictly
  | delegated => trivial
  | packed | walk => exact fun _ => strictly

/-- A program does the same with readers of messages that agree where it may call them: by induction
on how it is built.
-/
theorem Program.congr {α : Type} {F : Reading α} (h : Program manner F)
    (onward : ∀ t m (r : Reader), r.Onward (read t m r).2) {r : Reader}
    (agree : manner.Agree read read' r.rest.length)
    : F read r = F read' r := by
  induction h generalizing r with
  | leave | refuse | token | enter | nextKey | failed | registry => rfl
  | judged value cause _ ih => simp only [ih agree]
  | @nullOr manner α F v _ ih =>
      have moved := Reader.onward_null r
      dsimp only
      rcases taken : r.null with ⟨_ | _, r'⟩
      · rw [taken] at moved
        exact ih (agree.mono moved.length_le)
      · rfl
  | record name _ ih => exact ih (r := r.addField name) agree
  | @field manner α F name _ ih =>
      have same := ih (r := { r with path := r.path.push name }) agree
      simp only [Reader.withField, same]
  | byKind _ ih => exact ih _ (agree.mono (Reader.onward_peekKind r).length_le)
  | object v _ ih =>
      exact Reader.object_congr (fun key v r inside => ih key v (agree.inside inside)) v
        (Nat.le_refl _)
  | array v _ ih =>
      exact Reader.array_congr (fun v r inside => ih v (agree.inside inside)) v (Nat.le_refl _)
  | perhaps _ ih => exact ih agree
  | delegated _ ih => exact ih fun t m r inside _ => agree t m r inside trivial
  | message t m => exact agree t m r (Nat.le_refl _) trivial
  | @packed α β F v value _ ih =>
      rcases Reader.rawValue_cases r with ⟨_, same⟩ | ⟨_, same, _, _⟩
        | ⟨document, rest, _, _, whole, same⟩
      · simp only [same]
      · simp only [same]
      simp only [same]
      have shorter : document.length ≤ r.rest.length := by
        have kept := (dropBlanks_suffix r.rest).length_le
        rw [whole, List.length_append] at kept
        exact Nat.le_of_add_right_le kept
      rw [ih (r := Reader.sub { r with pending := false, rest } document) (agree.mono shorter)]
  | walk _ ih => exact ih fun t m r inside less => agree t m r inside fun _ => less
  | keys v _ ih =>
      exact Reader.keys_congr (fun key v r inside => ih key v (agree.inside inside)) v
        (Nat.le_refl _)
  | next program _ first second =>
      simp only [← first agree]
      exact second _ (agree.mono (program.onward onward r).length_le)
  | again target value cause program _ flat first second =>
      simp only [← first agree]
      split
      · exact second _ (agree.mono (program.onward onward r).length_le)
      · rename_i t m found
        rw [agree t m r (Nat.le_refl _) fun any => absurd any (flat _ t m found)]

end

-----------------------------------------------------------------------------------------
-- Messages inside messages without guards
-----------------------------------------------------------------------------------------

/-- A reader of messages that leaves them as they are. -/
def leaveMessage : MessageReader :=
  fun _ m r => (m, r)

/-- Reads a message with the messages inside it, but those so deep inside with another reader. -/
def readWithin (s : Schema) (deeper : MessageReader) : Nat → MessageReader
  | 0 => deeper
  | depth + 1 => fun t m r =>
      let (slots, r) := readSlots s (readWithin s deeper depth) t m.slots r
      (⟨slots, m.unknown⟩, r)

section

variable {s : Schema} (flat : ∀ name, name ∉ wellKnownNames → (s.type name).form ≠ .any)

include flat

/-- The readers of messages inside a message are called where its measure is greater than theirs. -/
theorem readSlots_congr {t : MessageType} {slots : List Slot} {r : Reader}
    {read read' : MessageReader} (onward : ∀ t m (r : Reader), r.Onward (read t m r).2)
    (same : ∀ t' m' r', readMeasure t' r' < readMeasure t r → read t' m' r' = read' t' m' r')
    : readSlots s read t slots r = readSlots s read' t slots r := by
  have program := program_slots s flat t slots
  unfold mannerOf at program
  by_cases form : t.form = .any
  · rw [if_pos form] at program
    refine program.congr onward fun t' m' r' inside allowed => same t' m' r' ?_
    simp only [readMeasure, form, if_true]
    split
    · have strictly := allowed ‹_›
      omega
    · omega
  · rw [if_neg form] at program
    refine program.congr onward fun t' m' r' inside allowed => same t' m' r' ?_
    simp only [readMeasure, form, if_false]
    split <;> omega

/-- The guard on messages inside messages never decides anything. -/
theorem readMessage_unfold (t : MessageType) (m : Message) (r : Reader)
    : readMessage s t m r
        = (⟨(readSlots s (readMessage s) t m.slots r).1, m.unknown⟩,
          (readSlots s (readMessage s) t m.slots r).2) := by
  rw [readMessage]
  rw [readSlots_congr flat (onward_readMessage flat) fun t' m' r' less => (if_pos less).symm]

/-- Reading a message calls for no message so deep inside as its measure tells, whatever would read
it there: by induction on the measure.
-/
theorem readMessage_eq_readWithin (deeper : MessageReader) {depth : Nat} {t : MessageType}
    {m : Message} {r : Reader} (bound : readMeasure t r < depth)
    : readMessage s t m r = readWithin s deeper depth t m r := by
  induction depth generalizing t m r with
  | zero => exact absurd bound (Nat.not_lt_zero _)
  | succ depth ih =>
      rw [readMessage_unfold flat, readSlots_congr flat (onward_readMessage flat)
        fun t' m' r' less => ih (Nat.lt_of_lt_of_le less (Nat.le_of_lt_succ bound))]
      rfl

end

end Protobuf.Json
