import Protobuf.Proofs.Json.Skipping
import Protobuf.Proofs.Json.Steps

/-! What a reader has read could have been passed over.  The passage over values does not depend on
how deep they may nest, unless they nest too deep; and a program that has not failed has left the
value that came next, or has taken exactly the bytes of it.
-/

namespace Protobuf.Json

namespace Scanner

-----------------------------------------------------------------------------------------
-- Passages that may go deeper
-----------------------------------------------------------------------------------------

/-- A scanner that may go deeper ends the same way, unless the other one went too deep. -/
def Deepens {α : Type} (scanner deeper : Scanner α) (bytes : List UInt8) : Prop :=
  (∃ rest, scanner bytes = .error .nestingTooDeep rest) ∨ deeper bytes = scanner bytes

section

variable {α β : Type} {scanner deeper : Scanner α} {f g : α → Scanner β} {bytes rest : List UInt8}
  {v : α} {value deepValue : Scanner Unit}

/-- A scanner goes as deep as itself. -/
theorem Deepens.refl (scanner : Scanner α) (bytes : List UInt8)
    : Deepens scanner scanner bytes :=
  .inr rfl

/-- What is scanned is scanned when more depth is left. -/
theorem Deepens.of_ok (h : Deepens scanner deeper bytes) (scanned : scanner bytes = .ok v rest)
    : deeper bytes = .ok v rest := by
  rcases h with ⟨_, deep⟩ | same
  · rw [deep] at scanned
    cases scanned
  · rw [same, scanned]

/-- Going deeper twice is going deeper. -/
theorem Deepens.trans {deepest : Scanner α} (first : Deepens scanner deeper bytes)
    (second : Deepens deeper deepest bytes)
    : Deepens scanner deepest bytes := by
  rcases first with deep | same
  · exact .inl deep
  · rcases second with deep | same'
    · exact .inl (same ▸ deep)
    · exact .inr (same'.trans same)

/-- Two scans go deeper if each one does. -/
theorem Deepens.bind (h : Deepens scanner deeper bytes)
    (next : ∀ v rest, scanner bytes = .ok v rest → Deepens (f v) (g v) rest)
    : Deepens (scanner >>= f) (deeper >>= g) bytes := by
  rcases h with ⟨rest, deep⟩ | same
  · exact .inl ⟨rest, bind_of_error deep⟩
  cases scanned : scanner bytes with
  | error fault rest =>
      rw [scanned] at same
      exact .inr ((bind_of_error same).trans (bind_of_error scanned).symm)
  | ok v rest =>
      rw [scanned] at same
      unfold Deepens
      rw [bind_of_ok scanned, bind_of_ok same]
      exact next v rest scanned

theorem Deepens.proceed {others deepOthers : Scanner Unit} (close : UInt8) (fault : SyntaxFault)
    (h : ∀ rest, dropBlanks bytes = 44 :: rest → Deepens others deepOthers rest)
    : Deepens (proceed close fault others) (proceed close fault deepOthers) bytes := by
  unfold Deepens Scanner.proceed
  cases visible : dropBlanks bytes with
  | nil => exact .inr rfl
  | cons b rest =>
      by_cases comma : b = 44
      · subst comma
        exact h rest visible
      · simp only [comma, if_false]
        exact .inr trivial

/-- By induction on the length of the members. -/
theorem deepens_skipMembers (suffixes : value.Suffixes) (deepSuffixes : deepValue.Suffixes)
    (h : ∀ bytes, Deepens value deepValue bytes) (bytes : List UInt8)
    : Deepens (skipMembers value) (skipMembers deepValue) bytes := by
  induction length : bytes.length using Nat.strongRecOn generalizing bytes with
  | ind n ih =>
      rw [skipMembers_unfold suffixes, skipMembers_unfold deepSuffixes]
      refine (Deepens.refl _ _).bind fun key start keyed => (h start).bind fun _ behind passed =>
        Deepens.proceed _ _ fun rest visible => ?_
      have short := consumes_keyAndColon _ _ _ keyed
      have inside := (suffixes.of_ok passed).length_le
      have kept := (dropBlanks_suffix behind).length_le
      rw [visible, List.length_cons] at kept
      exact ih _ (by omega) rest rfl

/-- By induction on the length of the elements. -/
theorem deepens_skipElements (taken : value.Consumes) (deepTaken : deepValue.Consumes)
    (h : ∀ bytes, Deepens value deepValue bytes) (bytes : List UInt8)
    : Deepens (skipElements value) (skipElements deepValue) bytes := by
  induction length : bytes.length using Nat.strongRecOn generalizing bytes with
  | ind n ih =>
      rw [skipElements_unfold taken, skipElements_unfold deepTaken]
      refine (h bytes).bind fun _ behind passed => Deepens.proceed _ _ fun rest visible => ?_
      have short := taken _ _ _ passed
      have kept := (dropBlanks_suffix behind).length_le
      rw [visible, List.length_cons] at kept
      exact ih _ (by omega) rest rfl

/-- A container goes deeper if its parts do. -/
theorem Deepens.enclosed {others deepOthers : Scanner Unit} (close : UInt8)
    (h : ∀ bytes, Deepens others deepOthers bytes) (bytes : List UInt8)
    : Deepens (enclosed close others) (enclosed close deepOthers) bytes := by
  refine (Deepens.refl _ _).bind fun next rest _ => ?_
  split
  · exact .refl _ _
  · exact h rest

end

/-- By induction on how deep the value may nest. -/
theorem deepens_skipValue (depth : Nat) (bytes : List UInt8)
    : Deepens (skipValue depth) (skipValue (depth + 1)) bytes := by
  induction depth generalizing bytes with
  | zero => exact .inl ⟨bytes, rfl⟩
  | succ depth ih =>
      unfold Deepens
      rw [skipValue_succ, skipValue_succ]
      cases dropBlanks bytes with
      | nil => exact .inr rfl
      | cons b rest =>
          simp only [skipFrom]
          by_cases object : b = 123
          · simp only [object, if_true]
            exact Deepens.enclosed 125 (deepens_skipMembers (suffixes_skipValue _)
              (suffixes_skipValue _) ih) rest
          by_cases array : b = 91
          · simp only [array]
            exact Deepens.enclosed 93 (deepens_skipElements (consumes_skipValue _)
              (consumes_skipValue _) ih) rest
          simp only [object, array, if_false]
          exact .inr trivial

/-- More depth passes over all that less depth does. -/
theorem deepens_of_le {depth depth' : Nat} (h : depth ≤ depth') (bytes : List UInt8)
    : Deepens (skipValue depth) (skipValue depth') bytes := by
  induction h with
  | refl => exact .refl _ _
  | step _ ih => exact ih.trans (deepens_skipValue _ bytes)

/-- The bytes begin with a value, behind which is the rest. -/
def Skips (bytes rest : List UInt8) : Prop :=
  ∃ depth, skipValue depth bytes = .ok () rest

/-- A value that does not nest too deep is passed over to its end. -/
theorem Skips.skipValue {bytes rest : List UInt8} (h : Skips bytes rest) (depth : Nat)
    (shallow : ∀ rest, skipValue depth bytes ≠ .error .nestingTooDeep rest)
    : skipValue depth bytes = .ok () rest := by
  obtain ⟨depth', passed⟩ := h
  rcases Nat.le_total depth' depth with le | le
  · exact (deepens_of_le le bytes).of_ok passed
  · rcases deepens_of_le le bytes with ⟨rest', deep⟩ | same
    · exact absurd deep (shallow rest')
    · rw [← same, passed]

/-- A value that is passed over takes bytes. -/
theorem Skips.length_lt {bytes rest : List UInt8} (h : Skips bytes rest)
    : rest.length < bytes.length := by
  obtain ⟨depth, passed⟩ := h
  exact consumes_skipValue depth _ _ _ passed

/-- Blanks in front of a value are passed over with it. -/
theorem Skips.of_dropBlanks {bytes rest : List UInt8} (h : Skips (dropBlanks bytes) rest)
    : Skips bytes rest := by
  obtain ⟨depth, passed⟩ := h
  refine ⟨depth, ?_⟩
  cases depth with
  | zero => cases passed
  | succ depth =>
      rw [skipValue_succ, dropBlanks_dropBlanks] at passed
      rw [skipValue_succ, passed]

end Scanner

-----------------------------------------------------------------------------------------
-- What a program has done to the next value
-----------------------------------------------------------------------------------------

namespace Reader

/-- The reader is still in front of the value. -/
structure Left (r r' : Reader) : Prop where
  sound : r'.fault = none
  rest : r'.rest = r.rest ∨ r'.rest = dropBlanks r.rest
  frames : r'.frames = r.frames
  pending : r'.pending = r.pending

/-- The reader is behind the value. -/
structure Took (r r' : Reader) : Prop where
  sound : r'.fault = none
  skips : Scanner.Skips r.rest r'.rest
  frames : r'.frames = r.frames
  pending : r'.pending = false

/-- The reader has failed, or has taken the value, or has left it if it may. -/
def Outcome (leaves : Prop) (r r' : Reader) : Prop :=
  r'.fault.isSome ∨ (leaves ∧ r.Left r') ∨ r.Took r'

variable {leaves : Prop} {α : Type} {r r' r'' : Reader}

/-- No bytes come back. -/
theorem Left.length_le (h : r.Left r')
    : r'.rest.length ≤ r.rest.length := by
  rcases h.rest with same | same
  · exact Nat.le_of_eq (congrArg List.length same)
  · exact same ▸ (dropBlanks_suffix _).length_le

/-- Leaving a value twice is leaving it. -/
theorem Left.trans (first : r.Left r') (second : r'.Left r'')
    : r.Left r'' := by
  refine ⟨second.sound, ?_, second.frames.trans first.frames, second.pending.trans first.pending⟩
  rcases first.rest with same | same <;> rcases second.rest with same' | same'
  · exact .inl (same'.trans same)
  · exact .inr (same'.trans (same ▸ rfl))
  · exact .inr (same'.trans same)
  · exact .inr (by rw [same', same, dropBlanks_dropBlanks])

/-- A value that was left can still be taken. -/
theorem Left.took (first : r.Left r') (second : r'.Took r'')
    : r.Took r'' := by
  refine ⟨second.sound, ?_, second.frames.trans first.frames, second.pending⟩
  rcases first.rest with same | same
  · exact same ▸ second.skips
  · exact Scanner.Skips.of_dropBlanks (same ▸ second.skips)

/-- What comes of a value that was left comes of it. -/
theorem Left.outcome (first : r.Left r') (second : r'.Outcome leaves r'')
    : r.Outcome leaves r'' := by
  rcases second with failed | ⟨allowed, left⟩ | took
  · exact .inl failed
  · exact .inr (.inl ⟨allowed, first.trans left⟩)
  · exact .inr (.inr (first.took took))

/-- A value may be left where less is asked for. -/
theorem Outcome.weaken {others : Prop} (h : r.Outcome leaves r') (weaker : leaves → others)
    : r.Outcome others r' := by
  rcases h with failed | ⟨allowed, left⟩ | took
  · exact .inl failed
  · exact .inr (.inl ⟨weaker allowed, left⟩)
  · exact .inr (.inr took)

/-- The outcome does not depend on the path and the fields that were recorded. -/
theorem Outcome.congr (h : r.Outcome leaves r') {q q' : Reader} (rest : q.rest = r.rest)
    (frames : q.frames = r.frames) (pending : q.pending = r.pending) (fault' : q'.fault = r'.fault)
    (rest' : q'.rest = r'.rest) (frames' : q'.frames = r'.frames)
    (pending' : q'.pending = r'.pending)
    : q.Outcome leaves q' := by
  rcases h with failed | ⟨allowed, left⟩ | took
  · exact .inl (fault' ▸ failed)
  · refine .inr (.inl ⟨allowed, fault'.trans left.sound, ?_, ?_, ?_⟩)
    · rw [rest', rest]
      exact left.rest
    · rw [frames', frames, left.frames]
    · rw [pending', pending, left.pending]
  · refine .inr (.inr ⟨fault'.trans took.sound, ?_, ?_, pending'.trans took.pending⟩)
    · rw [rest', rest]
      exact took.skips
    · rw [frames', frames, took.frames]

/-- Judging a value keeps what came of it. -/
theorem Outcome.settle (h : r.Outcome leaves r') (cause : Option Cause)
    : r.Outcome leaves (r'.settle cause) := by
  cases cause with
  | none => exact h
  | some cause => exact .inl (isSome_latch _ _)

-----------------------------------------------------------------------------------------
-- Members and elements
-----------------------------------------------------------------------------------------

/-- The scan of what is left of a container behind its opening byte or behind a member or element,
down to its end.
-/
def remainder (close : UInt8) (fault : SyntaxFault) (others : Scanner Unit) (first : Bool)
    : Scanner Unit :=
  if first then Scanner.enclosed close others else Scanner.proceed close fault others

section

variable {close : UInt8} {fault : SyntaxFault} {others deepOthers : Scanner Unit} {first : Bool}
  {bytes start rest : List UInt8}

/-- Nothing is left of a container at its bracket. -/
theorem remainder_closed (closing : dropBlanks bytes = close :: rest) (bracket : close ≠ 44)
    : remainder close fault others first bytes = .ok () rest := by
  cases first with
  | true =>
      have peeked : Scanner.peek bytes = .ok (some close) (close :: rest) := by
        rw [Scanner.peek, closing]
        rfl
      unfold remainder Scanner.enclosed
      rw [if_pos rfl, Scanner.bind_of_ok peeked, if_pos (beq_self_eq_true _)]
      rfl
  | false =>
      simp only [remainder, if_false, Bool.false_eq_true, Scanner.proceed, closing,
        bracket, if_true]

/-- In front of a part that and the others are left of a container. -/
theorem remainder_begun (other : (dropBlanks bytes).head? ≠ some close)
    (begun : dropBlanks bytes = (if first then start else 44 :: start))
    : remainder close fault others first bytes = others start := by
  cases first with
  | true =>
      have peeked : Scanner.peek bytes = .ok (dropBlanks bytes).head? (dropBlanks bytes) := rfl
      unfold remainder Scanner.enclosed
      rw [if_pos rfl] at begun ⊢
      rw [Scanner.bind_of_ok peeked, if_neg (by simpa using other), begun]
  | false =>
      simp only [Bool.false_eq_true, if_false] at begun
      simp only [remainder, if_false, Bool.false_eq_true, Scanner.proceed, begun, if_true]

/-- More depth passes over the rest of a container, too. -/
theorem deepens_remainder (h : ∀ bytes, Scanner.Deepens others deepOthers bytes)
    (bytes : List UInt8)
    : Scanner.Deepens (remainder close fault others first) (remainder close fault deepOthers first)
        bytes := by
  cases first with
  | true => exact Scanner.Deepens.enclosed close h bytes
  | false => exact Scanner.Deepens.proceed close fault fun rest _ => h rest

end

/-- The remainder of an object, whose values may nest so deep. -/
abbrev membersBehind (first : Bool) (depth : Nat) : Scanner Unit :=
  remainder 125 .expectedCommaOrBrace (Scanner.skipMembers (Scanner.skipValue depth)) first

/-- The remainder of an array, whose values may nest so deep. -/
abbrev elementsBehind (first : Bool) (depth : Nat) : Scanner Unit :=
  remainder 93 .expectedCommaOrBracket (Scanner.skipElements (Scanner.skipValue depth)) first

variable {first : Bool} {frames : List Frame}

/-- More depth passes over the members that are left. -/
theorem membersBehind_deepens {depth depth' : Nat} (le : depth ≤ depth') (bytes : List UInt8)
    : Scanner.Deepens (membersBehind first depth) (membersBehind first depth') bytes :=
  deepens_remainder (Scanner.deepens_skipMembers (Scanner.suffixes_skipValue _)
    (Scanner.suffixes_skipValue _) (Scanner.deepens_of_le le)) bytes

theorem elementsBehind_deepens {depth depth' : Nat} (le : depth ≤ depth') (bytes : List UInt8)
    : Scanner.Deepens (elementsBehind first depth) (elementsBehind first depth') bytes :=
  deepens_remainder (Scanner.deepens_skipElements (Scanner.consumes_skipValue _)
    (Scanner.consumes_skipValue _) (Scanner.deepens_of_le le)) bytes

/-- A member, and what is behind it, may each nest as deep as the other does. -/
theorem skipMembers_member {start value behind rest : List UInt8} {key : String}
    (keyed : Scanner.keyAndColon start = .ok key value) (passed : Scanner.Skips value behind)
    (others : ∃ depth, membersBehind false depth behind = .ok () rest)
    : ∃ depth, Scanner.skipMembers (Scanner.skipValue depth) start = .ok () rest := by
  obtain ⟨depth, passed⟩ := passed
  obtain ⟨depth', others⟩ := others
  have value := (Scanner.deepens_of_le (Nat.le_max_left depth depth') _).of_ok passed
  have behind := (membersBehind_deepens (Nat.le_max_right depth depth') _).of_ok others
  refine ⟨max depth depth', ?_⟩
  rw [Scanner.skipMembers_unfold (Scanner.suffixes_skipValue _), Scanner.bind_of_ok keyed,
    Scanner.bind_of_ok value]
  exact behind

/-- An element, and what is behind it, may each nest as deep as the other does. -/
theorem skipElements_element {start behind rest : List UInt8} (passed : Scanner.Skips start behind)
    (others : ∃ depth, elementsBehind false depth behind = .ok () rest)
    : ∃ depth, Scanner.skipElements (Scanner.skipValue depth) start = .ok () rest := by
  obtain ⟨depth, passed⟩ := passed
  obtain ⟨depth', others⟩ := others
  have value := (Scanner.deepens_of_le (Nat.le_max_left depth depth') _).of_ok passed
  have behind := (elementsBehind_deepens (Nat.le_max_right depth depth') _).of_ok others
  refine ⟨max depth depth', ?_⟩
  rw [Scanner.skipElements_unfold (Scanner.consumes_skipValue _), Scanner.bind_of_ok value]
  exact behind

-----------------------------------------------------------------------------------------
-- Objects and arrays
-----------------------------------------------------------------------------------------

/-- The reader is behind the container in which the other one stands, or has failed. -/
def Leaves (remainder : Nat → Scanner Unit) (frames : List Frame) (r r' : Reader) : Prop :=
  r'.fault.isSome
    ∨ r'.fault = none ∧ r'.frames = frames ∧ r'.pending = false
      ∧ ∃ depth, remainder depth r.rest = .ok () r'.rest

/-- A member that was left unread fails the next step of the cursor. -/
theorem nextKey_of_pending (sound : r.fault = none) (pending : r.pending = true)
    : r.nextKey = (none, r.latch .unconsumedValue) := by
  rw [nextKey_eq, advance_of_pending .object sound pending]

/-- An element that is left unread fails the next step. -/
theorem nextElement_of_pending (sound : r.fault = none) (pending : r.pending = true)
    : r.nextElement = (false, r.latch .unconsumedValue) := by
  rw [nextElement, advance_of_pending .array sound pending]

/-- A member that is left unread fails the object. -/
theorem isSome_keys_of_pending (read : String → α → Reader → α × Reader) (v : α)
    (sound : r.fault = none) (pending : r.pending = true)
    : (r.keys read v).2.fault.isSome := by
  rw [keys, nextKey_of_pending sound pending]
  exact isSome_latch _ _

/-- An element that is left unread fails the array. -/
theorem isSome_elements_of_pending (read : α → Reader → α × Reader) (v : α)
    (sound : r.fault = none) (pending : r.pending = true)
    : (r.elements read v).2.fault.isSome := by
  rw [elements, nextElement_of_pending sound pending]
  exact isSome_latch _ _

/-- By induction on what is left of the document. -/
theorem keys_leaves {read : String → α → Reader → α × Reader}
    (outcome : ∀ key v (r : Reader), r.fault = none → r.Outcome True (read key v r).2) (v : α)
    (sound : r.fault = none) (idle : r.pending = false)
    (inside : r.frames = ⟨.object, first⟩ :: frames)
    : Leaves (membersBehind first) frames r (r.keys read v).2 := by
  fun_induction Reader.keys read v r generalizing first with
  | case1 v r r' reached =>
      rcases nextKey_cases r with ⟨failed, _⟩ | ⟨r'', same, failed, _⟩
        | ⟨first', frames', rest, _, _, inside', closing, same⟩
        | ⟨key, first', frames', start, rest, _, _, _, _, _, _, same⟩
      · rw [sound] at failed
        cases failed
      · cases reached.symm.trans same
        exact .inl failed
      · cases reached.symm.trans same
        cases inside.symm.trans inside'
        exact .inr ⟨sound, rfl, idle, 0, remainder_closed closing (by decide)⟩
      · cases reached.symm.trans same
  | case2 v r key r' reached next shorter =>
      rename_i ih
      rcases nextKey_cases r with ⟨_, same⟩ | ⟨_, same, _, _⟩ | ⟨_, _, _, _, _, _, _, same⟩
        | ⟨key', first', frames', start, rest, _, _, inside', other, begun, keyed, same⟩
      · cases reached.symm.trans same
      · cases reached.symm.trans same
      · cases reached.symm.trans same
      cases reached.symm.trans same
      cases inside.symm.trans inside'
      have own : Outcome True _ next.2 := outcome key v _ sound
      rcases own with failed | ⟨_, left⟩ | took
      · rw [keys_of_fault read _ failed]
        exact .inl failed
      · exact .inl (isSome_keys_of_pending read _ left.sound left.pending)
      · rcases ih took.sound took.pending took.frames with failed | ⟨sound', frames', idle', others⟩
        · exact .inl failed
        · refine .inr ⟨sound', frames', idle', ?_⟩
          obtain ⟨depth, passed⟩ := skipMembers_member keyed took.skips others
          exact ⟨depth, (remainder_begun other begun).trans passed⟩
  | case3 v r key r' reached next =>
      rename_i longer
      -- A key takes a byte, so the loop ends here only behind a fault.
      rcases nextKey_cases r with ⟨_, same⟩ | ⟨_, same, _, _⟩ | ⟨_, _, _, _, _, _, _, same⟩
        | ⟨key', first', frames', start, rest, _, _, inside', other, begun, keyed, same⟩
      · cases reached.symm.trans same
      · cases reached.symm.trans same
      · cases reached.symm.trans same
      cases reached.symm.trans same
      have taken : rest.length < r.rest.length := by
        have short := Scanner.consumes_keyAndColon _ _ _ keyed
        have kept := (dropBlanks_suffix r.rest).length_le
        rw [begun] at kept
        split at kept
        · omega
        · rw [List.length_cons] at kept
          omega
      have own : Outcome True _ next.2 := outcome key v _ sound
      rcases own with failed | ⟨_, left⟩ | took
      · exact .inl failed
      · exact absurd (Nat.lt_of_le_of_lt left.length_le taken) longer
      · exact absurd (Nat.lt_trans took.skips.length_lt taken) longer

/-- By induction on what is left of the document. -/
theorem elements_leaves {read : α → Reader → α × Reader}
    (outcome : ∀ v (r : Reader), r.fault = none → r.Outcome True (read v r).2) (v : α)
    (sound : r.fault = none) (idle : r.pending = false)
    (inside : r.frames = ⟨.array, first⟩ :: frames)
    : Leaves (elementsBehind first) frames r (r.elements read v).2 := by
  fun_induction Reader.elements read v r generalizing first with
  | case1 v r r' reached =>
      rcases nextElement_cases r with ⟨failed, _⟩ | ⟨r'', same, failed, _⟩
        | ⟨first', frames', rest, _, _, inside', closing, same⟩
        | ⟨first', frames', rest, _, _, _, _, _, same⟩
      · rw [sound] at failed
        cases failed
      · cases reached.symm.trans same
        exact .inl failed
      · cases reached.symm.trans same
        cases inside.symm.trans inside'
        exact .inr ⟨sound, rfl, idle, 0, remainder_closed closing (by decide)⟩
      · cases reached.symm.trans same
  | case2 v r r' reached next shorter =>
      rename_i ih
      rcases nextElement_cases r with ⟨_, same⟩ | ⟨_, same, _, _⟩ | ⟨_, _, _, _, _, _, _, same⟩
        | ⟨first', frames', rest, _, _, inside', other, begun, same⟩
      · cases reached.symm.trans same
      · cases reached.symm.trans same
      · cases reached.symm.trans same
      cases reached.symm.trans same
      cases inside.symm.trans inside'
      have own : Outcome True _ next.2 := outcome v _ sound
      rcases own with failed | ⟨_, left⟩ | took
      · rw [elements_of_fault read _ failed]
        exact .inl failed
      · exact .inl (isSome_elements_of_pending read _ left.sound left.pending)
      · rcases ih took.sound took.pending took.frames with failed | ⟨sound', frames', idle', others⟩
        · exact .inl failed
        · refine .inr ⟨sound', frames', idle', ?_⟩
          obtain ⟨depth, passed⟩ := skipElements_element took.skips others
          exact ⟨depth, (remainder_begun other begun).trans passed⟩
  | case3 v r r' reached next =>
      rename_i longer
      -- The first element does not take a byte, so an element may have been left unread.
      rcases nextElement_cases r with ⟨_, same⟩ | ⟨_, same, _, _⟩ | ⟨_, _, _, _, _, _, _, same⟩
        | ⟨first', frames', rest, _, _, inside', other, begun, same⟩
      · cases reached.symm.trans same
      · cases reached.symm.trans same
      · cases reached.symm.trans same
      cases reached.symm.trans same
      have own : Outcome True _ next.2 := outcome v _ sound
      rcases own with failed | ⟨_, left⟩ | took
      · rw [nextElement_of_fault failed]
        exact .inl failed
      · rw [nextElement_of_pending left.sound left.pending]
        exact .inl (isSome_latch _ _)
      · refine absurd (Nat.lt_of_lt_of_le took.skips.length_lt ?_) longer
        have kept := (dropBlanks_suffix r.rest).length_le
        rw [begun] at kept
        split at kept
        · exact kept
        · exact Nat.le_of_succ_le kept

/-- A value that begins with a brace is an object. -/
theorem skips_object {bytes start rest : List UInt8} (begun : dropBlanks bytes = 123 :: start)
    (others : ∃ depth, membersBehind true depth start = .ok () rest)
    : Scanner.Skips bytes rest := by
  obtain ⟨depth, others⟩ := others
  refine ⟨depth + 1, ?_⟩
  rw [Scanner.skipValue_succ, begun]
  exact others

/-- A value that begins with a bracket is an array. -/
theorem skips_array {bytes start rest : List UInt8} (begun : dropBlanks bytes = 91 :: start)
    (others : ∃ depth, elementsBehind true depth start = .ok () rest)
    : Scanner.Skips bytes rest := by
  obtain ⟨depth, others⟩ := others
  refine ⟨depth + 1, ?_⟩
  rw [Scanner.skipValue_succ, begun]
  exact others

/-- An object takes one value, or fails. -/
theorem outcome_object {read : String → α → Reader → α × Reader}
    (outcome : ∀ key v (r : Reader), r.fault = none → r.Outcome True (read key v r).2) (v : α)
    : r.Outcome False (r.object read v).2 := by
  rw [object]
  rcases enter_cases .object r with ⟨failed, same⟩ | ⟨r', same, failed, _⟩
    | ⟨rest, sound, opening, _, same⟩ <;> rw [same]
  · exact .inl failed
  · exact .inl failed
  · have inner := keys_leaves outcome v
      (r := { r with pending := false, rest, frames := ⟨.object, true⟩ :: r.frames }) sound rfl rfl
    rcases inner with failed | ⟨sound', frames, idle, others⟩
    · exact .inl failed
    · exact .inr (.inr ⟨sound', skips_object opening others, frames, idle⟩)

/-- An array takes one value, or fails. -/
theorem outcome_array {read : α → Reader → α × Reader}
    (outcome : ∀ v (r : Reader), r.fault = none → r.Outcome True (read v r).2) (v : α)
    : r.Outcome False (r.array read v).2 := by
  rw [array]
  rcases enter_cases .array r with ⟨failed, same⟩ | ⟨r', same, failed, _⟩
    | ⟨rest, sound, opening, _, same⟩ <;> rw [same]
  · exact .inl failed
  · exact .inl failed
  · have inner := elements_leaves outcome v
      (r := { r with pending := false, rest, frames := ⟨.array, true⟩ :: r.frames }) sound rfl rfl
    rcases inner with failed | ⟨sound', frames, idle, others⟩
    · exact .inl failed
    · exact .inr (.inr ⟨sound', skips_array opening others, frames, idle⟩)

end Reader

-----------------------------------------------------------------------------------------
-- Programs
-----------------------------------------------------------------------------------------

theorem dropBlanks_eq_of_head {bytes : List UInt8} {b : UInt8}
    (first : (dropBlanks bytes).head? = some b)
    : ∃ others, dropBlanks bytes = b :: others :=
  List.head?_eq_some_iff.mp first

/-- What is scanned at a first byte is the value that begins with it. -/
theorem ScansAt.skips {α : Type} {first : Option UInt8} {scanner : Scanner α}
    (h : ScansAt first scanner) {bytes rest : List UInt8} {v : α}
    (first_ : (dropBlanks bytes).head? = first) (scanned : scanner (dropBlanks bytes) = .ok v rest)
    : Scanner.Skips bytes rest := by
  induction h with
  | string =>
      obtain ⟨others, visible⟩ := dropBlanks_eq_of_head first_
      refine ⟨1, ?_⟩
      rw [visible] at scanned
      rw [Scanner.skipValue_succ, visible]
      exact Scanner.bind_of_ok (f := fun _ => pure ()) scanned
  | number kind =>
      obtain ⟨others, visible⟩ := dropBlanks_eq_of_head first_
      refine Scanner.Skips.of_dropBlanks ⟨1, ?_⟩
      rw [visible] at scanned ⊢
      rw [skipValue_number 0 kind]
      exact Scanner.bind_of_ok (f := fun _ => pure ()) scanned
  | true =>
      obtain ⟨others, visible⟩ := dropBlanks_eq_of_head first_
      refine ⟨1, ?_⟩
      rw [visible] at scanned
      rw [Scanner.skipValue_succ, visible]
      exact scanned
  | false =>
      obtain ⟨others, visible⟩ := dropBlanks_eq_of_head first_
      refine ⟨1, ?_⟩
      rw [visible] at scanned
      rw [Scanner.skipValue_succ, visible]
      exact scanned
  | value first => exact Scanner.Skips.of_dropBlanks ⟨maxDepth, scanned⟩
  | @map first α β f scanner _ ih =>
      cases inner : scanner (dropBlanks bytes) with
      | error fault rest' =>
          rw [map_eq_pure_bind, Scanner.bind_of_error inner] at scanned
          cases scanned
      | ok v rest' =>
          rw [map_eq_pure_bind, Scanner.bind_of_ok inner] at scanned
          cases scanned
          exact ih first_ inner

namespace Reader

variable {α : Type} {r : Reader}

/-- A token takes one value, or fails. -/
theorem outcome_token {select : Option UInt8 → Option (Scanner α)} (missing : Cause)
    (selects : ∀ first scanner, select first = some scanner → ScansAt first scanner)
    : r.Outcome False (r.token select missing).2 := by
  rcases token_cases missing (fun _ _ selected => (selects _ _ selected).suffixes) r with
    ⟨failed, same⟩ | ⟨r', same, failed, _⟩ | ⟨scanner, v, rest, sound, selected, scanned, same⟩
    <;> rw [same]
  · exact .inl failed
  · exact .inl failed
  · exact .inr (.inr ⟨sound, (selects _ _ selected).skips rfl scanned, rfl, rfl⟩)

/-- What is kept as it stands is one value, or the reader fails. -/
theorem outcome_rawValue (r : Reader)
    : r.Outcome False r.rawValue.2 := by
  rcases rawValue_cases r with ⟨failed, same⟩ | ⟨r', same, failed, _⟩
    | ⟨document, rest, sound, passed, _, same⟩ <;> rw [same]
  · exact .inl failed
  · exact .inl failed
  · exact .inr (.inr ⟨sound, Scanner.Skips.of_dropBlanks ⟨maxDepth, passed⟩, rfl, rfl⟩)

/-- A null that was taken is a value, and one that was not leaves the reader in front of the value.
-/
theorem outcome_null (r : Reader)
    : r.null.2.fault.isSome ∨ r.null.1 = true ∧ r.Took r.null.2
      ∨ r.null.1 = false ∧ r.Left r.null.2 := by
  rcases null_cases r with ⟨failed, same⟩ | ⟨r', same, failed, _⟩ | ⟨sound, same⟩
    | ⟨rest, sound, first, scanned, same⟩ <;> rw [same]
  · exact .inl failed
  · exact .inl failed
  · exact .inr (.inr ⟨rfl, sound, .inr rfl, rfl, rfl⟩)
  · obtain ⟨others, visible⟩ := dropBlanks_eq_of_head first
    refine .inr (.inl ⟨rfl, sound, ⟨1, ?_⟩, rfl, rfl⟩)
    rw [visible] at scanned
    rw [Scanner.skipValue_succ, visible]
    exact scanned

/-- Looking at a value leaves it. -/
theorem left_peekKind (sound : r.fault = none)
    : r.Left r.peekKind.2 := by
  rw [peekKind, sound]
  exact ⟨sound, .inr rfl, rfl, rfl⟩

end Reader

/-- The manner allows a program to leave the value. -/
def Manner.leaves : Manner → Prop
  | .perhaps | .delegated => True
  | .whole | .packed | .walk => False

/-- A program that has not failed has taken the value that came next, or has left it if it may: by
induction on how it is built.
-/
theorem Program.outcome {manner : Manner} {α : Type} {F : Reading α} (h : Program manner F)
    (value : manner ≠ .walk) {read : MessageReader}
    (still : ∀ t m (r : Reader), r.fault.isSome → r.Still (read t m r).2)
    (outcome : ∀ t m (r : Reader), r.fault = none → r.Outcome True (read t m r).2) {r : Reader}
    (sound : r.fault = none)
    : r.Outcome manner.leaves (F read r).2 := by
  induction h generalizing r with
  | leave v => exact .inr (.inl ⟨trivial, sound, .inl rfl, rfl, rfl⟩)
  | refuse v cause => exact .inl (Reader.isSome_latch _ _)
  | token missing selects => exact Reader.outcome_token missing selects
  | judged _ cause _ ih => exact (ih value sound).settle _
  | @nullOr manner α F v program ih =>
      have taken := Reader.outcome_null r
      dsimp only
      rcases same : r.null with ⟨_ | _, r'⟩ <;> rw [same] at taken
      · rcases taken with failed | ⟨yes, _⟩ | ⟨_, left⟩
        · exact .inl ((program.still still failed).isSome failed)
        · cases yes
        · exact left.outcome (ih value left.sound)
      · rcases taken with failed | ⟨_, took⟩ | ⟨no, _⟩
        · exact .inl failed
        · exact .inr (.inr took)
        · cases no
  | record name _ ih =>
      exact (ih (r := r.addField name) value sound).congr rfl rfl rfl rfl rfl rfl rfl
  | field name _ ih =>
      exact (ih (r := { r with path := r.path.push name }) value sound).congr rfl rfl rfl rfl rfl
        rfl rfl
  | byKind _ ih =>
      have left := Reader.left_peekKind sound
      exact left.outcome (ih _ value left.sound)
  | object v _ ih => exact Reader.outcome_object (fun key v r sound => ih key v (by decide) sound) v
  | array v _ ih => exact Reader.outcome_array (fun v r sound => ih v (by decide) sound) v
  | perhaps _ ih => exact (ih (by decide) sound).weaken False.elim
  | delegated _ ih => exact ih (by decide) sound
  | message t m => exact outcome t m r sound
  | @packed α β F v _ _ _ =>
      rcases Reader.rawValue_cases r with ⟨failed, same⟩ | ⟨r', same, failed, _⟩
        | ⟨document, rest, _, passed, _, same⟩ <;> simp only [same]
      · exact .inl failed
      · exact .inl failed
      · cases inner : (F read (Reader.sub { r with pending := false, rest } document)).2.fault with
        | some fault => exact .inl (by rw [Reader.join, inner]; rfl)
        | none =>
            exact .inr (.inr ⟨inner, Scanner.Skips.of_dropBlanks ⟨maxDepth, passed⟩, rfl, rfl⟩)
  | walk | enter | nextKey | keys | failed | registry | next | again => exact absurd rfl value

section

variable {s : Schema} (flat : ∀ name, name ∉ wellKnownNames → (s.type name).form ≠ .any)

include flat

/-- Reading a message takes the value or leaves it: by induction on the measure that bounds the
messages inside it.
-/
theorem outcome_readMessage (t : MessageType) (m : Message) (r : Reader) (sound : r.fault = none)
    : r.Outcome True (readMessage s t m r).2 := by
  induction measure : readMeasure t r using Nat.strongRecOn generalizing t m r with
  | ind n ih =>
      rw [readMessage]
      have program := program_slots s flat t m.slots
      refine (program.outcome (r := r) (by unfold mannerOf; split <;> decide)
        (fun t' m' r' failed => ?_) (fun t' m' r' sound' => ?_) sound).weaken fun _ => trivial
      · split
        · exact still_readMessage flat t' m' r' failed
        · exact .refl r'
      · split
        · rename_i less
          exact ih _ (measure ▸ less) t' m' r' sound' rfl
        · exact .inr (.inl ⟨trivial, sound', .inl rfl, rfl, rfl⟩)

/-- A message that fits its type takes the value. -/
theorem outcome_readMessage_of_fits {t : MessageType} {m : Message} {r : Reader}
    (fits : Fits t m.slots) (sound : r.fault = none)
    : r.Outcome False (readMessage s t m r).2 := by
  rw [readMessage]
  have still (t' : MessageType) (m' : Message) (r' : Reader) (failed : r'.fault.isSome) : r'.Still
      (if readMeasure t' r' < readMeasure t r then readMessage s t' m' r' else (m', r')).2 := by
    split
    · exact still_readMessage flat t' m' r' failed
    · exact .refl r'
  have outcome (t' : MessageType) (m' : Message) (r' : Reader) (sound' : r'.fault = none)
      : r'.Outcome True
          (if readMeasure t' r' < readMeasure t r then readMessage s t' m' r' else (m', r')).2 := by
    split
    · exact outcome_readMessage flat t' m' r' sound'
    · exact .inr (.inl ⟨trivial, sound', .inl rfl, rfl, rfl⟩)
  by_cases form : t.form = .any
  · have program := program_slots s flat t m.slots
    rw [mannerOf, if_pos form] at program
    exact program.outcome (by decide) still outcome sound
  · exact (program_slots_of_fits s form fits).outcome (by decide) still outcome sound

end

end Protobuf.Json
