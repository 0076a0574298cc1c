import Protobuf.Proofs.Json.Sessions
import Protobuf.Proofs.Json.Termination

/-! The cursor stays in its document and gets ahead.  Whatever is done with a reader, it does not
leave the document nor open too many containers, and what it has reached has to be read before it
moves on; so every loop over members or elements comes to its end.
-/

namespace Protobuf.Json

-----------------------------------------------------------------------------------------
-- Operations
-----------------------------------------------------------------------------------------

namespace Reader

variable {α : Type} {r r' r'' : Reader}

theorem onward_run (op : Operation α) (r : Reader)
    : r.Onward (op.run r).2 := by
  have leaves (t : MessageType) (m : Message) (r : Reader) : r.Onward (leaveMessage t m r).2 :=
    .refl r
  have value (program : Program .whole fun _ r => op.run r) : r.Onward (op.run r).2 :=
    program.onward leaves r
  cases op with
  | peekKind => exact onward_peekKind r
  | null => exact onward_null r
  | enter container => exact onward_enter container r
  | nextKey => exact onward_nextKey r
  | nextElement => exact onward_nextElement r
  | skip => exact value (program_skip ())
  | rawValue => exact onward_rawValue r
  | bool => exact value program_bool
  | int32 => exact value program_int32
  | int64 => exact value program_int64
  | uint32 => exact value program_uint32
  | uint64 => exact value program_uint64
  | float => exact value program_float
  | double => exact value program_double
  | string => exact value program_string
  | bytes => exact value program_bytes
  | enumeration tables => exact value (program_enumeration tables)
  | timestamp => exact value program_timestamp
  | duration => exact value program_duration
  | fieldMask => exact value program_fieldMask
  | addField name => exact onward_addField r name
  | latch cause => exact onward_latch r cause
  | finish =>
      rcases finish_cases r with ⟨_, same⟩ | ⟨_, _, same⟩ | ⟨_, _, same⟩
        <;> rw [Operation.run, same]
      · exact .refl r
      · exact onward_skipBlanks r
      · exact (onward_skipBlanks r).trans (onward_latch _ _)

/-- What an operation does in front of a value that has to be read: it fails, or takes the value
with a byte at least, or leaves it to be read.
-/
theorem run_of_pending (op : Operation α) (sound : r.fault = none) (pending : r.pending = true)
    : (op.run r).2.fault.isSome
      ∨ (op.takes (op.run r).1 = true ∧ (op.run r).2.rest.length < r.rest.length)
      ∨ (op.takes (op.run r).1 = false ∧ (op.run r).2.pending = true) := by
  have took (all : ∀ answer, op.takes answer = true) (outcome : r.Outcome False (op.run r).2)
      : (op.run r).2.fault.isSome
        ∨ (op.takes (op.run r).1 = true ∧ (op.run r).2.rest.length < r.rest.length)
        ∨ (op.takes (op.run r).1 = false ∧ (op.run r).2.pending = true) := by
    rcases outcome with failed | ⟨never, _⟩ | took
    · exact .inl failed
    · exact never.elim
    · exact .inr (.inl ⟨all _, took.skips.length_lt⟩)
  have value {F : Reading α} (program : Program .whole F) : r.Outcome False (F leaveMessage r).2 :=
    program.outcome (by decide) (fun _ _ r _ => .refl r)
      (fun _ _ _ sound => .inr (.inl ⟨trivial, sound, .inl rfl, rfl, rfl⟩)) sound
  cases op with
  | peekKind => exact .inr (.inr ⟨rfl, (left_peekKind sound).pending.trans pending⟩)
  | null =>
      rcases outcome_null r with failed | ⟨yes, took⟩ | ⟨no, left⟩
      · exact .inl failed
      · exact .inr (.inl ⟨yes, took.skips.length_lt⟩)
      · exact .inr (.inr ⟨no, left.pending.trans pending⟩)
  | enter container =>
      rcases entered : r.enter container with ⟨_ | _, r'⟩
      · refine .inl ?_
        rcases enter_cases container r with ⟨failed, same⟩ | ⟨_, same, failed, _⟩
          | ⟨_, _, _, _, same⟩
          <;> rw [Operation.run, same]
        · exact failed
        · exact failed
        · rw [entered] at same
          cases same
      · have shorter := length_lt_enter entered
        exact .inr (.inl (by simpa only [Operation.run, Operation.takes, entered] using
          ⟨trivial, shorter⟩))
  | nextKey =>
      refine .inl ?_
      rw [Operation.run, nextKey_of_pending sound pending]
      exact isSome_latch _ _
  | nextElement =>
      refine .inl ?_
      rw [Operation.run, nextElement_of_pending sound pending]
      exact isSome_latch _ _
  | skip => exact took (fun _ => rfl) (value (program_skip ()))
  | rawValue => exact took (fun _ => rfl) (outcome_rawValue r)
  | bool => exact took (fun _ => rfl) (value program_bool)
  | int32 => exact took (fun _ => rfl) (value program_int32)
  | int64 => exact took (fun _ => rfl) (value program_int64)
  | uint32 => exact took (fun _ => rfl) (value program_uint32)
  | uint64 => exact took (fun _ => rfl) (value program_uint64)
  | float => exact took (fun _ => rfl) (value program_float)
  | double => exact took (fun _ => rfl) (value program_double)
  | string => exact took (fun _ => rfl) (value program_string)
  | bytes => exact took (fun _ => rfl) (value program_bytes)
  | enumeration tables => exact took (fun _ => rfl) (value (program_enumeration tables))
  | timestamp => exact took (fun _ => rfl) (value program_timestamp)
  | duration => exact took (fun _ => rfl) (value program_duration)
  | fieldMask => exact took (fun _ => rfl) (value program_fieldMask)
  | addField name => exact .inr (.inr ⟨rfl, pending⟩)
  | latch cause => exact .inl (isSome_latch _ _)
  | finish =>
      refine .inr (.inr ⟨rfl, ?_⟩)
      rcases finish_cases r with ⟨_, same⟩ | ⟨_, _, same⟩ | ⟨_, _, same⟩
        <;> rw [Operation.run, same]
      · exact pending
      · exact pending
      · exact (latch_pending _ _).trans pending

-----------------------------------------------------------------------------------------
-- Sessions
-----------------------------------------------------------------------------------------

/-- A move that neither reads a value nor begins to. -/
inductive Idles (r : Reader) : Reader → Prop
  | operation {α : Type} (op : Operation α) (untaken : op.takes (op.run r).1 = false)
    : Idles r (op.run r).2
  | place (path : FieldMask.Path) : Idles r { r with path }

/-- The cursor reaches a member or an element. -/
def Reaches (r r' : Reader) : Prop :=
  (∃ key, r.nextKey = (some key, r')) ∨ r.nextElement = (true, r')

theorem Moves.onward (h : r.Moves r')
    : r.Onward r' := by
  cases h with
  | operation op => exact onward_run op r
  | place path => exact ⟨List.suffix_refl _, rfl, id⟩

theorem Moves.isSome (h : r.Moves r') (failed : r.fault.isSome)
    : r'.fault.isSome := by
  obtain ⟨fault, same⟩ := Option.isSome_iff_exists.mp failed
  rw [(h.of_fault same).1]
  rfl

theorem Forks.fault (h : r.Forks r')
    : r'.fault = r.fault := by
  obtain ⟨document, rfl⟩ := h
  rfl

theorem Idles.moves (h : r.Idles r')
    : r.Moves r' := by
  cases h with
  | operation op => exact .operation op
  | place path => exact .place path

/-- The document, the cursor in it and the open containers stand as at the start or further on. -/
structure Contained (r : Reader) : Prop where
  rest : r.rest <:+ r.input
  frames : r.frames.length ≤ maxDepth

theorem Contained.onward (h : r.Contained) (onward : r.Onward r')
    : r'.Contained :=
  ⟨onward.input ▸ onward.rest.trans h.rest, onward.depth h.frames⟩

/-- Every reader stays inside its document: at the start it is there, and it only moves on. -/
theorem contained_of_runs {bytes : List UInt8} {registry : Option Registry} {σ : Session Reader}
    (runs : Session.Runs (fun _ => Moves) Forks [ofBytes bytes registry] σ)
    : ∀ r ∈ σ, r.Contained := by
  have start (bytes : List UInt8) (r : Reader) (rest : r.rest = r.input) (frames : r.frames = [])
      : r.Contained :=
    ⟨rest ▸ List.suffix_refl _, by rw [frames]; decide⟩
  have alone : Session.Shared [ofBytes bytes registry] := by
    rintro _ (_ | ⟨_, ⟨⟩⟩) _ (_ | ⟨_, ⟨⟩⟩)
    rfl
  have first (i : Nat) (r : Reader) (found : [ofBytes bytes registry][i]? = some r)
      : r.Contained := by
    cases List.mem_singleton.mp (List.mem_of_getElem? found)
    exact start bytes _ rfl rfl
  have new (r r' : Reader) (forked : r.Forks r') : r'.Contained := by
    obtain ⟨document, rfl⟩ := forked
    exact start document _ rfl rfl
  obtain ⟨-, -, contained⟩ := runs.invariant (P := fun _ => Contained) alone
    (fun _ _ => Forks.fault) first (fun _ _ _ contained moved => contained.onward moved.onward)
    (fun _ _ _ _ _ _ _ contained _ => ⟨contained.rest, contained.frames⟩)
    (fun _ _ _ _ _ forked _ => new _ _ forked)
  intro r member
  obtain ⟨i, found⟩ := List.mem_iff_getElem?.mp member
  exact contained i r found

theorem Reaches.pending (h : r.Reaches r')
    : r'.fault = none ∧ r'.pending = true :=
  pending_of_reached h

section

variable {σ σ' : Session Reader} {i : Nat}

/-- What the cursor has reached is still to be read after moves that read no value. -/
theorem pending_of_idles (found : σ[i]? = some r) (reached : r.Reaches r')
    (runs : Session.Runs (fun j => if j = i then Idles else Moves) Forks (σ.update i r') σ')
    (found' : σ'[i]? = some r'') (sound : r''.fault = none)
    : r''.pending = true := by
  refine (runs.unless_failed (R := fun r => r.pending = true) found (fun _ _ => Forks.fault) ?_
    reached.pending.2 ?_ ?_ r'' found').resolve_left ?_
  · intro j r r' moved
    split at moved
    · exact moved.moves.isSome
    · exact moved.isSome
  · intro r r' sound pending moved
    rw [if_pos rfl] at moved
    cases moved with
    | operation op untaken =>
        rcases run_of_pending op sound pending with failed | ⟨taken, _⟩ | ⟨_, still⟩
        · exact .inl failed
        · rw [untaken] at taken
          cases taken
        · exact .inr still
    | place path => exact .inr pending
  · exact fun _ _ pending => pending
  · rw [show Sharing.fault r'' = none from sound]
    exact Bool.false_ne_true

/-- From where the cursor has reached a member or element, a byte is taken before it reaches the
next one or the end of a container, unless the reader fails.
-/
theorem ahead_of_runs (found : σ[i]? = some r) (reached : r.Reaches r')
    (runs : Session.Runs (fun _ => Moves) Forks (σ.update i r') σ') (found' : σ'[i]? = some r'')
    : r''.fault.isSome ∨ (r''.pending = true ∧ r''.rest.length ≤ r'.rest.length)
      ∨ r''.rest.length < r'.rest.length := by
  refine runs.unless_failed (R := fun r => (r.pending = true ∧ r.rest.length ≤ r'.rest.length)
    ∨ r.rest.length < r'.rest.length) found (fun _ _ => Forks.fault) (fun _ _ _ => Moves.isSome)
    (.inl ⟨reached.pending.2, Nat.le_refl _⟩) ?_ ?_ r'' found'
  · rintro q q' sound (⟨pending, most⟩ | less) moved
    · cases moved with
      | operation op =>
          have onward := (onward_run op q).length_le
          rcases run_of_pending op sound pending with failed | ⟨_, taken⟩ | ⟨_, still⟩
          · exact .inl failed
          · exact .inr (.inr (Nat.lt_of_lt_of_le taken most))
          · exact .inr (.inl ⟨still, Nat.le_trans onward most⟩)
      | place path => exact .inr (.inl ⟨pending, most⟩)
    · exact .inr (.inr (Nat.lt_of_le_of_lt moved.onward.length_le less))
  · exact fun _ _ holds => holds

/-- Where the cursor comes to next, a byte has been taken since it reached a member or element, or
it has failed.
-/
theorem ahead_of_next {next : Reader} (found : σ[i]? = some r) (reached : r.Reaches r')
    (runs : Session.Runs (fun _ => Moves) Forks (σ.update i r') σ') (found' : σ'[i]? = some r'')
    (moved : next = r''.nextKey.2 ∨ next = r''.nextElement.2)
    : next.fault.isSome ∨ next.rest.length < r'.rest.length := by
  have onward : r''.Onward next := by
    rcases moved with rfl | rfl
    · exact onward_nextKey r''
    · exact onward_nextElement r''
  by_cases sound : r''.fault = none
  · rcases ahead_of_runs found reached runs found' with failed | ⟨pending, _⟩ | less
    · rw [sound] at failed
      cases failed
    · refine .inl ?_
      rcases moved with rfl | rfl
      · rw [nextKey_of_pending sound pending]
        exact isSome_latch _ _
      · rw [nextElement_of_pending sound pending]
        exact isSome_latch _ _
    · exact .inr (Nat.lt_of_le_of_lt onward.length_le less)
  · have failed : r''.fault.isSome := Option.isSome_iff_ne_none.mpr sound
    refine .inl ?_
    rcases moved with rfl | rfl
    · rwa [nextKey_of_fault failed]
    · rwa [nextElement_of_fault failed]

end

-----------------------------------------------------------------------------------------
-- Loops
-----------------------------------------------------------------------------------------

/-- The turns of a loop over the members of an object, each of which takes a byte, and what they
give.
-/
inductive KeyTurns (read : String → α → Reader → α × Reader) : α → Reader → α × Reader → Prop
  | ends {v : α} {r r' : Reader} (ended : r.nextKey = (none, r')) : KeyTurns read v r (v, r')
  | turn {v : α} {r r' : Reader} {key : String} {result : α × Reader}
    (reached : r.nextKey = (some key, r'))
    (ahead : (read key v r').2.rest.length < r.rest.length)
    (others : KeyTurns read (read key v r').1 (read key v r').2 result)
    : KeyTurns read v r result

/-- The turns of a loop over the elements of an array, each of which takes a byte or fails when it
asks for the next element, and what they give.
-/
inductive ElementTurns (read : α → Reader → α × Reader) : α → Reader → α × Reader → Prop
  | ends {v : α} {r r' : Reader} (ended : r.nextElement = (false, r'))
    : ElementTurns read v r (v, r')
  | turn {v : α} {r r' : Reader} {result : α × Reader} (reached : r.nextElement = (true, r'))
    (ahead : (read v r').2.rest.length < r.rest.length
      ∨ (read v r').2.nextElement.2.fault.isSome)
    (others : ElementTurns read (read v r').1 (read v r').2 result)
    : ElementTurns read v r result

/-- By induction on what is left of the document. -/
theorem keyTurns {read : String → α → Reader → α × Reader}
    (onward : ∀ key v (r : Reader), r.Onward (read key v r).2) (v : α) (r : Reader)
    : KeyTurns read v r (r.keys read v) := by
  induction length : r.rest.length using Nat.strongRecOn generalizing v r with
  | ind n ih =>
      rw [keys_unfold onward]
      rcases reached : r.nextKey with ⟨_ | key, r'⟩
      · exact .ends reached
      · have ahead := Nat.lt_of_le_of_lt (onward key v r').length_le (length_lt_nextKey reached)
        exact .turn reached ahead (ih _ (length ▸ ahead) _ _ rfl)

/-- By induction on what is left of the document. -/
theorem elementTurns {read : α → Reader → α × Reader}
    (outcome : ∀ v (r : Reader), r.fault = none → r.Outcome True (read v r).2) (v : α) (r : Reader)
    : ElementTurns read v r (r.elements read v) := by
  induction length : r.rest.length using Nat.strongRecOn generalizing v r with
  | ind n ih =>
      rw [elements_unfold outcome]
      rcases reached : r.nextElement with ⟨_ | _, r'⟩
      · exact .ends reached
      obtain ⟨sound, pending⟩ := pending_of_reached (.inr reached)
      have moved := onward_nextElement r
      rw [reached] at moved
      dsimp only
      rcases outcome v r' sound with failed | ⟨_, left⟩ | took
      · have stopped := nextElement_of_fault failed
        refine .turn reached (.inr ?_) ?_
        · rwa [stopped]
        · rw [elements_of_fault read _ failed]
          exact .ends stopped
      · have stopped := nextElement_of_pending left.sound (left.pending.trans pending)
        refine .turn reached (.inr ?_) ?_
        · rw [stopped]
          exact isSome_latch _ _
        · rw [elements, stopped]
          exact .ends stopped
      · have ahead := Nat.lt_of_lt_of_le took.skips.length_lt moved.length_le
        exact .turn reached (.inl ahead) (ih _ (length ▸ ahead) _ _ rfl)

end Reader

end Protobuf.Json
