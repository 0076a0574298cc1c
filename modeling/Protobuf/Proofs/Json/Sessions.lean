import Mathlib.Logic.Relation
import Protobuf.Json.Writer
import Protobuf.Proofs.Json.Operations

/-! Readers and writers that share their fault.  A reader or writer is created from another one for
a document inside the document; whichever of them fails first, all of them have failed.
-/

namespace Protobuf.Json

open Relation

-----------------------------------------------------------------------------------------
-- Sessions
-----------------------------------------------------------------------------------------

/-- States with a fault that they can share. -/
class Sharing (State : Type) where
  fault : State → Option Fault
  share : Option Fault → State → State
  fault_share : ∀ (fault' : Option Fault) (x : State), fault (share fault' x) = fault'
  share_fault : ∀ x : State, share (fault x) x = x

instance : Sharing Reader where
  fault := Reader.fault
  share fault r := { r with fault }
  fault_share _ _ := rfl
  share_fault _ := rfl

instance : Sharing Writer where
  fault := Writer.fault
  share fault w := { w with fault }
  fault_share _ _ := rfl
  share_fault _ := rfl

/-- The states that share their fault, in the order in which they were created. -/
abbrev Session (State : Type) := List State

namespace Session

variable {State : Type} [Sharing State]

/-- All states have the same fault, or none has one. -/
def Shared (σ : Session State) : Prop :=
  ∀ x ∈ σ, ∀ y ∈ σ, Sharing.fault x = Sharing.fault y

/-- One of the states becomes another one, and the others take over its fault. -/
def update (σ : Session State) (i : Nat) (y : State) : Session State :=
  (σ.set i y).map (Sharing.share (Sharing.fault y))

/-- One of the states does something, or a state is created from one of them. -/
inductive Step (moves : Nat → State → State → Prop) (forks : State → State → Prop)
    : Session State → Session State → Prop
  | move {σ : Session State} {i : Nat} {x y : State} (found : σ[i]? = some x) (moved : moves i x y)
    : Step moves forks σ (σ.update i y)
  | fork {σ : Session State} {x y : State} (member : x ∈ σ) (forked : forks x y)
    : Step moves forks σ (σ ++ [y])

/-- Any number of steps, one after the other. -/
def Runs (moves : Nat → State → State → Prop) (forks : State → State → Prop)
    : Session State → Session State → Prop :=
  ReflTransGen (Step moves forks)

variable {moves : Nat → State → State → Prop} {forks : State → State → Prop}
  {σ σ' : Session State}

theorem shared_update (σ : Session State) (i : Nat) (y : State)
    : (σ.update i y).Shared := by
  intro x inside y inside'
  obtain ⟨x', -, rfl⟩ := List.mem_map.mp inside
  obtain ⟨y', -, rfl⟩ := List.mem_map.mp inside'
  rw [Sharing.fault_share, Sharing.fault_share]

theorem length_update (σ : Session State) (i : Nat) (y : State)
    : (σ.update i y).length = σ.length := by
  rw [update, List.length_map, List.length_set]

theorem getElem?_update_self {i : Nat} {x : State} (found : σ[i]? = some x) (y : State)
    : (σ.update i y)[i]? = some y := by
  obtain ⟨inside, -⟩ := List.getElem?_eq_some_iff.mp found
  rw [update, List.getElem?_map, List.getElem?_set_self inside, Option.map_some,
    Sharing.share_fault]

theorem Step.shared (h : Step moves forks σ σ') (shared : σ.Shared)
    (same : ∀ x y, forks x y → Sharing.fault y = Sharing.fault x)
    : σ'.Shared := by
  cases h with
  | move => exact shared_update _ _ _
  | fork member forked =>
      have own := same _ _ forked
      intro z inside z' inside'
      rcases List.mem_append.mp inside with old | new
        <;> rcases List.mem_append.mp inside' with old' | new'
      · exact shared z old z' old'
      · rw [List.mem_singleton.mp new', own]
        exact shared z old _ member
      · rw [List.mem_singleton.mp new, own]
        exact shared _ member z' old'
      · rw [List.mem_singleton.mp new, List.mem_singleton.mp new']

/-- What each state keeps in its own steps, and when it takes over a fault, holds of every state in
the end; by induction on the steps.
-/
theorem Runs.invariant {P : Nat → State → Prop} (h : Runs moves forks σ σ') (shared : σ.Shared)
    (same : ∀ x y, forks x y → Sharing.fault y = Sharing.fault x)
    (start : ∀ i x, σ[i]? = some x → P i x)
    (move : ∀ i x y, P i x → moves i x y → P i y)
    (share : ∀ i j x y z, P i x → moves i x y → P j z
      → (z = y ∨ Sharing.fault z = Sharing.fault x) → P j (Sharing.share (Sharing.fault y) z))
    (fork : ∀ i j x y, P i x → forks x y → σ.length ≤ j → P j y)
    : σ'.Shared ∧ σ.length ≤ σ'.length ∧ ∀ i x, σ'[i]? = some x → P i x := by
  induction h with
  | refl => exact ⟨shared, Nat.le_refl _, start⟩
  | @tail τ τ' _ step ih =>
      obtain ⟨shared', longer, holds⟩ := ih
      refine ⟨step.shared shared' same, ?_, ?_⟩
      · cases step with
        | move => exact Nat.le_trans longer (Nat.le_of_eq (length_update _ _ _).symm)
        | fork => simpa using Nat.le_succ_of_le longer
      · cases step with
        | @move i x y found moved =>
            intro j z at_
            rw [update, List.getElem?_map, Option.map_eq_some_iff] at at_
            obtain ⟨z', at_, rfl⟩ := at_
            rw [List.getElem?_set] at at_
            split at at_
            · rename_i index
              subst index
              split at at_ <;> cases at_
              have kept := move i x y (holds i x found) moved
              exact share i i x y y (holds i x found) moved kept (.inl rfl)
            · refine share i j x y z' (holds i x found) moved (holds j z' at_) (.inr ?_)
              exact shared' z' (List.mem_of_getElem? at_) x (List.mem_of_getElem? found)
        | @fork x y member forked =>
            intro j z at_
            obtain ⟨i, from_⟩ := List.mem_iff_getElem?.mp member
            rw [List.getElem?_append] at at_
            split at at_
            · exact holds j z at_
            · have new := List.mem_singleton.mp (List.mem_of_getElem? at_)
              subst new
              exact fork i j x z (holds i x from_) forked (by omega)

/-- What one of the states keeps in its own steps unless it fails holds of it in the end, unless it
or one that shares its fault has failed.
-/
theorem Runs.unless_failed {R : State → Prop} {i : Nat} {x y : State}
    (h : Runs moves forks (σ.update i y) σ') (found : σ[i]? = some x)
    (same : ∀ x y, forks x y → Sharing.fault y = Sharing.fault x)
    (failed : ∀ j x y, moves j x y → (Sharing.fault x).isSome → (Sharing.fault y).isSome)
    (start : R y)
    (move : ∀ x y, Sharing.fault x = none → R x → moves i x y → (Sharing.fault y).isSome ∨ R y)
    (share : ∀ fault' x, R x → R (Sharing.share fault' x))
    : ∀ z, σ'[i]? = some z → (Sharing.fault z).isSome ∨ R z := by
  have inside : i < (σ.update i y).length := by
    rw [length_update]
    exact (List.getElem?_eq_some_iff.mp found).1
  have all := h.invariant (P := fun j z => j = i → (Sharing.fault z).isSome ∨ R z)
    (shared_update σ i y) same ?_ ?_ ?_ ?_
  · exact fun z found' => all.2.2 i z found' rfl
  · rintro j z found' rfl
    cases (getElem?_update_self found y).symm.trans found'
    exact .inr start
  · rintro j x y holds moved rfl
    by_cases sound : (Sharing.fault x).isSome
    · exact .inl (failed _ x y moved sound)
    · exact move x y (Option.not_isSome_iff_eq_none.mp sound) ((holds rfl).resolve_left sound) moved
  · rintro k j x y z - moved holds own rfl
    rw [Sharing.fault_share]
    refine (holds rfl).imp (fun sound => ?_) (share _ z)
    rcases own with rfl | same'
    · exact sound
    · exact failed k x y moved (same' ▸ sound)
  · rintro - j x y - - beyond rfl
    exact absurd inside (Nat.not_lt.mpr beyond)

theorem map_update {State' : Type} [Sharing State'] {f : State → State'}
    (faults : ∀ x, Sharing.fault (f x) = Sharing.fault x)
    (shares : ∀ fault' x, f (Sharing.share fault' x) = Sharing.share fault' (f x))
    (i : Nat) (y : State)
    : (σ.update i y).map f = Session.update (σ.map f) i (f y) := by
  rw [update, update, List.map_map, ← List.map_set, List.map_map, faults]
  exact List.map_congr_left fun x _ => shares _ x

/-- Runs are carried over to what the states show, and each state keeps what its own steps keep; by
induction on the steps.
-/
theorem Runs.map {State' : Type} [Sharing State'] {f : State → State'} {P : State → Prop}
    {moves' : Nat → State' → State' → Prop} {forks' : State' → State' → Prop}
    (faults : ∀ x, Sharing.fault (f x) = Sharing.fault x)
    (shares : ∀ fault' x, f (Sharing.share fault' x) = Sharing.share fault' (f x))
    (h : Runs moves forks σ σ') (start : ∀ x ∈ σ, P x)
    (share : ∀ fault' x, P x → P (Sharing.share fault' x))
    (move : ∀ i x y, P x → moves i x y → P y ∧ moves' i (f x) (f y))
    (fork : ∀ x y, P x → forks x y → P y ∧ forks' (f x) (f y))
    : (∀ x ∈ σ', P x) ∧ Runs moves' forks' (σ.map f) (σ'.map f) := by
  induction h with
  | refl => exact ⟨start, .refl⟩
  | @tail τ τ' _ step ih =>
      obtain ⟨holds, runs⟩ := ih
      cases step with
      | @move i x y found moved =>
          obtain ⟨kept, moved'⟩ := move i x y (holds x (List.mem_of_getElem? found)) moved
          refine ⟨fun z member => ?_, runs.tail ?_⟩
          · obtain ⟨z', inside, rfl⟩ := List.mem_map.mp member
            refine share _ z' ?_
            rcases List.mem_or_eq_of_mem_set inside with old | rfl
            · exact holds z' old
            · exact kept
          · rw [map_update faults shares]
            exact .move (by rw [List.getElem?_map, found]; rfl) moved'
      | @fork x y member forked =>
          obtain ⟨kept, forked'⟩ := fork x y (holds x member) forked
          refine ⟨fun z inside => ?_, runs.tail ?_⟩
          · rcases List.mem_append.mp inside with old | new
            · exact holds z old
            · rw [List.mem_singleton.mp new]
              exact kept
          · rw [List.map_append]
            exact .fork (List.mem_map_of_mem member) forked'

/-- A state stands as it stood in the session, or as new ones stand in it. -/
def Kept (σ : Session State) (same : State → State → Prop) (new : State → Prop)
    (i : Nat) (x : State)
    : Prop :=
  (∀ first, σ[i]? = some first → same first x) ∧ (σ.length ≤ i → new x)

/-- If the states that have failed stay as they are in every step, they stay so for good. -/
theorem Runs.kept {same : State → State → Prop} {new : State → Prop} {fault : Fault}
    (h : Runs moves forks σ σ') (failed : ∀ x ∈ σ, Sharing.fault x = some fault)
    (refl : ∀ x, same x x)
    (move : ∀ i x y, Sharing.fault x = some fault → moves i x y
      → Sharing.fault y = some fault ∧ (∀ first, same first x → same first y) ∧ (new x → new y))
    (share : ∀ fault' x, (∀ first, same first x → same first (Sharing.share fault' x))
      ∧ (new x → new (Sharing.share fault' x)))
    (fork : ∀ x y, forks x y → Sharing.fault y = Sharing.fault x ∧ new y)
    : ∀ i x, σ'[i]? = some x → Sharing.fault x = some fault ∧ σ.Kept same new i x := by
  refine (h.invariant ?_ (fun x y forked => (fork x y forked).1) ?_ ?_ ?_ ?_).2.2
  · intro x inside y inside'
    exact (failed x inside).trans (failed y inside').symm
  · intro i x found
    refine ⟨failed x (List.mem_of_getElem? found), fun first found' => ?_, fun beyond => ?_⟩
    · cases found'.symm.trans found
      exact refl x
    · rw [List.getElem?_eq_none beyond] at found
      cases found
  · rintro i x y ⟨own, old, unused⟩ moved
    obtain ⟨own', kept, kept'⟩ := move i x y own moved
    exact ⟨own', fun first found => kept first (old first found),
      fun beyond => kept' (unused beyond)⟩
  · rintro i j x y z ⟨own, -⟩ moved ⟨-, old, unused⟩ -
    rw [(move i x y own moved).1, Sharing.fault_share]
    exact ⟨rfl, fun first found => (share _ z).1 first (old first found),
      fun beyond => (share _ z).2 (unused beyond)⟩
  · rintro i j x y ⟨own, -⟩ forked beyond
    obtain ⟨same_, fresh⟩ := fork x y forked
    refine ⟨same_.trans own, fun first found => ?_, fun _ => fresh⟩
    rw [List.getElem?_eq_none beyond] at found
    cases found

end Session

-----------------------------------------------------------------------------------------
-- Readers
-----------------------------------------------------------------------------------------

namespace Reader

/-- An operation is carried out on the reader, or the path is changed for a field or back. -/
inductive Moves (r : Reader) : Reader → Prop
  | operation {α : Type} (op : Operation α) : Moves r (op.run r).2
  | place (path : FieldMask.Path) : Moves r { r with path }

/-- A reader of a document inside the document goes on from the reader. -/
def Forks (r r' : Reader) : Prop :=
  ∃ document, r' = r.sub document

/-- Neither the cursor nor the open containers have moved. -/
structure Unmoved (r r' : Reader) : Prop where
  input : r'.input = r.input
  rest : r'.rest = r.rest
  frames : r'.frames = r.frames
  pending : r'.pending = r.pending

theorem Unmoved.refl (r : Reader)
    : r.Unmoved r :=
  ⟨rfl, rfl, rfl, rfl⟩

theorem Unmoved.trans {r r' r'' : Reader} (first : r.Unmoved r') (second : r'.Unmoved r'')
    : r.Unmoved r'' :=
  ⟨second.input.trans first.input, second.rest.trans first.rest,
    second.frames.trans first.frames, second.pending.trans first.pending⟩

theorem Moves.of_fault {r r' : Reader} {fault : Fault} (h : r.Moves r')
    (failed : r.fault = some fault)
    : r'.fault = some fault ∧ r.Unmoved r' := by
  cases h with
  | operation op =>
      obtain ⟨mask, same⟩ := (run_of_fault failed op).2
      rw [same]
      exact ⟨failed, rfl, rfl, rfl, rfl⟩
  | place path => exact ⟨failed, rfl, rfl, rfl, rfl⟩

end Reader

-----------------------------------------------------------------------------------------
-- Writers
-----------------------------------------------------------------------------------------

namespace Writer

/-- An operation that a writer offers. -/
inductive Operation where
  | raw (text : String)
  | beginObject
  | endObject
  | beginArray
  | endArray
  | comma
  | commaIf (wrote : Bool)
  | key (name : String)
  | memberKey (name jsonName : String)
  | null
  | bool (v : Bool)
  | int32 (v : Int32)
  | int64 (v : Int64)
  | uint32 (v : UInt32)
  | uint64 (v : UInt64)
  | float (bits : UInt32)
  | double (bits : UInt64)
  | string (text : String)
  | bytes (v : List UInt8)
  | enumeration (tables : List (List (Int32 × String))) (v : Int32)
  | enumeratedText (tables : List (List (Int32 × String))) (v : Int32)
  | enumNumber (v : Int32)
  | timestamp (t : Time.Timestamp)
  | duration (d : Time.Duration)
  | fieldMask (paths : List String)
  | latch (cause : Cause)

/-- Carries out an operation. -/
def Operation.run : Operation → Writer → Writer
  | raw text, w => w.raw text
  | beginObject, w => w.beginObject
  | endObject, w => w.endObject
  | beginArray, w => w.beginArray
  | endArray, w => w.endArray
  | comma, w => w.comma
  | commaIf wrote, w => w.commaIf wrote
  | key name, w => w.key name
  | memberKey name jsonName, w => w.memberKey name jsonName
  | null, w => w.null
  | bool v, w => w.bool v
  | int32 v, w => w.int32 v
  | int64 v, w => w.int64 v
  | uint32 v, w => w.uint32 v
  | uint64 v, w => w.uint64 v
  | float bits, w => w.float bits
  | double bits, w => w.double bits
  | string text, w => w.string text
  | bytes v, w => w.bytes v
  | enumeration tables v, w => w.enumeration tables v
  | enumeratedText tables v, w => w.enumeratedText tables v
  | enumNumber v, w => w.enumNumber v
  | timestamp t, w => w.timestamp t
  | duration d, w => w.duration d
  | fieldMask paths, w => w.fieldMask paths
  | latch cause, w => w.latch cause

variable {w : Writer}

theorem raw_of_fault (failed : w.fault.isSome) (text : String)
    : w.raw text = w := by
  obtain ⟨fault, same⟩ := Option.isSome_iff_exists.mp failed
  rw [raw, same]

theorem latch_of_fault (failed : w.fault.isSome) (cause : Cause)
    : w.latch cause = w := by
  obtain ⟨fault, same⟩ := Option.isSome_iff_exists.mp failed
  rw [latch, same]

theorem floating_of_fault (failed : w.fault.isSome) (f : Number.Format) (bits : Nat)
    : w.floating f bits = w := by
  unfold floating
  split <;> exact raw_of_fault failed _

theorem timeText_of_fault (failed : w.fault.isSome) (type : String)
    (text : Except Time.TimeError String)
    : w.timeText type text = w := by
  cases text with
  | ok text => exact raw_of_fault failed _
  | error e => exact latch_of_fault failed _

theorem key_of_fault (failed : w.fault.isSome) (name : String)
    : w.key name = w := by
  rw [key, string, raw_of_fault failed, raw_of_fault failed]

/-- By induction on the values. -/
theorem separated_of_fault {α : Type} {write : α → Writer → Writer} (failed : w.fault.isSome)
    (still : ∀ v, write v w = w) (vs : List α)
    : separated write w vs = w := by
  induction vs with
  | nil => rfl
  | cons v vs ih =>
      cases vs with
      | nil => exact still v
      | cons next others =>
          simp only [separated, still, comma, raw_of_fault failed]
          exact ih

/-- After a fault an operation changes nothing. -/
theorem run_of_fault (failed : w.fault.isSome) (op : Operation)
    : op.run w = w := by
  cases op with
  | raw text | beginObject | endObject | beginArray | endArray | comma | null | bool _ | int32 _
  | int64 _ | uint32 _ | uint64 _ | string _ | bytes _ | enumeratedText _ _ | enumNumber _ =>
      exact raw_of_fault failed _
  | commaIf wrote =>
      cases wrote with
      | false => rfl
      | true => exact raw_of_fault failed _
  | key name | memberKey name _ => exact key_of_fault failed _
  | float _ | double _ => exact floating_of_fault failed _ _
  | enumeration tables v =>
      simp only [Operation.run, enumeration]
      repeat' split
      all_goals exact raw_of_fault failed _
  | timestamp _ | duration _ => exact timeText_of_fault failed _ _
  | fieldMask paths =>
      have path (text : String) : w.string text = w := raw_of_fault failed _
      have between : separated (fun path w => w.string path) w paths = w :=
        separated_of_fault failed path paths
      simp only [Operation.run, fieldMask]
      split
      · simp only [beginObject, raw_of_fault failed, key_of_fault failed, beginArray, endArray,
          endObject, between]
      split
      · exact path _
      · exact latch_of_fault failed _
  | latch cause => exact latch_of_fault failed cause

/-- An operation is carried out on the writer, the path is changed for a field or back, or the mask
is replaced.
-/
inductive Moves (w : Writer) : Writer → Prop
  | operation (op : Operation) : Moves w (op.run w)
  | place (path : FieldMask.Path) : Moves w { w with path }
  | masked (mask : FieldMask.PathSet) : Moves w (w.withMask mask)

/-- A writer for a part of the document, or for a message inside it, goes on from the writer. -/
def Forks (w w' : Writer) : Prop :=
  w' = w.sub ∨ w' = w.subMessage

theorem Moves.of_fault {w' : Writer} (h : w.Moves w') (failed : w.fault.isSome)
    : w'.fault = w.fault ∧ w'.output = w.output := by
  cases h with
  | operation op =>
      rw [run_of_fault failed op]
      exact ⟨rfl, rfl⟩
  | place path | masked mask => exact ⟨rfl, rfl⟩

end Writer

-----------------------------------------------------------------------------------------
-- The first fault stays
-----------------------------------------------------------------------------------------

/-- What is written stays as it is when a writer or one that shares its fault has failed. -/
theorem writers_kept {σ σ' : Session Writer} {fault : Fault}
    (failed : ∀ w ∈ σ, w.fault = some fault)
    (runs : Session.Runs (fun _ => Writer.Moves) Writer.Forks σ σ')
    : ∀ i w, σ'[i]? = some w → w.fault = some fault
        ∧ σ.Kept (fun first w => w.output = first.output) (fun w => w.output = "") i w := by
  refine runs.kept failed (fun _ => rfl) ?_ (fun _ _ => ⟨fun _ => id, id⟩) ?_
  · intro _ w w' own moved
    obtain ⟨fault', output⟩ := moved.of_fault (Option.isSome_iff_exists.mpr ⟨fault, own⟩)
    exact ⟨fault'.trans own, fun _ => output.trans, output.trans⟩
  · rintro w w' (rfl | rfl) <;> exact ⟨rfl, rfl⟩

/-- The reader is at the start of a document, outside of all containers. -/
structure Reader.Fresh (r : Reader) : Prop where
  rest : r.rest = r.input
  frames : r.frames = []
  pending : r.pending = false

/-- The cursors stay where they are when a reader or one that shares its fault has failed. -/
theorem readers_kept {σ σ' : Session Reader} {fault : Fault}
    (failed : ∀ r ∈ σ, r.fault = some fault)
    (runs : Session.Runs (fun _ => Reader.Moves) Reader.Forks σ σ')
    : ∀ i r, σ'[i]? = some r → r.fault = some fault
        ∧ σ.Kept Reader.Unmoved Reader.Fresh i r := by
  refine runs.kept failed Reader.Unmoved.refl ?_ ?_ ?_
  · intro _ r r' own moved
    obtain ⟨fault', unmoved⟩ := moved.of_fault own
    refine ⟨fault', fun _ old => old.trans unmoved, fun fresh => ⟨?_, ?_, ?_⟩⟩
    · rw [unmoved.rest, unmoved.input, fresh.rest]
    · rw [unmoved.frames, fresh.frames]
    · rw [unmoved.pending, fresh.pending]
  · exact fun _ _ => ⟨fun _ old => ⟨old.input, old.rest, old.frames, old.pending⟩,
      fun fresh => ⟨fresh.rest, fresh.frames, fresh.pending⟩⟩
  · rintro r r' ⟨document, rfl⟩
    exact ⟨rfl, rfl, rfl, rfl⟩

/-- The first fault stays, whatever is done with the writers or readers that share it and with those
that are created from them: nothing is written and no cursor moves any more, every answer is the one
that stands for nothing, and the fault is what comes out in the end.
-/
theorem first_fault_stays {ws ws' : Session Writer} {rs rs' : Session Reader}
    {writeFault readFault : Fault} (writersFailed : ∀ w ∈ ws, w.fault = some writeFault)
    (readersFailed : ∀ r ∈ rs, r.fault = some readFault)
    (written : Session.Runs (fun _ => Writer.Moves) Writer.Forks ws ws')
    (read : Session.Runs (fun _ => Reader.Moves) Reader.Forks rs rs')
    : (∀ i w, ws'[i]? = some w → w.fault = some writeFault ∧ w.result = .error writeFault
        ∧ ws.Kept (fun first w => w.output = first.output) (fun w => w.output = "") i w)
      ∧ (∀ i r, rs'[i]? = some r → r.fault = some readFault
        ∧ rs.Kept Reader.Unmoved Reader.Fresh i r
        ∧ (∀ {α : Type} (op : Reader.Operation α), (op.run r).1 = op.answerAfter readFault)
        ∧ (∀ {α : Type} read (v : α), r.object read v = (v, r))
        ∧ ∀ {α : Type} read (v : α), r.array read v = (v, r)) := by
  refine ⟨fun i w found => ?_, fun i r found => ?_⟩
  · obtain ⟨failed, kept⟩ := writers_kept writersFailed written i w found
    refine ⟨failed, ?_, kept⟩
    rw [Writer.result, failed]
  · obtain ⟨failed, kept⟩ := readers_kept readersFailed read i r found
    have failed' := Option.isSome_iff_exists.mpr ⟨readFault, failed⟩
    exact ⟨failed, kept, fun op => (Reader.run_of_fault failed op).1,
      fun read v => Reader.object_of_fault failed' read v,
      fun read v => Reader.array_of_fault failed' read v⟩

/-- A writer and a reader that have failed in front of an element, and then ones that go on from
them.
-/
theorem first_fault_stays_in_forks
    : let w := ((Writer.ofConfig {} .empty).raw "[").latch (.custom "refused")
      let r := (Reader.ofBytes [91, 49, 93] none).nextKey.2
      let writeFault : Fault := ⟨.marshal, "", .custom "refused"⟩
      let readFault : Fault := ⟨.unmarshal, "", .custom "cursor is not inside a container"⟩
      ∃ ws' rs', Session.Runs (fun _ => Writer.Moves) Writer.Forks [w] ws'
        ∧ Session.Runs (fun _ => Reader.Moves) Reader.Forks [r] rs'
        ∧ ws'.length = 2 ∧ rs'.length = 2
        ∧ (∀ i w', ws'[i]? = some w' → w'.fault = some writeFault ∧ w'.result = .error writeFault
          ∧ Session.Kept [w] (fun first w => w.output = first.output) (fun w => w.output = "") i w')
        ∧ ∀ i r', rs'[i]? = some r' → r'.fault = some readFault
          ∧ Session.Kept [r] Reader.Unmoved Reader.Fresh i r' ∧ r'.int32.1 = 0 := by
  intro w r writeFault readFault
  have written : Session.Runs (fun _ => Writer.Moves) Writer.Forks [w] _ :=
    .tail (.single (.fork (List.mem_singleton_self w) (.inl rfl)))
      (.move (i := 1) rfl (.operation (.raw "1")))
  have read : Session.Runs (fun _ => Reader.Moves) Reader.Forks [r] _ :=
    .tail (.single (.fork (List.mem_singleton_self r) ⟨[49], rfl⟩))
      (.move (i := 1) rfl (.operation .int32))
  have writersFailed : ∀ w' ∈ [w], w'.fault = some writeFault := by
    rintro _ (_ | ⟨_, ⟨⟩⟩)
    rfl
  have readersFailed : ∀ r' ∈ [r], r'.fault = some readFault := by
    rintro _ (_ | ⟨_, ⟨⟩⟩)
    rfl
  obtain ⟨writers, readers⟩ := first_fault_stays writersFailed readersFailed written read
  refine ⟨_, _, written, read, rfl, rfl, writers, fun i r' found => ?_⟩
  obtain ⟨failed, kept, answers, -⟩ := readers i r' found
  exact ⟨failed, kept, answers .int32⟩

end Protobuf.Json
