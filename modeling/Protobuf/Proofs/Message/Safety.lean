import Protobuf.Proofs.Message.Turns

/-! Merging any bytes is safe and ends.  No access is out of range, no cursor leaves its input, the
cursor of an embedded record covers exactly the payload of that record, and every turn of a loop
takes bytes or ends the loop.
-/

namespace Protobuf

open Wire

variable {s : Schema} {bytes : List UInt8} {c c' : Config}

-----------------------------------------------------------------------------------------
-- Steps
-----------------------------------------------------------------------------------------

/-- What a step is.  A loop ends at the end of its input or with an error; otherwise its cursor goes
on behind the record at hand.  If that record opens a loop, the loop that waits goes on with the
cursor that it has put down.
-/
inductive Config.Advances : Config → Config → Prop
  | ended {f : Loop} {outer : List Call} (atEnd : f.reader.atEnd)
    : Advances (.running f outer) (.returning f.task none outer)
  | failed {f : Loop} {task : Task} {e : DecodeError} {outer : List Call}
    : Advances (.running f outer) (.returning task (some e) outer)
  | merged {f : Loop} {task : Task} {r : Cursor} {outer : List Call}
    (kind : task.isMessage = f.task.isMessage) (moved : f.reader.Moved r)
    (further : f.reader.position < r.position)
    : Advances (.running f outer) (.running ⟨task, r⟩ outer)
  | opened {f inner : Loop} {call : Call} {outer : List Call}
    (kind : f.task.isMessage) (start : call.start = f.reader.position)
    (moved : f.reader.Moved call.reader) (further : f.reader.position < call.reader.position)
    (opens : call.Opens inner.reader) (fresh : inner.reader.position = 0)
    (budget : inner.task.isMessage → inner.reader.budget + 1 = f.reader.budget)
    : Advances (.running f outer) (.running inner (call :: outer))
  | resumed {inner : Task} {failure : Option DecodeError} {call : Call} {m : Message}
    {outer : List Call}
    : Advances (.returning inner failure (call :: outer))
        (.running ⟨.message call.type m, call.reader⟩ outer)
  | abandoned {inner : Task} {failure : Option DecodeError} {call : Call} {m : Message}
    {e : DecodeError} {outer : List Call}
    : Advances (.returning inner failure (call :: outer))
        (.returning (.message call.type m) (some e) outer)

/-- A turn of a loop advances, or the loop has ended. -/
theorem advances_running {f : Loop} {outer : List Call} (inside : f.reader.Inside)
    (h : (Config.running f outer).step s = some c')
    : (Config.running f outer).Advances c' := by
  rw [Config.step] at h
  split at h
  · rename_i atEnd
    cases h
    exact .ended atEnd
  · rename_i more
    have turn := follows_turn (s := s) inside (Bool.eq_false_iff.mpr more)
    split at h <;> rename_i next <;> rw [next] at turn <;> cases h
    · cases turn with | opened kind moved start opens fresh budget _ =>
      have record := opens.length_lt
      exact .opened kind start moved (by omega) opens fresh budget
    · cases turn with | merged kind moved further _ =>
      exact .merged kind moved (further rfl)
    · exact .failed
    · cases turn

/-- A loop that waited goes on behind its record, unless merging failed. -/
theorem advances_returning {inner : Task} {failure : Option DecodeError} {outer : List Call}
    (h : (Config.returning inner failure outer).step s = some c')
    : (Config.returning inner failure outer).Advances c' := by
  cases outer with
  | nil => cases h
  | cons call outer =>
      rw [Config.step] at h
      split at h <;> cases h
      · exact .resumed
      · exact .abandoned

-----------------------------------------------------------------------------------------
-- Cursors inside one another
-----------------------------------------------------------------------------------------

/-- The cursors of a loop and of those that wait for it.  Each stands inside its input; the
outermost one reads the bytes, and each other one the payload of a record of the next.
-/
inductive Nested (bytes : List UInt8) : Cursor → List Call → Prop
  | outermost {r : Cursor} (inside : r.Inside) (data : r.data = bytes) : Nested bytes r []
  | within {r : Cursor} {call : Call} {outer : List Call} (inside : r.Inside)
    (opens : call.Opens r) (others : Nested bytes call.reader outer)
    : Nested bytes r (call :: outer)

/-- The innermost cursor is inside its input. -/
theorem Nested.inside {r : Cursor} {outer : List Call} (h : Nested bytes r outer)
    : r.Inside := by
  cases h with
  | outermost inside _ | within inside _ _ => exact inside

/-- A cursor that goes on keeps its place among the others. -/
theorem Nested.moved {r r' : Cursor} {outer : List Call} (h : Nested bytes r outer)
    (moved : r.Moved r')
    : Nested bytes r' outer := by
  cases h with
  | outermost _ data => exact .outermost moved.inside (moved.data.trans data)
  | within _ opens others =>
      refine .within moved.inside ?_ others
      rw [Call.Opens, moved.data]
      exact opens

/-- The loops that are under way have cursors inside one another; the cursor of one that has ended
was inside the others.  No access was out of range.
-/
def Config.Safe (bytes : List UInt8) : Config → Prop
  | .running f outer => Nested bytes f.reader outer
  | .returning _ _ outer => ∃ r, Nested bytes r outer
  | .aborted => False

/-- The start is safe. -/
theorem Config.safe_start (t : MessageType) (m : Message) (bytes : List UInt8)
    : (start t m bytes).Safe bytes :=
  .outermost (Cursor.inside_ofBytes bytes) rfl

/-- A step advances, by cases on whether a loop runs or has ended. -/
theorem Config.Safe.advances (h : c.Safe bytes) (step : c.step s = some c')
    : c.Advances c' := by
  cases c with
  | running f outer => exact advances_running h.inside step
  | returning inner failure outer => exact advances_returning step
  | aborted => exact h.elim

/-- What advances stays safe, by cases on the step. -/
theorem Config.Advances.safe (h : c.Advances c') (safe : c.Safe bytes)
    : c'.Safe bytes := by
  cases h with
  | ended _ | failed => exact ⟨_, safe⟩
  | merged _ moved _ => exact Nested.moved safe moved
  | opened _ _ moved _ opens fresh _ =>
      refine .within ?_ opens (Nested.moved safe moved)
      rw [Cursor.Inside, fresh]
      exact Nat.zero_le _
  | resumed =>
      obtain ⟨r, nested⟩ := safe
      cases nested with
      | within _ _ others => exact others
  | abandoned =>
      obtain ⟨r, nested⟩ := safe
      cases nested with
      | within _ _ others => exact ⟨_, others⟩

/-- Whatever a merge comes to is safe, by induction on the number of steps. -/
theorem Reaches.safe {n : Nat} (h : Reaches s n c c') (safe : c.Safe bytes)
    : c'.Safe bytes := by
  induction h with
  | refl c => exact safe
  | step first _ ih => exact ih ((safe.advances first).safe safe)

-----------------------------------------------------------------------------------------
-- Merging
-----------------------------------------------------------------------------------------

namespace Schema

variable (s : Schema) (t : MessageType) (m : Message) (bytes : List UInt8)

/-- Merging any bytes into any message ends, with a message and perhaps an error.  No access on the
way is out of range, all cursors stay inside their input and cover the payloads of their records,
and each turn of a loop advances.
-/
theorem merge_ends_safely
    : (∃ n ≤ 2 * bytes.length + 1,
        Reaches s n (.start t m bytes)
          (.returning (.message t (s.merge t m bytes).1) (s.merge t m bytes).2 []))
      ∧ ∀ n c, Reaches s n (.start t m bytes) c
          → c ≠ .aborted ∧ c.Safe bytes ∧ ∀ c', c.step s = some c' → c.Advances c' := by
  refine ⟨reaches_merge t m bytes, fun n c reached => ?_⟩
  have safe := reached.safe (Config.safe_start t m bytes)
  refine ⟨?_, safe, fun c' step => safe.advances step⟩
  rintro rfl
  exact safe

end Schema

end Protobuf
