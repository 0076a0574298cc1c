import Protobuf.Proofs.Message.Refusal
import Protobuf.Proofs.Message.Safety
import Protobuf.WellKnown.Tree
import Protobuf.WellKnown.Types

/-! How deep readers nest.  The readers inside one another share a budget, so merging any bytes
opens no more of them than the limit; and the encoding of a message that nests too deep is refused
for no other reason.
-/

namespace Protobuf

open Wire

variable {s : Schema} {c c' : Config}

-----------------------------------------------------------------------------------------
-- The budget of readers
-----------------------------------------------------------------------------------------

/-- The readers that nest, the innermost first.  The reader of a packed run is not one of them: its
elements are no records.
-/
def Config.readers : Config → List Cursor
  | .running f outer => (if f.task.isMessage then [f.reader] else []) ++ outer.map (·.reader)
  | .returning _ _ outer => outer.map (·.reader)
  | .aborted => []

/-- Each reader has the budget that those around it leave. -/
def Budgeted : List Cursor → Prop
  | [] => True
  | r :: outer => outer.length + r.budget = recursionLimit ∧ Budgeted outer

theorem Budgeted.behind {inner outer : List Cursor} (h : Budgeted (inner ++ outer))
    : Budgeted outer := by
  induction inner with
  | nil => exact h
  | cons r inner ih => exact ih h.2

theorem Budgeted.length_le {readers : List Cursor} (h : Budgeted readers)
    : readers.length ≤ recursionLimit + 1 := by
  cases readers with
  | nil => exact Nat.zero_le _
  | cons r outer =>
      have own := h.1
      rw [List.length_cons]
      omega

/-- A step keeps the budget: a loop that is opened for a message has one less than the loop that
waits for it.
-/
theorem Config.Advances.budgeted (h : c.Advances c') (budgeted : Budgeted c.readers)
    : Budgeted c'.readers := by
  cases h with
  | ended _ | failed => exact budgeted.behind
  | @merged f task r outer kind moved _ =>
      simp only [readers, kind] at budgeted ⊢
      split <;> rename_i message <;> simp only [message, if_true] at budgeted
      · exact ⟨moved.budget ▸ budgeted.1, budgeted.2⟩
      · exact budgeted
  | @opened f inner call outer kind _ moved _ _ _ budget =>
      simp only [readers, kind, if_true] at budgeted ⊢
      have waiting : Budgeted ((call :: outer).map (·.reader)) :=
        ⟨moved.budget ▸ budgeted.1, budgeted.2⟩
      split
      · rename_i message
        have own := budget message
        have around : (outer.map (·.reader)).length + f.reader.budget = recursionLimit := budgeted.1
        refine ⟨?_, waiting⟩
        show (outer.map (·.reader)).length + 1 + inner.reader.budget = recursionLimit
        omega
      · exact waiting
  | resumed => exact budgeted
  | abandoned => exact budgeted.2

theorem Reaches.budgeted {n : Nat} {bytes : List UInt8} (h : Reaches s n c c')
    (safe : c.Safe bytes) (budgeted : Budgeted c.readers)
    : Budgeted c'.readers := by
  induction h with
  | refl c => exact budgeted
  | step first _ ih =>
      have advances := safe.advances first
      exact ih (advances.safe safe) (advances.budgeted budgeted)

-----------------------------------------------------------------------------------------
-- Decoding
-----------------------------------------------------------------------------------------

/-- Lists inside one another, each the only item of the next. -/
def nestedList : Nat → WellKnown.Tree
  | 0 => .null
  | n + 1 => .list [nestedList n]

theorem sound_nestedList (n : Nat)
    : (nestedList n).message.Sound (WellKnown.schemaWith []) WellKnown.valueType := by
  induction n with
  | zero => exact ⟨⟨⟨rfl, rfl⟩, rfl⟩, trivial, trivial⟩
  | succ n ih =>
      have items : slotsConform (WellKnown.schemaWith []) WellKnown.listValueType.members
          [.many [.message (nestedList n).message]] :=
        ⟨⟨ih.1, trivial⟩, rfl⟩
      exact ⟨⟨⟨⟨items, rfl⟩, rfl⟩, rfl⟩, ⟨⟨⟨rfl, ih.2, trivial⟩, trivial⟩, trivial⟩⟩

namespace Schema

/-- At every point of a merge, the number of readers around a reader and the budget that it has left
make up the limit, so no more readers than the limit are nested in the first one.  A message whose
encoding nests as many records as the limit is read, and one that nests more is refused for that.
-/
theorem nesting_limit (h : s.Lawful) (name : String)
    : (∀ start bytes,
        (∃ n,
          Reaches s n (.start (s.type name) start bytes)
            (.returning (.message (s.type name) (s.merge (s.type name) start bytes).1)
              (s.merge (s.type name) start bytes).2 []))
        ∧ ∀ n c, Reaches s n (.start (s.type name) start bytes) c
            → c.readers.length ≤ recursionLimit + 1
              ∧ ∀ inner r outer, c.readers = inner ++ r :: outer
                → outer.length + r.budget = recursionLimit)
      ∧ ∀ m : Message, m.Conforms s (s.type name) → m.Fits s (s.type name)
          → m.size s (s.type name) < 2 ^ 63
          → ∃ bytes, s.encode (s.type name) m = .ok bytes
              ∧ s.decode name bytes
                = if m.nesting ≤ recursionLimit then .ok (m.normal s (s.type name))
                  else .error .recursionLimitExceeded := by
  refine ⟨fun start bytes => ⟨?_, fun n c reached => ?_⟩, fun m conforms fits small => ?_⟩
  · obtain ⟨n, -, ends⟩ := reaches_merge (s := s) (s.type name) start bytes
    exact ⟨n, ends⟩
  · have first : Budgeted (Config.start (s.type name) start bytes).readers :=
      ⟨Nat.zero_add _, trivial⟩
    have budgeted := reached.budgeted (Config.safe_start _ start bytes) first
    refine ⟨budgeted.length_le, fun inner r outer split => ?_⟩
    rw [split] at budgeted
    exact budgeted.behind.1
  · exact ⟨_, encode_eq h.sized (h.type name).form m, decode_encoding h ⟨conforms, fits⟩ small⟩

/-- 64 lists inside one another take the whole limit, since each of their items takes a level too;
65 are refused.
-/
theorem nesting_limit_nestedList
    : let s := WellKnown.schemaWith []
      let name := "google.protobuf.Value"
      ∃ accepted refused, s.encode (s.type name) (nestedList 64).message = .ok accepted
        ∧ s.decode name accepted = .ok ((nestedList 64).message.normal s (s.type name))
        ∧ s.encode (s.type name) (nestedList 65).message = .ok refused
        ∧ s.decode name refused = .error .recursionLimitExceeded
        ∧ ∀ n c, Reaches s n (.start (s.type name) (s.empty name) refused) c
            → c.readers.length ≤ recursionLimit + 1 := by
  intro s name
  have lawful : s.Lawful := WellKnown.lawful_types
  obtain ⟨budget, encodes⟩ := nesting_limit lawful name
  have facts : (nestedList 64).message.nesting ≤ recursionLimit
      ∧ ¬ (nestedList 65).message.nesting ≤ recursionLimit
      ∧ (nestedList 64).message.size s (s.type name) < 2 ^ 63
      ∧ (nestedList 65).message.size s (s.type name) < 2 ^ 63 := by
    decide +kernel
  obtain ⟨shallow, deep, small, small'⟩ := facts
  have sound := sound_nestedList 64
  have sound' := sound_nestedList 65
  obtain ⟨accepted, encoded, decoded⟩ := encodes _ sound.1 sound.2 small
  obtain ⟨refused, encoded', decoded'⟩ := encodes _ sound'.1 sound'.2 small'
  rw [if_pos shallow] at decoded
  rw [if_neg deep] at decoded'
  exact ⟨accepted, refused, encoded, decoded, encoded', decoded',
    fun n c reached => ((budget _ _).2 n c reached).1⟩

end Schema

end Protobuf
