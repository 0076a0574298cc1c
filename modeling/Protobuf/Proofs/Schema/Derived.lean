import Mathlib.Data.List.Nodup
import Protobuf.Proofs.Schema.Lawful

/-! The order of members.  A type that is derived from declarations has its members in the order of
their lowest field numbers, however they were declared.
-/

namespace Protobuf

/-- The lowest field number of a member. -/
def Member.lowest (m : Member) : Nat :=
  m.tags.min?.getD 0

namespace MessageType

/-- The members are sorted, each by its lowest field number. -/
structure Derived (t : MessageType) : Prop where
  sorted : ∃ members, t.members = sortMembers members
  lowest : ∀ m ∈ t.members, m.tags.min? = some m.tag

theorem mem_insertMember (m n : Member) (members : List Member)
    : n ∈ insertMember m members ↔ n = m ∨ n ∈ members := by
  induction members with
  | nil => simp [insertMember]
  | cons first members ih =>
      rw [insertMember]
      split
      · exact List.mem_cons
      · simp only [List.mem_cons, ih]
        exact or_left_comm

/-- Inserting a member keeps the order, by induction on the others. -/
theorem pairwise_insertMember (m : Member) {members : List Member}
    (h : members.Pairwise fun a b => a.tag ≤ b.tag)
    : (insertMember m members).Pairwise fun a b => a.tag ≤ b.tag := by
  induction members with
  | nil => exact List.pairwise_singleton _ _
  | cons first members ih =>
      obtain ⟨least, others⟩ := List.pairwise_cons.mp h
      rw [insertMember]
      split
      · rename_i less
        refine List.pairwise_cons.mpr ⟨fun n listed => ?_, h⟩
        rcases List.mem_cons.mp listed with rfl | later
        · exact Nat.le_of_lt less
        · exact Nat.le_trans (Nat.le_of_lt less) (least n later)
      · rename_i notLess
        refine List.pairwise_cons.mpr ⟨fun n listed => ?_, ih others⟩
        rcases (mem_insertMember m n members).mp listed with rfl | later
        · exact Nat.le_of_not_lt notLess
        · exact least n later

theorem pairwise_sortMembers (members : List Member)
    : (sortMembers members).Pairwise fun a b => a.tag ≤ b.tag := by
  have sorted (members done : List Member) (h : done.Pairwise fun a b => a.tag ≤ b.tag)
      : (members.foldl (fun done m => insertMember m done) done).Pairwise
          fun a b => a.tag ≤ b.tag := by
    induction members generalizing done with
    | nil => exact h
    | cons m members ih => exact ih _ (pairwise_insertMember m h)
  exact sorted members [] .nil

theorem Derived.ascending {t : MessageType} (derived : t.Derived) (lawful : t.Lawful)
    : (t.members.map Member.lowest).Pairwise (· < ·) := by
  obtain ⟨members, sorted⟩ := derived.sorted
  have ordered := pairwise_sortMembers members
  rw [← sorted] at ordered
  have apart := (List.nodup_flatMap.mp lawful.distinct).2
  rw [List.pairwise_map]
  refine (ordered.and apart).imp_of_mem fun {a b} first second ⟨le, disjoint⟩ => ?_
  have own := derived.lowest a first
  have other := derived.lowest b second
  simp only [Member.lowest, own, other, Option.getD_some]
  refine Nat.lt_of_le_of_ne le fun same => ?_
  have listed := List.min?_mem own
  rw [same] at listed
  exact disjoint listed (List.min?_mem other)

end MessageType

end Protobuf
