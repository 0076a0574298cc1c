import Protobuf.Message.Write
import Protobuf.Proofs.Message.Entries

/-! Entries in the order of their keys, in whatever order they are stored.  Entries that are in
order already are visited one after the other.
-/

namespace Protobuf

section

variable {α β : Type}

/-- Nothing is left out, by induction on what is sorted. -/
theorem sortByKey_perm (keyed : List (Scalar × α))
    : (sortByKey keyed).Perm keyed := by
  have inserted (first : Scalar × α) (others : List (Scalar × α))
      : (insertByKey first.1 first.2 others).Perm (first :: others) := by
    induction others with
    | nil => exact .refl _
    | cons second others ih =>
        rw [insertByKey]
        split
        · exact (ih.cons second).trans (.swap first second others)
        · exact .refl _
  induction keyed with
  | nil => exact .refl _
  | cons first others ih => exact (inserted first (sortByKey others)).trans (ih.cons first)

/-- Sorting by key loses and adds nothing. -/
theorem inKeyOrder_perm (keyed : List (Scalar × α))
    : (inKeyOrder keyed).Perm (keyed.map (·.2)) :=
  (sortByKey_perm keyed).map _

/-- Only the keys decide the order, by induction on what is sorted. -/
theorem sortByKey_map (f : α → β) (keyed : List (Scalar × α))
    : sortByKey (keyed.map fun p => (p.1, f p.2))
      = (sortByKey keyed).map fun p => (p.1, f p.2) := by
  have inserted (key : Scalar) (a : α) (others : List (Scalar × α))
      : insertByKey key (f a) (others.map fun p => (p.1, f p.2))
        = (insertByKey key a others).map fun p => (p.1, f p.2) := by
    induction others with
    | nil => rfl
    | cons second others ih =>
        rw [List.map_cons, insertByKey, insertByKey]
        split
        · rw [ih, List.map_cons]
        · rw [List.map_cons, List.map_cons]
  induction keyed with
  | nil => rfl
  | cons first others ih => rw [List.map_cons, sortByKey, ih, inserted, sortByKey]

/-- What is made of values is visited as they are. -/
theorem inKeyOrder_map (f : α → β) (keyed : List (Scalar × α))
    : inKeyOrder (keyed.map fun p => (p.1, f p.2)) = (inKeyOrder keyed).map f := by
  rw [inKeyOrder, sortByKey_map, inKeyOrder, List.map_map, List.map_map]
  rfl

end

-----------------------------------------------------------------------------------------
-- Entries
-----------------------------------------------------------------------------------------

/-- The entries in ascending order of their keys. -/
def byKey (es : List Entry) : List Entry :=
  inKeyOrder (es.map fun e => (e.key, e))

variable {α : Type} {es stored : List Entry} {key : ScalarType}

/-- What stands under the keys of entries is visited as the entries are. -/
theorem inKeyOrder_entries (f : Entry → α) (es : List Entry)
    : inKeyOrder (es.map fun e => (e.key, f e)) = (byKey es).map f := by
  have values := inKeyOrder_map f (es.map fun e => (e.key, e))
  rwa [List.map_map] at values

/-- Sorting by key loses and adds no entry. -/
theorem byKey_perm (es : List Entry)
    : (byKey es).Perm es := by
  have perm := inKeyOrder_perm (es.map fun e => (e.key, e))
  rwa [List.map_map, show (·.2) ∘ (fun e : Entry => (e.key, e)) = id from rfl, List.map_id] at perm

theorem mem_byKey {e : Entry}
    : e ∈ byKey es ↔ e ∈ es :=
  (byKey_perm es).mem_iff

theorem sortByKey_entries (es : List Entry)
    : sortByKey (es.map fun e => (e.key, e)) = (byKey es).map fun e => (e.key, e) := by
  have own : ∀ p ∈ sortByKey (es.map fun e => (e.key, e)), (p.2.key, p.2) = p := by
    intro p listed
    obtain ⟨e, -, rfl⟩ := List.mem_map.mp ((sortByKey_perm _).mem_iff.mp listed)
    rfl
  rw [byKey, inKeyOrder, List.map_map]
  exact ((List.map_congr_left own).trans (List.map_id _)).symm

/-- A new entry is inserted where its key belongs. -/
theorem byKey_cons {e : Entry} (fresh : ∀ d ∈ es, Scalar.compareKeys e.key d.key ≠ .eq)
    : byKey (e :: es) = insertEntry e.key e.value (byKey es) := by
  have inserted (es : List Entry) (fresh : ∀ d ∈ es, Scalar.compareKeys e.key d.key ≠ .eq)
      : (insertByKey e.key e (es.map fun e => (e.key, e))).map (·.2)
        = insertEntry e.key e.value es := by
    obtain ⟨k, v⟩ := e
    induction es with
    | nil => rfl
    | cons d es ih =>
        obtain ⟨other, others⟩ := List.forall_mem_cons.mp fresh
        rw [List.map_cons, insertByKey, insertEntry]
        cases order : Scalar.compareKeys k d.key with
        | lt =>
            have same : (es.map fun e => (e.key, e)).map (·.2) = es := by
              rw [List.map_map]
              exact List.map_id es
            rw [if_neg Ordering.noConfusion, List.map_cons, List.map_cons, same]
        | eq => exact absurd order other
        | gt => rw [if_pos rfl, List.map_cons, ih others]
  have kept : ∀ d ∈ byKey es, Scalar.compareKeys e.key d.key ≠ .eq :=
    fun d listed => fresh d (mem_byKey.mp listed)
  rw [← inserted (byKey es) kept, ← sortByKey_entries]
  rfl

/-- Entries with different keys are sorted, by induction on them. -/
theorem ordered_byKey (isKey : key.isKey) (typed : ∀ e ∈ es, e.key.hasType key)
    (distinct : (es.map (·.key)).Nodup)
    : Ordered key (byKey es) := by
  induction es with
  | nil => exact ordered_nil
  | cons e es ih =>
      obtain ⟨first, others⟩ := List.forall_mem_cons.mp typed
      obtain ⟨missing, behind⟩ := List.nodup_cons.mp distinct
      have fresh : ∀ d ∈ es, Scalar.compareKeys e.key d.key ≠ .eq := by
        intro d listed same
        have equal := (Scalar.compareKeys_eq_iff isKey first (others d listed)).mp same
        exact missing (List.mem_map.mpr ⟨d, listed, equal.symm⟩)
      rw [byKey_cons fresh]
      exact (ih others behind).insertEntry isKey first

/-- However entries are stored, they are visited in the same order. -/
theorem Ordered.byKey_of_perm (isKey : key.isKey) (ordered : Ordered key es)
    (perm : stored.Perm es)
    : byKey stored = es := by
  have typed (e : Entry) (member : e ∈ stored) : e.key.hasType key :=
    ordered.typed e (perm.mem_iff.mp member)
  have distinct := (perm.map (·.key)).nodup_iff.mpr ordered.distinct
  exact (ordered_byKey isKey typed distinct).ascending.eq_of_mem_iff ordered.ascending fun x =>
    mem_byKey.trans perm.mem_iff

/-- Entries in order stay where they are, by induction on them. -/
theorem Ordered.byKey_eq (ordered : Ordered key es)
    : byKey es = es := by
  have ascending := ordered.ascending
  clear ordered
  induction es with
  | nil => rfl
  | cons e es ih =>
      obtain ⟨first, others⟩ := List.pairwise_cons.mp ascending
      have fresh : ∀ d ∈ es, Scalar.compareKeys e.key d.key ≠ .eq := by
        intro d listed same
        cases (first d listed).symm.trans same
      rw [byKey_cons fresh, ih others]
      obtain ⟨k, v⟩ := e
      cases es with
      | nil => rfl
      | cons d es =>
          have before : Scalar.compareKeys k d.key = .lt := first d (by simp)
          simp only [Protobuf.insertEntry, before]

end Protobuf
