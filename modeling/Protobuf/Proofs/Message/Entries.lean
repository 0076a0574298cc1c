import Mathlib.Data.List.Sort
import Protobuf.Proofs.Schema.Lawful
import Protobuf.Proofs.Wire.Payload

/-! Maps as lists of entries.  Entries that are inserted one after the other stand in ascending
order of their keys, a later one in the place of an earlier one with its key.
-/

namespace Protobuf

-----------------------------------------------------------------------------------------
-- The order of keys
-----------------------------------------------------------------------------------------

namespace Scalar

theorem compareKeys_swap (a b : Scalar)
    : (compareKeys a b).swap = compareKeys b a := by
  have whole (x y : Int) : (compare x y).swap = compare y x := Std.OrientedOrd.eq_swap.symm
  have natural (x y : Nat) : (compare x y).swap = compare y x := Std.OrientedOrd.eq_swap.symm
  have text (x y : String) : (compare x y).swap = compare y x := Std.OrientedOrd.eq_swap.symm
  cases a <;> cases b
    <;> first | rfl | exact whole _ _ | exact natural _ _ | exact text _ _

theorem compareKeys_trans {a b c : Scalar} (first : compareKeys a b = .lt)
    (second : compareKeys b c = .lt)
    : compareKeys a c = .lt := by
  have whole {x y z : Int} : compare x y = .lt → compare y z = .lt → compare x z = .lt :=
    Std.TransCmp.lt_trans
  have natural {x y z : Nat} : compare x y = .lt → compare y z = .lt → compare x z = .lt :=
    Std.TransCmp.lt_trans
  have text {x y z : String} : compare x y = .lt → compare y z = .lt → compare x z = .lt :=
    Std.TransCmp.lt_trans
  cases a <;> cases b <;> first | cases first | skip
  all_goals cases c <;> first | cases second | skip
  all_goals first | exact whole first second | exact natural first second | exact text first second

/-- Keys of one type that are in no order are the same, by cases on the type. -/
theorem compareKeys_eq_iff {type : ScalarType} (isKey : type.isKey) {a b : Scalar}
    (ha : a.hasType type) (hb : b.hasType type)
    : compareKeys a b = .eq ↔ a = b := by
  have text {x y : String} : compareOfLessAndEq x y = .eq ↔ x = y :=
    compareOfLessAndEq_eq_eq String.le_refl String.not_le
  have flags {x y : Bool} : x.toNat = y.toNat ↔ x = y := by cases x <;> cases y <;> decide
  cases type <;> try cases isKey
  all_goals cases a <;> try cases ha
  all_goals cases b <;> try cases hb
  all_goals
    simp only [compareKeys, Std.LawfulEqCmp.compare_eq_iff_eq, Int32.toInt_inj, Int64.toInt_inj,
      UInt32.toNat_inj, UInt64.toNat_inj, flags, text, int32.injEq, int64.injEq, uint32.injEq,
      uint64.injEq, bool.injEq, string.injEq]

theorem ne_of_compareKeys {a b : Scalar} (h : compareKeys a b = .lt)
    : a ≠ b := by
  rintro rfl
  have swapped := compareKeys_swap a a
  rw [h] at swapped
  cases swapped

end Scalar

-----------------------------------------------------------------------------------------
-- Entries in order
-----------------------------------------------------------------------------------------

/-- The key of the first entry is the lower one. -/
def Entry.Before (a b : Entry) : Prop :=
  Scalar.compareKeys a.key b.key = .lt

instance : Std.Irrefl Entry.Before :=
  ⟨fun _ h => Scalar.ne_of_compareKeys h rfl⟩

instance : Std.Antisymm Entry.Before :=
  ⟨fun _ _ first second =>
    absurd rfl (Scalar.ne_of_compareKeys (Scalar.compareKeys_trans first second))⟩

/-- All keys are of the type and ascend. -/
structure Ordered (type : ScalarType) (es : List Entry) : Prop where
  typed : ∀ e ∈ es, e.key.hasType type
  ascending : es.Pairwise Entry.Before

theorem ordered_nil {type : ScalarType}
    : Ordered type [] :=
  ⟨nofun, .nil⟩

theorem Ordered.distinct {type : ScalarType} {es : List Entry} (h : Ordered type es)
    : (es.map (·.key)).Nodup :=
  List.pairwise_map.mpr (h.ascending.imp Scalar.ne_of_compareKeys)

/-- Inserts entries one after the other. -/
def insertEntries (xs es : List Entry) : List Entry :=
  es.foldl (fun xs e => insertEntry e.key e.value xs) xs

/-- Entries in ascending order of their keys. -/
def sortEntries (es : List Entry) : List Entry :=
  insertEntries [] es

/-- The union of two maps; an entry of the second replaces one of the first with its key. -/
def unionEntries (ds es : List Entry) : List Entry :=
  ds.filter (fun d => d.key ∉ es.map (·.key)) ++ es

variable {type : ScalarType} {key : Scalar} {value : Value} {ds es xs : List Entry}

/-- What is inserted replaces the entry with its key, by induction on the entries. -/
theorem mem_insertEntry (isKey : type.isKey) (typed : key.hasType type) (h : Ordered type es)
    (x : Entry)
    : x ∈ insertEntry key value es ↔ x = ⟨key, value⟩ ∨ x ∈ es ∧ x.key ≠ key := by
  induction es with
  | nil => simp [insertEntry]
  | cons e es ih =>
      obtain ⟨later, ascending⟩ := List.pairwise_cons.mp h.ascending
      have tail : Ordered type es :=
        ⟨fun y member => h.typed y (List.mem_cons_of_mem e member), ascending⟩
      rw [insertEntry]
      cases order : Scalar.compareKeys key e.key with
      | lt =>
          have others : ∀ y ∈ e :: es, y.key ≠ key := by
            intro y member
            rcases List.mem_cons.mp member with rfl | behind
            · exact (Scalar.ne_of_compareKeys order).symm
            · exact (Scalar.ne_of_compareKeys
                (Scalar.compareKeys_trans order (later y behind))).symm
          rw [List.mem_cons]
          exact or_congr_right ⟨fun member => ⟨member, others x member⟩, And.left⟩
      | eq =>
          have same := (Scalar.compareKeys_eq_iff isKey typed (h.typed e (by simp))).mp order
          have others : ∀ y ∈ es, y.key ≠ key := by
            intro y member
            rw [same]
            exact (Scalar.ne_of_compareKeys (later y member)).symm
          simp only [List.mem_cons]
          refine or_congr_right ⟨fun member => ⟨.inr member, others x member⟩, ?_⟩
          rintro ⟨rfl | behind, other⟩
          · exact absurd same.symm other
          · exact behind
      | gt =>
          have first : e.key ≠ key := by
            rintro rfl
            have swapped := Scalar.compareKeys_swap e.key e.key
            rw [order] at swapped
            cases swapped
          simp only [List.mem_cons, ih tail]
          constructor
          · rintro (rfl | rfl | ⟨behind, other⟩)
            · exact .inr ⟨.inl rfl, first⟩
            · exact .inl rfl
            · exact .inr ⟨.inr behind, other⟩
          · rintro (rfl | ⟨rfl | behind, other⟩)
            · exact .inr (.inl rfl)
            · exact .inl rfl
            · exact .inr (.inr ⟨behind, other⟩)

/-- Inserting keeps the order, by induction on the entries. -/
theorem Ordered.insertEntry (isKey : type.isKey) (typed : key.hasType type)
    (h : Ordered type es)
    : Ordered type (insertEntry key value es) := by
  refine ⟨fun x member => ?_, ?_⟩
  · rcases (mem_insertEntry isKey typed h x).mp member with rfl | ⟨earlier, -⟩
    · exact typed
    · exact h.typed x earlier
  · induction es with
    | nil => simp [Protobuf.insertEntry]
    | cons e es ih =>
        obtain ⟨later, ascending⟩ := List.pairwise_cons.mp h.ascending
        have tail : Ordered type es :=
          ⟨fun y member => h.typed y (List.mem_cons_of_mem e member), ascending⟩
        rw [Protobuf.insertEntry]
        cases order : Scalar.compareKeys key e.key with
        | lt =>
            refine List.pairwise_cons.mpr ⟨fun x member => ?_, h.ascending⟩
            rcases List.mem_cons.mp member with rfl | behind
            · exact order
            · exact Scalar.compareKeys_trans order (later x behind)
        | eq =>
            have same := (Scalar.compareKeys_eq_iff isKey typed (h.typed e (by simp))).mp order
            refine List.pairwise_cons.mpr ⟨fun x member => ?_, ascending⟩
            rw [Entry.Before, same]
            exact later x member
        | gt =>
            refine List.pairwise_cons.mpr ⟨fun x member => ?_, ih tail⟩
            rcases (mem_insertEntry isKey typed tail x).mp member with rfl | ⟨behind, -⟩
            · rw [Entry.Before, ← Scalar.compareKeys_swap, order]
              rfl
            · exact later x behind

-----------------------------------------------------------------------------------------
-- Unions
-----------------------------------------------------------------------------------------

theorem Ordered.insertEntries (isKey : type.isKey) (h : Ordered type xs)
    (typed : ∀ e ∈ es, e.key.hasType type)
    : Ordered type (insertEntries xs es) := by
  induction es generalizing xs with
  | nil => exact h
  | cons e es ih =>
      exact ih (h.insertEntry isKey (typed e (by simp)))
        fun y member => typed y (List.mem_cons_of_mem e member)

/-- Entries that are inserted replace those with their keys, by induction on them. -/
theorem mem_insertEntries (isKey : type.isKey) (h : Ordered type xs)
    (typed : ∀ e ∈ es, e.key.hasType type) (distinct : (es.map (·.key)).Nodup) (x : Entry)
    : x ∈ insertEntries xs es ↔ x ∈ es ∨ x ∈ xs ∧ x.key ∉ es.map (·.key) := by
  induction es generalizing xs with
  | nil => simp [insertEntries]
  | cons e es ih =>
      rcases e with ⟨key, value⟩
      obtain ⟨fresh, others⟩ := List.nodup_cons.mp distinct
      have first : key.hasType type := typed ⟨key, value⟩ (by simp)
      have inserted : Ordered type (insertEntry key value xs) := h.insertEntry isKey first
      have next := ih inserted
        (fun y member => typed y (List.mem_cons_of_mem _ member)) others
      rw [insertEntries, List.foldl_cons, ← insertEntries, next,
        mem_insertEntry isKey first h x, List.map_cons, List.mem_cons, List.mem_cons]
      constructor
      · rintro (behind | ⟨rfl | ⟨earlier, other⟩, missing⟩)
        · exact .inl (.inr behind)
        · exact .inl (.inl rfl)
        · exact .inr ⟨earlier, not_or.mpr ⟨other, missing⟩⟩
      · rintro ((rfl | behind) | ⟨earlier, missing⟩)
        · exact .inr ⟨.inl rfl, fresh⟩
        · exact .inl behind
        · obtain ⟨other, missing⟩ := not_or.mp missing
          exact .inr ⟨.inr ⟨earlier, other⟩, missing⟩

theorem ordered_sortEntries (isKey : type.isKey) (typed : ∀ e ∈ es, e.key.hasType type)
    : Ordered type (sortEntries es) :=
  ordered_nil.insertEntries isKey typed

theorem mem_sortEntries (isKey : type.isKey) (typed : ∀ e ∈ es, e.key.hasType type)
    (distinct : (es.map (·.key)).Nodup) (x : Entry)
    : x ∈ sortEntries es ↔ x ∈ es := by
  rw [sortEntries, mem_insertEntries isKey ordered_nil typed distinct x]
  simp

/-- Entries in order are those of their sorted list. -/
theorem Ordered.sortEntries_eq (isKey : type.isKey) (h : Ordered type es)
    : sortEntries es = es :=
  (ordered_sortEntries isKey h.typed).ascending.eq_of_mem_iff h.ascending
    (mem_sortEntries isKey h.typed h.distinct)

theorem typed_unionEntries (first : ∀ d ∈ ds, d.key.hasType type)
    (second : ∀ e ∈ es, e.key.hasType type)
    : ∀ x ∈ unionEntries ds es, x.key.hasType type := by
  intro x member
  rcases List.mem_append.mp member with kept | added
  · exact first x (List.mem_filter.mp kept).1
  · exact second x added

theorem nodup_unionEntries (first : (ds.map (·.key)).Nodup) (second : (es.map (·.key)).Nodup)
    : ((unionEntries ds es).map (·.key)).Nodup := by
  rw [unionEntries, List.map_append, List.nodup_append]
  refine ⟨first.sublist (List.filter_sublist.map _), second, ?_⟩
  rintro k kept k' added rfl
  obtain ⟨d, member, rfl⟩ := List.mem_map.mp kept
  exact absurd added (by simpa using (List.mem_filter.mp member).2)

/-- Inserting the entries of one map into those of another gives the union in order. -/
theorem Ordered.insertEntries_eq (isKey : type.isKey) (first : Ordered type ds)
    (second : Ordered type es)
    : Protobuf.insertEntries ds es = sortEntries (unionEntries ds es) := by
  have typed := typed_unionEntries first.typed second.typed
  refine (first.insertEntries isKey second.typed).ascending.eq_of_mem_iff
    (ordered_sortEntries isKey typed).ascending fun x => ?_
  rw [mem_insertEntries isKey first second.typed second.distinct x,
    mem_sortEntries isKey typed (nodup_unionEntries first.distinct second.distinct) x,
    unionEntries, List.mem_append, List.mem_filter, decide_eq_true_iff]
  exact or_comm

-----------------------------------------------------------------------------------------
-- Looking up a key
-----------------------------------------------------------------------------------------

/-- What is found under a key stands among the entries, by induction on them. -/
theorem Ordered.entryValue?_eq_some (isKey : type.isKey) (typed : key.hasType type)
    (h : Ordered type es)
    : entryValue? key es = some value ↔ ⟨key, value⟩ ∈ es := by
  induction es with
  | nil => simp [entryValue?]
  | cons e es ih =>
      obtain ⟨later, ascending⟩ := List.pairwise_cons.mp h.ascending
      have tail : Ordered type es :=
        ⟨fun y member => h.typed y (List.mem_cons_of_mem e member), ascending⟩
      have here := Scalar.compareKeys_eq_iff isKey typed (h.typed e (by simp))
      rw [List.mem_cons, ← ih tail]
      rcases e with ⟨first, held⟩
      by_cases own : key = first
      · have missing : entryValue? key es ≠ some value := by
          rw [Ne, ih tail]
          intro member
          exact absurd own.symm (Scalar.ne_of_compareKeys (later _ member))
        have found : entryValue? key (⟨first, held⟩ :: es) = some held := by
          simp [entryValue?, here.mpr own]
        rw [found, Option.some.injEq, or_iff_left missing, own]
        simp [eq_comm]
      · have other : entryValue? key (⟨first, held⟩ :: es) = entryValue? key es := by
          have different : (Scalar.compareKeys key first == .eq) = false := by
            simpa [here] using own
          simp [entryValue?, different]
        rw [other, or_iff_right]
        rintro same
        cases same
        exact own rfl

/-- Under the key that was inserted stands the new value, under every other one what stood there. -/
theorem Ordered.entryValue?_insertEntry (isKey : type.isKey) (h : Ordered type es)
    (typed : key.hasType type) {other : Scalar} (typed' : other.hasType type)
    : entryValue? other (Protobuf.insertEntry key value es)
        = if other = key then some value else entryValue? other es := by
  refine Option.ext fun v => ?_
  rw [(h.insertEntry isKey typed).entryValue?_eq_some isKey typed', mem_insertEntry isKey typed h]
  split
  · rename_i same
    subst same
    simp [eq_comm]
  · rename_i different
    simp [h.entryValue?_eq_some isKey typed', different]

/-- The value of the last entry with the key. -/
def lastValue? (key : Scalar) (es : List Entry) : Option Value :=
  (es.filter fun e => e.key = key).getLast?.map (·.value)

/-- Under each key stands the value of the last entry with it, by induction on the entries. -/
theorem Ordered.entryValue?_insertEntries (isKey : type.isKey) (h : Ordered type xs)
    (typed : ∀ e ∈ es, e.key.hasType type) (own : key.hasType type)
    : entryValue? key (Protobuf.insertEntries xs es)
      = (lastValue? key es).or (entryValue? key xs) := by
  unfold lastValue?
  induction es generalizing xs with
  | nil => simp [Protobuf.insertEntries]
  | cons e es ih =>
      obtain ⟨first, others⟩ := List.forall_mem_cons.mp typed
      have inserted : Ordered type (Protobuf.insertEntry e.key e.value xs) :=
        h.insertEntry isKey first
      have next := ih inserted others
      rw [Protobuf.insertEntries, List.foldl_cons, ← Protobuf.insertEntries, next,
        h.entryValue?_insertEntry isKey first own]
      by_cases same : e.key = key
      · rw [List.filter_cons_of_pos (by simpa using same), List.getLast?_cons, if_pos same.symm]
        cases (es.filter fun e => e.key = key).getLast? <;> rfl
      · rw [List.filter_cons_of_neg (by simpa using same), if_neg (Ne.symm same)]

/-- Maps in order that hold the same under every key are the same. -/
theorem Ordered.eq_of_entryValue? (isKey : type.isKey) (first : Ordered type ds)
    (second : Ordered type es)
    (same : ∀ key : Scalar, key.hasType type → entryValue? key ds = entryValue? key es)
    : ds = es := by
  refine first.ascending.eq_of_mem_iff second.ascending fun x => ?_
  obtain ⟨key, value⟩ := x
  constructor
  · intro member
    have typed := first.typed _ member
    rwa [← second.entryValue?_eq_some isKey typed, ← same key typed,
      first.entryValue?_eq_some isKey typed]
  · intro member
    have typed := second.typed _ member
    rwa [← first.entryValue?_eq_some isKey typed, same key typed,
      second.entryValue?_eq_some isKey typed]

end Protobuf
