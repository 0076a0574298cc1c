import Mathlib.Data.List.GetD
import Protobuf.FieldMask.Normal
import Protobuf.Proofs.FieldMask.Order

/-! Normal masks are canonical: among the masks that cover the same paths there is one of them, to
which normalizing leads.  Union and intersection are those of the sets of covered paths.
-/

namespace Protobuf.FieldMask

-----------------------------------------------------------------------------------------
-- Covered paths
-----------------------------------------------------------------------------------------

theorem anyCovers_iff {mask : List String} {path : String}
    : anyCovers mask path ↔ ∃ p ∈ mask, covers p path :=
  List.any_eq_true

theorem anyCovers_of_mem {mask : List String} {path : String} (listed : path ∈ mask)
    : anyCovers mask path :=
  anyCovers_iff.mpr ⟨path, listed, covers_refl path⟩

/-- What lies below a covered path is covered. -/
theorem anyCovers_below {mask : List String} {path below : String} (h : anyCovers mask path)
    (lower : covers path below)
    : anyCovers mask below := by
  obtain ⟨p, listed, upper⟩ := anyCovers_iff.mp h
  exact anyCovers_iff.mpr ⟨p, listed, covers_trans upper lower⟩

theorem anyCovers_cons {first : String} {mask : List String} {path : String}
    : anyCovers (first :: mask) path ↔ covers first path ∨ anyCovers mask path := by
  rw [anyCovers, List.any_cons, Bool.or_eq_true, anyCovers]

theorem anyCovers_flatten {masks : List (List String)} {path : String}
    : anyCovers masks.flatten path ↔ ∃ mask ∈ masks, anyCovers mask path := by
  simp only [anyCovers_iff, List.mem_flatten]
  constructor
  · rintro ⟨p, ⟨mask, among, listed⟩, upper⟩
    exact ⟨mask, among, p, listed, upper⟩
  · rintro ⟨mask, among, p, listed, upper⟩
    exact ⟨p, ⟨mask, among, listed⟩, upper⟩

-----------------------------------------------------------------------------------------
-- Normal masks
-----------------------------------------------------------------------------------------

/-- The paths ascend, and none covers another. -/
structure IsNormal (mask : List String) : Prop where
  ascending : mask.Pairwise fun left right => lessPath left right
  apart : ∀ p ∈ mask, ∀ q ∈ mask, covers p q → p = q

theorem isNormal_nil
    : IsNormal [] :=
  ⟨.nil, nofun⟩

theorem IsNormal.tail {first : String} {mask : List String} (h : IsNormal (first :: mask))
    : IsNormal mask :=
  ⟨h.ascending.tail, fun p pIn q qIn =>
    h.apart p (List.mem_cons_of_mem _ pIn) q (List.mem_cons_of_mem _ qIn)⟩

theorem IsNormal.before {first : String} {mask : List String} (h : IsNormal (first :: mask))
    : ∀ p ∈ mask, place first < place p :=
  fun _ listed => lessPath_iff.mp (List.rel_of_pairwise_cons h.ascending listed)

/-- The first path of a normal mask comes no later than any path of it. -/
theorem IsNormal.place_le {first : String} {mask : List String} (h : IsNormal (first :: mask))
    : ∀ p ∈ first :: mask, place first ≤ place p :=
  List.forall_mem_cons.mpr ⟨le_rfl, fun p listed => (h.before p listed).le⟩

/-- A path goes in front of a normal mask of later paths that it does not cover. -/
theorem IsNormal.cons {first : String} {mask : List String} (h : IsNormal mask)
    (before : ∀ p ∈ mask, place first < place p) (uncovered : ∀ p ∈ mask, ¬covers first p)
    : IsNormal (first :: mask) := by
  refine ⟨List.pairwise_cons.mpr ⟨fun p listed => lessPath_iff.mpr (before p listed), h.ascending⟩,
    fun p pIn q qIn above => ?_⟩
  rcases List.mem_cons.mp pIn with rfl | pBehind
  · rcases List.mem_cons.mp qIn with rfl | qBehind
    · rfl
    · exact absurd above (uncovered q qBehind)
  · rcases List.mem_cons.mp qIn with rfl | qBehind
    · exact absurd (place_le_of_covers above) (not_le_of_gt (before p pBehind))
    · exact h.apart p pBehind q qBehind above

theorem IsNormal.nodup {mask : List String} (h : IsNormal mask)
    : mask.Nodup := by
  refine h.ascending.imp fun {p q} less same => ?_
  exact absurd (lessPath_iff.mp less) (same ▸ lt_irrefl (place p))

/-- A path of a normal mask is the only one of its paths that covers it. -/
theorem IsNormal.mem_of_covering {mask other : List String} (h : IsNormal mask)
    (same : ∀ path, anyCovers mask path = anyCovers other path) {path : String}
    (listed : path ∈ mask)
    : path ∈ other := by
  obtain ⟨p, pIn, down⟩ := anyCovers_iff.mp (same path ▸ anyCovers_of_mem listed)
  obtain ⟨q, qIn, further⟩ := anyCovers_iff.mp (same p ▸ anyCovers_of_mem pIn)
  obtain rfl := h.apart q qIn path listed (covers_trans further down)
  exact eq_of_covers further down ▸ pIn

/-- Two normal masks that cover the same paths are the same. -/
theorem IsNormal.eq_of_covering {mask other : List String} (h : IsNormal mask)
    (h' : IsNormal other) (same : ∀ path, anyCovers mask path = anyCovers other path)
    : mask = other := by
  have members (p : String) : p ∈ mask ↔ p ∈ other :=
    ⟨h.mem_of_covering same, h'.mem_of_covering fun path => (same path).symm⟩
  refine ((List.perm_ext_iff_of_nodup h.nodup h'.nodup).mpr members).eq_of_pairwise ?_ h.ascending
    h'.ascending
  intro p q _ _ first second
  exact absurd (lessPath_iff.mp first) (lt_asymm (lessPath_iff.mp second))

-----------------------------------------------------------------------------------------
-- Compacting in place
-----------------------------------------------------------------------------------------

/-- Drops the paths that the last kept path covers. -/
def dropCovered (last : String) : List String → List String
  | [] => []
  | path :: rest =>
      if covers last path then dropCovered last rest else path :: dropCovered path rest

/-- The first path and those that the last one before them does not cover. -/
def elide : List String → List String
  | [] => []
  | path :: rest => path :: dropCovered path rest

/-- A path behind others is compared with the last one of those that remain, by induction on them.
-/
theorem dropCovered_concat (last : String) (rest : List String) (path : String)
    : dropCovered last (rest ++ [path])
        = if covers ((last :: dropCovered last rest).getLastD "") path then dropCovered last rest
          else dropCovered last rest ++ [path] := by
  fun_induction dropCovered last rest with
  | case1 last => rw [List.nil_append, dropCovered, dropCovered]; rfl
  | case2 last first rest above ih => rw [List.cons_append, dropCovered, if_pos above, ih]
  | case3 last first rest uncovered ih =>
      rw [List.cons_append, dropCovered, if_neg uncovered, ih]
      simp only [List.getLastD_cons, List.cons_append]
      split <;> rfl

/-- A path behind others is kept unless the last one that was kept covers it. -/
theorem elide_concat (front : List String) (path : String)
    : elide (front ++ [path])
        = if elide front ≠ [] ∧ covers ((elide front).getLastD "") path then elide front
          else elide front ++ [path] := by
  cases front with
  | nil => rfl
  | cons first rest =>
      rw [List.cons_append, elide, elide, dropCovered_concat]
      simp only [ne_eq, reduceCtorEq, not_false_eq_true, true_and]
      split <;> rfl

/-- After a number of turns of the loop the paths that remain of as many stand in front, and those
that were not visited stand where they were.
-/
structure Sweep.Visited (s : Sweep) (sorted : List String) (i : Nat) : Prop where
  front : s.paths.take s.kept = elide (sorted.take i)
  behind : s.paths.drop i = sorted.drop i
  bound : s.kept ≤ i

/-- An exchange brings the path to the end of those that are kept. -/
theorem take_exchange {paths : List String} {k i : Nat} (order : k ≤ i) (inside : i < paths.length)
    : (exchange paths k i).take (k + 1) = paths.take k ++ [paths.getD i ""] := by
  have bound : k < paths.length := Nat.lt_of_le_of_lt order inside
  rw [exchange, List.take_add_one, List.take_set_of_le order, List.take_set_of_le le_rfl]
  rcases Nat.eq_or_lt_of_le order with rfl | before
  · simp [bound]
  · simp [bound, Nat.ne_of_gt before]

/-- An exchange leaves the paths that were not visited where they are. -/
theorem drop_exchange {paths : List String} {k i : Nat} (order : k ≤ i)
    : (exchange paths k i).drop (i + 1) = paths.drop (i + 1) := by
  rw [exchange, List.drop_set_of_lt (Nat.lt_succ_self i),
    List.drop_set_of_lt (Nat.lt_succ_of_le order)]

/-- A turn of the loop: the path is compared with the last one that was kept. -/
theorem Sweep.Visited.visit {s : Sweep} {sorted : List String} {i : Nat}
    (h : s.Visited sorted i) (inside : i < sorted.length)
    : (s.visit i).Visited sorted (i + 1) := by
  have length : s.paths.length = sorted.length := by
    have same := congrArg List.length h.behind
    simp only [List.length_drop] at same
    omega
  have here : s.paths.getD i "" = sorted[i] := by
    have same := congrArg (·[0]?) h.behind
    simp only [List.getElem?_drop, Nat.add_zero, List.getElem?_eq_getElem inside] at same
    rw [List.getD_eq_getElem?_getD, same, Option.getD_some]
  have next : s.paths.drop (i + 1) = sorted.drop (i + 1) := by
    rw [← List.drop_drop, ← List.drop_drop, h.behind]
  -- The last path that was kept is in front of the place for the next one.
  have grown : elide (sorted.take (i + 1))
      = if 0 < s.kept && covers (s.paths.getD (s.kept - 1) "") (s.paths.getD i "")
        then elide (sorted.take i) else elide (sorted.take i) ++ [s.paths.getD i ""] := by
    have bound : s.kept ≤ s.paths.length := length ▸ h.bound.trans inside.le
    rw [List.take_succ_eq_append_getElem inside, elide_concat, ← h.front, here]
    cases first : s.kept with
    | zero => rfl
    | succ k =>
        have inner : k < s.paths.length := by omega
        rw [List.take_succ_eq_append_getElem inner, List.getLastD_concat,
          Nat.add_sub_cancel, List.getD_eq_getElem _ _ inner]
        simp [List.ne_nil_of_length_pos (Nat.zero_lt_of_lt inner)]
  unfold Sweep.visit
  split
  · rename_i covered
    rw [if_pos covered] at grown
    exact ⟨h.front.trans grown.symm, next, Nat.le_succ_of_le h.bound⟩
  · rename_i uncovered
    rw [if_neg uncovered, ← h.front] at grown
    exact ⟨(take_exchange h.bound (length ▸ inside)).trans grown.symm,
      (drop_exchange h.bound).trans next, Nat.succ_le_succ h.bound⟩

/-- After every turn, by induction on the turns. -/
theorem visited_foldl (sorted : List String) {i : Nat} (inside : i ≤ sorted.length)
    : ((List.range i).foldl Sweep.visit ⟨sorted, 0⟩).Visited sorted i := by
  induction i with
  | zero => exact ⟨rfl, rfl, le_rfl⟩
  | succ i ih =>
      rw [List.range_succ, List.foldl_concat]
      exact (ih (Nat.le_of_succ_le inside)).visit inside

/-- Normalizing in place keeps what remains when the paths that the last kept one covers are
dropped.
-/
theorem normalize_eq_elide (mask : List String)
    : normalize mask
        = elide (mask.mergeSort fun left right => comparePaths left right != .gt) := by
  have front := (visited_foldl _ (le_refl
    (mask.mergeSort fun left right => comparePaths left right != .gt).length)).front
  rwa [List.take_length] at front

-----------------------------------------------------------------------------------------
-- Normalizing
-----------------------------------------------------------------------------------------

theorem mem_of_mem_dropCovered {last path : String} {rest : List String}
    (h : path ∈ dropCovered last rest)
    : path ∈ rest := by
  fun_induction dropCovered last rest with
  | case1 => exact h
  | case2 last first rest _ ih => exact List.mem_cons_of_mem _ (ih h)
  | case3 last first rest _ ih =>
      rcases List.mem_cons.mp h with rfl | behind
      · exact List.mem_cons_self
      · exact List.mem_cons_of_mem _ (ih behind)

/-- No path is lost that was covered, by induction on the paths. -/
theorem anyCovers_dropCovered (last : String) (rest : List String) (path : String)
    : anyCovers (last :: dropCovered last rest) path ↔ anyCovers (last :: rest) path := by
  fun_induction dropCovered last rest with
  | case1 => rfl
  | case2 last first rest above ih =>
      rw [ih, anyCovers_cons, anyCovers_cons, anyCovers_cons]
      constructor
      · exact Or.imp_right .inr
      · rintro (down | down | listed)
        · exact .inl down
        · exact .inl (covers_trans above down)
        · exact .inr listed
  | case3 last first rest _ ih => rw [anyCovers_cons, ih, ← anyCovers_cons]

/-- Of ascending paths those remain that none in front of them covers.  As the paths below a path
stand together, it is enough to compare each with the last one that was kept.
-/
theorem isNormal_dropCovered {last : String} {rest : List String}
    (sorted : (last :: rest).Pairwise fun left right => place left ≤ place right)
    : IsNormal (last :: dropCovered last rest) := by
  fun_induction dropCovered last rest with
  | case1 last => exact isNormal_nil.cons nofun nofun
  | case2 last first rest _ ih =>
      exact ih (sorted.sublist ((List.sublist_cons_self first rest).cons_cons last))
  | case3 last first rest uncovered ih =>
      obtain ⟨least, behind⟩ := List.pairwise_cons.mp sorted
      have normal := ih behind
      have upwards : place last ≤ place first := least first List.mem_cons_self
      have other : place last ≠ place first := by
        intro same
        exact uncovered (place_inj.mp same ▸ covers_refl last)
      refine normal.cons (fun p listed => ?_) fun p listed covered => ?_
      · exact lt_of_lt_of_le (lt_of_le_of_ne upwards other) (normal.place_le p listed)
      · exact uncovered (covers_of_between covered upwards (normal.place_le p listed))

/-- Normalizing brings the paths in order first. -/
theorem exists_sorted (mask : List String)
    : ∃ sorted, normalize mask = elide sorted ∧ sorted.Perm mask
        ∧ sorted.Pairwise fun left right => place left ≤ place right := by
  have order (left right : String)
      : (comparePaths left right != .gt) = true ↔ place left ≤ place right := by
    rw [bne_iff_ne, not_after_iff]
  refine ⟨_, normalize_eq_elide mask, List.mergeSort_perm mask _, ?_⟩
  refine (List.pairwise_mergeSort ?_ ?_ mask).imp fun {left right} => (order left right).mp
  · intro a b c
    simpa only [order] using le_trans
  · intro a b
    simpa only [Bool.or_eq_true, order] using le_total _ _

/-- What normalizing gives is normal. -/
theorem isNormal_normalize (mask : List String)
    : IsNormal (normalize mask) := by
  obtain ⟨sorted, same, -, ordered⟩ := exists_sorted mask
  rw [same]
  cases sorted with
  | nil => exact isNormal_nil
  | cons first rest => exact isNormal_dropCovered ordered

/-- Normalizing adds no path. -/
theorem mem_of_mem_normalize {mask : List String} {path : String} (h : path ∈ normalize mask)
    : path ∈ mask := by
  obtain ⟨sorted, same, members, -⟩ := exists_sorted mask
  rw [same] at h
  rw [← members.mem_iff]
  cases sorted with
  | nil => exact h
  | cons first rest =>
      rcases List.mem_cons.mp h with rfl | behind
      · exact List.mem_cons_self
      · exact List.mem_cons_of_mem _ (mem_of_mem_dropCovered behind)

/-- Normalizing keeps what is covered. -/
theorem anyCovers_normalize (mask : List String) (path : String)
    : anyCovers (normalize mask) path = anyCovers mask path := by
  obtain ⟨sorted, same, members, -⟩ := exists_sorted mask
  have covered : anyCovers mask path = anyCovers sorted path := members.any_eq.symm
  rw [same, covered, Bool.eq_iff_iff]
  cases sorted with
  | nil => exact Iff.rfl
  | cons first rest => exact anyCovers_dropCovered first rest path

/-- A normal mask stays as it is. -/
theorem IsNormal.normalize_eq {mask : List String} (h : IsNormal mask)
    : normalize mask = mask :=
  (isNormal_normalize mask).eq_of_covering h (anyCovers_normalize mask)

/-- Masks have the same normal form just when they cover the same paths. -/
theorem normalize_eq_iff {mask other : List String}
    : normalize mask = normalize other ↔ ∀ path, anyCovers mask path = anyCovers other path := by
  constructor
  · intro same path
    rw [← anyCovers_normalize mask, same, anyCovers_normalize]
  · intro same
    refine (isNormal_normalize mask).eq_of_covering (isNormal_normalize other) fun path => ?_
    rw [anyCovers_normalize, same, anyCovers_normalize]

/-- The normal form of a mask holds some of its paths, ascending and none below another, and covers
the same paths; it is the same for all masks that do, and its own normal form.
-/
theorem normalize_canonical (mask other : List String)
    : (normalize mask).Pairwise (fun left right => lessPath left right)
      ∧ (normalize mask).Pairwise (fun left right => ¬covers left right ∧ ¬covers right left)
      ∧ (∀ path ∈ normalize mask, path ∈ mask)
      ∧ (∀ path, anyCovers (normalize mask) path = anyCovers mask path)
      ∧ (normalize mask = normalize other
        ↔ ∀ path, anyCovers mask path = anyCovers other path)
      ∧ normalize (normalize mask) = normalize mask := by
  have normal := isNormal_normalize mask
  refine ⟨normal.ascending, ?_, fun _ => mem_of_mem_normalize, anyCovers_normalize mask,
    normalize_eq_iff, normal.normalize_eq⟩
  refine normal.nodup.imp_of_mem fun {p q} pIn qIn other => ⟨fun down => ?_, fun up => ?_⟩
  · exact other (normal.apart p pIn q qIn down)
  · exact other (normal.apart q qIn p pIn up).symm

end Protobuf.FieldMask
