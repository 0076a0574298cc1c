import Protobuf.Proofs.FieldMask.Normal

/-! Union and intersection of masks are those of the sets of paths that they cover.  What both of
two normal masks cover is found in one walk along them, since the path that comes first is below
none of the other mask or above what comes next in it.
-/

namespace Protobuf.FieldMask

-----------------------------------------------------------------------------------------
-- One walk along two masks
-----------------------------------------------------------------------------------------

/-- A path in front of a normal mask whose first path it does not cover has nothing to do with it.
-/
theorem IsNormal.apart_of_before {a b : String} {rest : List String} (h : IsNormal (b :: rest))
    (before : place a < place b) (uncovered : ¬covers a b)
    : ∀ p ∈ b :: rest, ¬covers p a ∧ ¬covers a p := by
  intro p listed
  have later := h.place_le p listed
  refine ⟨fun above => ?_, fun below => ?_⟩
  · exact absurd (place_le_of_covers above) (not_le_of_gt (before.trans_le later))
  · exact uncovered (covers_of_between below before.le later)

/-- The walk stops at the paths of each mask that the other one covers, by induction on its steps.
-/
theorem mem_meet {left right : List String} (hl : IsNormal left) (hr : IsNormal right)
    {path : String}
    : path ∈ meet left right
        ↔ path ∈ left ∧ anyCovers right path ∨ path ∈ right ∧ anyCovers left path := by
  fun_induction meet left right with
  | case1 right => simp [anyCovers]
  | case2 left => simp [anyCovers]
  | case3 a left b right above ih =>
      rw [List.mem_cons, ih hl.tail hr]
      constructor
      · rintro (rfl | ⟨listed, covered⟩ | ⟨listed, covered⟩)
        · exact .inl ⟨List.mem_cons_self, anyCovers_cons.mpr (.inl above)⟩
        · exact .inl ⟨List.mem_cons_of_mem a listed, covered⟩
        · exact .inr ⟨listed, anyCovers_cons.mpr (.inr covered)⟩
      · rintro (⟨listed, covered⟩ | ⟨listed, covered⟩)
        · exact (List.mem_cons.mp listed).imp_right fun listed => .inl ⟨listed, covered⟩
        · rcases anyCovers_cons.mp covered with below | covered
          · obtain rfl := hr.apart b List.mem_cons_self path listed (covers_trans above below)
            exact .inl (eq_of_covers above below)
          · exact .inr (.inr ⟨listed, covered⟩)
  | case4 a left b right _ above ih =>
      rw [List.mem_cons, ih hl hr.tail]
      constructor
      · rintro (rfl | ⟨listed, covered⟩ | ⟨listed, covered⟩)
        · exact .inr ⟨List.mem_cons_self, anyCovers_cons.mpr (.inl above)⟩
        · exact .inl ⟨listed, anyCovers_cons.mpr (.inr covered)⟩
        · exact .inr ⟨List.mem_cons_of_mem b listed, covered⟩
      · rintro (⟨listed, covered⟩ | ⟨listed, covered⟩)
        · rcases anyCovers_cons.mp covered with below | covered
          · obtain rfl := hl.apart a List.mem_cons_self path listed (covers_trans above below)
            exact .inl (eq_of_covers above below)
          · exact .inr (.inl ⟨listed, covered⟩)
        · exact (List.mem_cons.mp listed).imp_right fun listed => .inr ⟨listed, covered⟩
  | case5 a left b right _ below before ih =>
      have other := hr.apart_of_before (lessPath_iff.mp before) below
      rw [ih hl.tail hr]
      constructor
      · exact Or.imp (And.imp_left (List.mem_cons_of_mem a))
          (And.imp_right fun covered => anyCovers_cons.mpr (.inr covered))
      · rintro (⟨listed, covered⟩ | ⟨listed, covered⟩)
        · obtain ⟨p, among, down⟩ := anyCovers_iff.mp covered
          refine .inl ⟨(List.mem_cons.mp listed).resolve_left ?_, covered⟩
          rintro rfl
          exact (other p among).1 down
        · exact .inr ⟨listed, (anyCovers_cons.mp covered).resolve_left (other path listed).2⟩
  | case6 a left b right above below behind ih =>
      have before : place b < place a := by
        refine lt_of_le_of_ne (not_lt.mp fun less => behind (lessPath_iff.mpr less)) fun same => ?_
        exact below (place_inj.mp same ▸ covers_refl b)
      have other := hl.apart_of_before before above
      rw [ih hl hr.tail]
      constructor
      · exact Or.imp (And.imp_right fun covered => anyCovers_cons.mpr (.inr covered))
          (And.imp_left (List.mem_cons_of_mem b))
      · rintro (⟨listed, covered⟩ | ⟨listed, covered⟩)
        · exact .inl ⟨listed, (anyCovers_cons.mp covered).resolve_left (other path listed).2⟩
        · obtain ⟨p, among, down⟩ := anyCovers_iff.mp covered
          refine .inr ⟨(List.mem_cons.mp listed).resolve_left ?_, covered⟩
          rintro rfl
          exact (other p among).1 down

/-- What both of two normal masks cover is covered by the paths at which the walk stops. -/
theorem anyCovers_meet {left right : List String} (hl : IsNormal left) (hr : IsNormal right)
    (path : String)
    : anyCovers (meet left right) path ↔ anyCovers left path ∧ anyCovers right path := by
  constructor
  · intro covered
    obtain ⟨p, met, down⟩ := anyCovers_iff.mp covered
    rcases (mem_meet hl hr).mp met with ⟨listed, other⟩ | ⟨listed, other⟩
    · exact ⟨anyCovers_iff.mpr ⟨p, listed, down⟩, anyCovers_below other down⟩
    · exact ⟨anyCovers_below other down, anyCovers_iff.mpr ⟨p, listed, down⟩⟩
  · rintro ⟨first, second⟩
    obtain ⟨a, aIn, above⟩ := anyCovers_iff.mp first
    obtain ⟨b, bIn, above'⟩ := anyCovers_iff.mp second
    rcases covers_total above above' with down | down
    · have met := (mem_meet hl hr).mpr (.inr ⟨bIn, anyCovers_iff.mpr ⟨a, aIn, down⟩⟩)
      exact anyCovers_iff.mpr ⟨b, met, above'⟩
    · have met := (mem_meet hl hr).mpr (.inl ⟨aIn, anyCovers_iff.mpr ⟨b, bIn, down⟩⟩)
      exact anyCovers_iff.mpr ⟨a, met, above⟩

/-- What a later path of a normal mask covers is behind the first path and not below it. -/
theorem IsNormal.apart_of_covered {a path : String} {left : List String} (h : IsNormal (a :: left))
    (covered : anyCovers left path)
    : place a < place path ∧ ¬covers a path := by
  obtain ⟨p, listed, above⟩ := anyCovers_iff.mp covered
  have before := h.before p listed
  have other : a ≠ p := fun same => absurd before (same ▸ lt_irrefl (place a))
  have later := List.mem_cons_of_mem a listed
  refine ⟨before.trans_le (place_le_of_covers above), fun below => ?_⟩
  rcases covers_total below above with down | down
  · exact other (h.apart a List.mem_cons_self p later down)
  · exact other (h.apart p later a List.mem_cons_self down).symm

/-- The walk along two normal masks gives a normal mask, by induction on its steps. -/
theorem isNormal_meet {left right : List String} (hl : IsNormal left) (hr : IsNormal right)
    : IsNormal (meet left right) := by
  fun_induction meet left right with
  | case1 right => exact isNormal_nil
  | case2 left => exact isNormal_nil
  | case3 a left b right _ ih =>
      have apart (p : String) (met : p ∈ meet left (b :: right)) :=
        hl.apart_of_covered ((anyCovers_meet hl.tail hr p).mp (anyCovers_of_mem met)).1
      exact (ih hl.tail hr).cons (fun p met => (apart p met).1) fun p met => (apart p met).2
  | case4 a left b right _ _ ih =>
      have apart (p : String) (met : p ∈ meet (a :: left) right) :=
        hr.apart_of_covered ((anyCovers_meet hl hr.tail p).mp (anyCovers_of_mem met)).2
      exact (ih hl hr.tail).cons (fun p met => (apart p met).1) fun p met => (apart p met).2
  | case5 a left b right _ _ _ ih => exact ih hl.tail hr
  | case6 a left b right _ _ _ ih => exact ih hl hr.tail

-----------------------------------------------------------------------------------------
-- Union and intersection
-----------------------------------------------------------------------------------------

theorem isNormal_union (masks : List (List String))
    : IsNormal (union masks) :=
  isNormal_normalize _

theorem anyCovers_union (masks : List (List String)) (path : String)
    : anyCovers (union masks) path ↔ ∃ mask ∈ masks, anyCovers mask path := by
  rw [union, anyCovers_normalize, anyCovers_flatten]

/-- Each further mask takes away what it does not cover, by induction on the masks. -/
theorem foldl_meet {current : List String} (normal : IsNormal current) (masks : List (List String))
    : IsNormal (masks.foldl (fun current mask => meet (normalize mask) current) current)
      ∧ ∀ path,
          anyCovers (masks.foldl (fun current mask => meet (normalize mask) current) current) path
            ↔ anyCovers current path ∧ ∀ mask ∈ masks, anyCovers mask path := by
  induction masks generalizing current with
  | nil => exact ⟨normal, by simp⟩
  | cons mask masks ih =>
      obtain ⟨result, covered⟩ := ih (isNormal_meet (isNormal_normalize mask) normal)
      refine ⟨result, fun path => ?_⟩
      rw [List.foldl_cons, covered path, anyCovers_meet (isNormal_normalize mask) normal,
        anyCovers_normalize, List.forall_mem_cons]
      tauto

theorem isNormal_intersect (masks : List (List String))
    : IsNormal (intersect masks) :=
  isNormal_normalize _

theorem anyCovers_intersect {masks : List (List String)} (some : masks ≠ []) (path : String)
    : anyCovers (intersect masks) path ↔ ∀ mask ∈ masks, anyCovers mask path := by
  rw [intersect, anyCovers_normalize, (foldl_meet (isNormal_union masks) masks).2 path,
    anyCovers_union]
  refine and_iff_right_of_imp fun all => ?_
  obtain ⟨mask, among⟩ := List.exists_mem_of_ne_nil masks some
  exact ⟨mask, among, all mask among⟩

theorem union_congr {masks others : List (List String)}
    (same : ∀ path, (∃ mask ∈ masks, anyCovers mask path) ↔ ∃ mask ∈ others, anyCovers mask path)
    : union masks = union others := by
  refine (isNormal_union masks).eq_of_covering (isNormal_union others) fun path => ?_
  rw [Bool.eq_iff_iff, anyCovers_union, anyCovers_union, same]

theorem intersect_congr {masks others : List (List String)} (some : masks ≠ [])
    (some' : others ≠ [])
    (same : ∀ path, (∀ mask ∈ masks, anyCovers mask path) ↔ ∀ mask ∈ others, anyCovers mask path)
    : intersect masks = intersect others := by
  refine (isNormal_intersect masks).eq_of_covering (isNormal_intersect others) fun path => ?_
  rw [Bool.eq_iff_iff, anyCovers_intersect some, anyCovers_intersect some', same]

-----------------------------------------------------------------------------------------
-- Order, grouping and repetition
-----------------------------------------------------------------------------------------

/-- The masks come in another order, and the paths of each do. -/
def Rearranged (masks others : List (List String)) : Prop :=
  ∃ middle, masks.Perm middle ∧ List.Forall₂ List.Perm middle others

section

variable {masks others : List (List String)}

theorem Rearranged.ne_nil (h : Rearranged masks others) (some : masks ≠ [])
    : others ≠ [] := by
  obtain ⟨middle, reordered, inside⟩ := h
  rintro rfl
  cases inside
  exact some reordered.eq_nil

/-- Each mask is found again with the same paths. -/
theorem Rearranged.covering (h : Rearranged masks others) (path : String)
    : (masks.map fun mask => anyCovers mask path).Perm
        (others.map fun mask => anyCovers mask path) := by
  obtain ⟨middle, reordered, inside⟩ := h
  have same : middle.map (fun mask => anyCovers mask path)
      = others.map fun mask => anyCovers mask path := by
    clear reordered
    induction inside with
    | nil => rfl
    | cons first _ ih => exact congrArg₂ List.cons first.any_eq ih
  exact same ▸ reordered.map _

theorem exists_covering_iff (masks : List (List String)) (path : String)
    : (∃ mask ∈ masks, anyCovers mask path) ↔ true ∈ masks.map fun mask => anyCovers mask path := by
  rw [List.mem_map]

theorem forall_covering_iff (masks : List (List String)) (path : String)
    : (∀ mask ∈ masks, anyCovers mask path)
        ↔ false ∉ masks.map fun mask => anyCovers mask path := by
  simp

theorem Rearranged.union_eq (h : Rearranged masks others)
    : union others = union masks := by
  refine union_congr fun path => ?_
  rw [exists_covering_iff, exists_covering_iff, (h.covering path).mem_iff]

theorem Rearranged.intersect_eq (h : Rearranged masks others) (some : masks ≠ [])
    : intersect others = intersect masks := by
  refine intersect_congr (h.ne_nil some) some fun path => ?_
  rw [forall_covering_iff, forall_covering_iff, (h.covering path).mem_iff]

theorem union_assoc (a b c : List String)
    : union [union [a, b], c] = union [a, union [b, c]] := by
  refine union_congr fun path => ?_
  simp only [List.mem_cons, List.not_mem_nil, or_false, exists_eq_or_imp, exists_eq_left,
    anyCovers_union, or_assoc]

theorem intersect_assoc (a b c : List String)
    : intersect [intersect [a, b], c] = intersect [a, intersect [b, c]] := by
  refine intersect_congr (List.cons_ne_nil _ _) (List.cons_ne_nil _ _) fun path => ?_
  simp only [List.forall_mem_cons, List.not_mem_nil, false_implies, implies_true, and_true,
    anyCovers_intersect (List.cons_ne_nil _ _), and_assoc]

theorem union_self (mask : List String)
    : union [mask, mask] = normalize mask := by
  refine normalize_eq_iff.mpr fun path => ?_
  rw [Bool.eq_iff_iff, anyCovers_flatten]
  simp

theorem intersect_self (mask : List String)
    : intersect [mask, mask] = normalize mask := by
  refine (isNormal_intersect _).eq_of_covering (isNormal_normalize mask) fun path => ?_
  rw [Bool.eq_iff_iff, anyCovers_intersect (List.cons_ne_nil _ _), anyCovers_normalize]
  simp

end

/-- Union and intersection of masks are normal and cover what some mask covers and what all masks
cover.  So neither the order of the masks nor that of their paths matters, nor how masks are
grouped, and a mask with itself gives its normal form.
-/
theorem union_and_intersect_of_covered {masks : List (List String)} (some : masks ≠ [])
    : normalize (union masks) = union masks
      ∧ normalize (intersect masks) = intersect masks
      ∧ (∀ path, anyCovers (union masks) path ↔ ∃ mask ∈ masks, anyCovers mask path)
      ∧ (∀ path, anyCovers (intersect masks) path ↔ ∀ mask ∈ masks, anyCovers mask path)
      ∧ (∀ others, Rearranged masks others
          → union others = union masks ∧ intersect others = intersect masks)
      ∧ (∀ a b c, union [union [a, b], c] = union [a, union [b, c]]
          ∧ intersect [intersect [a, b], c] = intersect [a, intersect [b, c]])
      ∧ ∀ mask, union [mask, mask] = normalize mask ∧ intersect [mask, mask] = normalize mask :=
  ⟨(isNormal_union masks).normalize_eq, (isNormal_intersect masks).normalize_eq,
    anyCovers_union masks, anyCovers_intersect some,
    fun _ h => ⟨h.union_eq, h.intersect_eq some⟩,
    fun a b c => ⟨union_assoc a b c, intersect_assoc a b c⟩,
    fun mask => ⟨union_self mask, intersect_self mask⟩⟩

/-- Two masks and the same masks rearranged. -/
theorem union_and_intersect_of_covered_rearranged
    : [["foo.bar", "baz", "qux.a"], ["foo", "baz.x", "quux"]] ≠ []
      ∧ Rearranged [["foo.bar", "baz", "qux.a"], ["foo", "baz.x", "quux"]]
          [["quux", "foo", "baz.x"], ["baz", "qux.a", "foo.bar"]]
      ∧ intersect [["quux", "foo", "baz.x"], ["baz", "qux.a", "foo.bar"]]
          = intersect [["foo.bar", "baz", "qux.a"], ["foo", "baz.x", "quux"]]
      ∧ anyCovers (intersect [["foo.bar", "baz", "qux.a"], ["foo", "baz.x", "quux"]])
        "baz.x.y" := by
  have some : [["foo.bar", "baz", "qux.a"], ["foo", "baz.x", "quux"]] ≠ [] := List.cons_ne_nil _ _
  have rearranged : Rearranged [["foo.bar", "baz", "qux.a"], ["foo", "baz.x", "quux"]]
      [["quux", "foo", "baz.x"], ["baz", "qux.a", "foo.bar"]] :=
    ⟨[["foo", "baz.x", "quux"], ["foo.bar", "baz", "qux.a"]], .swap _ _ _,
      .cons (by decide) (.cons (by decide) .nil)⟩
  obtain ⟨-, -, -, covered, reordered, -⟩ := union_and_intersect_of_covered some
  exact ⟨some, rearranged, (reordered _ rearranged).2, (covered "baz.x.y").mpr (by decide)⟩

end Protobuf.FieldMask
