import Mathlib.Data.List.Induction
import Protobuf.FieldMask.Path

/-! Sets of paths.  A path is looked up by its dotted form, which leads back to it as long as its
segments hold no dots.
-/

namespace Protobuf.FieldMask

namespace Path

/-- No segment holds a dot. -/
def Dotless (path : Path) : Prop :=
  ∀ segment ∈ path.reversed, '.' ∉ segment.toList

instance (path : Path) : Decidable path.Dotless :=
  inferInstanceAs (Decidable (∀ segment ∈ path.reversed, '.' ∉ segment.toList))

theorem Dotless.push {path : Path} (h : path.Dotless) {field : String}
    (dotless : '.' ∉ field.toList)
    : (path.push field).Dotless :=
  List.forall_mem_cons.mpr ⟨dotless, h⟩

theorem dotless_root
    : root.Dotless :=
  nofun

theorem dotted_push (path : Path) (field : String)
    : (path.push field).dotted
        = if path.isRoot then field else path.dotted ++ "." ++ field := by
  obtain ⟨reversed⟩ := path
  cases reversed with
  | nil => exact String.intercalate_singleton
  | cons segment outer =>
      have inner : (segment :: outer).reverse ≠ [] := by simp
      simp only [dotted, push, isRoot, List.isEmpty_cons, Bool.false_eq_true, if_false]
      rw [List.reverse_cons, String.intercalate_append_of_ne_nil inner (List.cons_ne_nil _ _),
        String.intercalate_singleton]

theorem stripFront_append (front text : List Char)
    : stripFront front (front ++ text) = some text := by
  induction front with
  | nil => rfl
  | cons c front ih => rw [List.cons_append, stripFront, if_pos rfl, ih]

/-- A path is found under its dotted form, by induction on its segments. -/
theorem matchesDotted_dotted {path : Path} (dotless : path.Dotless)
    : path.matchesDotted path.dotted := by
  obtain ⟨reversed⟩ := path
  induction reversed with
  | nil => rfl
  | cons segment outer ih =>
      obtain ⟨own, others⟩ := List.forall_mem_cons.mp dotless
      have plain : segment.toList.contains '.' = false := by simpa using own
      have ih : matchesReversed outer (Path.dotted ⟨outer⟩).toList.reverse := ih others
      have text := dotted_push ⟨outer⟩ segment
      simp only [matchesDotted, push] at text ⊢
      rw [text, matchesReversed, plain]
      cases outer with
      | nil =>
          have whole := stripFront_append segment.toList.reverse []
          rw [List.append_nil] at whole
          simp [isRoot, whole]
      | cons inner outer =>
          have whole := stripFront_append segment.toList.reverse
            ('.' :: (Path.dotted ⟨inner :: outer⟩).toList.reverse)
          simp [isRoot, String.toList_append, whole, ih]

theorem eq_append_of_stripFront {front text rest : List Char}
    (h : stripFront front text = some rest)
    : text = front ++ rest := by
  induction front generalizing text with
  | nil => exact Option.some.inj h
  | cons c front ih =>
      cases text with
      | nil => cases h
      | cons b text =>
          rw [stripFront] at h
          split at h
          · rename_i same
            rw [same, List.cons_append, ih h]
          · cases h

/-- A path is found under no other text than its dotted form, and under none if a segment holds a
dot, by induction on its segments.
-/
theorem matchesDotted_iff (path : Path) (text : String)
    : path.matchesDotted text ↔ path.Dotless ∧ text = path.dotted := by
  refine ⟨fun h => ?_, fun ⟨dotless, same⟩ => same ▸ matchesDotted_dotted dotless⟩
  obtain ⟨reversed⟩ := path
  induction reversed generalizing text with
  | nil =>
      have empty : text = "" := by simpa [matchesDotted, matchesReversed] using h
      exact ⟨dotless_root, empty⟩
  | cons segment outer ih =>
      rw [matchesDotted, matchesReversed] at h
      split at h
      · cases h
      · rename_i plain
        have own : '.' ∉ segment.toList := by simpa using plain
        split at h
        · cases h
        · rename_i rest found
          have whole : text.toList = rest.reverse ++ segment.toList := by
            rw [← List.reverse_inj, List.reverse_append, List.reverse_reverse]
            exact eq_append_of_stripFront found
          have dotted := dotted_push ⟨outer⟩ segment
          cases outer with
          | nil =>
              obtain rfl : rest = [] := by simpa using h
              refine ⟨List.forall_mem_singleton.mpr own, String.toList_inj.mp ?_⟩
              rw [show (⟨[segment]⟩ : Path) = push ⟨[]⟩ segment from rfl, dotted]
              simpa [isRoot] using whole
          | cons inner outer =>
              simp only [List.isEmpty_cons, Bool.false_eq_true, if_false] at h
              split at h
              · rename_i rest
                have h : (⟨inner :: outer⟩ : Path).matchesDotted (String.ofList rest.reverse) := by
                  rw [matchesDotted, String.toList_ofList, List.reverse_reverse]
                  exact h
                obtain ⟨dotless, same⟩ := ih _ h
                refine ⟨dotless.push own, String.toList_inj.mp ?_⟩
                rw [show (⟨segment :: inner :: outer⟩ : Path)
                  = push ⟨inner :: outer⟩ segment from rfl, dotted, ← same]
                simpa [isRoot] using whole
              · cases h

end Path

namespace PathSet

variable {set : PathSet} {path : Path}

/-- A path is in a set if its dotted form is there and leads back to it. -/
theorem contains_iff
    : set.contains path ↔ path.Dotless ∧ path.dotted ∈ set.paths := by
  simp only [contains, List.any_eq_true, Path.matchesDotted_iff]
  constructor
  · rintro ⟨text, listed, dotless, rfl⟩
    exact ⟨dotless, listed⟩
  · rintro ⟨dotless, listed⟩
    exact ⟨_, listed, dotless, rfl⟩

/-- The texts in a set are those that were there and those of the paths that were added, by
induction on the paths.
-/
theorem mem_paths_foldl_add {paths : List Path} (text : String)
    : text ∈ (paths.foldl add set).paths ↔ text ∈ set.paths ∨ text ∈ paths.map Path.dotted := by
  induction paths generalizing set with
  | nil => simp
  | cons first paths ih =>
      have one : text ∈ (set.add first).paths ↔ text ∈ set.paths ∨ text = first.dotted := by
        unfold add
        split
        · rename_i known
          refine ⟨.inl, fun h => h.elim id ?_⟩
          rintro rfl
          exact (contains_iff.mp known).2
        · simp
      rw [List.foldl_cons, ih, one, List.map_cons, List.mem_cons, or_assoc]

theorem eraseDups_concat (texts : List String) (text : String)
    : (texts ++ [text]).eraseDups
        = if text ∈ texts then texts.eraseDups else texts.eraseDups ++ [text] := by
  have kept : [text].removeAll texts = if text ∈ texts then [] else [text] := by
    by_cases known : text ∈ texts <;> simp [List.removeAll, known]
  rw [List.eraseDups_append, kept]
  split
  · exact List.append_nil _
  · rfl

/-- Behind the texts that a set holds stand the dotted forms of the added paths that it lacks, in
the order in which they were first added: by induction on the paths from behind.
-/
theorem paths_foldl_add_behind {added : List Path} (dotless : ∀ p ∈ added, p.Dotless)
    : (added.foldl add set).paths
        = set.paths ++ ((added.map Path.dotted).filter (· ∉ set.paths)).eraseDups := by
  induction added using List.reverseRecOn with
  | nil => exact (List.append_nil _).symm
  | append_singleton added last ih =>
      have inside := ih fun p listed => dotless p (List.mem_append_left _ listed)
      have plain : last.Dotless :=
        dotless last (List.mem_append_right _ (List.mem_singleton_self _))
      have found : (added.foldl add set).contains last
          ↔ last.dotted ∈ set.paths ∨ last.dotted ∈ added.map Path.dotted := by
        rw [contains_iff, mem_paths_foldl_add]
        exact and_iff_right plain
      rw [List.foldl_append, List.foldl_cons, List.foldl_nil, add, List.map_append,
        List.map_singleton, List.filter_append]
      by_cases held : last.dotted ∈ set.paths
      · have none : [last.dotted].filter (· ∉ set.paths) = [] := by simp [held]
        rw [if_pos (found.mpr (.inl held)), none, List.append_nil, inside]
      · have one : [last.dotted].filter (· ∉ set.paths) = [last.dotted] := by simp [held]
        have lacking : last.dotted ∈ (added.map Path.dotted).filter (· ∉ set.paths)
            ↔ last.dotted ∈ added.map Path.dotted := by
          simp [held]
        rw [one, eraseDups_concat]
        by_cases known : last.dotted ∈ added.map Path.dotted
        · rw [if_pos (found.mpr (.inr known)), if_pos (lacking.mpr known), inside]
        · have new : ¬(added.foldl add set).contains last := by
            rw [found]
            exact not_or.mpr ⟨held, known⟩
          rw [if_neg new, if_neg (lacking.not.mpr known), inside, List.append_assoc]

/-- Paths stand in a set in the order in which they were first added. -/
theorem paths_foldl_add {paths : List Path} (dotless : ∀ p ∈ paths, p.Dotless)
    : (paths.foldl add empty).paths = (paths.map Path.dotted).eraseDups := by
  have whole : (paths.map Path.dotted).filter (· ∉ empty.paths) = paths.map Path.dotted :=
    List.filter_eq_self.mpr fun text _ => by simp [empty]
  rw [paths_foldl_add_behind dotless, whole]
  rfl

/-- A path matches exactly its dotted form, and none if a segment holds a dot.  After any additions
of paths without such segments a set holds what it held, then the dotted form of each new path once,
in the order of first additions; and it contains exactly the paths without such segments whose
dotted form it holds.
-/
theorem paths_match_and_collect
    : (∀ (path : Path) (text : String), path.matchesDotted text ↔ path.Dotless ∧ path.dotted = text)
      ∧ ∀ (initial : List String) (added : List Path), (∀ path ∈ added, path.Dotless)
        → (added.foldl add ⟨initial⟩).paths
            = initial ++ ((added.map Path.dotted).filter (· ∉ initial)).eraseDups
          ∧ ∀ path, (added.foldl add ⟨initial⟩).contains path
              ↔ path.Dotless ∧ path.dotted ∈ (added.foldl add ⟨initial⟩).paths := by
  constructor
  · intro path text
    rw [Path.matchesDotted_iff, eq_comm]
  · intro initial added dotless
    exact ⟨paths_foldl_add_behind dotless, fun path => contains_iff⟩

/-- Paths with empty segments are told apart from a root, a path that is there twice stays so, and a
path is added once.
-/
theorem paths_match_and_collect_empty_segments
    : let inner : Path := .ofSegments ["a", "b"]
      let unnamed : Path := .ofSegments ["", "", "a"]
      let set := [unnamed, inner, unnamed, .root].foldl add ⟨["a.b", "a.b"]⟩
      unnamed.matchesDotted "..a" ∧ ¬(Path.ofSegments [".", "a"]).matchesDotted "..a"
      ∧ set.paths = ["a.b", "a.b", "..a", ""]
      ∧ set.contains (.ofSegments [""]) ∧ ¬set.contains (.ofSegments ["a.b"]) := by
  intro inner unnamed set
  obtain ⟨matching, collecting⟩ := paths_match_and_collect
  obtain ⟨listed, held⟩ :=
    collecting ["a.b", "a.b"] [unnamed, inner, unnamed, .root] (by decide +kernel)
  have texts : set.paths = ["a.b", "a.b", "..a", ""] := listed.trans (by decide +kernel)
  refine ⟨(matching _ _).mpr (by decide +kernel), (matching _ _).not.mpr (by decide +kernel), texts,
    (held _).mpr ?_, (held _).not.mpr ?_⟩
  · rw [texts]
    decide +kernel
  · decide +kernel

end PathSet

-----------------------------------------------------------------------------------------
-- Paths behind their parents
-----------------------------------------------------------------------------------------

/-- Each path is by one segment, without dots, longer than the base or a path in front of it. -/
def GrowsFrom (base : Path) (paths : List Path) : Prop :=
  ∀ before path behind, paths = before ++ path :: behind
    → ∃ parent name, path = parent.push name ∧ '.' ∉ name.toList ∧ (parent = base ∨ parent ∈ before)

section

variable {base : Path} {paths others : List Path}

theorem growsFrom_nil
    : GrowsFrom base [] := by
  intro before path behind split
  simp at split

theorem GrowsFrom.append (first : GrowsFrom base paths) (second : GrowsFrom base others)
    : GrowsFrom base (paths ++ others) := by
  intro before path behind split
  rcases List.append_eq_append_iff.mp split with ⟨between, rfl, later⟩ | ⟨between, earlier, later⟩
  · obtain ⟨parent, name, same, plain, known⟩ := second between path behind later
    exact ⟨parent, name, same, plain, known.imp_right (List.mem_append_right _)⟩
  · cases between with
    | nil =>
        obtain ⟨parent, name, same, plain, known⟩ := second [] path behind later.symm
        exact ⟨parent, name, same, plain, known.imp_right fun listed => by cases listed⟩
    | cons path' between =>
        cases later
        exact first before path between earlier

/-- What grows from a path grows behind it from where it stands. -/
theorem GrowsFrom.below {name : String} (plain : '.' ∉ name.toList)
    (h : GrowsFrom (base.push name) paths)
    : GrowsFrom base (base.push name :: paths) := by
  intro before path behind split
  cases before with
  | nil =>
      cases split
      exact ⟨base, name, rfl, plain, .inl rfl⟩
  | cons first before =>
      cases split
      obtain ⟨parent, last, same, plain', known⟩ := h before path behind rfl
      refine ⟨parent, last, same, plain', .inr ?_⟩
      rcases known with rfl | listed
      · exact List.mem_cons_self
      · exact List.mem_cons_of_mem _ listed

theorem GrowsFrom.front (h : GrowsFrom base (paths ++ others))
    : GrowsFrom base paths := by
  intro before path behind split
  exact h before path (behind ++ others) (by rw [split, List.append_assoc, List.cons_append])

/-- By induction on the paths from behind. -/
theorem GrowsFrom.dotless (h : GrowsFrom base paths) (plain : base.Dotless)
    : ∀ path ∈ paths, path.Dotless := by
  induction paths using List.reverseRecOn with
  | nil => exact fun _ listed => by cases listed
  | append_singleton paths last ih =>
      have earlier := ih h.front
      intro path listed
      rcases List.mem_append.mp listed with front | last'
      · exact earlier path front
      · obtain rfl := List.mem_singleton.mp last'
        obtain ⟨parent, name, rfl, own, known⟩ := h paths path [] rfl
        rcases known with rfl | listed
        · exact plain.push own
        · exact (earlier parent listed).push own

/-- A text is split at its last dot in one way. -/
theorem eq_of_lastDot {a b : String} {m n : String} (first : '.' ∉ m.toList)
    (second : '.' ∉ n.toList) (same : a ++ "." ++ m = b ++ "." ++ n)
    : a = b := by
  have same := congrArg String.toList same
  simp only [String.toList_append, List.append_assoc] at same
  have dot : ".".toList = ['.'] := rfl
  rw [dot, List.singleton_append, List.singleton_append] at same
  rcases List.append_eq_append_iff.mp same with ⟨between, whole, later⟩ | ⟨between, whole, later⟩
  · cases between with
    | nil => exact String.toList_inj.mp (by simpa using whole.symm)
    | cons c between =>
        obtain ⟨-, inside⟩ := List.cons_eq_cons.mp later
        rw [inside] at first
        exact absurd (List.mem_append_right _ List.mem_cons_self) first
  · cases between with
    | nil => exact String.toList_inj.mp (by simpa using whole)
    | cons c between =>
        obtain ⟨-, inside⟩ := List.cons_eq_cons.mp later
        rw [inside] at second
        exact absurd (List.mem_append_right _ List.mem_cons_self) second

/-- In the order of first occurrence, too, each path comes behind the one in which it lies: by
induction on the paths from behind.
-/
theorem GrowsFrom.parent_mem (h : GrowsFrom .root paths) {before behind : List String}
    {parent name : String} (plain : '.' ∉ name.toList)
    (split : (paths.map Path.dotted).eraseDups = before ++ (parent ++ "." ++ name) :: behind)
    : parent ∈ before := by
  induction paths using List.reverseRecOn generalizing behind with
  | nil => simp at split
  | append_singleton paths last ih =>
      rw [List.map_append, List.map_singleton, PathSet.eraseDups_concat] at split
      by_cases known : last.dotted ∈ paths.map Path.dotted
      · rw [if_pos known] at split
        exact ih h.front split
      rw [if_neg known] at split
      rcases List.eq_nil_or_concat behind with rfl | ⟨front, text, rfl⟩
      · obtain ⟨rfl, same⟩ := List.append_inj' split rfl
        obtain ⟨parent', name', rfl, own, place⟩ := h paths last [] rfl
        rw [List.mem_eraseDups, List.mem_map]
        have dotted := List.head_eq_of_cons_eq same
        rw [Path.dotted_push] at dotted
        cases outermost : parent'.isRoot with
        | true =>
            rw [outermost, if_pos rfl] at dotted
            refine absurd ?_ own
            rw [dotted]
            simp
        | false =>
            rw [outermost, if_neg Bool.false_ne_true] at dotted
            rcases place with rfl | listed
            · cases outermost
            · exact ⟨parent', listed, eq_of_lastDot own plain dotted⟩
      · rw [List.concat_eq_append, ← List.cons_append, ← List.append_assoc] at split
        exact ih h.front (List.append_inj' split rfl).1

end

end Protobuf.FieldMask
