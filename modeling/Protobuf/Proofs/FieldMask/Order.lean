import Mathlib.Data.List.Lex
import Mathlib.Order.Compare
import Protobuf.FieldMask.Order
import Protobuf.Proofs.Text.Utf8

/-! The order of paths and the paths below a path.  A path has a place: the ranks of its bytes with
the least of all ranks, that of the dot, behind them.  Paths are ordered like their places, and a
path covers those whose places begin with its own.
-/

namespace Protobuf.FieldMask

-----------------------------------------------------------------------------------------
-- Places
-----------------------------------------------------------------------------------------

/-- The ranks of the bytes and a dot behind them. -/
def placeOfBytes (bytes : List UInt8) : List Nat :=
  bytes.map (fun b => (rank b).toNat) ++ [0]

/-- Where a path stands among all paths. -/
def place (path : String) : List Nat :=
  placeOfBytes (Text.utf8 path)

theorem placeOfBytes_nil
    : placeOfBytes [] = [0] :=
  rfl

theorem placeOfBytes_cons (b : UInt8) (bytes : List UInt8)
    : placeOfBytes (b :: bytes) = (rank b).toNat :: placeOfBytes bytes :=
  rfl

theorem placeOfBytes_ne_nil (bytes : List UInt8)
    : placeOfBytes bytes ≠ [] := by
  simp [placeOfBytes]

theorem rank_inj {a b : UInt8}
    : (rank a).toNat = (rank b).toNat ↔ a = b := by
  rw [UInt8.toNat_inj, rank, rank, UInt8.sub_left_inj]

theorem placeOfBytes_inj {left right : List UInt8}
    : placeOfBytes left = placeOfBytes right ↔ left = right := by
  have injective : Function.Injective fun b => (rank b).toNat := fun _ _ same => rank_inj.mp same
  rw [placeOfBytes, placeOfBytes, List.append_cancel_right_eq, List.map_inj_right injective]

theorem place_inj {left right : String}
    : place left = place right ↔ left = right := by
  refine ⟨fun same => ?_, congrArg place⟩
  have bytes := congrArg Text.ofUtf8? (placeOfBytes_inj.mp same)
  rwa [Text.ofUtf8?_utf8, Text.ofUtf8?_utf8, Option.some_inj] at bytes

-----------------------------------------------------------------------------------------
-- The order
-----------------------------------------------------------------------------------------

theorem placeOfBytes_nil_lt (b : UInt8) (bytes : List UInt8)
    : placeOfBytes [] < placeOfBytes (b :: bytes) := by
  rw [placeOfBytes_cons, placeOfBytes_nil, List.cons_lt_cons_iff]
  rcases Nat.eq_zero_or_pos (rank b).toNat with dot | other
  · obtain ⟨first, others, same⟩ := List.exists_cons_of_ne_nil (placeOfBytes_ne_nil bytes)
    rw [same]
    exact .inr ⟨dot.symm, List.nil_lt_cons _ _⟩
  · exact .inl other

/-- Bytes are compared like their places, by induction on both. -/
theorem compareBytes_compares (left right : List UInt8)
    : (compareBytes left right).Compares (placeOfBytes left) (placeOfBytes right) := by
  induction left generalizing right with
  | nil =>
      cases right with
      | nil => exact rfl
      | cons b right => exact placeOfBytes_nil_lt b right
  | cons a left ih =>
      cases right with
      | nil => exact placeOfBytes_nil_lt a left
      | cons b right =>
          rw [compareBytes, placeOfBytes_cons, placeOfBytes_cons]
          split
          · rename_i same
            subst same
            have behind := ih right
            generalize compareBytes left right = order at behind ⊢
            cases order with
            | lt => exact List.cons_lt_cons_iff.mpr (.inr ⟨rfl, behind⟩)
            | eq => exact congrArg _ behind
            | gt => exact List.cons_lt_cons_iff.mpr (.inr ⟨rfl, behind⟩)
          · rename_i other
            have apart : (rank a).toNat ≠ (rank b).toNat := fun same => other (rank_inj.mp same)
            rcases Nat.lt_or_gt_of_ne apart with before | behind
            · rw [Std.compare_eq_lt.mpr (UInt8.lt_iff_toNat_lt.mpr before)]
              exact List.cons_lt_cons_iff.mpr (.inl before)
            · rw [Std.compare_eq_gt.mpr (UInt8.lt_iff_toNat_lt.mpr behind)]
              exact List.cons_lt_cons_iff.mpr (.inl behind)

theorem comparePaths_compares (left right : String)
    : (comparePaths left right).Compares (place left) (place right) :=
  compareBytes_compares _ _

/-- One path comes before another if its place does. -/
theorem lessPath_iff {left right : String}
    : lessPath left right ↔ place left < place right := by
  rw [lessPath, beq_iff_eq, (comparePaths_compares left right).eq_lt]

-----------------------------------------------------------------------------------------
-- Paths below a path
-----------------------------------------------------------------------------------------

/-- Bytes cover those whose place begins with theirs, by induction on both. -/
theorem coversBytes_iff {ancestor path : List UInt8}
    : coversBytes ancestor path ↔ placeOfBytes ancestor <+: placeOfBytes path := by
  induction ancestor generalizing path with
  | nil =>
      cases path with
      | nil => simp [coversBytes]
      | cons b path =>
          have dot : 0 = (rank b).toNat ↔ b = 46 := by
            rw [eq_comm]
            exact rank_inj (b := 46)
          simp [coversBytes, placeOfBytes_nil, placeOfBytes_cons, dot]
  | cons a ancestor ih =>
      cases path with
      | nil => simp [coversBytes, placeOfBytes_nil, placeOfBytes_cons, placeOfBytes_ne_nil]
      | cons b path =>
          simp [coversBytes, placeOfBytes_cons, rank_inj, ih]

theorem covers_iff {ancestor path : String}
    : covers ancestor path ↔ place ancestor <+: place path :=
  coversBytes_iff

theorem covers_refl (path : String)
    : covers path path :=
  covers_iff.mpr List.prefix_rfl

theorem covers_trans {top middle path : String} (upper : covers top middle)
    (lower : covers middle path)
    : covers top path :=
  covers_iff.mpr ((covers_iff.mp upper).trans (covers_iff.mp lower))

theorem eq_of_covers {a b : String} (down : covers a b) (up : covers b a)
    : a = b :=
  place_inj.mp ((covers_iff.mp down).eq_of_length_le (covers_iff.mp up).length_le)

/-- Of two paths that cover the same path, one covers the other. -/
theorem covers_total {a b path : String} (first : covers a path) (second : covers b path)
    : covers a b ∨ covers b a := by
  rw [covers_iff, covers_iff]
  exact List.prefix_or_prefix_of_prefix (covers_iff.mp first) (covers_iff.mp second)

theorem cons_le_cons_iff {a b : Nat} {left right : List Nat}
    : a :: left ≤ b :: right ↔ a < b ∨ a = b ∧ left ≤ right := by
  rw [← not_lt, List.cons_lt_cons_iff, not_or, not_and, not_lt, not_lt]
  constructor
  · rintro ⟨le, tie⟩
    rcases Nat.lt_or_eq_of_le le with less | same
    · exact .inl less
    · exact .inr ⟨same, tie same.symm⟩
  · rintro (less | ⟨rfl, behind⟩)
    · exact ⟨Nat.le_of_lt less, fun same => absurd same (Nat.ne_of_gt less)⟩
    · exact ⟨Nat.le_refl a, fun _ => behind⟩

theorem le_of_prefix {front list : List Nat} (h : front <+: list)
    : front ≤ list := by
  induction front generalizing list with
  | nil => exact not_lt.mp (List.not_lt_nil list)
  | cons n front ih =>
      obtain ⟨behind, rfl⟩ := h
      exact List.cons_le_cons n (ih (List.prefix_append front behind))

/-- The lists that begin with a list stand together in the order, by induction on it. -/
theorem prefix_of_between {front middle last : List Nat} (h : front <+: last)
    (above : front ≤ middle) (below : middle ≤ last)
    : front <+: middle := by
  induction front generalizing middle last with
  | nil => exact List.nil_prefix
  | cons n front ih =>
      obtain ⟨behind, rfl⟩ := h
      cases middle with
      | nil => exact absurd above (not_le_of_gt (List.nil_lt_cons _ _))
      | cons m middle =>
          rw [List.cons_append, cons_le_cons_iff] at below
          rw [cons_le_cons_iff] at above
          have same : n = m := by
            rcases above with less | ⟨same, -⟩
            · rcases below with more | ⟨same, -⟩ <;> omega
            · exact same
          subst same
          obtain ⟨-, above⟩ := above.resolve_left (Nat.lt_irrefl n)
          obtain ⟨-, below⟩ := below.resolve_left (Nat.lt_irrefl n)
          exact List.cons_prefix_cons.mpr ⟨rfl, ih (List.prefix_append _ _) above below⟩

theorem place_le_of_covers {ancestor path : String} (h : covers ancestor path)
    : place ancestor ≤ place path :=
  le_of_prefix (covers_iff.mp h)

/-- The paths below a path stand together in the order. -/
theorem covers_of_between {ancestor middle path : String} (h : covers ancestor path)
    (above : place ancestor ≤ place middle) (below : place middle ≤ place path)
    : covers ancestor middle :=
  covers_iff.mpr (prefix_of_between (covers_iff.mp h) above below)

theorem not_after_iff {left right : String}
    : comparePaths left right ≠ .gt ↔ place left ≤ place right :=
  (comparePaths_compares left right).ne_gt

/-- Paths are strictly and totally ordered: none comes before itself, what comes before a path that
comes before another comes before that one, and of two paths one comes before the other.  In this
order the paths below a path stand together: what is not before a path, and not behind one below it,
is below it too.
-/
theorem paths_ordered_and_below_together
    : (∀ path, ¬lessPath path path)
      ∧ (∀ a b c, lessPath a b → lessPath b c → lessPath a c)
      ∧ (∀ a b, a ≠ b → lessPath a b ∨ lessPath b a)
      ∧ ∀ ancestor middle path, comparePaths ancestor middle ≠ .gt → comparePaths middle path ≠ .gt
        → covers ancestor path → covers ancestor middle := by
  refine ⟨fun path => ?_,
    fun a b c => ?_, fun a b other => ?_, fun ancestor middle path above below h => ?_⟩
  · rw [lessPath_iff]
    exact lt_irrefl _
  · rw [lessPath_iff, lessPath_iff, lessPath_iff]
    exact lt_trans
  · rw [lessPath_iff, lessPath_iff]
    exact lt_or_gt_of_ne fun same => other (place_inj.mp same)
  · exact covers_of_between h (not_after_iff.mp above) (not_after_iff.mp below)

/-- A dot comes before the other bytes, also before those that are smaller, and letters come before
a mark that is smaller than the dot.
-/
theorem paths_ordered_and_below_together_marks
    : lessPath "a" "a.b" ∧ lessPath "a.b" "a!b" ∧ lessPath "a" "a!b"
      ∧ (lessPath "a.é" "aé" ∨ lessPath "aé" "a.é")
      ∧ comparePaths "a" "a.b" ≠ .gt ∧ comparePaths "a.b" "a.!" ≠ .gt ∧ covers "a" "a.!"
        ∧ covers "a" "a.b" := by
  obtain ⟨-, trans, total, together⟩ := paths_ordered_and_below_together
  have child : lessPath "a" "a.b" := by decide +kernel
  have mark : lessPath "a.b" "a!b" := by decide +kernel
  have above : comparePaths "a" "a.b" ≠ .gt := by decide +kernel
  have below : comparePaths "a.b" "a.!" ≠ .gt := by decide +kernel
  have h : covers "a" "a.!" := by decide +kernel
  exact ⟨child, mark, trans _ _ _ child mark, total _ _ (by decide), above, below, h,
    together _ _ _ above below h⟩

end Protobuf.FieldMask
