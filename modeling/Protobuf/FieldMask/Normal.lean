import Protobuf.FieldMask.Order

/-! Masks as sets of covered paths.  A normal mask is sorted and holds no path below another; union
and intersection of masks are computed on such masks.
-/

namespace Protobuf.FieldMask

/-- A list that is compacted in place, and how many elements at its front are kept. -/
structure Sweep where
  paths : List String
  kept : Nat

/-- Exchanges two paths of a list. -/
def exchange (paths : List String) (i j : Nat) : List String :=
  (paths.set i (paths.getD j "")).set j (paths.getD i "")

/-- Keeps a path behind those kept before, unless the last one of them covers it. -/
def Sweep.visit (s : Sweep) (i : Nat) : Sweep :=
  if 0 < s.kept && covers (s.paths.getD (s.kept - 1) "") (s.paths.getD i "") then s
  else ⟨exchange s.paths s.kept i, s.kept + 1⟩

/-- The paths in order, without those that another one covers. -/
def normalize (mask : List String) : List String :=
  let sorted := mask.mergeSort fun left right => comparePaths left right != .gt
  let swept := (List.range sorted.length).foldl Sweep.visit ⟨sorted, 0⟩
  swept.paths.take swept.kept

/-- The paths that some mask covers. -/
def union (masks : List (List String)) : List String :=
  normalize masks.flatten

/-- The paths of two normal masks that lie in both, found by walking along both in order. -/
def meet : List String → List String → List String
  | [], _ => []
  | _, [] => []
  | a :: left, b :: right =>
      if covers b a then a :: meet left (b :: right)
      else if covers a b then b :: meet (a :: left) right
      else if lessPath a b then meet left (b :: right)
      else meet (a :: left) right
termination_by left right => left.length + right.length

/-- The paths that every mask covers. -/
def intersect (masks : List (List String)) : List String :=
  normalize (masks.foldl (fun current mask => meet (normalize mask) current) (union masks))

end Protobuf.FieldMask
