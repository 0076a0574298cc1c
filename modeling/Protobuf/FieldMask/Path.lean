import Protobuf.Text.Quoted

/-! The place of a field inside a message, and ordered sets of such places.  A path grows at its
end as a reader or writer goes into a message; a set keeps the order of first additions.
-/

namespace Protobuf.FieldMask

/-- A field path, its segments from the innermost to the outermost. -/
structure Path where
  reversed : List String
deriving DecidableEq, Repr, Inhabited

namespace Path

/-- The empty path. -/
def root : Path :=
  ⟨[]⟩

/-- The path of a field below this one. -/
def push (path : Path) (field : String) : Path :=
  ⟨field :: path.reversed⟩

/-- The path that goes through the given segments, outermost first. -/
def ofSegments (segments : List String) : Path :=
  ⟨segments.reverse⟩

/-- The path is empty. -/
def isRoot (path : Path) : Bool :=
  path.reversed.isEmpty

/-- The innermost segment. -/
def element? (path : Path) : Option String :=
  path.reversed.head?

/-- The path without its innermost segment. -/
def parent? (path : Path) : Option Path :=
  match path.reversed with
  | [] => none
  | _ :: outer => some ⟨outer⟩

/-- The segments with dots between them. -/
def dotted (path : Path) : String :=
  String.intercalate "." path.reversed.reverse

/-- The path as it is described in diagnostics. -/
def describe (path : Path) : String :=
  "FieldPath(" ++ Text.quoted path.dotted ++ ")"

/-- What is left of a text behind an initial part. -/
def stripFront : List Char → List Char → Option (List Char)
  | [], text => some text
  | _ :: _, [] => none
  | a :: front, b :: text => if a = b then stripFront front text else none

/-- Compares the segments with a dotted text from its end; the text is given reversed.  A segment
that holds a dot itself matches nothing.
-/
def matchesReversed : List String → List Char → Bool
  | [], text => text.isEmpty
  | segment :: outer, text =>
      if segment.toList.contains '.' then false
      else match stripFront segment.toList.reverse text with
        | none => false
        | some rest =>
            if outer.isEmpty then rest.isEmpty
            else match rest with
              | '.' :: rest => matchesReversed outer rest
              | _ => false

/-- The path is written as the dotted text. -/
def matchesDotted (path : Path) (text : String) : Bool :=
  matchesReversed path.reversed text.toList.reverse

end Path

/-- Field paths in the order in which they were added. -/
structure PathSet where
  paths : List String
deriving DecidableEq, Repr, Inhabited

namespace PathSet

/-- The set without paths. -/
def empty : PathSet :=
  ⟨[]⟩

/-- The path is in the set. -/
def contains (set : PathSet) (path : Path) : Bool :=
  set.paths.any path.matchesDotted

/-- Appends the path unless it is there. -/
def add (set : PathSet) (path : Path) : PathSet :=
  if set.contains path then set else ⟨set.paths ++ [path.dotted]⟩

end PathSet

end Protobuf.FieldMask
