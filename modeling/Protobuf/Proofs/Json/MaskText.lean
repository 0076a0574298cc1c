import Protobuf.Proofs.Json.Forms
import Protobuf.Proofs.Json.Places

/-! Field masks that are written and read again.  A joined mask is cut at every comma, also at those
inside its paths, and an empty path gets lost in it; a mask that is a list of paths comes back as it
is.
-/

namespace Protobuf.Text

theorem comma_not_capital : ¬isCapital ',' := by
  decide

theorem uncapitalize_ne_comma {c : Char} (capital : isCapital c)
    : uncapitalize c ≠ ',' := by
  intro same
  have raised := (capitalize_uncapitalize capital).2
  rw [same, show capitalize ',' = ',' from rfl] at raised
  exact comma_not_capital (raised ▸ capital)

/-- Commas stay where they are when a text is brought to snake case, by induction on it. -/
theorem splitOn_snakeChars (text : List Char)
    : (snakeChars text).splitOn ',' = (text.splitOn ',').map snakeChars := by
  induction text with
  | nil => rfl
  | cons c text ih =>
      obtain ⟨first, others, pieces⟩ := List.exists_cons_of_ne_nil (List.splitOn_ne_nil ',' text)
      rw [pieces, List.map_cons] at ih
      rw [snakeChars]
      split
      · rename_i capital
        have other : c ≠ ',' := fun same => comma_not_capital (same ▸ capital)
        have lowered := uncapitalize_ne_comma capital
        simp [List.splitOn_cons_eq_if_modifyHead, ih, pieces, other, lowered, snakeChars, capital]
      · rename_i small
        by_cases same : c = ','
        · subst same
          simp [List.splitOn_cons_eq_if_modifyHead, ih, pieces, snakeChars]
        · simp [List.splitOn_cons_eq_if_modifyHead, ih, pieces, same, snakeChars, small]

/-- No comma is left between commas. -/
theorem not_mem_of_mem_splitOn {text piece : List Char} (listed : piece ∈ text.splitOn ',')
    : ',' ∉ piece := by
  induction text generalizing piece with
  | nil =>
      rw [List.splitOn_nil, List.mem_singleton] at listed
      subst listed
      exact List.not_mem_nil
  | cons c text ih =>
      obtain ⟨first, others, pieces⟩ := List.exists_cons_of_ne_nil (List.splitOn_ne_nil ',' text)
      rw [pieces] at ih
      rw [List.splitOn_cons_eq_if_modifyHead, pieces] at listed
      split at listed
      · rcases List.mem_cons.mp listed with rfl | listed
        · exact List.not_mem_nil
        · exact ih listed
      · rename_i other
        rcases List.mem_cons.mp listed with rfl | listed
        · refine List.not_mem_cons_of_ne_of_not_mem (fun same => other ?_) (ih List.mem_cons_self)
          exact beq_iff_eq.mpr same.symm
        · exact ih (List.mem_cons_of_mem _ listed)

end Protobuf.Text

namespace Protobuf.FieldMask

open Text

-----------------------------------------------------------------------------------------
-- Paths that are written
-----------------------------------------------------------------------------------------

/-- Some text in lower camel case names the path. -/
def IsNamed (path : String) : Prop :=
  ∃ camel, toSnakeCase camel = .ok path

theorem isNamed_iff {path : String}
    : IsNamed path ↔ ∃ camel, toCamelCase path = .ok camel :=
  exists_congr fun _ => toCamelCase_eq_ok_iff.symm

/-- A path that no text names is refused under its own name. -/
theorem toCamelCase_of_not_isNamed {path : String} (h : ¬IsNamed path)
    : toCamelCase path = .error (.notCamelizable path) := by
  cases written : toCamelCase path with
  | ok camel => exact absurd (isNamed_iff.mpr ⟨camel, written⟩) h
  | error e =>
      unfold toCamelCase at written
      dsimp only at written
      split at written
      · cases written
      · cases written
        rfl

/-- All paths are written, or the first one that no text names is refused, by induction on them. -/
theorem mapM_toCamelCase_cases (paths : List String)
    : ((∀ path ∈ paths, IsNamed path) ∧ ∃ camel, paths.mapM toCamelCase = .ok camel)
      ∨ ∃ path ∈ paths, ¬IsNamed path ∧ paths.mapM toCamelCase = .error (.notCamelizable path) := by
  induction paths with
  | nil => exact .inl ⟨nofun, [], rfl⟩
  | cons path paths ih =>
      by_cases named : IsNamed path
      · obtain ⟨text, written⟩ := isNamed_iff.mp named
        rcases ih with ⟨others, camel, texts⟩ | ⟨other, listed, unnamed, refused⟩
        · refine .inl ⟨List.forall_mem_cons.mpr ⟨named, others⟩, text :: camel, ?_⟩
          rw [List.mapM_cons, written, texts]
          rfl
        · refine .inr ⟨other, List.mem_cons_of_mem _ listed, unnamed, ?_⟩
          rw [List.mapM_cons, written, refused]
          rfl
      · refine .inr ⟨path, List.mem_cons_self, named, ?_⟩
        rw [List.mapM_cons, toCamelCase_of_not_isNamed named]
        rfl

-----------------------------------------------------------------------------------------
-- Paths between commas
-----------------------------------------------------------------------------------------

/-- The texts between the commas of a path, but for empty ones. -/
def cut (path : String) : List String :=
  ((path.toList.splitOn ',').filter fun piece => !piece.isEmpty).map String.ofList

theorem mem_cut {path piece : String} (listed : piece ∈ cut path)
    : piece ≠ "" ∧ ',' ∉ piece.toList := by
  obtain ⟨chars, kept, rfl⟩ := List.mem_map.mp listed
  obtain ⟨between, nonempty⟩ := List.mem_filter.mp kept
  rw [String.toList_ofList]
  refine ⟨fun same => ?_, not_mem_of_mem_splitOn between⟩
  rw [← String.toList_eq_nil_iff, String.toList_ofList] at same
  rw [same] at nonempty
  cases nonempty

theorem cut_of_whole {path : String} (nonempty : path ≠ "") (whole : ',' ∉ path.toList)
    : cut path = [path] := by
  rw [cut, List.splitOn_eq_singleton whole, List.filter_cons_of_pos, List.filter_nil,
    List.map_singleton, String.ofList_toList]
  simpa using nonempty

/-- Paths stay as they are if none is empty and none holds a comma. -/
theorem flatMap_cut_eq_iff {paths : List String}
    : paths.flatMap cut = paths ↔ ∀ path ∈ paths, path ≠ "" ∧ ',' ∉ path.toList := by
  constructor
  · intro same path listed
    rw [← same] at listed
    obtain ⟨_, _, inside⟩ := List.mem_flatMap.mp listed
    exact mem_cut inside
  · intro whole
    induction paths with
    | nil => rfl
    | cons path paths ih =>
        obtain ⟨⟨nonempty, own⟩, others⟩ := List.forall_mem_cons.mp whole
        rw [List.flatMap_cons, cut_of_whole nonempty own, ih others, List.singleton_append]

/-- The texts between the commas of a joined text are those of the texts that were joined. -/
theorem cut_intercalate (texts : List String)
    : cut (String.intercalate "," texts) = texts.flatMap cut := by
  have chars (pieces : List (List Char))
      : (([','].intercalate pieces).splitOn ',').filter (fun piece => !piece.isEmpty)
        = pieces.flatMap fun piece => (piece.splitOn ',').filter fun piece => !piece.isEmpty := by
    induction pieces with
    | nil => rfl
    | cons piece pieces ih =>
        cases pieces with
        | nil => simp
        | cons next pieces =>
            have cut : (piece ++ ',' :: [','].intercalate (next :: pieces)).splitOn ','
                = piece.splitOn ',' ++ ([','].intercalate (next :: pieces)).splitOn ',' :=
              List.splitOnP_append_cons piece _ (beq_self_eq_true ',')
            rw [List.flatMap_cons, ← ih, List.intercalate_cons_cons, List.append_assoc,
              List.singleton_append, cut, List.filter_append]
  rw [cut, String.toList_intercalate, show ",".toList = [','] from rfl, chars, List.map_flatMap,
    List.flatMap_map]
  rfl

theorem mapM_toSnakeCase {texts : List String} (plain : ∀ text ∈ texts, '_' ∉ text.toList)
    : texts.mapM toSnakeCase
      = .ok (texts.map fun text => String.ofList (snakeChars text.toList)) := by
  induction texts with
  | nil => rfl
  | cons text texts ih =>
      obtain ⟨own, others⟩ := List.forall_mem_cons.mp plain
      rw [List.mapM_cons, toSnakeCase, if_neg (by simpa using own), ih others]
      rfl

/-- The texts between the commas of a written path name those between the commas of the path. -/
theorem mapM_cut {path camel : String} (written : toCamelCase path = .ok camel)
    : (cut camel).mapM toSnakeCase = .ok (cut path) := by
  have plain : ∀ text ∈ cut camel, '_' ∉ text.toList := by
    intro text listed inside
    obtain ⟨piece, kept, rfl⟩ := List.mem_map.mp listed
    rw [String.toList_ofList] at inside
    have joined : '_' ∈ [','].intercalate (camel.toList.splitOn ',') :=
      (Json.mem_intercalate (by decide) _).mpr ⟨piece, List.mem_of_mem_filter kept, inside⟩
    rw [List.intercalate_splitOn] at joined
    exact not_mem_of_toCamelCase written joined
  have back : path.toList = snakeChars camel.toList := by
    have snake := toSnakeCase_of_toCamelCase written
    rw [toSnakeCase, if_neg (by simpa using not_mem_of_toCamelCase written)] at snake
    cases snake
    exact String.toList_ofList
  have empty (piece : List Char) : (snakeChars piece).isEmpty = piece.isEmpty := by
    cases piece with
    | nil => rfl
    | cons c piece =>
        rw [snakeChars]
        split <;> rfl
  rw [mapM_toSnakeCase plain, cut, cut, back, splitOn_snakeChars, List.filter_map, List.map_map,
    List.map_map]
  refine congrArg Except.ok ?_
  simp only [Function.comp_def, String.toList_ofList, empty]

/-- A joined mask is read as the texts between its commas. -/
theorem pathsOfText_joined {paths camel : List String}
    (written : paths.mapM toCamelCase = .ok camel)
    : Json.Reader.pathsOfText (String.intercalate "," camel) = .ok (paths.flatMap cut) := by
  change (cut (String.intercalate "," camel)).mapM toSnakeCase = _
  rw [cut_intercalate]
  induction paths generalizing camel with
  | nil =>
      cases written
      rfl
  | cons path paths ih =>
      rw [List.mapM_cons] at written
      cases first : toCamelCase path with
      | error e =>
          rw [first] at written
          cases written
      | ok text =>
          cases others : paths.mapM toCamelCase with
          | error e =>
              rw [first, others] at written
              cases written
          | ok texts =>
              rw [first, others] at written
              cases written
              rw [List.flatMap_cons, List.flatMap_cons, List.mapM_append, mapM_cut first, ih others]
              rfl

end Protobuf.FieldMask

namespace Protobuf.Json

open FieldMask Text

-----------------------------------------------------------------------------------------
-- Masks that are read
-----------------------------------------------------------------------------------------

variable {slack limit : Nat} {path : Path}

/-- The paths of an array are read one after the other, by induction on them. -/
theorem takesItems_paths (before paths : List String)
    : TakesItems slack limit (fun paths r =>
          let (path, r) := r.string
          (paths ++ [path], r)) path (paths.map .string) before (before ++ paths) [] := by
  induction paths generalizing before with
  | nil =>
      rw [List.append_nil]
      exact .nil before
  | cons text paths ih =>
      have others := ih (before ++ [text])
      rw [List.append_assoc] at others
      exact .cons ((reads_string text).takes.map (before ++ [·])) others

/-- A list of paths is read as it is. -/
theorem takes_listedPaths (paths : List String)
    : Takes slack limit Reader.fieldMask (.object [⟨"paths", .array (paths.map .string)⟩]) path
      paths []
    := by
  have members : TakesFields slack limit (fun key paths r =>
      if key = "paths" then
        r.array (fun paths r =>
          let (path, r) := r.string
          (paths ++ [path], r)) paths
      else (paths, r.skip)) path [⟨"paths", .array (paths.map .string)⟩] [] paths ([] ++ []) :=
    .cons (takes_array (takesItems_paths [] paths)) (.nil paths)
  intro r more faces short place
  simp only [Reader.fieldMask, faces.peekKind, Node.kind]
  exact takes_object members r more faces short place

theorem nesting_listedPaths (paths : List String)
    : (Node.object [⟨"paths", .array (paths.map .string)⟩]).nesting ≤ maxDepth := by
  have flat : itemsNesting (paths.map .string) = 0 := by
    induction paths with
    | nil => rfl
    | cons text paths ih =>
        rw [List.map_cons, itemsNesting, ih]
        rfl
  simp only [Node.nesting, fieldsNesting, flat]
  decide

/-- A joined mask is read as the texts between its commas. -/
theorem reads_joinedPaths {paths camel : List String} (written : paths.mapM toCamelCase = .ok camel)
    : Reads Reader.fieldMask (.string (String.intercalate "," camel)) (paths.flatMap cut) :=
  reads_fieldMask (pathsOfText_joined written)

/-- What a fresh reader takes is all there is. -/
theorem finish_of_takes {α : Type} {read : Reader → α × Reader} {n : Node} {v : α}
    (h : ∀ limit, Takes 0 limit read n .root v []) (shallow : n.nesting ≤ maxDepth)
    (registry : Option Registry)
    : (read (.ofBytes (utf8 n.text) registry)).1 = v
      ∧ (read (.ofBytes (utf8 n.text) registry)).2.finish.1 = none := by
  rcases h _ _ _ (Reader.faces_ofBytes registry n) (Nat.lt_succ_self _) rfl with taken | ⟨-, deep⟩
  · rw [taken]
    exact ⟨rfl, rfl⟩
  · have room : maxDepth < 0 + n.nesting + 0 := deep
    omega

/-- A writer that spells a value out has not failed, and has written its text. -/
theorem written_of_spells {config : Config} {mask : PathSet} {w : Writer} {n : Node}
    (spelled : Spells (.ofConfig config mask) w (some n))
    : w.fault = none ∧ w.output = n.text := by
  have same : w = { Writer.ofConfig config mask with output := "" ++ n.text } := spelled
  rw [same, String.empty_append]
  exact ⟨rfl, rfl⟩

/-- A mask is written unless no text names one of its paths.  A mask that is written is read again,
and the paths are the same if and only if they were listed, or none of them is empty or holds a
comma.
-/
theorem fieldMask_returns_iff (config : Config) (mask : PathSet) (registry : Option Registry)
    (paths : List String)
    : let writer := (Writer.ofConfig config mask).fieldMask paths
      let read := (Reader.ofBytes (utf8 writer.output) registry).fieldMask
      (writer.fault = none ↔ config.legacyFieldMask ∨ ∀ path ∈ paths, IsNamed path)
      ∧ (∀ fault, writer.fault = some fault → ∃ path ∈ paths, ¬IsNamed path
        ∧ fault = ⟨.marshal, "", .invalidValue "field mask" (.naming (.notCamelizable path))⟩)
      ∧ (writer.fault = none → read.2.finish.1 = none
        ∧ read.1 = (if config.legacyFieldMask then paths else paths.flatMap cut)
        ∧ (read.1 = paths
          ↔ config.legacyFieldMask ∨ ∀ path ∈ paths, path ≠ "" ∧ ',' ∉ path.toList)) := by
  intro writer read
  have start : (Writer.ofConfig config mask).At config mask .root := ⟨rfl, rfl, rfl⟩
  have spelled : Spells (Writer.ofConfig config mask) writer (fieldMaskNode config paths) :=
    spells_fieldMask paths start
  cases legacy : config.legacyFieldMask with
  | true =>
      have node : fieldMaskNode config paths
          = some (.object [⟨"paths", .array (paths.map .string)⟩]) := if_pos legacy
      rw [node] at spelled
      obtain ⟨sound, text⟩ := written_of_spells spelled
      obtain ⟨back, finished⟩ := finish_of_takes (fun limit => takes_listedPaths paths)
        (nesting_listedPaths paths) registry
      rw [← text] at back finished
      refine ⟨⟨fun _ => .inl rfl, fun _ => sound⟩, by simp [sound], fun _ => ⟨finished, back, ?_⟩⟩
      simpa using back
  | false =>
      rcases mapM_toCamelCase_cases paths with
        ⟨named, camel, written⟩ | ⟨path, listed, unnamed, refused⟩
      · have node : fieldMaskNode config paths = some (.string (String.intercalate "," camel)) := by
          simp only [fieldMaskNode, legacy, Bool.false_eq_true, if_false, written]
        rw [node] at spelled
        obtain ⟨sound, text⟩ := written_of_spells spelled
        obtain ⟨back, finished⟩ := finish_of_takes (fun limit => (reads_joinedPaths written).takes)
          (Nat.zero_le _) registry
        rw [← text] at back finished
        have cutBack : read.1 = paths.flatMap cut := back
        refine ⟨⟨fun _ => .inr named, fun _ => sound⟩, by simp [sound],
          fun _ => ⟨finished, by simpa using back, ?_⟩⟩
        rw [cutBack, flatMap_cut_eq_iff]
        simp
      · have failed : writer.fault
            = some ⟨.marshal, "", .invalidValue "field mask" (.naming (.notCamelizable path))⟩ := by
          simp only [writer, Writer.fieldMask, Writer.ofConfig, legacy, Bool.false_eq_true,
            if_false, refused]
          rfl
        have unwritten : ¬∀ path ∈ paths, IsNamed path := fun named => unnamed (named path listed)
        refine ⟨by simp [failed, unwritten], fun fault same => ⟨path, listed, unnamed, ?_⟩,
          by simp [failed]⟩
        exact Option.some.inj (same.symm.trans failed)

/-- Two paths of several words come back from the text that joins them. -/
theorem fieldMask_returns_joined
    : let writer := (Writer.ofConfig {} .empty).fieldMask ["foo_bar", "baz.qux_quux"]
      let read := (Reader.ofBytes (utf8 writer.output) none).fieldMask
      writer.fault = none ∧ writer.output = "\"fooBar,baz.quxQuux\"" ∧ read.2.finish.1 = none
      ∧ read.1 = ["foo_bar", "baz.qux_quux"] := by
  intro writer read
  obtain ⟨-, -, returns⟩ := fieldMask_returns_iff {} .empty none ["foo_bar", "baz.qux_quux"]
  have sound : writer.fault = none := by decide +kernel
  obtain ⟨finished, -, back⟩ := returns sound
  exact ⟨sound, by decide +kernel, finished, back.mpr (.inr (by decide))⟩

/-- A path with a comma is written and read as two, and an empty path is written and not read. -/
theorem fieldMask_returns_pieces
    : let written (paths : List String) := (Writer.ofConfig {} .empty).fieldMask paths
      let read (text : String) := (Reader.ofBytes (utf8 text) none).fieldMask
      (written ["a,b"]).result = .ok "\"a,b\"" ∧ (read "\"a,b\"").1 = ["a", "b"]
      ∧ (read "\"a,b\"").2.finish.1 = none
      ∧ (written [""]).result = .ok "\"\"" ∧ (read "\"\"").1 = []
      ∧ (read "\"\"").2.finish.1 = none := by
  decide +kernel

end Protobuf.Json
