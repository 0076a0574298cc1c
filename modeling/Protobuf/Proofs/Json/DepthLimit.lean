import Protobuf.Proofs.Json.Places

/-! How deep a value may nest.  A cursor opens containers up to the limit; the passage over a value
also counts a scalar as a level, so it refuses a scalar that stands in as many containers as a
cursor opens.
-/

namespace Protobuf.Json

open Text

-----------------------------------------------------------------------------------------
-- Room for containers
-----------------------------------------------------------------------------------------

/-- The reader has not failed behind the value if and only if there was room for the containers in
it.
-/
def Measures (read : Reader → Reader) (n : Node) : Prop :=
  ∀ (r : Reader) more, r.Faces n more → r.frames.length ≤ maxDepth
    → ((read r).fault = none ↔ r.frames.length + n.nesting ≤ maxDepth)

theorem Reads.measures {α : Type} {read : Reader → α × Reader} {n : Node} {v : α}
    (h : Reads read n v) (scalar : n.nesting = 0)
    : Measures (fun r => (read r).2) n := by
  intro r more faces open_
  simp only [h r more faces, scalar]
  exact ⟨fun _ => open_, fun _ => faces.sound⟩

theorem Reader.fault_malformed_ne (r : Reader) (fault : SyntaxFault)
    : (r.malformed fault).fault ≠ none :=
  Option.isSome_iff_ne_none.mp (isSome_malformed r fault)

section

variable {α : Type} {r : Reader} {more : List UInt8} {frames : List Frame}

open Reader

/-- The members of an object are read to its end if there is room for each of them: by induction on
them.
-/
theorem sound_keys_iff {read : String → α → Reader → α × Reader} {fields : List Field}
    (onward : ∀ key v (r : Reader), r.Onward (read key v r).2)
    (outcome : ∀ key v (r : Reader), r.fault = none → r.Outcome False (read key v r).2)
    (measures : ∀ field ∈ fields, ∀ v, Measures (fun r => (read field.key v r).2) field.value)
    {v : α} (behind : Bool) (sound : r.fault = none) (idle : r.pending = false)
    (inside : r.frames = ⟨.object, !behind⟩ :: frames)
    (text : r.rest = utf8 (fieldsText behind fields ++ "\x7d") ++ more)
    (opened : frames.length + 1 ≤ maxDepth)
    : (r.keys read v).2.fault = none ↔ frames.length + 1 + fieldsNesting fields ≤ maxDepth := by
  induction fields generalizing v r behind with
  | nil =>
      have reached : (Reader.inside { r with frames } .object (!behind) r.rest []).nextKey
          = (none, Reader.behind { r with frames } more []) := by
        rw [text]
        refine nextKey_end ?_ behind
        exact sound
      rw [← eq_inside idle inside] at reached
      rw [keys, reached]
      exact ⟨fun _ => opened, fun _ => sound⟩
  | cons field fields ih =>
      obtain ⟨key, n⟩ := field
      obtain ⟨first, others⟩ := List.forall_mem_cons.mp measures
      have reached := nextKey_inside (r := { r with frames }) sound behind key n fields more []
      rw [← text, ← eq_inside idle inside] at reached
      generalize reading : Reader.reached { r with frames } .object _ [] = r₁ at reached
      have faces : r₁.Faces n (utf8 (fieldsText true fields ++ "\x7d") ++ more) := by
        subst reading
        exact ⟨sound, rfl, ends_fieldsText fields more⟩
      have inner : r₁.frames = ⟨.object, false⟩ :: frames := by
        subst reading
        rfl
      have own := first v r₁ _ faces (by rw [inner]; exact opened)
      simp only [inner, List.length_cons] at own
      rw [keys_unfold onward, reached]
      simp only [fieldsNesting]
      rcases outcome key v r₁ faces.sound with failed | ⟨never, _⟩ | took
      · rw [keys_of_fault _ _ failed]
        refine ⟨fun done => ?_, fun room => ?_⟩
        · rw [done] at failed
          cases failed
        · rw [own.mpr (by omega)] at failed
          cases failed
      · exact never.elim
      · have room := own.mp took.sound
        rw [ih others true took.sound took.pending (took.frames.trans inner) (took.rest_eq faces)]
        omega

/-- The elements of an array are read to its end if there is room for each of them: by induction on
them.
-/
theorem sound_elements_iff {read : α → Reader → α × Reader} {items : List Node}
    (outcome : ∀ v (r : Reader), r.fault = none → r.Outcome False (read v r).2)
    (measures : ∀ n ∈ items, ∀ v, Measures (fun r => (read v r).2) n)
    {v : α} (behind : Bool) (sound : r.fault = none) (idle : r.pending = false)
    (inside : r.frames = ⟨.array, !behind⟩ :: frames)
    (text : r.rest = utf8 (itemsText behind items ++ "]") ++ more)
    (opened : frames.length + 1 ≤ maxDepth)
    : (r.elements read v).2.fault = none ↔ frames.length + 1 + itemsNesting items ≤ maxDepth := by
  induction items generalizing v r behind with
  | nil =>
      have reached : (Reader.inside { r with frames } .array (!behind) r.rest []).nextElement
          = (false, Reader.behind { r with frames } more []) := by
        rw [text]
        refine nextElement_end ?_ behind
        exact sound
      rw [← eq_inside idle inside] at reached
      rw [elements, reached]
      exact ⟨fun _ => opened, fun _ => sound⟩
  | cons n items ih =>
      obtain ⟨first, others⟩ := List.forall_mem_cons.mp measures
      have reached := nextElement_inside (r := { r with frames }) sound behind n items more []
      rw [← text, ← eq_inside idle inside] at reached
      generalize reading : Reader.reached { r with frames } .array _ [] = r₁ at reached
      have faces : r₁.Faces n (utf8 (itemsText true items ++ "]") ++ more) := by
        subst reading
        exact ⟨sound, rfl, ends_itemsText items more⟩
      have inner : r₁.frames = ⟨.array, false⟩ :: frames := by
        subst reading
        rfl
      have own := first v r₁ _ faces (by rw [inner]; exact opened)
      rw [inner, List.length_cons] at own
      rw [elements_unfold fun v r sound => (outcome v r sound).weaken False.elim, reached]
      simp only [itemsNesting]
      rcases outcome v r₁ faces.sound with failed | ⟨never, _⟩ | took
      · rw [elements_of_fault _ _ failed]
        refine ⟨fun done => ?_, fun room => ?_⟩
        · rw [done] at failed
          cases failed
        · rw [own.mpr (by omega)] at failed
          cases failed
      · exact never.elim
      · have room := own.mp took.sound
        rw [ih others true took.sound took.pending (took.frames.trans inner) (took.rest_eq faces)]
        omega

end

-----------------------------------------------------------------------------------------
-- Dynamic values
-----------------------------------------------------------------------------------------

mutual

/-- All numbers in the value are finite. -/
def WideNode.Finite : WideNode → Prop
  | .null | .bool _ | .string _ => True
  | .number v => IsFinite (String.ofList v.text)
  | .array items => itemsFinite items
  | .object fields => fieldsFinite fields

def itemsFinite : List WideNode → Prop
  | [] => True
  | n :: items => n.Finite ∧ itemsFinite items

def fieldsFinite : List WideField → Prop
  | [] => True
  | ⟨_, n⟩ :: fields => n.Finite ∧ fieldsFinite fields

end

section

variable {s : Schema}

mutual

/-- A dynamic value is read if there is room for its containers, by induction on the value. -/
theorem measures_value (known : s.HasWellKnown)
    (flat : ∀ name, name ∉ wellKnownNames → (s.type name).form ≠ .any) (n : Node)
    (finite : n.wide.Finite) (m : Message)
    : Measures (fun r => (readMessage s WellKnown.valueType m r).2) n := by
  intro r more faces opened
  dsimp only
  rw [readMessage_value flat, readKind, faces.peekKind]
  cases n with
  | null => exact reads_null.measures rfl r more faces opened
  | bool v => exact (reads_bool v).measures rfl r more faces opened
  | string v => exact (reads_string v).measures rfl r more faces opened
  | number v =>
      have legal : isNumber (String.ofList v.text).toList := by
        rw [String.toList_ofList]
        exact isNumber_of_isNumeral v.legal
      obtain ⟨bits, value⟩ := doubleOfText_of_finite legal finite
      have read := reads_double (reads_numericText_number "float64" v) value
      exact read.measures rfl r more faces opened
  | array items =>
      have text : r.rest = 91 :: (utf8 (itemsText false items ++ "]") ++ more) := by
        rw [faces.text, Node.text, String.append_assoc, utf8_append]
        rfl
      have opening : dropBlanks r.rest = Container.array.opening
          :: (utf8 (itemsText false items ++ "]") ++ more) := faces.dropBlanks.trans text
      simp only [Node.kind, readItems, Reader.array, Node.nesting]
      rw [Reader.enter_of_opening faces.sound opening]
      by_cases full : maxDepth ≤ r.frames.length
      · rw [if_pos full]
        exact ⟨fun sound => absurd sound (Reader.fault_malformed_ne _ _), fun room => by omega⟩
      · have room : r.frames.length + 1 ≤ maxDepth := Nat.lt_of_not_le full
        have measures (n : Node) (listed : n ∈ items) (vs : List Value)
            : Measures (fun r => (readDynamic s (readMessage s) r).2) n :=
          measures_items known flat items finite n listed
        rw [if_neg full, Nat.add_comm (itemsNesting items), ← Nat.add_assoc]
        refine sound_elements_iff
          (r := r.inside .array true (utf8 (itemsText false items ++ "]") ++ more) [])
          ?_ measures false faces.sound rfl rfl rfl room
        exact fun _ r sound => outcome_dynamic known flat sound
  | object fields =>
      have text : r.rest = 123 :: (utf8 (fieldsText false fields ++ "\x7d") ++ more) := by
        rw [faces.text, Node.text, String.append_assoc, utf8_append]
        rfl
      have opening : dropBlanks r.rest = Container.object.opening
          :: (utf8 (fieldsText false fields ++ "\x7d") ++ more) := faces.dropBlanks.trans text
      simp only [Node.kind, readFields, Reader.object, Node.nesting]
      rw [Reader.enter_of_opening faces.sound opening]
      by_cases full : maxDepth ≤ r.frames.length
      · rw [if_pos full]
        exact ⟨fun sound => absurd sound (Reader.fault_malformed_ne _ _), fun room => by omega⟩
      · have room : r.frames.length + 1 ≤ maxDepth := Nat.lt_of_not_le full
        have measures (field : Field) (listed : field ∈ fields) (es : List Entry)
            : Measures (fun r => (r.withField field.key (readDynamic s (readMessage s))).2)
              field.value :=
          fun r more faces opened => measures_fields known flat fields finite field listed
            { r with path := r.path.push field.key } more
              ⟨faces.sound, faces.text, faces.ends⟩ opened
        rw [if_neg full, Nat.add_comm (fieldsNesting fields), ← Nat.add_assoc]
        refine sound_keys_iff
          (r := r.inside .object true (utf8 (fieldsText false fields ++ "\x7d") ++ more) [])
          ?_ ?_ measures false faces.sound rfl rfl rfl room
        · exact fun key _ r => ((program_dynamic s).field key).onward (onward_readMessage flat) r
        · exact fun key _ r sound => outcome_withField_dynamic known flat key sound

theorem measures_items (known : s.HasWellKnown)
    (flat : ∀ name, name ∉ wellKnownNames → (s.type name).form ≠ .any)
    (items : List Node) (finite : itemsFinite (itemsWide items))
    : ∀ n ∈ items, Measures (fun r => (readDynamic s (readMessage s) r).2) n := by
  cases items with
  | nil => exact nofun
  | cons n items =>
      refine List.forall_mem_cons.mpr ⟨?_, measures_items known flat items finite.2⟩
      simp only [readDynamic_snd known]
      exact measures_value known flat n finite.1 _

theorem measures_fields (known : s.HasWellKnown)
    (flat : ∀ name, name ∉ wellKnownNames → (s.type name).form ≠ .any)
    (fields : List Field) (finite : fieldsFinite (fieldsWide fields))
    : ∀ field ∈ fields, Measures (fun r => (readDynamic s (readMessage s) r).2) field.value := by
  cases fields with
  | nil => exact nofun
  | cons field fields =>
      obtain ⟨key, n⟩ := field
      refine List.forall_mem_cons.mpr ⟨?_, measures_fields known flat fields finite.2⟩
      simp only [readDynamic_snd known]
      exact measures_value known flat n finite.1 _

end

end

-----------------------------------------------------------------------------------------
-- Documents
-----------------------------------------------------------------------------------------

section

variable {w : WideNode} {n : Node} {text : List Char}

/-- The text of a value is a document of the same tokens. -/
theorem beside_text (spelled : Padded n.wide.Spells text)
    : Beside (utf8 (String.ofList text)) (utf8 n.text) := by
  have own : Padded n.wide.Spells n.text.toList := padded_of_spells (n.spells_wide n.spells_text)
  have beside := beside_of_spells spelled own
  rwa [String.ofList_toList] at beside

/-- A document is passed over if the value in it has no more levels than there may be. -/
theorem skipValue_iff_levels (spelled : Padded n.wide.Spells text) (depth : Nat)
    : (∃ rest, Scanner.skipValue depth (utf8 (String.ofList text)) = .ok () rest
      ∧ dropBlanks rest = [])
      ↔ n.levels ≤ depth := by
  have agree := Scanner.follows_skipValue depth _ _ (beside_text spelled)
  have passes : Passes (Scanner.skipValue depth) (utf8 n.text) [] (n.levels ≤ depth) := by
    refine passes_skipValue n depth fun b first => ?_
    cases first
  rw [Passes, List.append_nil] at passes
  generalize Scanner.skipValue depth (utf8 (String.ofList text)) = x₁ at agree
  generalize Scanner.skipValue depth (utf8 n.text) = x₂ at agree passes
  cases agree with
  | error =>
      rcases passes with ⟨passed, _⟩ | ⟨_, deep⟩
      · cases passed
      · refine iff_of_false ?_ deep
        rintro ⟨_, passed, _⟩
        cases passed
  | ok parallel =>
      rcases passes with ⟨passed, room⟩ | ⟨⟨_, _, failed⟩, _⟩
      · cases passed
        have blank := parallel.rest.head?_dropBlanks
        exact ⟨fun _ => room, fun _ => ⟨_, rfl, List.head?_eq_none_iff.mp blank⟩⟩
      · cases failed

/-- The bytes of a value are cut out of a document that is passed over, and of no other. -/
theorem rawValue_iff_skip (r : Reader)
    : (∃ raw, r.rawValue.1 = some raw ∧ r.rawValue.2.finish.1 = none) ↔ r.skip.finish.1 = none := by
  have same : r.rawValue.2 = r.skip ∧ (r.rawValue.1 = none → r.skip.fault.isSome) := by
    cases failed : r.fault with
    | some fault =>
        rw [Reader.rawValue, Reader.skip, failed]
        exact ⟨rfl, fun _ => by rw [failed]; rfl⟩
    | none =>
        rw [Reader.rawValue, Reader.skip, failed]
        simp only [Reader.scan]
        cases Scanner.skipValue maxDepth r.beginValue.rest with
        | ok _ rest =>
            refine ⟨rfl, fun missing => ?_⟩
            cases missing
        | error fault rest => exact ⟨rfl, fun _ => Reader.isSome_malformed _ _⟩
  rw [same.1]
  constructor
  · rintro ⟨_, _, accepted⟩
    exact accepted
  intro accepted
  cases cut : r.rawValue.1 with
  | some raw => exact ⟨raw, rfl, accepted⟩
  | none =>
      have failed := same.2 cut
      rw [(finish_eq_none.mp accepted).1] at failed
      cases failed

theorem skip_iff_levels (spelled : Padded n.wide.Spells text) (registry : Option Registry)
    : (Reader.ofBytes (utf8 (String.ofList text)) registry).skip.finish.1 = none
      ↔ n.levels ≤ maxDepth :=
  (finish_skip_eq_none rfl).trans (skipValue_iff_levels spelled maxDepth)

/-- A document is read as a dynamic value if containers nest no deeper in it than they may. -/
theorem decodeInto_iff_nesting {s : Schema} (known : s.HasWellKnown)
    (flat : ∀ name, name ∉ wellKnownNames → (s.type name).form ≠ .any)
    (spelled : Padded n.wide.Spells text) (finite : n.wide.Finite)
    (registry : Option Registry) (m : Message)
    : (∃ fields, (decodeInto s registry WellKnown.valueType m (utf8 (String.ofList text))).2
      = .ok fields)
      ↔ n.nesting ≤ maxDepth := by
  have alike : (Reader.ofBytes (utf8 (String.ofList text)) registry).Alike
      (Reader.ofBytes (utf8 n.text) registry) :=
    ⟨rfl, rfl, rfl, rfl, rfl, rfl, fun _ => beside_text spelled⟩
  have faces := Reader.faces_ofBytes registry n
  have room := measures_value known flat n finite m _ _ faces (Nat.zero_le _)
  have took := (outcome_readMessage_of_fits flat (t := WellKnown.valueType) (m := m) trivial
    faces.sound).took
  obtain ⟨v, r₁, r₂, same₁, same₂, alike⟩ :=
    (same_readMessage flat WellKnown.valueType m alike).exists_eq
  rw [decodeInto_ok, same₁]
  dsimp only at room
  rw [same₂] at room took
  rw [show (Reader.ofBytes (utf8 n.text) registry).frames.length = 0 from rfl, Nat.zero_add] at room
  rw [← room]
  constructor
  · exact fun ⟨sound, _⟩ => alike.sound sound
  · intro sound
    have sound₁ : r₁.fault = none := by
      rw [← Option.not_isSome_iff_eq_none, alike.isSome_fault, sound]
      exact Bool.false_ne_true
    have blank := (alike.rest sound₁).head?_dropBlanks
    rw [(took sound).rest_eq faces] at blank
    exact ⟨sound₁, List.head?_eq_none_iff.mp blank⟩

end

/-- A JSON value with finite numbers is passed over, or cut out of its document, if it has at most
as many levels as containers may nest; and it is read as a dynamic value if its containers nest no
deeper than that.  Only a scalar in the innermost of as many containers makes a difference.
-/
theorem accepted_up_to_depth {own : List MessageType}
    (lawful : (WellKnown.schemaWith own).Lawful) (plain : ∀ t ∈ own, t.form ≠ .any) {w : WideNode}
    {text : List Char} (spelled : Padded w.Spells text) (finite : w.Finite)
    (registry : Option Registry) (m : Message)
    : let s := WellKnown.schemaWith own
      let bytes := utf8 (String.ofList text)
      let fresh := Reader.ofBytes bytes registry
      (fresh.skip.finish.1 = none ↔ ∃ n : Node, n.wide = w ∧ n.levels ≤ maxDepth)
      ∧ ((∃ raw, fresh.rawValue.1 = some raw ∧ fresh.rawValue.2.finish.1 = none)
        ↔ ∃ n : Node, n.wide = w ∧ n.levels ≤ maxDepth)
      ∧ ((∃ fields, (decodeInto s registry WellKnown.valueType m bytes).2 = .ok fields)
        ↔ ∃ n : Node, n.wide = w ∧ n.nesting ≤ maxDepth)
      ∧ ∀ n : Node, n.wide = w → n.nesting ≤ n.levels ∧ n.levels ≤ n.nesting + 1 := by
  intro s bytes fresh
  have flat := form_type_ne_any plain
  have known := hasWellKnown lawful
  have skipped : fresh.skip.finish.1 = none ↔ ∃ n : Node, n.wide = w ∧ n.levels ≤ maxDepth := by
    constructor
    · intro accepted
      obtain ⟨rest, passed, -⟩ := (finish_skip_eq_none (r := fresh) rfl).mp accepted
      obtain ⟨n, rfl⟩ := exists_node_of_skips spelled ⟨_, passed⟩
      exact ⟨n, rfl, (skip_iff_levels spelled registry).mp accepted⟩
    · rintro ⟨n, rfl, room⟩
      exact (skip_iff_levels spelled registry).mpr room
  refine ⟨skipped, (rawValue_iff_skip fresh).trans skipped, ⟨fun read => ?_, ?_⟩,
    fun n _ => n.levels_bounds⟩
  · obtain ⟨sound, -⟩ := decodeInto_ok.mp read
    have took := (outcome_readMessage_of_fits flat (t := WellKnown.valueType) (m := m) (r := fresh)
      trivial rfl).took sound
    obtain ⟨n, rfl⟩ := exists_node_of_skips spelled took.skips
    exact ⟨n, rfl, (decodeInto_iff_nesting known flat spelled finite registry m).mp read⟩
  · rintro ⟨n, rfl, room⟩
    exact (decodeInto_iff_nesting known flat spelled finite registry m).mpr room

-----------------------------------------------------------------------------------------
-- At the limit
-----------------------------------------------------------------------------------------

/-- The value in so many arrays. -/
def Node.within (n : Node) : Nat → Node
  | 0 => n
  | k + 1 => .array [n.within k]

section

variable (n : Node)

theorem nesting_within (k : Nat)
    : (n.within k).nesting = n.nesting + k := by
  induction k with
  | zero => rfl
  | succ k ih =>
      simp only [Node.within, Node.nesting, itemsNesting, ih, Nat.max_zero, Nat.add_assoc]

theorem levels_within (k : Nat)
    : (n.within k).levels = n.levels + k := by
  induction k with
  | zero => rfl
  | succ k ih => simp only [Node.within, Node.levels, itemsLevels, ih, Nat.max_zero, Nat.add_assoc]

theorem finite_within (finite : n.wide.Finite) (k : Nat)
    : (n.within k).wide.Finite := by
  induction k with
  | zero => exact finite
  | succ k ih => exact ⟨ih, trivial⟩

theorem spells_within {text : List Char} (spelled : n.Spells text) (k : Nat)
    : (n.within k).Spells (List.replicate k '[' ++ text ++ List.replicate k ']') := by
  induction k with
  | zero => simpa [Node.within] using spelled
  | succ k ih =>
      let inner := List.replicate k '[' ++ text ++ List.replicate k ']'
      refine ⟨inner, ?_, inner, [], ?_, padded_of_spells ih, rfl⟩
      · simp [inner, List.replicate_succ, ← List.replicate_succ']
      · simp [inner]

end

/-- A scalar in one array less than there may be is accepted in each way. -/
theorem accepted_up_to_depth_scalar
    : let s := WellKnown.schemaWith []
      let w := (Node.null.within 127).wide
      let text := List.replicate 127 '[' ++ "null".toList ++ List.replicate 127 ']'
      let fresh := Reader.ofBytes (utf8 (String.ofList text)) none
      s.Lawful ∧ Padded w.Spells text ∧ w.Finite ∧ fresh.skip.finish.1 = none
      ∧ (∃ raw, fresh.rawValue.1 = some raw ∧ fresh.rawValue.2.finish.1 = none)
      ∧ ∃ fields, (decodeInto s none WellKnown.valueType ⟨[.none], []⟩
          (utf8 (String.ofList text))).2 = .ok fields := by
  intro s w text fresh
  have lawful : s.Lawful := WellKnown.lawful_types
  have plain : ∀ t ∈ ([] : List MessageType), t.form ≠ .any := nofun
  have spelled : Padded w.Spells text :=
    padded_of_spells (Node.spells_wide _ (spells_within .null rfl 127))
  have finite : w.Finite := finite_within .null trivial 127
  have levels : (Node.null.within 127).levels ≤ maxDepth := by
    rw [levels_within]
    decide
  obtain ⟨skips, cuts, reads, bounds⟩ :=
    accepted_up_to_depth lawful plain spelled finite none ⟨[.none], []⟩
  exact ⟨lawful, spelled, finite, skips.mpr ⟨_, rfl, levels⟩, cuts.mpr ⟨_, rfl, levels⟩,
    reads.mpr ⟨_, rfl, Nat.le_trans (bounds _ rfl).1 levels⟩⟩

/-- A scalar in as many arrays as there may be is read as a dynamic value, but not passed over. -/
theorem scalar_at_limit
    : let s := WellKnown.schemaWith []
      let n := Node.null.within maxDepth
      let text := List.replicate 128 '[' ++ "null".toList ++ List.replicate 128 ']'
      let fresh := Reader.ofBytes (utf8 (String.ofList text)) none
      n.nesting = maxDepth ∧ n.wide.Finite ∧ Padded n.wide.Spells text
      ∧ (∃ fields, (decodeInto s none WellKnown.valueType ⟨[.none], []⟩
          (utf8 (String.ofList text))).2 = .ok fields)
      ∧ fresh.skip.finish.1 ≠ none
      ∧ ¬∃ raw, fresh.rawValue.1 = some raw ∧ fresh.rawValue.2.finish.1 = none := by
  intro s n text fresh
  have lawful : s.Lawful := WellKnown.lawful_types
  have plain : ∀ t ∈ ([] : List MessageType), t.form ≠ .any := nofun
  have nesting : n.nesting = maxDepth := (nesting_within .null maxDepth).trans (Nat.zero_add _)
  have finite : n.wide.Finite := finite_within .null trivial maxDepth
  have spelled : Padded n.wide.Spells text :=
    padded_of_spells (Node.spells_wide _ (spells_within .null rfl 128))
  have refused : fresh.skip.finish.1 ≠ none := by
    intro accepted
    have room := (skip_iff_levels spelled none).mp accepted
    rw [levels_within] at room
    exact absurd room (by decide)
  exact ⟨nesting, finite, spelled,
    (decodeInto_iff_nesting (hasWellKnown lawful)
      (form_type_ne_any plain) spelled finite none _).mpr
      (Nat.le_of_eq nesting),
    refused, fun cut => refused ((rawValue_iff_skip fresh).mp cut)⟩

end Protobuf.Json
