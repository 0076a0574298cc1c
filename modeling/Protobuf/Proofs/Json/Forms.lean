import Protobuf.Proofs.FieldMask.Naming
import Protobuf.Proofs.Json.Documents
import Protobuf.Proofs.Json.DynamicDocuments
import Protobuf.Proofs.Json.Objects
import Protobuf.Proofs.Json.Payloads
import Protobuf.Proofs.Time.ClockText
import Protobuf.Proofs.Time.SpanText

/-! Messages of the well-known types that are read from what was written for them.  What is read may
differ from what was written, but it is written in the same way again: a value without a kind is
read as null, and no number has one pattern.
-/

namespace Protobuf.Json

open FieldMask Number WellKnown

/-- The message is read from the JSON value, and is written as that again. -/
structure StandsFor (s : Schema) (t : MessageType) (n : Node) (m : Message) : Prop where
  read : ∀ slack limit path, Takes slack limit (readMessage s t (s.empty t.name)) n path m []
  written : ∀ tree mask path, messageNode s {} tree mask path t m = some n
  conforms : m.Conforms s t
  fits : m.Fits s t

variable {s : Schema} {tree : AnyTree} {mask : PathSet} {path : Path} {t : MessageType}
  {m : Message} {n : Node}

/-- A message is read as slots that do not depend on what is inside it. -/
theorem takes_readSlots (lawful : s.Lawful) {slots : List Slot}
    (h : ∀ read, Reads (readSlots s read t (s.empty t.name).slots) n slots) (slack limit : Nat)
    (path : Path)
    : Takes slack limit (readMessage s t (s.empty t.name)) n path ⟨slots, []⟩ [] := by
  have whole : Takes slack limit (readMessage s t (s.empty t.name)) n path
      ⟨slots, (s.empty t.name).unknown⟩ [] :=
    takes_slots (fun read r more faces _ _ => .inl (h read r more faces)) limit
  rw [lawful.empty_eq] at whole ⊢
  exact whole

-----------------------------------------------------------------------------------------
-- Wrapped scalars
-----------------------------------------------------------------------------------------

/-- All patterns of no number are written as one word. -/
theorem floatNode_of_nan {f : Format} {bits : Nat} (small : bits < 2 * f.signBit)
    (nan : f.infinity < bits % f.signBit)
    : floatNode f bits = .string "NaN" := by
  rcases value_cases f small with ⟨value, -⟩ | ⟨number, -⟩
  · exact floatNode_of_special (by rw [value]; rfl)
  · omega

/-- A scalar is written as the one that is read for it. -/
theorem scalarNode_canonical (config : Config) (type : ScalarType) (v : Scalar)
    : scalarNode config type v.canonical = scalarNode config type v := by
  cases v with
  | float bits =>
      cases nan : floatIsNaN bits with
      | false => rw [canonical_float (of_decide_eq_false nan)]
      | true =>
          have same : floatNode single bits.toNat = .string "NaN" :=
            floatNode_of_nan (f := single) bits.toNat_lt (of_decide_eq_true nan)
          simp only [Scalar.canonical, nan, if_true, scalarNode, same]
          exact floatNode_of_nan (f := single) (by decide) (by decide)
  | double bits =>
      cases nan : doubleIsNaN bits with
      | false => rw [canonical_double (of_decide_eq_false nan)]
      | true =>
          have same : floatNode double bits.toNat = .string "NaN" :=
            floatNode_of_nan (f := double) bits.toNat_lt (of_decide_eq_true nan)
          simp only [Scalar.canonical, nan, if_true, scalarNode, same]
          exact floatNode_of_nan (f := double) (by decide) (by decide)
  | int32 _ | int64 _ | uint32 _ | uint64 _ | bool _ | string _ | bytes _ => rfl

/-- No scalar is written as an object. -/
theorem kind_scalarNode_ne_object (type : ScalarType) (v : Scalar)
    : (scalarNode {} type v).kind ≠ .object := by
  have floating (f : Format) (bits : Nat) : (floatNode f bits).kind ≠ .object := by
    unfold floatNode
    split <;> nofun
  have enumeration (e : EnumType) (v : Int32) : (enumNode {} e v).kind ≠ .object := by
    unfold enumNode
    split
    · nofun
    · split <;> nofun
  unfold scalarNode
  split <;> first | exact enumeration _ _ | exact floating _ _ | nofun

/-- A value that is no object is read in the place of one that holds it. -/
theorem reads_wrapped {α : Type} {read : Reader → α × Reader} {v : α} (h : Reads read n v)
    (other : n.kind ≠ .object) (default : α)
    : Reads (fun r => r.wrapped default read) n v := by
  intro r more faces
  simp only [Reader.wrapped, faces.peekKind]
  cases kind : n.kind with
  | object => exact absurd kind other
  | null | bool | number | string | array => exact h r more faces

/-- A message that wraps a scalar. -/
theorem returns_wrapper (lawful : s.Lawful) {name : String} {type : ScalarType}
    (legible : type.Legible)
    (typed : m.Typed s (wrapperType name type)) (back : m.All Scalar.ReadsBack)
    (node : messageNode s {} tree mask path (wrapperType name type) m = some n)
    : ∃ v : Scalar, m.slots = [.one (.scalar v)]
        ∧ StandsFor s (wrapperType name type) n ⟨[.one (.scalar v.canonical)], []⟩ := by
  obtain ⟨slots, unknown⟩ := m
  obtain ⟨slot, others, rfl, one, none⟩ := slotsKnown_cons typed.1
  obtain ⟨v, rfl, known⟩ := Slot.one_of_known one rfl
  obtain ⟨v, rfl, isType⟩ := scalar_of_known known
  cases slotsKnown_nil none
  cases node
  have canonical : v.canonical.hasType type := hasType_canonical isType
  have read := reads_wrapped (reads_scalar isType legible back.1 {})
    (kind_scalarNode_ne_object type v) type.default
  refine ⟨v, rfl, ?_, fun tree mask path => ?_, ⟨⟨canonical, rfl⟩, rfl⟩, ⟨trivial, trivial⟩⟩
  · exact takes_readSlots lawful fun _ => read.map fun v => [Slot.one (.scalar v)]
  · exact congrArg some (scalarNode_canonical {} type v)

-----------------------------------------------------------------------------------------
-- Times
-----------------------------------------------------------------------------------------

theorem reads_timestamp {v : Time.Timestamp} (h : timeNode v.text = some n)
    : Reads Reader.timestamp n v := by
  cases written : v.text with
  | error e => rw [written] at h; cases h
  | ok text =>
      rw [written] at h
      cases h
      intro r more faces
      simp only [Reader.timestamp, reads_stringAs "timestamp" text r more faces,
        Time.Timestamp.ofText_text written]

theorem reads_duration {v : Time.Duration} (h : timeNode v.text = some n)
    : Reads Reader.duration n v := by
  cases written : v.text with
  | error e => rw [written] at h; cases h
  | ok text =>
      rw [written] at h
      cases h
      intro r more faces
      simp only [Reader.duration, reads_stringAs "duration" text r more faces,
        Time.Duration.ofText_text written]

theorem returns_timestamp (lawful : s.Lawful) (typed : m.Typed s timestampType)
    (node : messageNode s {} tree mask path timestampType m = some n)
    : StandsFor s timestampType n ⟨m.slots, []⟩ := by
  obtain ⟨slots, unknown⟩ := m
  obtain ⟨v, u, rfl, seconds, nanos⟩ := scalars_of_pair rfl typed.1
  cases v <;> cases seconds
  cases u <;> cases nanos
  rename_i v u
  have read := reads_timestamp (v := ⟨v, u⟩) node
  refine ⟨?_, fun tree mask path => node, ⟨⟨rfl, rfl, rfl⟩, rfl⟩, ⟨trivial, trivial, trivial⟩⟩
  exact takes_readSlots lawful fun _ => read.map fun v =>
    [Slot.one (.scalar (.int64 v.seconds)), .one (.scalar (.int32 v.nanos))]

theorem returns_duration (lawful : s.Lawful) (typed : m.Typed s durationType)
    (node : messageNode s {} tree mask path durationType m = some n)
    : StandsFor s durationType n ⟨m.slots, []⟩ := by
  obtain ⟨slots, unknown⟩ := m
  obtain ⟨v, u, rfl, seconds, nanos⟩ := scalars_of_pair rfl typed.1
  cases v <;> cases seconds
  cases u <;> cases nanos
  rename_i v u
  have read := reads_duration (v := ⟨v, u⟩) node
  refine ⟨?_, fun tree mask path => node, ⟨⟨rfl, rfl, rfl⟩, rfl⟩, ⟨trivial, trivial, trivial⟩⟩
  exact takes_readSlots lawful fun _ => read.map fun v =>
    [Slot.one (.scalar (.int64 v.seconds)), .one (.scalar (.int32 v.nanos))]

-----------------------------------------------------------------------------------------
-- Field masks
-----------------------------------------------------------------------------------------

/-- No path is lost from the text that joins them: none is empty, unless that is the only one. -/
def Rejoins (joined : String) : Prop :=
  joined = "" ∨ [] ∉ joined.toList.splitOn ','

instance : DecidablePred Rejoins :=
  fun _ => inferInstanceAs (Decidable (_ ∨ _))

/-- What stands between commas, but for the commas themselves, by induction on the pieces. -/
theorem mem_intercalate {c : Char} (other : c ≠ ',') (pieces : List (List Char))
    : c ∈ [','].intercalate pieces ↔ ∃ piece ∈ pieces, c ∈ piece := by
  induction pieces with
  | nil => simp
  | cons piece pieces ih =>
      cases pieces with
      | nil => simp
      | cons next pieces =>
          simp only [List.intercalate_cons_cons, List.mem_append, List.mem_singleton, other,
            or_false, ih, List.exists_mem_cons_iff]

/-- The paths of a joined text are written as that text. -/
theorem exists_paths_of_text {joined : String} (plain : '_' ∉ joined.toList)
    (whole : Rejoins joined)
    : ∃ paths, Reader.pathsOfText joined = .ok paths
        ∧ fieldMaskNode {} paths = some (.string joined) := by
  let pieces := joined.toList.splitOn ','
  have joins : [','].intercalate pieces = joined.toList := List.intercalate_splitOn ','
  have camel : ∀ text ∈ (pieces.filter fun path => !path.isEmpty).map String.ofList,
      '_' ∉ text.toList := by
    intro text listed
    obtain ⟨piece, kept, rfl⟩ := List.mem_map.mp listed
    rw [String.toList_ofList]
    intro inside
    rw [← joins, mem_intercalate (by decide)] at plain
    exact plain ⟨piece, List.mem_of_mem_filter kept, inside⟩
  obtain ⟨paths, read, written⟩ := exists_paths_of_camel camel
  refine ⟨paths, read, ?_⟩
  have text : String.intercalate "," ((pieces.filter fun path => !path.isEmpty).map String.ofList)
      = joined := by
    rcases whole with rfl | nonempty
    · rfl
    · have all : pieces.filter (fun path => !path.isEmpty) = pieces :=
        List.filter_eq_self.mpr fun piece listed => by
          cases piece with
          | nil => exact absurd listed nonempty
          | cons c piece => rfl
      refine String.toList_injective ?_
      rw [all, String.toList_intercalate, List.map_map]
      simpa using joins
  simp only [fieldMaskNode, Bool.false_eq_true, if_false, written, text]

/-- The text of a field mask has no empty path beside others, which would get lost. -/
def PathsReturn (t : MessageType) (slots : List Slot) : Prop :=
  t.form = .fieldMask → ∀ joined,
    scalarFormNode {} (fun _ _ _ => none) .root t slots = some (.string joined) → Rejoins joined

theorem reads_fieldMask {joined : String} {paths : List String}
    (read : Reader.pathsOfText joined = .ok paths)
    : Reads Reader.fieldMask (.string joined) paths := by
  intro r more faces
  simp only [Reader.fieldMask, faces.peekKind, Node.kind,
    reads_stringAs "field mask" joined r more faces, read]

/-- A field mask is written as paths that hold no underscore. -/
theorem exists_text_of_paths {paths : List String} (h : fieldMaskNode {} paths = some n)
    : ∃ joined, n = .string joined ∧ '_' ∉ joined.toList := by
  simp only [fieldMaskNode, Bool.false_eq_true, if_false] at h
  split at h
  · rename_i camel written
    cases h
    refine ⟨_, rfl, fun inside => ?_⟩
    rw [String.toList_intercalate] at inside
    obtain ⟨piece, listed, inside⟩ := (mem_intercalate (by decide) _).mp inside
    obtain ⟨text, member, rfl⟩ := List.mem_map.mp listed
    exact not_mem_of_mapM_toCamelCase written text member inside
  · cases h

theorem returns_fieldMask (lawful : s.Lawful) (returns : PathsReturn fieldMaskType m.slots)
    (typed : m.Typed s fieldMaskType)
    (node : messageNode s {} tree mask path fieldMaskType m = some n)
    : ∃ paths : List String,
        StandsFor s fieldMaskType n
          ⟨[.many (paths.map fun path => .scalar (.string path))], []⟩ := by
  obtain ⟨slots, unknown⟩ := m
  obtain ⟨slot, others, rfl, many, none⟩ := slotsKnown_cons typed.1
  obtain ⟨vs, rfl, -⟩ := Slot.many_of_known many rfl
  cases slotsKnown_nil none
  obtain ⟨joined, rfl, plain⟩ := exists_text_of_paths node
  obtain ⟨paths, read, written⟩ := exists_paths_of_text plain (returns rfl joined node)
  refine ⟨paths, ?_, fun tree mask path => ?_, ?_, ?_⟩
  · exact takes_readSlots lawful fun _ => (reads_fieldMask read).map fun paths =>
      [Slot.many (paths.map fun path => .scalar (.string path))]
  · refine Eq.trans (congrArg (fieldMaskNode {}) ?_) written
    simp [List.filterMap_map]
  · have conforms : elementsConform s (.scalar (.string Option.none))
        (paths.map fun path => .scalar (.string path)) :=
      elementsConform_iff.mpr fun v listed => by
        obtain ⟨path, -, rfl⟩ := List.mem_map.mp listed
        rfl
    exact ⟨⟨conforms, rfl⟩, rfl⟩
  · have fits : elementsFit s (.scalar (.string Option.none))
        (paths.map fun path => .scalar (.string path)) :=
      elementsFit_iff.mpr fun v listed => by
        obtain ⟨path, -, rfl⟩ := List.mem_map.mp listed
        trivial
    exact ⟨⟨rfl, fits⟩, trivial⟩

-----------------------------------------------------------------------------------------
-- Dynamic values
-----------------------------------------------------------------------------------------

/-- What is written for the message is the JSON value of a dynamic value that nests no deeper. -/
def WrittenAsTree (s : Schema) (tree : AnyTree) (mask : PathSet) (m : Message) : Prop :=
  ∀ path n, messageNode s {} tree mask path valueType m = some n
    → ∃ τ : Tree, τ.Legible ∧ τ.node = n ∧ τ.message.nesting ≤ m.nesting

/-- The entries of a struct are written as the fields of a tree, by induction on them. -/
theorem exists_treeFields (known : s.HasWellKnown) {es : List Entry} {fields : List Field}
    (values : ∀ e ∈ es, ∃ m, e.value = .message m ∧ WrittenAsTree s tree mask m)
    (strings : ∀ e ∈ es, e.key.hasType (.string none))
    (node : structFields s {} tree mask path es = some fields)
    : ∃ own, Tree.fieldsLegible own ∧ Tree.fieldNodes own = fields
        ∧ (Tree.fieldEntries own).map (·.key) = es.map (·.key)
        ∧ entriesNesting (Tree.fieldEntries own) ≤ entriesNesting es := by
  induction es generalizing fields with
  | nil =>
      cases node
      exact ⟨[], trivial, rfl, rfl, Nat.le_refl _⟩
  | cons e es ih =>
      obtain ⟨key, v⟩ := e
      obtain ⟨⟨m, rfl, own⟩, later⟩ := List.forall_mem_cons.mp values
      obtain ⟨isString, others⟩ := List.forall_mem_cons.mp strings
      cases key with
      | string key =>
          obtain ⟨n, first, node⟩ := Option.bind_eq_some_iff.mp node
          obtain ⟨behind, rest, same⟩ := Option.bind_eq_some_iff.mp node
          cases same
          rw [valueNode, type_value known] at first
          obtain ⟨τ, legible, rfl, depth⟩ := own _ _ first
          obtain ⟨own, all, rfl, keys, depths⟩ := ih later others rest
          refine ⟨⟨key, τ⟩ :: own, ⟨legible, all⟩, rfl, congrArg (Scalar.string key :: ·) keys, ?_⟩
          simp only [Tree.fieldEntries, List.map_cons, entriesNesting, Value.nesting] at depths ⊢
          omega
      | int32 _ | int64 _ | uint32 _ | uint64 _ | bool _ | float _ | double _ | bytes _ =>
          cases isString

/-- The elements of a list are written as the items of a tree, by induction on them. -/
theorem exists_treeItems (known : s.HasWellKnown) {vs : List Value} {nodes : List Node}
    (values : ∀ v ∈ vs, ∃ m, v = .message m ∧ WrittenAsTree s tree mask m)
    (node : itemNodes s {} tree mask path vs = some nodes)
    : ∃ items, Tree.itemsLegible items ∧ Tree.nodes items = nodes
        ∧ elementsNesting (Tree.messages items) ≤ elementsNesting vs := by
  induction vs generalizing nodes with
  | nil =>
      cases node
      exact ⟨[], trivial, rfl, Nat.le_refl _⟩
  | cons v vs ih =>
      obtain ⟨⟨m, rfl, own⟩, later⟩ := List.forall_mem_cons.mp values
      obtain ⟨n, first, node⟩ := Option.bind_eq_some_iff.mp node
      obtain ⟨behind, rest, same⟩ := Option.bind_eq_some_iff.mp node
      cases same
      rw [type_value known] at first
      obtain ⟨τ, legible, rfl, depth⟩ := own _ _ first
      obtain ⟨items, all, rfl, depths⟩ := ih later rest
      refine ⟨τ :: items, ⟨legible, all⟩, rfl, ?_⟩
      simp only [Tree.messages, elementsNesting, Value.nesting] at depths ⊢
      omega

/-- The entries of a `Struct` hold `Value`s that nest less deep, by induction on them. -/
theorem messages_of_entriesKnown (known : s.HasWellKnown) {es : List Entry}
    (typed : entriesConform s (.message "google.protobuf.Value") (entriesKnown es))
    (back : entriesAll Scalar.ReadsBack es)
    : ∀ e ∈ es, ∃ m, e.value = .message m ∧ m.Typed s valueType ∧ m.All Scalar.ReadsBack
        ∧ m.nesting < entriesNesting es := by
  induction es with
  | nil => exact fun e listed => absurd listed List.not_mem_nil
  | cons e es ih =>
      obtain ⟨key, v⟩ := e
      obtain ⟨m, rfl, own⟩ := message_of_known typed.1
      rw [type_value known] at own
      simp only [entriesNesting, Value.nesting]
      refine List.forall_mem_cons.mpr ⟨⟨m, rfl, own, back.1, by omega⟩, fun e listed => ?_⟩
      obtain ⟨m, same, own, texts, less⟩ := ih typed.2 back.2 e listed
      exact ⟨m, same, own, texts, by omega⟩

theorem messages_of_elementsKnown (known : s.HasWellKnown) {vs : List Value}
    (typed : elementsConform s (.message "google.protobuf.Value") (elementsKnown vs))
    (back : elementsAll Scalar.ReadsBack vs)
    : ∀ v ∈ vs, ∃ m, v = .message m ∧ m.Typed s valueType ∧ m.All Scalar.ReadsBack
        ∧ m.nesting < elementsNesting vs := by
  induction vs with
  | nil => nofun
  | cons v vs ih =>
      obtain ⟨m, rfl, own⟩ := message_of_known typed.1
      rw [type_value known] at own
      simp only [elementsNesting, Value.nesting]
      refine List.forall_mem_cons.mpr ⟨⟨m, rfl, own, back.1, by omega⟩, fun v listed => ?_⟩
      obtain ⟨m, same, own, texts, less⟩ := ih typed.2 back.2 v listed
      exact ⟨m, same, own, texts, by omega⟩

/-- A `Struct` is written as the fields of a tree if the values in it are written as trees. -/
theorem exists_treeStruct (known : s.HasWellKnown) (typed : m.Typed s structType)
    (back : m.All Scalar.ReadsBack)
    (values : ∀ inner : Message, inner.Typed s valueType → inner.All Scalar.ReadsBack
      → inner.nesting < m.nesting → WrittenAsTree s tree mask inner)
    (node : messageNode s {} tree mask path structType m = some n)
    : ∃ own, n = .object (Tree.fieldNodes own) ∧ Tree.fieldsLegible own
        ∧ Ordered (.string none) (Tree.fieldEntries own)
        ∧ entriesNesting (Tree.fieldEntries own) ≤ m.nesting := by
  obtain ⟨slots, unknown⟩ := m
  obtain ⟨slot, others, rfl, own, none⟩ := slotsKnown_cons typed.1
  cases slotsKnown_nil none
  obtain ⟨es, rfl, ordered, entries⟩ := Slot.entries_of_known own rfl
  have nesting : Message.nesting ⟨[.entries es], unknown⟩ = entriesNesting es := Nat.max_zero _
  rw [nesting] at values ⊢
  obtain ⟨fields, inside, rfl⟩ := Option.map_eq_some_iff.mp node
  obtain ⟨own, legible, rfl, keys, depth⟩ := exists_treeFields known
    (fun e listed => (messages_of_entriesKnown known entries back.1 e listed).imp
      fun m ⟨same, isValue, texts, less⟩ => ⟨same, values m isValue texts less⟩)
    ordered.typed inside
  exact ⟨own, rfl, legible, by rwa [ordered_iff_keys, keys, ← ordered_iff_keys], depth⟩

/-- A `ListValue` is written as the items of a tree if the values in it are written as trees. -/
theorem exists_treeList (known : s.HasWellKnown) (typed : m.Typed s listValueType)
    (back : m.All Scalar.ReadsBack)
    (values : ∀ inner : Message, inner.Typed s valueType → inner.All Scalar.ReadsBack
      → inner.nesting < m.nesting → WrittenAsTree s tree mask inner)
    (node : messageNode s {} tree mask path listValueType m = some n)
    : ∃ items, n = .array (Tree.nodes items) ∧ Tree.itemsLegible items
        ∧ elementsNesting (Tree.messages items) ≤ m.nesting := by
  obtain ⟨slots, unknown⟩ := m
  obtain ⟨slot, others, rfl, own, none⟩ := slotsKnown_cons typed.1
  cases slotsKnown_nil none
  obtain ⟨vs, rfl, elements⟩ := Slot.many_of_known own rfl
  have nesting : Message.nesting ⟨[.many vs], unknown⟩ = elementsNesting vs := Nat.max_zero _
  rw [nesting] at values ⊢
  obtain ⟨nodes, inside, rfl⟩ := Option.map_eq_some_iff.mp node
  obtain ⟨items, legible, rfl, depth⟩ := exists_treeItems known
    (fun v listed => (messages_of_elementsKnown known elements back.1 v listed).imp
      fun m ⟨same, isValue, texts, less⟩ => ⟨same, values m isValue texts less⟩) inside
  exact ⟨items, rfl, legible, depth⟩

/-- A value is written as a tree, by induction on how deep it nests. -/
theorem writtenAsTree_of_typed (known : s.HasWellKnown) (typed : m.Typed s valueType)
    (back : m.All Scalar.ReadsBack)
    : WrittenAsTree s tree mask m := by
  generalize depth : m.nesting = d
  induction d using Nat.strongRecOn generalizing m with
  | _ d ih =>
      subst depth
      intro path n node
      obtain ⟨slots, unknown⟩ := m
      obtain ⟨slot, others, rfl, own, none⟩ := slotsKnown_cons typed.1
      cases slotsKnown_nil none
      rcases Slot.choice_of_known own rfl with rfl | ⟨tag, v, a, rfl, found, kind⟩
      · cases node
        exact ⟨.null, trivial, rfl, Nat.le_refl _⟩
      · have tagged : a.tag = tag := by simpa using List.find?_some found
        have listed := List.mem_of_find?_eq_some found
        subst tagged
        have inside {inner : Message} (less : inner.nesting < v.nesting)
            : inner.nesting < Message.nesting ⟨[.choice a.tag v], unknown⟩ :=
          Nat.lt_of_lt_of_le less (Nat.le_max_left _ _)
        simp only [List.mem_cons, List.not_mem_nil, or_false] at listed
        rcases listed with rfl | rfl | rfl | rfl | rfl | rfl
        · obtain ⟨v, rfl, isType⟩ := scalar_of_known kind
          cases v <;> cases isType
          cases node
          exact ⟨.null, trivial, rfl, Nat.le_refl _⟩
        · obtain ⟨v, rfl, isType⟩ := scalar_of_known kind
          cases v <;> cases isType
          rename_i bits
          cases special : specialText (double.value bits.toNat) with
          | some text =>
              simp [messageNode, valueType, kindNode, dynamicNode, special] at node
          | none =>
              simp only [messageNode, valueType, kindNode, dynamicNode, special] at node
              cases node
              exact ⟨.number bits, ⟨special, back.1⟩, rfl, Nat.le_refl _⟩
        · obtain ⟨v, rfl, isType⟩ := scalar_of_known kind
          cases v <;> cases isType
          cases node
          exact ⟨.text _, trivial, rfl, Nat.le_refl _⟩
        · obtain ⟨v, rfl, isType⟩ := scalar_of_known kind
          cases v <;> cases isType
          cases node
          exact ⟨.bool _, trivial, rfl, Nat.le_refl _⟩
        · obtain ⟨struct, rfl, whole⟩ := message_of_known kind
          have node : messageNode s {} tree mask path (s.type "google.protobuf.Struct") struct
            = some n := node
          rw [type_struct known] at whole node
          obtain ⟨own, rfl, legible, ordered, depth⟩ := exists_treeStruct known whole back.1
            (fun inner isValue texts less =>
              ih _ (inside (Nat.lt_succ_of_lt less)) isValue texts rfl) node
          refine ⟨.struct own, ⟨ordered, legible⟩, rfl, ?_⟩
          rw [Tree.message, Tree.insertFields_of_ordered ordered]
          simp only [Tree.ofKind, Message.nesting, slotsNesting, Slot.nesting, Value.nesting]
          omega
        · obtain ⟨list, rfl, whole⟩ := message_of_known kind
          have node : messageNode s {} tree mask path (s.type "google.protobuf.ListValue") list
            = some n := node
          rw [type_listValue known] at whole node
          obtain ⟨items, rfl, legible, depth⟩ := exists_treeList known whole back.1
            (fun inner isValue texts less =>
              ih _ (inside (Nat.lt_succ_of_lt less)) isValue texts rfl) node
          refine ⟨.list items, legible, rfl, ?_⟩
          simp only [Tree.message, Tree.ofKind, Message.nesting, slotsNesting, Slot.nesting,
            Value.nesting]
          omega

mutual

/-- Dynamic values have no lists with a capacity, and all scalars in them are written. -/
theorem settled_tree (known : s.HasWellKnown) (τ : Tree) (legible : τ.Legible)
    : τ.message.Fits s valueType ∧ τ.message.normal s valueType = τ.message := by
  cases τ with
  | null | number bits | text v | bool v => exact ⟨⟨trivial, trivial⟩, rfl⟩
  | struct fields =>
      obtain ⟨fits, normal⟩ := settled_treeFields known fields legible.2
      have inside : Message.Fits s structType ⟨[.entries (Tree.fieldEntries fields)], []⟩
          ∧ Message.normal s structType ⟨[.entries (Tree.fieldEntries fields)], []⟩
            = ⟨[.entries (Tree.fieldEntries fields)], []⟩ :=
        ⟨⟨fits, trivial⟩, congrArg (fun es => (⟨[.entries es], []⟩ : Message)) normal⟩
      rw [← type_struct known] at inside
      rw [Tree.message, Tree.insertFields_of_ordered legible.1]
      exact ⟨⟨inside.1, trivial⟩, congrArg (fun m => Tree.ofKind 5 (.message m)) inside.2⟩
  | list items =>
      obtain ⟨fits, normal⟩ := settled_treeItems known items legible
      have inside : Message.Fits s listValueType ⟨[.many (Tree.messages items)], []⟩
          ∧ Message.normal s listValueType ⟨[.many (Tree.messages items)], []⟩
            = ⟨[.many (Tree.messages items)], []⟩ :=
        ⟨⟨⟨rfl, fits⟩, trivial⟩, congrArg (fun vs => (⟨[.many vs], []⟩ : Message)) normal⟩
      rw [← type_listValue known] at inside
      exact ⟨⟨inside.1, trivial⟩, congrArg (fun m => Tree.ofKind 6 (.message m)) inside.2⟩

theorem settled_treeFields (known : s.HasWellKnown) (fields : List TreeField)
    (legible : Tree.fieldsLegible fields)
    : entriesFit s (.message "google.protobuf.Value") (Tree.fieldEntries fields)
      ∧ entriesNormal s (.message "google.protobuf.Value") (Tree.fieldEntries fields)
        = Tree.fieldEntries fields := by
  cases fields with
  | nil => exact ⟨trivial, rfl⟩
  | cons field fields =>
      cases field with
      | mk key value =>
          have own := settled_tree known value legible.1
          obtain ⟨fits, normal⟩ := settled_treeFields known fields legible.2
          rw [← type_value known] at own
          exact ⟨⟨own.1, fits⟩,
            congrArg₂ (fun m es => (⟨.string key, .message m⟩ : Entry) :: es) own.2 normal⟩

theorem settled_treeItems (known : s.HasWellKnown) (items : List Tree)
    (legible : Tree.itemsLegible items)
    : elementsFit s (.message "google.protobuf.Value") (Tree.messages items)
      ∧ elementsNormal s (.message "google.protobuf.Value") (Tree.messages items)
        = Tree.messages items := by
  cases items with
  | nil => exact ⟨trivial, rfl⟩
  | cons item items =>
      have own := settled_tree known item legible.1
      obtain ⟨fits, normal⟩ := settled_treeItems known items legible.2
      rw [← type_value known] at own
      exact ⟨⟨own.1, fits⟩, congrArg₂ (fun m vs => Value.message m :: vs) own.2 normal⟩

end

/-- What is read for a message of a well-known type other than `Any`: it nests no deeper than the
message, and comes back from its bytes if no sign of a zero is lost.
-/
def Succeeds (s : Schema) (t : MessageType) (m : Message) (n : Node) (next : Message) : Prop :=
  StandsFor s t n next ∧ next.nesting ≤ m.nesting
    ∧ (Unsigned .root t m.slots → next.normal s t = next)

theorem succeeds_value (lawful : s.Lawful) (known : s.HasWellKnown) (typed : m.Typed s valueType)
    (back : m.All Scalar.ReadsBack)
    (node : messageNode s {} tree mask path valueType m = some n)
    : ∃ next, Succeeds s valueType m n next := by
  obtain ⟨τ, legible, rfl, depth⟩ := writtenAsTree_of_typed known typed back path n node
  obtain ⟨fits, normal⟩ := settled_tree known τ legible
  exact ⟨τ.message, ⟨fun _ limit path => takes_treeMessage lawful known path τ legible limit,
    fun _ _ path => messageNode_tree known path τ legible, conforms_tree known τ, fits⟩, depth,
    fun _ => normal⟩

theorem succeeds_struct (lawful : s.Lawful) (known : s.HasWellKnown) (typed : m.Typed s structType)
    (back : m.All Scalar.ReadsBack)
    (node : messageNode s {} tree mask path structType m = some n)
    : ∃ next, Succeeds s structType m n next := by
  obtain ⟨fields, rfl, legible, ordered, depth⟩ := exists_treeStruct known typed back
    (fun _ isValue texts _ => writtenAsTree_of_typed known isValue texts) node
  obtain ⟨fits, normal⟩ := settled_treeFields known fields legible
  obtain ⟨-, conforms⟩ := conforms_fields known fields ordered_nil trivial
  rw [Tree.insertFields_of_ordered ordered] at conforms
  refine ⟨⟨[.entries (Tree.fieldEntries fields)], []⟩,
    ⟨fun _ limit path => takes_structMessage lawful known path legible ordered limit,
      fun _ _ path => ?_, ⟨⟨⟨ordered, conforms⟩, rfl⟩, rfl⟩, ⟨fits, trivial⟩⟩, ?_, fun _ => ?_⟩
  · exact congrArg (Option.map Node.object) (structFields_tree known path fields legible)
  · exact Nat.max_le.mpr ⟨depth, Nat.zero_le _⟩
  · exact congrArg (fun es => (⟨[.entries es], []⟩ : Message)) normal

theorem succeeds_list (lawful : s.Lawful) (known : s.HasWellKnown) (typed : m.Typed s listValueType)
    (back : m.All Scalar.ReadsBack)
    (node : messageNode s {} tree mask path listValueType m = some n)
    : ∃ next, Succeeds s listValueType m n next := by
  obtain ⟨items, rfl, legible, depth⟩ := exists_treeList known typed back
    (fun _ isValue texts _ => writtenAsTree_of_typed known isValue texts) node
  obtain ⟨fits, normal⟩ := settled_treeItems known items legible
  refine ⟨⟨[.many (Tree.messages items)], []⟩,
    ⟨fun _ limit path => takes_listMessage lawful known path legible limit, fun _ _ path => ?_,
      ⟨⟨conforms_items known items, rfl⟩, rfl⟩, ⟨⟨rfl, fits⟩, trivial⟩⟩, ?_, fun _ => ?_⟩
  · exact congrArg (Option.map Node.array) (itemNodes_tree known path items legible)
  · exact Nat.max_le.mpr ⟨depth, Nat.zero_le _⟩
  · exact congrArg (fun vs => (⟨[.many vs], []⟩ : Message)) normal

theorem succeeds_empty (lawful : s.Lawful) (known : s.HasWellKnown) (typed : m.Typed s emptyType)
    (node : messageNode s {} tree mask path emptyType m = some n)
    : ∃ next, Succeeds s emptyType m n next := by
  obtain ⟨slots, unknown⟩ := m
  cases slotsKnown_nil typed.1
  cases node
  have empty : s.empty emptyType.name = ⟨[], []⟩ := by
    rw [lawful.empty_eq, known emptyType (by simp [types])]
    rfl
  refine ⟨⟨[], []⟩, ⟨fun slack limit path => ?_, fun _ _ _ => rfl, ⟨rfl, rfl⟩, trivial⟩,
    Nat.le_refl _, fun _ => rfl⟩
  rw [empty]
  refine takes_slots (fun read r more faces _ _ => ?_) limit
  have none : TakesFields slack r.rest.length (readKey s read emptyType) r.path [] [] [] [] :=
    .nil []
  exact object_of_faces faces none

theorem canonical_unsigned {v : Scalar} (unsigned : v.positiveZero = v)
    : v.canonical.positiveZero = v.canonical := by
  cases v with
  | float bits =>
      cases nan : floatIsNaN bits with
      | false => rwa [canonical_float (of_decide_eq_false nan)]
      | true =>
          simp only [Scalar.canonical, nan, if_true]
          rfl
  | double bits =>
      cases nan : doubleIsNaN bits with
      | false => rwa [canonical_double (of_decide_eq_false nan)]
      | true =>
          simp only [Scalar.canonical, nan, if_true]
          rfl
  | int32 _ | int64 _ | uint32 _ | uint64 _ | bool _ | string _ | bytes _ => rfl

/-- A message that holds no floats comes back from its bytes as it is. -/
theorem normal_of_returns (json : t.HasJson) (flat : t.form ∈ [.timestamp, .duration, .fieldMask])
    {next : Message} (returns : StandsFor s t n next)
    : next.normal s t = next := by
  obtain ⟨slots, unknown⟩ := next
  have forms : t.form ∉ [.members, .struct, .value, .listValue, .filler] := by
    intro listed
    simp only [List.mem_cons, List.not_mem_nil, or_false] at flat listed
    rcases flat with same | same | same <;> simp [same] at listed
  have unsigned : Unsigned .root t slots := by
    rintro (same | same) <;> simp [same] at flat
  exact congrArg (Message.mk · unknown) (slotsNormal_scalarForm json forms
    (Message.Conforms.typed _ returns.conforms).1 unsigned)

/-- The message is written as its scalar. -/
theorem succeeds_wrapper (lawful : s.Lawful) {name : String} {type : ScalarType}
    (legible : type.Legible) (typed : m.Typed s (wrapperType name type))
    (back : m.All Scalar.ReadsBack)
    (node : messageNode s {} tree mask path (wrapperType name type) m = some n)
    : ∃ next, Succeeds s (wrapperType name type) m n next := by
  obtain ⟨v, slots, returns⟩ := returns_wrapper lawful legible typed back node
  refine ⟨_, returns, Nat.zero_le _, fun unsigned => ?_⟩
  have plain := canonical_unsigned (unsigned (.inr rfl) v slots)
  exact congrArg (fun v => (⟨[.one (.scalar v)], []⟩ : Message)) plain

theorem elementsNesting_texts (texts : List String)
    : elementsNesting (texts.map fun text => .scalar (.string text)) = 0 := by
  induction texts with
  | nil => rfl
  | cons text texts ih => simpa [elementsNesting, Value.nesting] using ih

/-- A message of a well-known type other than `Any` is read from what was written for it as one
that is written so again, by cases on the type.
-/
theorem exists_next (lawful : s.Lawful) (known : s.HasWellKnown) (listed : t ∈ types)
    (other : t.form ≠ .any) (typed : m.Typed s t) (back : m.All Scalar.ReadsBack)
    (paths : PathsReturn t m.slots) (node : messageNode s {} tree mask path t m = some n)
    : ∃ next, Succeeds s t m n next := by
  simp only [types, wrapperTypes, List.cons_append, List.nil_append, List.mem_cons,
    List.not_mem_nil, or_false] at listed
  rcases listed with rfl | rfl | rfl | rfl | rfl | rfl | rfl | rfl | wrapper
  · exact absurd rfl other
  · have returns := returns_duration lawful typed node
    exact ⟨_, returns, by cases m; exact Nat.le_refl _,
      fun _ => normal_of_returns (hasJson_wellKnown _ (by simp [types])) (by decide) returns⟩
  · have returns := returns_timestamp lawful typed node
    exact ⟨_, returns, by cases m; exact Nat.le_refl _,
      fun _ => normal_of_returns (hasJson_wellKnown _ (by simp [types])) (by decide) returns⟩
  · exact succeeds_struct lawful known typed back node
  · exact succeeds_value lawful known typed back node
  · exact succeeds_list lawful known typed back node
  · obtain ⟨next, returns⟩ := returns_fieldMask lawful paths typed node
    refine ⟨_, returns, ?_,
      fun _ => normal_of_returns (hasJson_wellKnown _ (by simp [types])) (by decide) returns⟩
    simp [Message.nesting, slotsNesting, Slot.nesting, elementsNesting_texts]
  · exact succeeds_empty lawful known typed node
  · rcases wrapper with rfl | rfl | rfl | rfl | rfl | rfl | rfl | rfl | rfl <;>
      exact succeeds_wrapper lawful trivial typed back node

end Protobuf.Json
