import Protobuf.Proofs.Json.Documents
import Protobuf.Proofs.Json.Dynamic

/-! Documents of dynamic values.  What is written for a `Value`, a `Struct` or a `ListValue` fails
at its first number that is not finite, under the keys that lead there, and leads back to the
message as deep as the reader steps into containers.
-/

namespace Protobuf

open Json Number

-----------------------------------------------------------------------------------------
-- Kinds in the order in which they are written
-----------------------------------------------------------------------------------------

mutual

/-- The kinds of the dynamic values inside a message in the order in which they are written, each
behind the keys that lead to it.
-/
def Message.kinds (keys : List String) : Message → List (List String × Option Value)
  | ⟨slots, _⟩ => slotsKinds keys slots

/-- The kinds in the slots of a dynamic value, and the keys that lead to them. -/
def slotsKinds (keys : List String) : List Slot → List (List String × Option Value)
  | .none :: _ => [(keys, none)]
  | .choice _ v :: _ => (keys, some v) :: v.kindsInside keys
  | .entries es :: _ => entriesKinds keys es
  | .many vs :: _ => elementsKinds keys vs
  | _ => []

/-- The kinds in a value, and the keys that lead to them. -/
def Value.kindsInside (keys : List String) : Value → List (List String × Option Value)
  | .scalar _ => []
  | .message m => m.kinds keys

/-- The kinds in the entries of a struct, each under its key. -/
def entriesKinds (keys : List String) : List Entry → List (List String × Option Value)
  | [] => []
  | ⟨key, v⟩ :: es => v.kindsInside (keys ++ [keyText key]) ++ entriesKinds keys es

/-- The kinds in the elements of a list, which have no keys. -/
def elementsKinds (keys : List String) : List Value → List (List String × Option Value)
  | [] => []
  | v :: vs => v.kindsInside keys ++ elementsKinds keys vs

end

mutual

/-- How deep structs and lists nest in a message of a dynamic value. -/
def Message.containers : Message → Nat
  | ⟨slots, _⟩ => slotsContainers slots

/-- How deep structs and lists nest in the slots of a dynamic value. -/
def slotsContainers : List Slot → Nat
  | .choice _ v :: _ => v.containers
  | .entries es :: _ => entriesContainers es + 1
  | .many vs :: _ => elementsContainers vs + 1
  | _ => 0

/-- How deep structs and lists nest in a value. -/
def Value.containers : Value → Nat
  | .scalar _ => 0
  | .message m => m.containers

/-- How deep structs and lists nest in the entries of a struct. -/
def entriesContainers : List Entry → Nat
  | [] => 0
  | ⟨_, v⟩ :: es => max v.containers (entriesContainers es)

/-- How deep structs and lists nest in the elements of a list. -/
def elementsContainers : List Value → Nat
  | [] => 0
  | v :: vs => max v.containers (elementsContainers vs)

end

/-- The number that a kind is, and the keys that lead to it. -/
def numberOfKind? : List String × Option Value → Option (List String × UInt64)
  | (keys, some (.scalar (.double bits))) => some (keys, bits)
  | _ => none

/-- The numbers in a message of a dynamic value in the order in which they are written. -/
def Message.numbers (m : Message) : List (List String × UInt64) :=
  (m.kinds []).filterMap numberOfKind?

/-- The kind is set, a null holds zero, and the text of a number leads back to it. -/
def KindReturns : Option Value → Prop
  | none => False
  | some (.scalar (.int32 n)) => n = 0
  | some (.scalar (.double bits)) =>
      Reader.doubleOfText (floatText double bits.toNat) = .ok bits.toNat
  | some _ => True

instance : DecidablePred KindReturns := fun kind =>
  match kind with
  | none => .isFalse id
  | some (.scalar (.int32 n)) => inferInstanceAs (Decidable (n = 0))
  | some (.scalar (.double bits)) =>
      inferInstanceAs (Decidable (Reader.doubleOfText (floatText double bits.toNat)
        = .ok bits.toNat))
  | some (.scalar (.int64 _)) | some (.scalar (.uint32 _)) | some (.scalar (.uint64 _))
  | some (.scalar (.bool _)) | some (.scalar (.float _)) | some (.scalar (.string _))
  | some (.scalar (.bytes _)) | some (.message _) => .isTrue trivial

/-- All dynamic values inside a message are read as they were written. -/
def Message.KindsReturn (m : Message) : Prop :=
  ∀ kind ∈ m.kinds [], KindReturns kind.2

namespace Json

open FieldMask WellKnown

-----------------------------------------------------------------------------------------
-- Faults of the writer
-----------------------------------------------------------------------------------------

/-- The bits of a number that has no text. -/
def isNotFinite (bits : UInt64) : Bool :=
  (specialText (double.value bits.toNat)).isSome

/-- The fault of a number under keys. -/
def numberFault (number : List String × UInt64) : Fault :=
  ⟨.marshal, String.intercalate "." number.1,
    .invalidValue "google.protobuf.Value" (.notFinite (floatDisplay double number.2.toNat))⟩

/-- The fault that a kind gives rise to. -/
def kindFault? (kind : List String × Option Value) : Option Fault :=
  ((numberOfKind? kind).filter fun number => isNotFinite number.2).map numberFault

/-- The writer goes on at its path and with its fault, or else with the given one. -/
structure Latches (w w' : Writer) (fault? : Option Fault) : Prop where
  path : w'.path = w.path
  fault : w'.fault = w.fault.or fault?

namespace Latches

variable {w w₁ w₂ : Writer} {a b : Option Fault}

/-- Writing nothing fails nothing. -/
theorem nothing (w : Writer)
    : Latches w w none :=
  ⟨rfl, Option.or_none.symm⟩

/-- Raw text fails nothing. -/
theorem raw (w : Writer) (text : String)
    : Latches w (w.raw text) none := by
  unfold Writer.raw
  cases sound : w.fault with
  | some fault => exact ⟨rfl, by simp [sound]⟩
  | none => exact ⟨rfl, by simp [sound]⟩

/-- A fault is kept under the current path. -/
theorem latch (w : Writer) (cause : Cause)
    : Latches w (w.latch cause) (some ⟨.marshal, w.path.dotted, cause⟩) := by
  unfold Writer.latch
  cases sound : w.fault with
  | some fault => exact ⟨rfl, by simp [sound]⟩
  | none => exact ⟨rfl, by simp [sound]⟩

/-- Of two faults the first stays. -/
theorem append (first : Latches w w₁ a) (second : Latches w₁ w₂ b)
    : Latches w w₂ (a.or b) :=
  ⟨second.path.trans first.path, by rw [second.fault, first.fault, Option.or_assoc]⟩

theorem commaIf (w : Writer) (behind : Bool)
    : Latches w (w.commaIf behind) none := by
  cases behind with
  | true => exact raw w _
  | false => exact nothing w

theorem key (w : Writer) (name : String)
    : Latches w (w.key name) none :=
  (raw w (stringLiteral name)).append (raw _ ":")

/-- A number that is finite or has a name fails nothing. -/
theorem floating (w : Writer) (f : Format) (bits : Nat)
    : Latches w (w.floating f bits) none := by
  unfold Writer.floating
  split <;> exact raw w _

/-- Texts in front of what is written and behind it. -/
theorem enclose (before behind : String) (h : Latches (w.raw before) w₁ a)
    : Latches w (w₁.raw behind) a := by
  have whole := ((raw w before).append h).append (raw w₁ behind)
  simpa using whole

/-- What is written for a field fails under its path. -/
theorem withField {field : String} {write : Writer → Writer}
    (h : ∀ w', w'.path = w.path.push field → Latches w' (write w') a)
    : Latches w (w.withField field write) a :=
  ⟨rfl, (h { w with path := w.path.push field } rfl).fault⟩

end Latches

variable {s : Schema} {any : AnyWriter} {w : Writer} {keys : List String}

/-- A key at the end is a step further down. -/
theorem ofSegments_concat (keys : List String) (key : String)
    : Path.ofSegments (keys ++ [key]) = (Path.ofSegments keys).push key := by
  simp [Path.ofSegments, Path.push]

/-- What is written for a scalar kind fails for a number that is not finite. -/
theorem latches_writeDynamic (v : Scalar) (place : w.path = .ofSegments keys)
    : Latches w (writeDynamic v w) (kindFault? (keys, some (.scalar v))) := by
  cases v with
  | double bits =>
      cases special : specialText (double.value bits.toNat) with
      | none =>
          have finite : isNotFinite bits = false := by simp [isNotFinite, special]
          simp only [writeDynamic, special, kindFault?, numberOfKind?, Option.filter, finite]
          exact .floating w double bits.toNat
      | some text =>
          have infinite : isNotFinite bits = true := by simp [isNotFinite, special]
          have dotted : w.path.dotted = String.intercalate "." keys := by
            rw [place, Path.dotted, Path.ofSegments, List.reverse_reverse]
          simp only [writeDynamic, special, kindFault?, numberOfKind?, Option.filter, infinite,
            if_true, Option.map_some, numberFault, ← dotted]
          exact .latch w _
  | int32 v => exact .raw w _
  | string v => exact .raw w _
  | bool v => exact .raw w _
  | int64 _ | uint32 _ | uint64 _ | float _ | bytes _ => exact .nothing w

-----------------------------------------------------------------------------------------
-- Messages of the dynamic types
-----------------------------------------------------------------------------------------

/-- What a message of the type `Value` is, if the messages inside it have the property. -/
inductive IsValue (P : Message → Prop) : Message → Prop
  | unset : IsValue P ⟨[.none], []⟩
  | null (n : Int32) : IsValue P (Tree.ofKind 1 (.scalar (.int32 n)))
  | number (bits : UInt64) : IsValue P (Tree.ofKind 2 (.scalar (.double bits)))
  | text (v : String) : IsValue P (Tree.ofKind 3 (.scalar (.string v)))
  | bool (v : Bool) : IsValue P (Tree.ofKind 4 (.scalar (.bool v)))
  | struct {es : List Entry} (ordered : Ordered (.string none) es)
    (values : ∀ e ∈ es, ∃ m, e.value = .message m ∧ P m)
    : IsValue P (Tree.ofKind 5 (.message ⟨[.entries es], []⟩))
  | list {vs : List Value} (values : ∀ v ∈ vs, ∃ m, v = .message m ∧ P m)
    : IsValue P (Tree.ofKind 6 (.message ⟨[.many vs], []⟩))

section

variable {m : Message}

/-- A message of a type with one member and without unknown bytes. -/
theorem conforms_sole {t : MessageType} {member : Member} (members : t.members = [member])
    (known : t.keepsUnknown = false) (typed : m.Conforms s t)
    : ∃ slot : Slot, m = ⟨[slot], []⟩ ∧ slot.Conforms s member := by
  obtain ⟨slots, unknown⟩ := m
  obtain ⟨typed, clean⟩ := typed
  rw [members] at typed
  rw [known] at clean
  cases clean
  cases slots with
  | nil => cases typed
  | cons slot others =>
      obtain ⟨own, none⟩ := typed
      cases others with
      | nil => exact ⟨slot, rfl, own⟩
      | cons _ _ => exact none.elim

/-- A scalar type has scalars for its values. -/
theorem scalar_of_conforms {type : ScalarType} {v : Value} (typed : v.Conforms s (.scalar type))
    : ∃ w, v = .scalar w ∧ w.hasType type := by
  cases v with
  | scalar w => exact ⟨w, rfl, typed⟩
  | message m => exact typed.elim

/-- A message type has messages for its values. -/
theorem message_of_conforms {name : String} {v : Value} (typed : v.Conforms s (.message name))
    : ∃ m : Message, v = .message m ∧ m.Conforms s (s.type name) := by
  cases v with
  | scalar w => exact typed.elim
  | message m => exact ⟨m, rfl, typed⟩

/-- The entries of a `Struct` hold messages that are `Value`s and nest less deep. -/
theorem messages_of_entries (known : s.HasWellKnown) {es : List Entry}
    (typed : entriesConform s (.message "google.protobuf.Value") es)
    : ∀ e ∈ es, ∃ m, e.value = .message m ∧ m.Conforms s valueType
        ∧ m.containers ≤ entriesContainers es := by
  induction es with
  | nil => exact fun e listed => absurd listed List.not_mem_nil
  | cons e es ih =>
      obtain ⟨key, v⟩ := e
      obtain ⟨m, rfl, own⟩ := message_of_conforms typed.1
      rw [type_value known] at own
      refine List.forall_mem_cons.mpr ⟨⟨m, rfl, own, Nat.le_max_left _ _⟩, fun e listed => ?_⟩
      obtain ⟨m, same, own, less⟩ := ih typed.2 e listed
      exact ⟨m, same, own, Nat.le_trans less (Nat.le_max_right _ _)⟩

/-- The elements of a dynamic array are dynamic values. -/
theorem messages_of_elements (known : s.HasWellKnown) {vs : List Value}
    (typed : elementsConform s (.message "google.protobuf.Value") vs)
    : ∀ v ∈ vs, ∃ m, v = .message m ∧ m.Conforms s valueType
        ∧ m.containers ≤ elementsContainers vs := by
  induction vs with
  | nil => nofun
  | cons v vs ih =>
      obtain ⟨m, rfl, own⟩ := message_of_conforms typed.1
      rw [type_value known] at own
      refine List.forall_mem_cons.mpr ⟨⟨m, rfl, own, Nat.le_max_left _ _⟩, fun v listed => ?_⟩
      obtain ⟨m, same, own, less⟩ := ih typed.2 v listed
      exact ⟨m, same, own, Nat.le_trans less (Nat.le_max_right _ _)⟩

/-- A struct holds dynamic values under ascending keys. -/
theorem entries_of_conforms (known : s.HasWellKnown) (typed : m.Conforms s structType)
    : ∃ es, m = ⟨[.entries es], []⟩ ∧ Ordered (.string none) es
        ∧ ∀ e ∈ es, ∃ inner, e.value = .message inner ∧ inner.Conforms s valueType
          ∧ inner.containers < m.containers := by
  obtain ⟨slot, rfl, own⟩ := conforms_sole rfl rfl typed
  obtain ⟨es, rfl, ordered, entries⟩ := own.of_map rfl
  refine ⟨es, rfl, ordered, fun e listed => ?_⟩
  obtain ⟨inner, same, own, less⟩ := messages_of_entries known entries e listed
  exact ⟨inner, same, own, Nat.lt_succ_of_le less⟩

/-- A list value holds dynamic values. -/
theorem items_of_conforms (known : s.HasWellKnown) (typed : m.Conforms s listValueType)
    : ∃ vs, m = ⟨[.many vs], []⟩
        ∧ ∀ v ∈ vs, ∃ inner, v = .message inner ∧ inner.Conforms s valueType
          ∧ inner.containers < m.containers := by
  obtain ⟨slot, rfl, own⟩ := conforms_sole rfl rfl typed
  obtain ⟨vs, rfl, elements⟩ := own.of_repeated rfl
  refine ⟨vs, rfl, fun v listed => ?_⟩
  obtain ⟨inner, same, own, less⟩ := messages_of_elements known elements v listed
  exact ⟨inner, same, own, Nat.lt_succ_of_le less⟩

/-- A `Value` has no kind or one of six, by cases on its field number. -/
theorem isValue_of_conforms (known : s.HasWellKnown) (typed : m.Conforms s valueType)
    : IsValue (fun inner => inner.Conforms s valueType ∧ inner.containers < m.containers) m := by
  obtain ⟨slot, rfl, own⟩ := conforms_sole rfl rfl typed
  rcases own.of_oneof rfl with rfl | ⟨tag, v, a, rfl, found, kind⟩
  · exact .unset
  · have tagged : a.tag = tag := by simpa using List.find?_some found
    have listed := List.mem_of_find?_eq_some found
    subst tagged
    simp only [List.mem_cons, List.not_mem_nil, or_false] at listed
    rcases listed with rfl | rfl | rfl | rfl | rfl | rfl
    · obtain ⟨v, rfl, isType⟩ := scalar_of_conforms kind
      cases v <;> cases isType
      exact .null _
    · obtain ⟨v, rfl, isType⟩ := scalar_of_conforms kind
      cases v <;> cases isType
      exact .number _
    · obtain ⟨v, rfl, isType⟩ := scalar_of_conforms kind
      cases v <;> cases isType
      exact .text _
    · obtain ⟨v, rfl, isType⟩ := scalar_of_conforms kind
      cases v <;> cases isType
      exact .bool _
    · obtain ⟨inner, rfl, whole⟩ := message_of_conforms kind
      rw [type_struct known] at whole
      obtain ⟨es, rfl, ordered, values⟩ := entries_of_conforms known whole
      exact .struct ordered values
    · obtain ⟨inner, rfl, whole⟩ := message_of_conforms kind
      rw [type_listValue known] at whole
      obtain ⟨vs, rfl, values⟩ := items_of_conforms known whole
      exact .list values

/-- What holds of a `Value` if it holds of those inside it holds of all, by induction on how deep
they nest.
-/
theorem value_induction (known : s.HasWellKnown) {P : Message → Prop}
    (step : ∀ m, IsValue P m → P m) (typed : m.Conforms s valueType)
    : P m := by
  generalize depth : m.containers = n
  induction n using Nat.strongRecOn generalizing m with
  | _ n ih =>
      subst depth
      refine step m ?_
      cases isValue_of_conforms known typed with
      | unset => exact .unset
      | null n => exact .null n
      | number bits => exact .number bits
      | text v => exact .text v
      | bool v => exact .bool v
      | struct ordered values =>
          refine .struct ordered fun e listed => ?_
          obtain ⟨inner, same, own, less⟩ := values e listed
          exact ⟨inner, same, ih _ less own rfl⟩
      | list values =>
          refine .list fun v listed => ?_
          obtain ⟨inner, same, own, less⟩ := values v listed
          exact ⟨inner, same, ih _ less own rfl⟩

end

-----------------------------------------------------------------------------------------
-- The first number without a text
-----------------------------------------------------------------------------------------

/-- A `Value` of a scalar kind. -/
theorem latches_scalar (tag : Nat) (v : Scalar) (place : w.path = .ofSegments keys)
    : Latches w (writeMessage s any valueType (Tree.ofKind tag (.scalar v)) w)
        (((Tree.ofKind tag (.scalar v)).kinds keys).findSome? kindFault?) := by
  have kinds : (Tree.ofKind tag (.scalar v)).kinds keys = [(keys, some (.scalar v))] := rfl
  rw [kinds, List.findSome?_cons, List.findSome?_nil]
  have written := latches_writeDynamic v place
  cases fault : kindFault? (keys, some (.scalar v)) <;> rwa [fault] at written

/-- The message is written up to its first number without a text, as a value under any keys. -/
def LatchesFirst (s : Schema) (any : AnyWriter) (t : MessageType) (m : Message) : Prop :=
  ∀ w keys, w.path = .ofSegments keys
    → Latches w (writeMessage s any t m w) ((m.kinds keys).findSome? kindFault?)

/-- The fields of a struct are written up to their first number without a text, by induction on
them.
-/
theorem latches_fields (known : s.HasWellKnown) (behind : Bool) {es : List Entry}
    (values : ∀ e ∈ es, ∃ m, e.value = .message m ∧ LatchesFirst s any valueType m)
    (place : w.path = .ofSegments keys)
    : Latches w (writeFields s any es behind w) ((entriesKinds keys es).findSome? kindFault?) := by
  induction es generalizing behind w with
  | nil => exact .nothing w
  | cons e es ih =>
      obtain ⟨key, v⟩ := e
      obtain ⟨⟨m, rfl, own⟩, later⟩ := List.forall_mem_cons.mp values
      have front : Latches w ((w.commaIf behind).key (keyText key)) none :=
        (Latches.commaIf w behind).append (.key _ _)
      have value : Latches ((w.commaIf behind).key (keyText key))
          (writeValue s any (keyText key) (.message "google.protobuf.Value") (.message m)
            ((w.commaIf behind).key (keyText key)))
          ((m.kinds (keys ++ [keyText key])).findSome? kindFault?) := by
        refine .withField fun w' inside => ?_
        rw [type_value known]
        exact own w' _ (by rw [inside, front.path, place, ofSegments_concat])
      have others := ih true later (value.path.trans (front.path.trans place))
      have whole := (front.append value).append others
      rw [Option.none_or] at whole
      rw [entriesKinds, List.findSome?_append]
      exact whole

/-- The items of a list are written up to their first number without a text, by induction on them.
-/
theorem latches_items (known : s.HasWellKnown) (behind : Bool) {vs : List Value}
    (values : ∀ v ∈ vs, ∃ m, v = .message m ∧ LatchesFirst s any valueType m)
    (place : w.path = .ofSegments keys)
    : Latches w (writeItems s any vs behind w) ((elementsKinds keys vs).findSome? kindFault?) := by
  induction vs generalizing behind w with
  | nil => exact .nothing w
  | cons v vs ih =>
      obtain ⟨⟨m, rfl, own⟩, later⟩ := List.forall_mem_cons.mp values
      rw [← type_value known] at own
      have front := Latches.commaIf w behind
      have value := own (w.commaIf behind) keys (front.path.trans place)
      have others := ih true later (value.path.trans (front.path.trans place))
      have whole := (front.append value).append others
      rw [Option.none_or] at whole
      rw [elementsKinds, List.findSome?_append]
      exact whole

/-- A struct fails at the first of its values that does. -/
theorem latches_struct (known : s.HasWellKnown) {es : List Entry}
    (values : ∀ e ∈ es, ∃ m, e.value = .message m ∧ LatchesFirst s any valueType m)
    : LatchesFirst s any structType ⟨[.entries es], []⟩ :=
  fun w _ place =>
    .enclose "\x7b" "\x7d" (latches_fields known false values ((Latches.raw w _).path.trans place))

/-- A list fails at the first of its values that does. -/
theorem latches_list (known : s.HasWellKnown) {vs : List Value}
    (values : ∀ v ∈ vs, ∃ m, v = .message m ∧ LatchesFirst s any valueType m)
    : LatchesFirst s any listValueType ⟨[.many vs], []⟩ :=
  fun w _ place =>
    .enclose "[" "]" (latches_items known false values ((Latches.raw w _).path.trans place))

/-- A `Value` is written up to its first number without a text, by induction on it. -/
theorem latches_value (known : s.HasWellKnown) {m : Message} (typed : m.Conforms s valueType)
    : LatchesFirst s any valueType m := by
  refine value_induction known (fun m shape w keys place => ?_) typed
  cases shape with
  | unset => exact .raw w _
  | null n => exact latches_scalar 1 (.int32 n) place
  | number bits => exact latches_scalar 2 (.double bits) place
  | text v => exact latches_scalar 3 (.string v) place
  | bool v => exact latches_scalar 4 (.bool v) place
  | struct ordered values =>
      have whole := latches_struct known values w keys place
      rw [← type_struct known] at whole
      exact whole
  | list values =>
      have whole := latches_list known values w keys place
      rw [← type_listValue known] at whole
      exact whole

-----------------------------------------------------------------------------------------
-- Trees of messages
-----------------------------------------------------------------------------------------

/-- The message stands for a tree that is read as it was written, under any keys. -/
def HasTree (keys : List String) (m : Message) : Prop :=
  (∀ kind ∈ m.kinds keys, KindReturns kind.2)
    → ∃ τ : Tree, m = τ.message ∧ τ.Legible ∧ τ.node.nesting = m.containers

/-- A number whose text leads back to it is finite. -/
theorem finite_of_returns {bits : UInt64}
    (returns : Reader.doubleOfText (floatText double bits.toNat) = .ok bits.toNat)
    : specialText (double.value bits.toNat) = none := by
  cases value : double.value bits.toNat with
  | finite _ _ _ => rfl
  | notANumber | infinite _ =>
      have empty : floatText double bits.toNat = "" := by simp only [floatText, value]
      rw [empty] at returns
      cases returns

/-- The entries of a struct are the fields of a tree, by induction on them. -/
theorem exists_fields {keys : List String} {es : List Entry}
    (values : ∀ e ∈ es, ∃ m, e.value = .message m ∧ ∀ keys, HasTree keys m)
    (strings : ∀ e ∈ es, e.key.hasType (.string none))
    (returns : ∀ kind ∈ entriesKinds keys es, KindReturns kind.2)
    : ∃ fields, es = Tree.fieldEntries fields ∧ Tree.fieldsLegible fields
        ∧ fieldsNesting (Tree.fieldNodes fields) = entriesContainers es := by
  induction es with
  | nil => exact ⟨[], rfl, trivial, rfl⟩
  | cons e es ih =>
      obtain ⟨key, v⟩ := e
      obtain ⟨⟨m, rfl, own⟩, later⟩ := List.forall_mem_cons.mp values
      obtain ⟨isString, others⟩ := List.forall_mem_cons.mp strings
      obtain ⟨first, behind⟩ := List.forall_mem_append.mp returns
      obtain ⟨τ, rfl, legible, depth⟩ := own _ first
      obtain ⟨fields, rfl, all, depths⟩ := ih later others behind
      cases key with
      | string key =>
          exact ⟨⟨key, τ⟩ :: fields, rfl, ⟨legible, all⟩, congrArg₂ max depth depths⟩
      | int32 _ | int64 _ | uint32 _ | uint64 _ | bool _ | float _ | double _ | bytes _ =>
          cases isString

/-- The elements of a list are the items of a tree, by induction on them. -/
theorem exists_items {keys : List String} {vs : List Value}
    (values : ∀ v ∈ vs, ∃ m, v = .message m ∧ ∀ keys, HasTree keys m)
    (returns : ∀ kind ∈ elementsKinds keys vs, KindReturns kind.2)
    : ∃ items, vs = Tree.messages items ∧ Tree.itemsLegible items
        ∧ itemsNesting (Tree.nodes items) = elementsContainers vs := by
  induction vs with
  | nil => exact ⟨[], rfl, trivial, rfl⟩
  | cons v vs ih =>
      obtain ⟨⟨m, rfl, own⟩, later⟩ := List.forall_mem_cons.mp values
      obtain ⟨first, behind⟩ := List.forall_mem_append.mp returns
      obtain ⟨τ, rfl, legible, depth⟩ := own _ first
      obtain ⟨items, rfl, all, depths⟩ := ih later behind
      exact ⟨τ :: items, rfl, ⟨legible, all⟩, congrArg₂ max depth depths⟩

/-- A `Value` whose kinds are set and read back stands for a tree, by induction on it. -/
theorem hasTree_value (known : s.HasWellKnown) {m : Message} (typed : m.Conforms s valueType)
    : ∀ keys, HasTree keys m := by
  refine value_induction known (P := fun m => ∀ keys, HasTree keys m)
    (fun m shape keys returns => ?_)
    typed
  cases shape with
  | unset => exact (returns _ (List.mem_singleton_self _)).elim
  | null n =>
      obtain rfl : n = 0 := returns _ (List.mem_singleton_self _)
      exact ⟨.null, rfl, trivial, rfl⟩
  | number bits =>
      have back := returns _ (List.mem_singleton_self _)
      have finite := finite_of_returns back
      refine ⟨.number bits, rfl, ⟨finite, fun _ => back⟩, ?_⟩
      rw [WellKnown.Tree.node, floatNode_of_finite finite]
      rfl
  | text v => exact ⟨.text v, rfl, trivial, rfl⟩
  | bool v => exact ⟨.bool v, rfl, trivial, rfl⟩
  | struct ordered values =>
      obtain ⟨-, inside⟩ := List.forall_mem_cons.mp returns
      obtain ⟨fields, rfl, legible, depth⟩ := exists_fields values ordered.typed inside
      refine ⟨.struct fields, ?_, ⟨ordered, legible⟩, congrArg Nat.succ depth⟩
      rw [Tree.message, Tree.insertFields_of_ordered ordered]
  | list values =>
      obtain ⟨-, inside⟩ := List.forall_mem_cons.mp returns
      obtain ⟨items, rfl, legible, depth⟩ := exists_items values inside
      exact ⟨.list items, rfl, legible, congrArg Nat.succ depth⟩

mutual

/-- The message of a tree is a `Value`, by induction on the tree. -/
theorem conforms_tree (known : s.HasWellKnown) (τ : Tree)
    : τ.message.Conforms s valueType := by
  cases τ with
  | null | number bits | text v | bool v => exact ⟨⟨rfl, rfl⟩, rfl⟩
  | struct fields =>
      obtain ⟨ordered, entries⟩ := conforms_fields known fields ordered_nil trivial
      have inner : Message.Conforms s structType ⟨[.entries (Tree.insertFields fields [])], []⟩ :=
        ⟨⟨⟨ordered, entries⟩, rfl⟩, rfl⟩
      rw [← type_struct known] at inner
      exact ⟨⟨inner, rfl⟩, rfl⟩
  | list items =>
      have inner : Message.Conforms s listValueType ⟨[.many (Tree.messages items)], []⟩ :=
        ⟨⟨conforms_items known items, rfl⟩, rfl⟩
      rw [← type_listValue known] at inner
      exact ⟨⟨inner, rfl⟩, rfl⟩

/-- The fields of a tree are entries of a struct. -/
theorem conforms_fields (known : s.HasWellKnown) (fields : List TreeField) {es : List Entry}
    (ordered : Ordered (.string none) es)
    (typed : entriesConform s (.message "google.protobuf.Value") es)
    : Ordered (.string none) (Tree.insertFields fields es)
      ∧ entriesConform s (.message "google.protobuf.Value") (Tree.insertFields fields es) := by
  cases fields with
  | nil => exact ⟨ordered, typed⟩
  | cons field fields =>
      cases field with
      | mk key value =>
          have own := conforms_tree known value
          rw [← type_value known] at own
          refine conforms_fields known fields (ordered.insertEntry rfl rfl)
            (entriesConform_iff.mpr fun e listed => ?_)
          rcases (mem_insertEntry rfl rfl ordered e).mp listed with rfl | ⟨earlier, -⟩
          · exact own
          · exact entriesConform_iff.mp typed e earlier

/-- The items of a tree are elements of a list value. -/
theorem conforms_items (known : s.HasWellKnown) (items : List Tree)
    : elementsConform s (.message "google.protobuf.Value") (Tree.messages items) := by
  cases items with
  | nil => trivial
  | cons item items =>
      have own := conforms_tree known item
      rw [← type_value known] at own
      exact ⟨own, conforms_items known items⟩

end

-----------------------------------------------------------------------------------------
-- Documents
-----------------------------------------------------------------------------------------

/-- The message is written as a JSON value and read from it into an empty one. -/
structure ReturnsAs (s : Schema) (t : MessageType) (m : Message) (n : Node) : Prop where
  written : ∀ config tree mask path, messageNode s config tree mask path t m = some n
  read : ∀ limit, Takes 0 limit (readMessage s t (s.empty t.name)) n .root m []
  nesting : n.nesting = m.containers

section

variable {m : Message}

/-- A dynamic value returns from its document. -/
theorem returnsAs_value (lawful : s.Lawful) (known : s.HasWellKnown)
    (typed : m.Conforms s valueType) (returns : m.KindsReturn)
    : ∃ n, ReturnsAs s valueType m n := by
  obtain ⟨τ, rfl, legible, depth⟩ := hasTree_value known typed [] returns
  exact ⟨τ.node, fun config tree mask path => messageNode_tree known path τ legible,
    takes_treeMessage lawful known .root τ legible, depth⟩

/-- A struct returns from its document. -/
theorem returnsAs_struct (lawful : s.Lawful) (known : s.HasWellKnown)
    (typed : m.Conforms s structType) (returns : m.KindsReturn)
    : ∃ n, ReturnsAs s structType m n := by
  obtain ⟨es, rfl, ordered, values⟩ := entries_of_conforms known typed
  have trees : ∀ e ∈ es, ∃ m, e.value = .message m ∧ ∀ keys, HasTree keys m := fun e listed =>
    (values e listed).imp fun inner own => ⟨own.1, hasTree_value known own.2.1⟩
  obtain ⟨fields, rfl, legible, depth⟩ := exists_fields trees ordered.typed returns
  refine ⟨.object (Tree.fieldNodes fields), fun config tree mask path => ?_,
    takes_structMessage lawful known .root legible ordered, congrArg Nat.succ depth⟩
  exact congrArg (Option.map Node.object) (structFields_tree known path fields legible)

/-- A list value returns from its document. -/
theorem returnsAs_list (lawful : s.Lawful) (known : s.HasWellKnown)
    (typed : m.Conforms s listValueType) (returns : m.KindsReturn)
    : ∃ n, ReturnsAs s listValueType m n := by
  obtain ⟨vs, rfl, values⟩ := items_of_conforms known typed
  have trees : ∀ v ∈ vs, ∃ m, v = .message m ∧ ∀ keys, HasTree keys m := fun v listed =>
    (values v listed).imp fun inner own => ⟨own.1, hasTree_value known own.2.1⟩
  obtain ⟨items, rfl, legible, depth⟩ := exists_items trees returns
  refine ⟨.array (Tree.nodes items), fun config tree mask path => ?_,
    takes_listMessage lawful known .root legible, congrArg Nat.succ depth⟩
  exact congrArg (Option.map Node.array) (itemNodes_tree known path items legible)

/-- The fault of the first kind that has one is that of the first number without a text. -/
theorem findSome?_kindFault? (kinds : List (List String × Option Value))
    : kinds.findSome? kindFault?
        = ((kinds.filterMap numberOfKind?).find? fun number => isNotFinite number.2).map
          numberFault := by
  induction kinds with
  | nil => rfl
  | cons kind kinds ih =>
      rw [List.findSome?_cons, ih, kindFault?]
      cases number : numberOfKind? kind with
      | none => simp [number]
      | some number' =>
          cases infinite : isNotFinite number'.2 <;>
            simp [List.filterMap_cons_some number, Option.filter, infinite]

/-- The fault of the writer is that of the first number without a text. -/
theorem fault_writeMessage (known : s.HasWellKnown) {t : MessageType}
    (dynamic : t ∈ [valueType, structType, listValueType]) (typed : m.Conforms s t)
    (config : Config) (mask : PathSet)
    : (writeMessage s any t m (.ofConfig config mask)).fault
        = (m.numbers.find? fun number => isNotFinite number.2).map numberFault := by
  have first : LatchesFirst s any t m := by
    simp only [List.mem_cons, List.not_mem_nil, or_false] at dynamic
    rcases dynamic with rfl | rfl | rfl
    · exact latches_value known typed
    · obtain ⟨es, rfl, -, values⟩ := entries_of_conforms known typed
      exact latches_struct known fun e listed =>
        (values e listed).imp fun inner own => ⟨own.1, latches_value known own.2.1⟩
    · obtain ⟨vs, rfl, values⟩ := items_of_conforms known typed
      exact latches_list known fun v listed =>
        (values v listed).imp fun inner own => ⟨own.1, latches_value known own.2.1⟩
  rw [(first (.ofConfig config mask) [] rfl).fault, findSome?_kindFault?]
  rfl

/-- A message whose kinds are set and read back is written as a JSON value and read from it. -/
theorem exists_returnsAs (lawful : s.Lawful) (known : s.HasWellKnown) {t : MessageType}
    (dynamic : t ∈ [valueType, structType, listValueType]) (typed : m.Conforms s t)
    (returns : m.KindsReturn)
    : ∃ n, ReturnsAs s t m n := by
  simp only [List.mem_cons, List.not_mem_nil, or_false] at dynamic
  rcases dynamic with rfl | rfl | rfl
  · exact returnsAs_value lawful known typed returns
  · exact returnsAs_struct lawful known typed returns
  · exact returnsAs_list lawful known typed returns

/-- What returns is decoded from its document, up to the last container that can be entered. -/
theorem ReturnsAs.decodeInto {t : MessageType} {n : Node} (h : ReturnsAs s t m n)
    (shallow : m.containers ≤ maxDepth) (registry : Option Registry)
    : decodeInto s registry t (s.empty t.name) (Text.utf8 n.text) = (m, .ok .empty) := by
  rcases decodeInto_of_takes h.read registry with read | ⟨-, deep⟩
  · exact read
  · have depth := h.nesting
    omega

/-- A `Value`, a `Struct` or a `ListValue` is written if and only if all its numbers are finite; if
not, the fault names the keys in front of the first number that is none.  If all kinds are set,
nulls are zero and the texts of numbers lead back to them, then what is read from the document is
the message, up to the last container that the reader steps into.
-/
theorem decodeInto_encode_dynamic {own : List MessageType} (lawful : (schemaWith own).Lawful)
    (json : ∀ t ∈ own, t.HasJson) {t : MessageType}
    (dynamic : t ∈ [valueType, structType, listValueType])
    (typed : m.Conforms (schemaWith own) t) (config : Config) (mask : PathSet)
    (registry : Option Registry)
    : ((∃ fault, encode (schemaWith own) config mask t m = .error fault)
          ↔ ∃ number ∈ m.numbers, isNotFinite number.2)
      ∧ (∀ fault, encode (schemaWith own) config mask t m = .error fault
          → ∃ number, m.numbers.find? (fun number => isNotFinite number.2) = some number
            ∧ fault = ⟨.marshal, String.intercalate "." number.1,
              .invalidValue "google.protobuf.Value"
                (.notFinite (floatDisplay double number.2.toNat))⟩)
      ∧ (m.KindsReturn → m.containers ≤ maxDepth
          → ∃ document, encode (schemaWith own) config mask t m = .ok document
            ∧ decodeInto (schemaWith own) registry t ((schemaWith own).empty t.name)
                (Text.utf8 document)
              = (m, .ok .empty)) := by
  have known := hasWellKnown lawful
  have fault : (writeMessage (schemaWith own) (writeAny (schemaWith own)) t m
      (.ofConfig config mask)).fault
      = (m.numbers.find? fun number => isNotFinite number.2).map numberFault :=
    fault_writeMessage known dynamic typed config mask
  have result (e : Fault) : encode (schemaWith own) config mask t m = .error e
      ↔ (writeMessage (schemaWith own) (writeAny (schemaWith own)) t m
          (.ofConfig config mask)).fault = some e := by
    rw [encode, Writer.result]
    cases (writeMessage (schemaWith own) (writeAny (schemaWith own)) t m
      (.ofConfig config mask)).fault <;> simp
  refine ⟨?_, fun e refused => ?_, fun returns shallow => ?_⟩
  · simp only [result, fault, ← Option.isSome_iff_exists, Option.isSome_map, List.find?_isSome]
  · rw [result, fault] at refused
    obtain ⟨number, found, rfl⟩ := Option.map_eq_some_iff.mp refused
    exact ⟨number, found, rfl⟩
  · obtain ⟨n, back⟩ := exists_returnsAs lawful known dynamic typed returns
    have hasJson := hasJson_schemaWith json
    have isType : t ∈ types := by
      simp only [List.mem_cons, List.not_mem_nil, or_false] at dynamic
      rcases dynamic with rfl | rfl | rfl <;> simp [types]
    have written := encode_treeOf config mask lawful hasJson (hasJson_wellKnown t isType)
      typed.typed
    rw [treeOf, back.written, Option.map_some] at written
    refine ⟨n.text, ?_, back.decodeInto shallow registry⟩
    cases document : encode (schemaWith own) config mask t m with
    | error e => rw [document] at written; cases written
    | ok text => rw [document] at written; exact congrArg Except.ok (Option.some.inj written)

/-- A list with a negative zero, a null and a struct under a key that needs escapes; and one in
which the second number under a dotted key is infinite.
-/
theorem decodeInto_encode_dynamic_list
    : let m := Tree.message (.list [.number 0x8000000000000000, .null,
        .struct [⟨"\"\n.", .struct []⟩, ⟨"", .list []⟩]])
      let m' := Tree.message (.struct [⟨"a.b", .list [.number 0, .number 0x7ff0000000000000]⟩])
      (∃ document, encode (schemaWith []) {} .empty valueType m = .ok document
        ∧ decodeInto (schemaWith []) none valueType ((schemaWith []).empty valueType.name)
            (Text.utf8 document)
          = (m, .ok .empty))
      ∧ ∃ fault, encode (schemaWith []) {} .empty valueType m' = .error fault
        ∧ fault.path = "a.b" := by
  intro m m'
  have lawful : (schemaWith []).Lawful := lawful_types
  have listed : valueType ∈ [valueType, structType, listValueType] := by simp
  have typed (τ : Tree) := conforms_tree (hasWellKnown lawful) τ
  obtain ⟨-, -, returns⟩ :=
    decodeInto_encode_dynamic lawful nofun listed (typed _) {} .empty none
  obtain ⟨refused, path, -⟩ :=
    decodeInto_encode_dynamic lawful nofun listed (typed _) {} .empty none
  have back : m.KindsReturn := by
    unfold Message.KindsReturn
    decide
  have first : (m'.numbers.find? fun number => isNotFinite number.2)
      = some (["a.b"], 0x7ff0000000000000) := by
    decide
  have infinite : ∃ number ∈ m'.numbers, isNotFinite number.2 :=
    List.find?_isSome.mp (Option.isSome_iff_exists.mpr ⟨_, first⟩)
  refine ⟨returns back (by decide), ?_⟩
  obtain ⟨fault, failed⟩ := refused.mpr infinite
  obtain ⟨number, found, rfl⟩ := path fault failed
  obtain rfl := Option.some.inj (first.symm.trans found)
  exact ⟨_, failed, rfl⟩

end

end Json

end Protobuf
