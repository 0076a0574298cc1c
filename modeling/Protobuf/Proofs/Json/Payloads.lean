import Protobuf.Proofs.Json.Documents
import Protobuf.Proofs.Json.Reread
import Protobuf.Proofs.Message.Fidelity

/-! Writing the message that an encoding holds.  It is written as the message that was encoded,
unless the encoding has lost the sign of a zero that would be shown; and how many others may stand
inside an `Any` does not matter as long as there is room for those that do.
-/

namespace Protobuf.Json

open FieldMask Wire

/-- A message that is written as its only scalar does not hold a zero with a sign. -/
def Unsigned (_ : Path) (t : MessageType) (slots : List Slot) : Prop :=
  t.form = .bare ∨ t.form = .wrapper → ∀ v, slots = [.one (.scalar v)] → v.positiveZero = v

/-- An `Any` whose scalars have the property is written in the same way. -/
def AgreeOn (P : Scalar → Prop) (any any' : AnyWriter) : Prop :=
  ∀ url payload w, P (.string url) → P (.bytes payload) → any' url payload w = any url payload w

variable {s : Schema} {config : Config} {any any' : AnyWriter} {tree : AnyTree} {P : Scalar → Prop}

-----------------------------------------------------------------------------------------
-- Messages that hold only scalars
-----------------------------------------------------------------------------------------

/-- A normal form has a member set just when the slot has. -/
theorem Slot.isSet_normal (m : Member) (slot : Slot)
    : Slot.isSet m (slot.normal s m) = Slot.isSet m slot := by
  cases slot with
  | none => rfl
  | one v =>
      unfold Slot.normal Slot.isSet
      cases shape : m.shape with
      | single type => simp only [Value.isOmitted_normal]
      | optional _ | repeated _ _ _ | map _ _ | oneof _ => rfl
  | many vs =>
      unfold Slot.normal Slot.isSet
      cases shape : m.shape with
      | repeated type _ _ => simp only [elementsNormal_isEmpty]
      | single _ | optional _ | map _ _ | oneof _ => rfl
  | entries es =>
      unfold Slot.normal Slot.isSet
      cases shape : m.shape with
      | map _ type =>
          cases es with
          | nil => rfl
          | cons e es => cases e; rfl
      | single _ | optional _ | repeated _ _ _ | oneof _ => rfl
  | choice tag v =>
      unfold Slot.normal
      cases m.alternative? tag <;> rfl

/-- Only floats have zeros with a sign. -/
theorem positiveZero_of_ne {type : ScalarType} {v : Scalar} (typed : v.hasType type)
    (float : type ≠ .float) (double : type ≠ .double)
    : v.positiveZero = v := by
  cases v with
  | float bits => cases type <;> first | exact absurd rfl float | cases typed
  | double bits => cases type <;> first | exact absurd rfl double | cases typed
  | _ => rfl

/-- Lists of scalars are their own normal form. -/
theorem elementsNormal_scalar {type : ScalarType} {vs : List Value}
    (typed : elementsConform s (.scalar type) (elementsKnown vs))
    : elementsNormal s (.scalar type) vs = vs := by
  induction vs with
  | nil => rfl
  | cons v vs ih =>
      obtain ⟨v, rfl, -⟩ := scalar_of_known typed.1
      rw [elementsNormal, ih typed.2]
      rfl

/-- The slots of a message of two members without presence that have no sign. -/
theorem slotsNormal_pair {members : List Member} {slots : List Slot} {first second : ScalarType}
    (shapes : members.map (·.shape) = [.single (.scalar first), .single (.scalar second)])
    {v u : Scalar} (same : slots = [.one (.scalar v), .one (.scalar u)])
    (plain : v.positiveZero = v) (plain' : u.positiveZero = u)
    : slotsNormal s members slots = slots := by
  obtain ⟨m, others, rfl, shape, rest⟩ := List.map_eq_cons_iff.mp shapes
  obtain ⟨n, rfl, shape'⟩ := List.map_eq_singleton_iff.mp rest
  simp only [same, slotsNormal, Slot.normal, shape, shape', Value.normal, Value.positiveZero, plain,
    plain']

/-- A message that holds only scalars is its own normal form, or is written as a scalar with a sign.
-/
theorem slotsNormal_scalarForm {t : MessageType} {slots : List Slot} {path : Path}
    (json : t.HasJson) (flat : t.form ∉ [.members, .struct, .value, .listValue, .filler])
    (typed : slotsConform s t.members (slotsKnown slots)) (unsigned : Unsigned path t slots)
    : slotsNormal s t.members slots = slots := by
  unfold MessageType.HasJson at json
  unfold Unsigned at unsigned
  generalize form : t.form = f at json flat unsigned
  generalize shapes : t.members.map (·.shape) = shape at json
  have sole {type : ScalarType} (shapes : t.members.map (·.shape) = [.single (.scalar type)])
      (unsigned : ∀ v, slots = [.one (.scalar v)] → v.positiveZero = v)
      : slotsNormal s t.members slots = slots := by
    obtain ⟨m, members, shape⟩ := List.map_eq_singleton_iff.mp shapes
    rw [members] at typed ⊢
    obtain ⟨slot, others, rfl, one, none⟩ := slotsKnown_cons typed
    obtain ⟨v, rfl, known⟩ := Slot.one_of_known one shape
    obtain ⟨v, rfl, -⟩ := scalar_of_known known
    cases slotsKnown_nil none
    simp only [slotsNormal, Slot.normal, shape, Value.normal, Value.positiveZero, unsigned v rfl]
  cases json with
  | members | struct | value | listValue | filler => simp at flat
  | bare => exact sole shapes (unsigned (.inl rfl))
  | wrapper => exact sole shapes (unsigned (.inr rfl))
  | timestamp | duration | any =>
      obtain ⟨v, u, same, first, second⟩ := scalars_of_pair shapes typed
      exact slotsNormal_pair shapes same (positiveZero_of_ne first nofun nofun)
        (positiveZero_of_ne second nofun nofun)
  | fieldMask =>
      obtain ⟨m, members, shape⟩ := List.map_eq_singleton_iff.mp shapes
      rw [members] at typed ⊢
      obtain ⟨slot, others, rfl, many, none⟩ := slotsKnown_cons typed
      obtain ⟨vs, rfl, strings⟩ := Slot.many_of_known many shape
      cases slotsKnown_nil none
      simp only [slotsNormal, Slot.normal, shape, elementsNormal_scalar strings]

/-- Messages that hold only scalars are written in the same way. -/
theorem writeScalarForm_congr (agree : AgreeOn P any any') {t : MessageType} {slots : List Slot}
    (all : slotsAll P slots) (w : Writer)
    : writeScalarForm any' t slots w = writeScalarForm any t slots w := by
  unfold writeScalarForm
  split <;> try rfl
  exact agree _ _ w all.1 all.2.1

-----------------------------------------------------------------------------------------
-- Writers of messages inside an `Any`
-----------------------------------------------------------------------------------------

mutual

/-- Writers that agree on every `Any` in it write the same value, by induction on the value. -/
theorem writeValue_congr (agree : AgreeOn P any any') (field : String)
    (type : ValueType) (v : Value) (all : v.All P) (w : Writer)
    : writeValue s any' field type v w = writeValue s any field type v w := by
  cases v with
  | scalar v => rfl
  | message m =>
      cases type with
      | scalar type => rfl
      | message name =>
          simp only [writeValue]
          exact congrArg (Writer.withField w field)
            (funext fun w => writeMessage_congr agree (s.type name) m all w)

/-- Writers that write all that the message holds in an `Any` in the same way write the message in
the same way, by induction on it.
-/
theorem writeMessage_congr (agree : AgreeOn P any any') (t : MessageType) (m : Message)
    (all : m.All P) (w : Writer)
    : writeMessage s any' t m w = writeMessage s any t m w := by
  cases m with
  | mk slots unknown =>
      unfold writeMessage
      split
      · rw [writeMembers_congr agree t.members slots all]
      · exact writeStruct_congr agree slots all w
      · exact writeKind_congr agree t.members slots all w
      · exact writeList_congr agree slots all w
      · exact writeScalarForm_congr agree all w

theorem writeMembers_congr (agree : AgreeOn P any any') (members : List Member) (slots : List Slot)
    (all : slotsAll P slots) (wrote : Bool) (w : Writer)
    : writeMembers s any' members slots wrote w = writeMembers s any members slots wrote w := by
  cases slots with
  | nil => rfl
  | cons slot slots =>
      cases members with
      | nil => rfl
      | cons m members =>
          unfold writeMembers
          simp only [writeMembers_congr agree members slots all.2]
          split
          · rw [writeChoice_congr agree m slot all.1]
          · rw [writeSlot_congr agree m slot all.1]

theorem writeChoice_congr (agree : AgreeOn P any any') (m : Member) (slot : Slot) (all : slot.All P)
    (wrote : Bool) (w : Writer)
    : writeChoice s any' m slot wrote w = writeChoice s any m slot wrote w := by
  cases slot with
  | choice tag v =>
      simp only [writeChoice]
      split
      · exact writeValue_congr agree _ _ v all _
      · rfl
  | none | one _ | many _ | entries _ => rfl

theorem writeSlot_congr (agree : AgreeOn P any any') (m : Member) (slot : Slot) (all : slot.All P)
    (w : Writer)
    : writeSlot s any' m slot w = writeSlot s any m slot w := by
  cases slot with
  | none | choice _ _ => rfl
  | one v =>
      have value (type : ValueType)
          : writeValue s any' m.name type v w = writeValue s any m.name type v w :=
        writeValue_congr agree m.name type v all w
      unfold writeSlot
      cases m.shape with
      | single type =>
          cases type with
          | scalar type =>
              cases v with
              | scalar v => rfl
              | message inner => exact value (.scalar type)
          | message name => cases v <;> exact value (.message name)
      | optional type => exact value type
      | repeated _ _ _ | map _ _ | oneof _ => rfl
  | many vs =>
      unfold writeSlot
      split
      · rw [writeElements_congr agree _ _ vs all]
      · rfl
  | entries es =>
      unfold writeSlot
      split
      · rw [entryWriters_congr agree _ _ es all]
      · rfl

theorem writeElements_congr (agree : AgreeOn P any any') (field : String) (type : ValueType)
    (vs : List Value) (all : elementsAll P vs) (wrote : Bool) (w : Writer)
    : writeElements s any' field type vs wrote w = writeElements s any field type vs wrote w := by
  cases vs with
  | nil => rfl
  | cons v vs =>
      simp only [writeElements, writeValue_congr agree field type v all.1,
        writeElements_congr agree field type vs all.2]

theorem entryWriters_congr (agree : AgreeOn P any any') (field : String) (type : ValueType)
    (es : List Entry) (all : entriesAll P es)
    : entryWriters s any' field type es = entryWriters s any field type es := by
  cases es with
  | nil => rfl
  | cons e es =>
      cases e with
      | mk key v =>
          simp only [entryWriters, writeValue_congr agree field type v all.1,
            entryWriters_congr agree field type es all.2]

theorem writeStruct_congr (agree : AgreeOn P any any') (slots : List Slot) (all : slotsAll P slots)
    (w : Writer)
    : writeStruct s any' slots w = writeStruct s any slots w := by
  cases slots with
  | nil => rfl
  | cons slot slots =>
      cases slot with
      | entries es => simp only [writeStruct, writeFields_congr agree es all.1]
      | none | one _ | many _ | choice _ _ => rfl

theorem writeFields_congr (agree : AgreeOn P any any') (es : List Entry) (all : entriesAll P es)
    (wrote : Bool) (w : Writer)
    : writeFields s any' es wrote w = writeFields s any es wrote w := by
  cases es with
  | nil => rfl
  | cons e es =>
      cases e with
      | mk key v =>
          simp only [writeFields, writeValue_congr agree _ _ v all.1,
            writeFields_congr agree es all.2]

theorem writeKind_congr (agree : AgreeOn P any any') (members : List Member) (slots : List Slot)
    (all : slotsAll P slots) (w : Writer)
    : writeKind s any' members slots w = writeKind s any members slots w := by
  cases slots with
  | nil => rfl
  | cons slot slots =>
      cases slot with
      | choice tag v =>
          cases v with
          | scalar v => rfl
          | message m =>
              simp only [writeKind]
              split
              · exact writeMessage_congr agree _ m all.1 w
              · rfl
      | none | one _ | many _ | entries _ => rfl

theorem writeList_congr (agree : AgreeOn P any any') (slots : List Slot) (all : slotsAll P slots)
    (w : Writer)
    : writeList s any' slots w = writeList s any slots w := by
  cases slots with
  | nil => rfl
  | cons slot slots =>
      cases slot with
      | many vs => simp only [writeList, writeItems_congr agree vs all.1]
      | none | one _ | entries _ | choice _ _ => rfl

theorem writeItems_congr (agree : AgreeOn P any any') (vs : List Value) (all : elementsAll P vs)
    (wrote : Bool) (w : Writer)
    : writeItems s any' vs wrote w = writeItems s any vs wrote w := by
  cases vs with
  | nil => rfl
  | cons v vs =>
      cases v with
      | scalar v => exact writeItems_congr agree vs all.2 wrote w
      | message m =>
          simp only [writeItems, writeMessage_congr agree _ m all.1,
            writeItems_congr agree vs all.2]

end

-----------------------------------------------------------------------------------------
-- Room for others
-----------------------------------------------------------------------------------------

/-- Writers that agree inside a payload write the same payload. -/
theorem writePayload_congr (lawful : s.Lawful) {payload : List UInt8}
    (agree : AgreeOn (Inside payload) any any') (name : String) (w : Writer)
    : writePayload s any' name payload w = writePayload s any name payload w := by
  unfold writePayload
  cases accepted : s.decode name payload with
  | error e => rfl
  | ok m =>
      exact writeMessage_congr agree _ m
        (Schema.Sized.all_decode lawful.sized (sourced_inside payload) accepted) w

/-- As long as there is room for all that can stand inside an `Any`, it is written in the same way,
by induction on the room.
-/
theorem writeAnyWithin_eq (lawful : s.Lawful) {depth depth' : Nat} {url : String}
    {payload : List UInt8} (room : (url = "" ∧ 1 ≤ depth) ∨ payload.length + 2 ≤ depth)
    (room' : (url = "" ∧ 1 ≤ depth') ∨ payload.length + 2 ≤ depth') (w : Writer)
    : writeAnyWithin s depth' url payload w = writeAnyWithin s depth url payload w := by
  induction depth generalizing depth' url payload w with
  | zero => rcases room with ⟨-, room⟩ | room <;> omega
  | succ depth ih =>
      obtain ⟨depth', rfl⟩ : ∃ n, depth' = n + 1 :=
        Nat.exists_eq_succ_of_ne_zero (by rcases room' with ⟨-, room'⟩ | room' <;> omega)
      simp only [writeAnyWithin]
      split
      · rfl
      · rename_i named
        have deep {n : Nat} (room : (url = "" ∧ 1 ≤ n + 1) ∨ payload.length + 2 ≤ n + 1)
            : payload.length + 1 ≤ n := by
          rcases room with ⟨rfl, -⟩ | room
          · exact absurd rfl named
          · omega
        have agree : AgreeOn (Inside payload) (writeAnyWithin s depth) (writeAnyWithin s depth') :=
          fun _ _ w text bytes =>
            ih (room_inside text bytes (deep room)) (room_inside text bytes (deep room')) w
        cases resolve w.config.registry url with
        | none => rfl
        | some resolution =>
            cases resolution <;>
              simp only [writeWellKnown, writeRegistered, writePayload_congr lawful agree]

/-- The message inside an `Any` is written as it is written by itself. -/
theorem writePayload_within (lawful : s.Lawful) {name : String} {payload : List UInt8} {m : Message}
    (accepted : s.decode name payload = .ok m) (w : Writer)
    : writePayload s (writeAnyWithin s (payload.length + 1)) name payload w
        = writeMessage s (writeAny s) (s.type name) m w := by
  have agree : AgreeOn (Inside payload) (writeAny s) (writeAnyWithin s (payload.length + 1)) :=
    fun _ _ w text bytes => writeAnyWithin_eq lawful (.inr (Nat.le_refl _))
      (room_inside text bytes (Nat.le_refl _)) w
  rw [writePayload_congr lawful agree]
  simp only [writePayload, accepted]

-----------------------------------------------------------------------------------------
-- Writing normal forms
-----------------------------------------------------------------------------------------

variable {w : Writer} {path : Path}

/-- A value is written where the writer is, and so is what stands behind it. -/
theorem at_value (json : s.HasJson) (anySpells : SpellsAny config .empty (fun _ => True) any tree)
    (field : String) {type : ValueType} (v : Value) (typed : v.known.Conforms s type)
    (place : w.At config .empty path)
    : (writeValue s any field type v w).At config .empty path :=
  (spells_value json anySpells field v typed (v.all_of_forall fun _ => trivial) place).at_ place

/-- The empty mask names no member. -/
theorem hasField_empty (place : w.At config .empty path) (field : String)
    : w.hasField field = false := by
  rw [hasField_eq place]
  rfl

/-- Normal forms of entries have the same keys. -/
theorem map_key_entriesNormal (value : ValueType) (es : List Entry)
    : (entriesNormal s value es).map (·.key) = es.map (·.key) := by
  induction es with
  | nil => rfl
  | cons e es ih =>
      obtain ⟨k, v⟩ := e
      rw [entriesNormal, List.map_cons, List.map_cons, ih]

/-- Normal forms of entries stand in the same order. -/
theorem ordered_entriesNormal {key : ScalarType} {es : List Entry} (ordered : Ordered key es)
    (value : ValueType)
    : Ordered key (entriesNormal s value es) := by
  rwa [ordered_iff_keys, map_key_entriesNormal, ← ordered_iff_keys]

mutual

/-- Normal forms are written as the values themselves, by induction on the value. -/
theorem writeValue_normal (json : s.HasJson)
    (anySpells : SpellsAny config .empty (fun _ => True) any tree) (field : String)
    {type : ValueType} {w : Writer} {path at' : Path} {field' : String} (v : Value)
    (typed : v.known.Conforms s type) (unsigned : v.Everywhere s Unsigned at' field' type)
    (place : w.At config .empty path)
    : writeValue s any field type (v.normal s type) w = writeValue s any field type v w := by
  cases v with
  | scalar v => rfl
  | message m =>
      cases type with
      | scalar type => rfl
      | message name =>
          have pushed : ({ w with path := w.path.push field } : Writer).At config .empty
              (path.push field) := ⟨place.1, place.2.1, by rw [place.2.2]⟩
          simp only [Value.normal, writeValue, Writer.withField,
            writeMessage_normal json anySpells m (json.type name) typed unsigned pushed]

/-- Without a mask a message is written as its normal form: a zero that loses its sign is not
written, but where a message is a scalar.  By induction on the message, as it is written.
-/
theorem writeMessage_normal (json : s.HasJson)
    (anySpells : SpellsAny config .empty (fun _ => True) any tree) {t : MessageType}
    {w : Writer} {path at' : Path} (m : Message) (form : t.HasJson) (typed : m.Typed s t)
    (unsigned : m.Everywhere s Unsigned at' t) (place : w.At config .empty path)
    : writeMessage s any t (m.normal s t) w = writeMessage s any t m w := by
  cases m with
  | mk slots unknown =>
      have typed : slotsConform s t.members (slotsKnown slots) := typed.1
      have same (flat : t.form ∉ [.members, .struct, .value, .listValue, .filler])
          : slotsNormal s t.members slots = slots :=
        slotsNormal_scalarForm form flat typed unsigned.1
      unfold MessageType.HasJson at form
      generalize shapes : t.members.map (·.shape) = shape at form
      simp only [Message.normal, writeMessage]
      cases kind : t.form with
      | members =>
          have begun : w.beginObject.At config .empty path := (Emits.raw w _).at_ place
          simp only [writeMembers_normal json anySpells false slots typed unsigned.2 begun]
      | struct =>
          rw [kind] at form
          cases form
          exact writeStruct_normal json anySpells slots shapes typed unsigned.2 place
      | value =>
          rw [kind] at form
          cases form
          exact writeKind_normal json anySpells slots shapes typed unsigned.2 place
      | listValue =>
          rw [kind] at form
          cases form
          exact writeList_normal json anySpells slots shapes typed unsigned.2 place
      | filler => simp only [writeScalarForm, kind]
      | bare | wrapper | timestamp | duration | fieldMask | any =>
          rw [same (by rw [kind]; decide)]

theorem writeMembers_normal (json : s.HasJson)
    (anySpells : SpellsAny config .empty (fun _ => True) any tree) {members : List Member}
    (wrote : Bool) {w : Writer} {path at' : Path} (slots : List Slot)
    (typed : slotsConform s members (slotsKnown slots))
    (unsigned : slotsEverywhere s Unsigned at' members slots) (place : w.At config .empty path)
    : writeMembers s any members (slotsNormal s members slots) wrote w
        = writeMembers s any members slots wrote w := by
  cases slots with
  | nil => rfl
  | cons slot slots =>
      cases members with
      | nil => rfl
      | cons m members =>
          have others (wrote : Bool) {w : Writer} (place : w.At config .empty path)
              : writeMembers s any members (slotsNormal s members slots) wrote w
                = writeMembers s any members slots wrote w :=
            writeMembers_normal json anySpells wrote slots typed.2 unsigned.2 place
          have own := typed.1
          have plain := unsigned.1
          cases shape : m.shape with
          | oneof alternatives =>
              simp only [slotsNormal, writeMembers, shape, Slot.isSet_normal]
              cases slot with
              | none => exact others _ place
              | one _ | many _ | entries _ => simp only [Slot.known, Slot.Conforms, shape] at own
              | choice tag v =>
                  simp only [Slot.known, Slot.Conforms] at own
                  cases found : m.alternative? tag with
                  | none => simp only [found] at own
                  | some a =>
                      simp only [found] at own
                      simp only [Slot.Everywhere, found] at plain
                      have key
                          : ((w.commaIf wrote).memberKey a.name a.jsonName).At config
                            .empty path := by
                        rw [memberKey_eq place]
                        exact at_key place wrote _
                      simp only [Slot.normal, writeChoice, found,
                        writeValue_normal json anySpells a.name v own plain key]
                      exact others _ (at_value json anySpells a.name v own key)
          | single _ | optional _ | repeated _ _ _ | map _ _ =>
              simp only [slotsNormal, writeMembers, shape, Slot.isSet_normal, hasField_empty place,
                Bool.or_false]
              split
              · rename_i set
                have key : ((w.commaIf wrote).memberKey m.name m.jsonName).At config
                  .empty path := by
                  rw [memberKey_eq place]
                  exact at_key place wrote _
                have alone : ∀ alternatives, m.shape ≠ .oneof alternatives := by simp [shape]
                rw [writeSlot_normal json anySpells slot alone own set plain key]
                exact others true ((spells_slot json anySpells slot alone own
                  (slot.all_of_forall fun _ => trivial) key).at_ key)
              · exact others wrote place

theorem writeSlot_normal (json : s.HasJson)
    (anySpells : SpellsAny config .empty (fun _ => True) any tree) {m : Member} {w : Writer}
    {path at' : Path} (slot : Slot) (alone : ∀ alternatives, m.shape ≠ .oneof alternatives)
    (typed : slot.known.Conforms s m) (set : Slot.isSet m slot)
    (unsigned : slot.Everywhere s Unsigned at' m) (place : w.At config .empty path)
    : writeSlot s any m (slot.normal s m) w = writeSlot s any m slot w := by
  cases slot with
  | none => rfl
  | one v =>
      simp only [Slot.known, Slot.Conforms] at typed
      simp only [Slot.Everywhere] at unsigned
      simp only [Slot.isSet] at set
      cases shape : m.shape with
      | single type =>
          simp only [shape, Bool.not_eq_true'] at typed unsigned set
          simp only [Slot.normal, shape, Value.positiveZero_normal set]
          cases v with
          | scalar v => rfl
          | message inner =>
              cases type with
              | scalar type => exact typed.elim
              | message name =>
                  have written := writeValue_normal json anySpells m.name (.message inner) typed
                    unsigned place
                  unfold writeSlot
                  rw [shape]
                  exact written
      | optional type =>
          simp only [shape] at typed unsigned
          have written := writeValue_normal json anySpells m.name v typed unsigned place
          simp only [Slot.normal, shape]
          unfold writeSlot
          rw [shape]
          exact written
      | repeated _ _ _ | map _ _ | oneof _ => simp only [shape] at typed
  | many vs =>
      simp only [Slot.known, Slot.Conforms] at typed
      simp only [Slot.Everywhere] at unsigned
      cases shape : m.shape with
      | repeated type packed capacity =>
          simp only [shape] at typed unsigned
          have begun : w.beginArray.At config .empty path := (Emits.raw w _).at_ place
          simp only [Slot.normal, shape, writeSlot,
            writeElements_normal json anySpells m.name false vs typed unsigned begun]
      | single _ | optional _ | map _ _ | oneof _ => simp only [shape] at typed
  | entries es =>
      simp only [Slot.known, Slot.Conforms] at typed
      simp only [Slot.Everywhere] at unsigned
      cases shape : m.shape with
      | map key value =>
          simp only [shape] at typed unsigned
          have ordered := ordered_entriesKnown.mp typed.1
          have begun : w.beginObject.At config .empty path := (Emits.raw w _).at_ place
          simp only [Slot.normal, shape, writeSlot_entries shape ordered,
            writeSlot_entries shape (ordered_entriesNormal ordered value),
            writeEntries_normal json anySpells m.name false es typed.2 unsigned begun]
      | single _ | optional _ | repeated _ _ _ | oneof _ => simp only [shape] at typed
  | choice tag v =>
      simp only [Slot.known, Slot.Conforms] at typed
      cases found : m.alternative? tag with
      | none => simp only [found] at typed
      | some a => exact absurd (Member.shape_of_alternative found).choose_spec (alone _)

theorem writeElements_normal (json : s.HasJson)
    (anySpells : SpellsAny config .empty (fun _ => True) any tree) (field : String)
    {type : ValueType} (wrote : Bool) {w : Writer} {path at' : Path} {field' : String}
    (vs : List Value) (typed : elementsConform s type (elementsKnown vs))
    (unsigned : elementsEverywhere s Unsigned at' field' type vs) (place : w.At config .empty path)
    : writeElements s any field type (elementsNormal s type vs) wrote w
        = writeElements s any field type vs wrote w := by
  cases vs with
  | nil => rfl
  | cons v vs =>
      have comma := (Emits.commaIf w wrote).at_ place
      simp only [elementsNormal, writeElements,
        writeValue_normal json anySpells field v typed.1 unsigned.1 comma]
      exact writeElements_normal json anySpells field true vs typed.2 unsigned.2
        (at_value json anySpells field v typed.1 comma)

theorem writeEntries_normal (json : s.HasJson)
    (anySpells : SpellsAny config .empty (fun _ => True) any tree) (field : String)
    {type : ValueType} (wrote : Bool) {w : Writer} {path at' : Path} {field' : String}
    (es : List Entry) (typed : entriesConform s type (entriesKnown es))
    (unsigned : entriesEverywhere s Unsigned at' field' type es) (place : w.At config .empty path)
    : writeEntries s any field type (entriesNormal s type es) wrote w
        = writeEntries s any field type es wrote w := by
  cases es with
  | nil => rfl
  | cons e es =>
      cases e with
      | mk key v =>
          have named := at_key place wrote (keyText key)
          simp only [entriesNormal, writeEntries,
            writeValue_normal json anySpells field v typed.1 unsigned.1 named]
          exact writeEntries_normal json anySpells field true es typed.2 unsigned.2
            (at_value json anySpells field v typed.1 named)

theorem writeStruct_normal (json : s.HasJson)
    (anySpells : SpellsAny config .empty (fun _ => True) any tree) {members : List Member}
    {w : Writer} {path at' : Path} (slots : List Slot)
    (shapes : members.map (·.shape) = [.map (.string none) (.message "google.protobuf.Value")])
    (typed : slotsConform s members (slotsKnown slots))
    (unsigned : slotsEverywhere s Unsigned at' members slots) (place : w.At config .empty path)
    : writeStruct s any (slotsNormal s members slots) w = writeStruct s any slots w := by
  obtain ⟨m, rfl, shape⟩ := List.map_eq_singleton_iff.mp shapes
  cases slots with
  | nil => cases typed
  | cons slot slots =>
      have own := typed.1
      have plain := unsigned.1
      cases slot with
      | entries es =>
          simp only [Slot.known, Slot.Conforms, shape] at own
          simp only [Slot.Everywhere, shape] at plain
          have begun : w.beginObject.At config .empty path := (Emits.raw w _).at_ place
          simp only [slotsNormal, Slot.normal, shape, writeStruct,
            writeFields_normal json anySpells false es own.2 plain begun]
      | none | one _ | many _ => simp only [Slot.known, Slot.Conforms, shape] at own
      | choice _ _ => simp only [Slot.known, Slot.Conforms, Member.alternative?, shape] at own

theorem writeFields_normal (json : s.HasJson)
    (anySpells : SpellsAny config .empty (fun _ => True) any tree) (wrote : Bool) {w : Writer}
    {path at' : Path} {field' : String} (es : List Entry)
    (typed : entriesConform s (.message "google.protobuf.Value") (entriesKnown es))
    (unsigned : entriesEverywhere s Unsigned at' field' (.message "google.protobuf.Value") es)
    (place : w.At config .empty path)
    : writeFields s any (entriesNormal s (.message "google.protobuf.Value") es) wrote w
        = writeFields s any es wrote w := by
  cases es with
  | nil => rfl
  | cons e es =>
      cases e with
      | mk key v =>
          have named := at_key place wrote (keyText key)
          simp only [entriesNormal, writeFields,
            writeValue_normal json anySpells (keyText key) v typed.1 unsigned.1 named]
          exact writeFields_normal json anySpells true es typed.2 unsigned.2
            (at_value json anySpells (keyText key) v typed.1 named)

theorem writeKind_normal (json : s.HasJson)
    (anySpells : SpellsAny config .empty (fun _ => True) any tree) {members : List Member}
    {alternatives : List Alternative} {w : Writer} {path at' : Path} (slots : List Slot)
    (shapes : members.map (·.shape) = [.oneof alternatives])
    (typed : slotsConform s members (slotsKnown slots))
    (unsigned : slotsEverywhere s Unsigned at' members slots) (place : w.At config .empty path)
    : writeKind s any members (slotsNormal s members slots) w
      = writeKind s any members slots w := by
  obtain ⟨m, rfl, shape⟩ := List.map_eq_singleton_iff.mp shapes
  cases slots with
  | nil => cases typed
  | cons slot slots =>
      have own := typed.1
      have plain := unsigned.1
      cases slot with
      | none => rfl
      | one _ | many _ | entries _ => simp only [Slot.known, Slot.Conforms, shape] at own
      | choice tag v =>
          simp only [Slot.known, Slot.Conforms] at own
          cases found : m.alternative? tag with
          | none => simp only [found] at own
          | some a =>
              simp only [found] at own
              simp only [Slot.Everywhere, found] at plain
              cases v with
              | scalar v => simp only [slotsNormal, Slot.normal, found, Value.normal, writeKind]
              | message inner =>
                  cases type : a.type with
                  | scalar type =>
                      rw [type] at own
                      exact own.elim
                  | message name =>
                      rw [type] at own plain
                      simp only [slotsNormal, Slot.normal, found, Value.normal, type, writeKind,
                        List.findSome?_cons, Option.map_some]
                      exact writeMessage_normal json anySpells inner (json.type name)
                        own plain place

theorem writeList_normal (json : s.HasJson)
    (anySpells : SpellsAny config .empty (fun _ => True) any tree) {members : List Member}
    {w : Writer} {path at' : Path} (slots : List Slot)
    (shapes : members.map (·.shape) = [.repeated (.message "google.protobuf.Value") false none])
    (typed : slotsConform s members (slotsKnown slots))
    (unsigned : slotsEverywhere s Unsigned at' members slots) (place : w.At config .empty path)
    : writeList s any (slotsNormal s members slots) w = writeList s any slots w := by
  obtain ⟨m, rfl, shape⟩ := List.map_eq_singleton_iff.mp shapes
  cases slots with
  | nil => cases typed
  | cons slot slots =>
      have own := typed.1
      have plain := unsigned.1
      cases slot with
      | many vs =>
          simp only [Slot.known, Slot.Conforms, shape] at own
          simp only [Slot.Everywhere, shape] at plain
          have begun : w.beginArray.At config .empty path := (Emits.raw w _).at_ place
          simp only [slotsNormal, Slot.normal, shape, writeList,
            writeItems_normal json anySpells false vs own plain begun]
      | none | one _ | entries _ => simp only [Slot.known, Slot.Conforms, shape] at own
      | choice _ _ => simp only [Slot.known, Slot.Conforms, Member.alternative?, shape] at own

theorem writeItems_normal (json : s.HasJson)
    (anySpells : SpellsAny config .empty (fun _ => True) any tree) (wrote : Bool) {w : Writer}
    {path at' : Path} {field' : String} (vs : List Value)
    (typed : elementsConform s (.message "google.protobuf.Value") (elementsKnown vs))
    (unsigned : elementsEverywhere s Unsigned at' field' (.message "google.protobuf.Value") vs)
    (place : w.At config .empty path)
    : writeItems s any (elementsNormal s (.message "google.protobuf.Value") vs) wrote w
        = writeItems s any vs wrote w := by
  cases vs with
  | nil => rfl
  | cons v vs =>
      cases v with
      | scalar v => exact typed.1.elim
      | message m =>
          have comma := (Emits.commaIf w wrote).at_ place
          have value := spells_message json anySpells m (json.type "google.protobuf.Value") typed.1
            (m.all_of_forall fun _ => trivial) comma
          simp only [elementsNormal, Value.normal, writeItems,
            writeMessage_normal json anySpells m (json.type _) typed.1 unsigned.1 comma]
          exact writeItems_normal json anySpells true vs typed.2 unsigned.2 (value.at_ comma)

end

/-- The document of a message is that of its normal form. -/
theorem encode_normal (lawful : s.Lawful) (json : s.HasJson) (config : Config) {t : MessageType}
    {m : Message} (form : t.HasJson) (typed : m.Typed s t)
    (unsigned : m.Everywhere s Unsigned .root t)
    : encode s config .empty t (m.normal s t) = encode s config .empty t m := by
  have anySpells : SpellsAny config .empty (fun _ => True) (writeAny s) (anyNode s config) :=
    fun _ _ _ _ _ _ place => spells_anyWithin lawful json (.inr (Nat.le_refl _)) place
  exact congrArg Writer.result
    (writeMessage_normal json anySpells m form typed unsigned ⟨rfl, rfl, rfl⟩)

end Protobuf.Json
