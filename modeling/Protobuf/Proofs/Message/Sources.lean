import Protobuf.Proofs.Message.Encoding
import Protobuf.Proofs.Message.Preservation

/-! Where the scalars of a decoded message come from.  Each is the default of its type or was read
from a part of the input, so what holds of these holds of all scalars at every depth.
-/

namespace Protobuf

open Wire

mutual

/-- All scalars in the value have the property; keys of maps are not looked at. -/
def Value.All (P : Scalar → Prop) : Value → Prop
  | .scalar v => P v
  | .message m => m.All P

def Message.All (P : Scalar → Prop) : Message → Prop
  | ⟨slots, _⟩ => slotsAll P slots

/-- The scalars in the slots all have the property. -/
def slotsAll (P : Scalar → Prop) : List Slot → Prop
  | [] => True
  | slot :: slots => slot.All P ∧ slotsAll P slots

/-- The scalars in the slot all have the property. -/
def Slot.All (P : Scalar → Prop) : Slot → Prop
  | .none => True
  | .one v => v.All P
  | .many vs => elementsAll P vs
  | .entries es => entriesAll P es
  | .choice _ v => v.All P

/-- The scalars in the elements all have the property. -/
def elementsAll (P : Scalar → Prop) : List Value → Prop
  | [] => True
  | v :: vs => v.All P ∧ elementsAll P vs

/-- The scalars in the values of the entries all have the property. -/
def entriesAll (P : Scalar → Prop) : List Entry → Prop
  | [] => True
  | ⟨_, v⟩ :: es => v.All P ∧ entriesAll P es

end

section

variable (P : Scalar → Prop) [DecidablePred P]

mutual

def Value.decidableAll : (v : Value) → Decidable (v.All P)
  | .scalar v => inferInstanceAs (Decidable (P v))
  | .message m => m.decidableAll

def Message.decidableAll : (m : Message) → Decidable (m.All P)
  | ⟨slots, _⟩ => decidableSlotsAll slots

def decidableSlotsAll : (slots : List Slot) → Decidable (slotsAll P slots)
  | [] => .isTrue trivial
  | slot :: slots => @instDecidableAnd _ _ slot.decidableAll (decidableSlotsAll slots)

def Slot.decidableAll : (slot : Slot) → Decidable (slot.All P)
  | .none => .isTrue trivial
  | .one v => v.decidableAll
  | .many vs => decidableElementsAll vs
  | .entries es => decidableEntriesAll es
  | .choice _ v => v.decidableAll

def decidableElementsAll : (vs : List Value) → Decidable (elementsAll P vs)
  | [] => .isTrue trivial
  | v :: vs => @instDecidableAnd _ _ v.decidableAll (decidableElementsAll vs)

def decidableEntriesAll : (es : List Entry) → Decidable (entriesAll P es)
  | [] => .isTrue trivial
  | ⟨_, v⟩ :: es => @instDecidableAnd _ _ v.decidableAll (decidableEntriesAll es)

end

end

instance (P : Scalar → Prop) [DecidablePred P] : DecidablePred (Message.All P) :=
  Message.decidableAll P

variable {s : Schema} {embed : Option Embed} {t : MessageType} {m m' : Message}
  {P : Scalar → Prop} {limit : Nat}

/-- The property is one of each slot. -/
theorem slotsAll_iff {slots : List Slot}
    : slotsAll P slots ↔ ∀ slot ∈ slots, slot.All P := by
  induction slots with
  | nil => simp [slotsAll]
  | cons slot slots ih => simp [slotsAll, ih]

/-- The property is one of each element. -/
theorem elementsAll_iff {vs : List Value}
    : elementsAll P vs ↔ ∀ v ∈ vs, v.All P := by
  induction vs with
  | nil => simp [elementsAll]
  | cons v vs ih => simp [elementsAll, ih]

mutual

/-- What holds of every scalar holds of those in a value, by induction on it. -/
theorem Value.all_of_forall (h : ∀ v, P v) (v : Value)
    : v.All P := by
  cases v with
  | scalar v => exact h v
  | message m => exact m.all_of_forall h

/-- What all scalars have, the scalars in a message have, by induction on the message. -/
theorem Message.all_of_forall (h : ∀ v, P v) (m : Message)
    : m.All P := by
  cases m with
  | mk slots unknown => exact slotsAll_of_forall h slots

theorem slotsAll_of_forall (h : ∀ v, P v) (slots : List Slot)
    : slotsAll P slots := by
  cases slots with
  | nil => trivial
  | cons slot slots => exact ⟨slot.all_of_forall h, slotsAll_of_forall h slots⟩

theorem Slot.all_of_forall (h : ∀ v, P v) (slot : Slot)
    : slot.All P := by
  cases slot with
  | none => trivial
  | one v => exact v.all_of_forall h
  | many vs => exact elementsAll_of_forall h vs
  | entries es => exact entriesAll_of_forall h es
  | choice tag v => exact v.all_of_forall h

theorem elementsAll_of_forall (h : ∀ v, P v) (vs : List Value)
    : elementsAll P vs := by
  cases vs with
  | nil => trivial
  | cons v vs => exact ⟨v.all_of_forall h, elementsAll_of_forall h vs⟩

theorem entriesAll_of_forall (h : ∀ v, P v) (es : List Entry)
    : entriesAll P es := by
  cases es with
  | nil => trivial
  | cons e es =>
      cases e with
      | mk key v => exact ⟨v.all_of_forall h, entriesAll_of_forall h es⟩

end

/-- The property holds of defaults and of what is read from at most so many bytes. -/
structure Sourced (P : Scalar → Prop) (limit : Nat) : Prop where
  default : ∀ type : ScalarType, P type.default
  read : ∀ type data v rest, data.length ≤ limit → readScalar type data = .ok v rest → P v

-----------------------------------------------------------------------------------------
-- Messages as they are before anything is read
-----------------------------------------------------------------------------------------

/-- Empty messages hold defaults, by induction on the list of types. -/
theorem all_emptyMessage (default : ∀ type : ScalarType, P type.default)
    (types : List MessageType) (name : String)
    : (emptyMessage types name).All P := by
  induction types generalizing name with
  | nil => simp only [emptyMessage, Message.empty, Message.All, slotsAll]
  | cons t types ih =>
      simp only [emptyMessage]
      split
      · rw [Message.All, slotsAll_iff]
        intro slot listed
        obtain ⟨member, -, rfl⟩ := List.mem_map.mp listed
        unfold Shape.emptySlot
        split
        · exact default _
        · exact ih _
        all_goals trivial
      · exact ih name

/-- The default of a type has the property. -/
theorem Sourced.emptyValue (h : Sourced P limit) (type : ValueType)
    : (s.emptyValue type).All P := by
  cases type with
  | scalar type => exact h.default type
  | message name => exact all_emptyMessage h.default s.types name

-----------------------------------------------------------------------------------------
-- Records
-----------------------------------------------------------------------------------------

variable {tag : Nat} {wire : WireType} {member : Member} {slot new : Slot}
  {bytes payload rest : List UInt8}

/-- What a record is merged into has the property. -/
theorem all_of_target (sized : s.Sized) {own : Nat} {type : ValueType} {current : Value}
    {c : Message} (all : current.All P) (h : s.target own wire type current = .message t c)
    : t.form ≠ .filler ∧ c.All P := by
  obtain ⟨name, _, rfl, rfl, _⟩ := message_of_target h
  exact ⟨sized.form_ne name, all⟩

/-- The message that a record goes into is in the slot or empty, by cases on the shape. -/
theorem Sourced.target (h : Sourced P limit) (sized : s.Sized) {c : Message} (all : slot.All P)
    (target : slot.target s member tag wire = .message t c)
    : t.form ≠ .filler ∧ c.All P := by
  unfold Slot.target at target
  split at target
  · exact all_of_target sized all target
  · exact all_of_target sized all target
  · exact all_of_target sized (h.emptyValue _) target
  · split at target
    · cases target
    · exact all_of_target sized (h.emptyValue _) target
  · exact all_of_target sized (h.emptyValue _) target
  · split at target
    · cases target
      exact ⟨(fun same => by cases same), ⟨h.default _, h.emptyValue _, trivial⟩⟩
    · cases target
  · split at target
    · refine all_of_target sized ?_ target
      unfold Slot.alternative
      split
      · split
        · exact all
        · exact h.emptyValue _
      · exact h.emptyValue _
    · cases target
  · cases target

/-- An entry that is inserted has to have the property itself. -/
theorem entriesAll_insertEntry {key : Scalar} {v : Value} {es : List Entry} (value : v.All P)
    (all : entriesAll P es)
    : entriesAll P (insertEntry key v es) := by
  induction es with
  | nil => exact ⟨value, trivial⟩
  | cons e es ih =>
      obtain ⟨k, w⟩ := e
      simp only [insertEntry]
      split
      · exact ⟨value, all⟩
      · exact ⟨value, all.2⟩
      · exact ⟨all.1, ih all.2⟩

/-- What is put into a slot stands beside what was there, by cases on the shape. -/
theorem Slot.All.put {v : Value} {failure failure' : Option DecodeError} (all : slot.All P)
    (value : v.All P) (put : slot.put member tag v failure = (new, failure'))
    : new.All P := by
  have placed : (slot.put member tag v failure).1 = new := congrArg Prod.fst put
  rw [← placed]
  unfold Slot.put
  split
  · split
    · exact all
    · unfold appendValue
      simp only [Slot.All, elementsAll_iff] at all ⊢
      intro x listed
      split at listed
      · rcases List.mem_append.mp listed with listed | listed
        · exact all x listed
        · rwa [List.mem_singleton.mp listed]
      · exact all x listed
  · split
    · rename_i entry
      split
      · rename_i e found
        unfold entryOfMessage? at found
        split at found
        · cases found
          exact entriesAll_insertEntry value.2.1 all
        · cases found
      · exact all
    · exact all
  · simp only
    split
    · exact value
    · exact all
  · exact value

/-- The values of a packed record have the property. -/
theorem Sourced.readPacked {type : ScalarType} (h : Sourced P limit) {data : List UInt8}
    (short : data.length ≤ limit) {added : List Value} {failure : Option DecodeError}
    (read : readPacked type data = (added, failure))
    : elementsAll P added := by
  induction size : data.length using Nat.strongRecOn generalizing data added failure with
  | _ size ih =>
      cases data with
      | nil =>
          rw [Protobuf.readPacked] at read
          cases read
          trivial
      | cons b tail =>
          rw [Protobuf.readPacked] at read
          split at read
          · cases read
            trivial
          · rename_i v behind first
            have shorter := consumes_readScalar type (b :: tail)
            rw [first] at shorter
            cases read
            exact ⟨h.read _ _ _ _ short first,
              ih _ (size ▸ shorter) (Nat.le_trans (Nat.le_of_lt shorter) short) rfl rfl⟩

/-- Inner messages keep the property when at most so many bytes are merged. -/
def Embed.KeepsAll (P : Scalar → Prop) (limit : Nat) (merge : Embed) : Prop :=
  ∀ t m data m', t.form ≠ .filler → m.All P → data.length ≤ limit → merge t m data = (m', none)
    → m'.All P

/-- One record keeps the property of a slot. -/
theorem SlotStep.all (h : Sourced P limit) (sized : s.Sized)
    (keeps : ∀ merge, embed = some merge → merge.KeepsAll P limit)
    (step : SlotStep s embed member tag wire slot payload rest new)
    (short : payload.length ≤ limit) (all : slot.All P)
    : new.All P := by
  cases step with
  | @scalar _ _ v _ target read put =>
      exact all.put (v := .scalar v) (h.read _ _ _ _ short read) put
  | @message _ _ merged _ _ _ target within read inner put =>
      obtain ⟨length, -, rfl⟩ := Decoder.split_of_lengthDelimited read
      simp only [List.length_append] at short
      obtain ⟨form, current⟩ := h.target sized all target
      exact all.put (v := .message merged)
        (keeps _ within _ _ _ _ form current (by omega) inner) put
  | run target read packed appended =>
      obtain ⟨length, -, rfl⟩ := Decoder.split_of_lengthDelimited read
      simp only [List.length_append] at short
      have added := h.readPacked (by omega) packed
      obtain ⟨rfl, -⟩ := many_of_target_run target
      simp only [Slot.All, elementsAll_iff] at all added ⊢
      intro v listed
      rw [(appendValues_success appended).1] at listed
      rcases List.mem_append.mp listed with listed | listed
      · exact all v listed
      · exact added v listed
  | nothing target unread => exact all

/-- Replacing a slot keeps the property if the new one has it. -/
theorem all_replaceSlot {members : List Member} {slots : List Slot} (all : slotsAll P slots)
    (h : new.All P)
    : slotsAll P (replaceSlot tag new members slots) := by
  induction members generalizing slots with
  | nil => cases slots <;> exact all
  | cons m members ih =>
      cases slots with
      | nil => exact all
      | cons slot slots =>
          simp only [replaceSlot]
          split
          · exact ⟨h, all.2⟩
          · exact ⟨all.1, ih all.2⟩

/-- One record keeps the property of a message. -/
theorem RecordStep.all (h : Sourced P limit) (sized : s.Sized)
    (keeps : ∀ merge, embed = some merge → merge.KeepsAll P limit)
    (step : RecordStep s embed t m bytes rest m') (short : bytes.length ≤ limit) (all : m.All P)
    : m'.All P := by
  obtain ⟨slots, unknown⟩ := m
  cases step with
  | declared key found step =>
      have shorter := Decoder.consumes_key bytes
      rw [key] at shorter
      obtain ⟨-, listed, -⟩ := mem_of_memberSlot? found
      have old := slotsAll_iff.mp all _ listed
      have small := Nat.le_of_lt (Nat.lt_of_lt_of_le shorter short)
      exact all_replaceSlot all (step.all h sized keeps small old)
  | undeclared key missing whole legal complete =>
      unfold keepUnknown
      split <;> exact all

/-- Merging keeps the property, by induction on the records. -/
theorem all_mergeRecords (h : Sourced P limit) (sized : s.Sized) (form : t.form ≠ .filler)
    (keeps : ∀ merge, embed = some merge → merge.KeepsAll P limit) (all : m.All P)
    (short : bytes.length ≤ limit) (merged : mergeRecords s embed t m bytes = (m', none))
    : m'.All P := by
  refine mergeRecords_induction
    (motive := fun m bytes m' => m.All P → bytes.length ≤ limit → m'.All P)
    (fun _ all _ => all) ?_ merged all short
  intro m bytes m' _ success others all short
  have step := recordStep_of_success form success
  exact others (step.all h sized keeps short all)
    (Nat.le_trans (Nat.le_of_lt (length_of_mergeRecord success)) short)

/-- Embedded messages keep the property at every depth, by induction on the nesting budget. -/
theorem keepsAll_embedWithin (h : Sourced P limit) (sized : s.Sized) (budget : Nat)
    : ∀ merge, embedWithin s budget = some merge → merge.KeepsAll P limit := by
  induction budget with
  | zero => exact nofun
  | succ budget ih =>
      intro merge within t m data m' form all short merged
      cases within
      exact all_mergeRecords h sized form ih all short merged

/-- A decoded message holds defaults and what was read from its bytes. -/
theorem Schema.Sized.all_decode (sized : s.Sized) {name : String} (h : Sourced P bytes.length)
    (accepted : s.decode name bytes = .ok m)
    : m.All P :=
  all_mergeRecords h sized (sized.form_ne name) (keepsAll_embedWithin h sized recursionLimit)
    (all_emptyMessage h.default s.types name) (Nat.le_refl _) (Schema.merge_of_decode accepted)

end Protobuf
