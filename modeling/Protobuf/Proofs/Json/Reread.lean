import Protobuf.Json.Decode
import Protobuf.Proofs.Json.Scalars
import Protobuf.WellKnown.Tree

/-! What a message becomes when it is written and read again: the message that the reader builds up
and the fields that it records on the way.  Messages that have a form of their own are left to a
parameter.
-/

namespace Protobuf.Json

open FieldMask Number

/-- The slots of a message with a form of its own at a path, after it was written and read. -/
abbrev FormBack := Path → MessageType → List Slot → List Slot

section

variable (s : Schema) (mask : PathSet) (form : FormBack)

mutual

/-- The value as it is read back; unknown bytes are not written. -/
def valueBack (path : Path) (field : String) (type : ValueType) : Value → Value
  | .scalar v => .scalar v.canonical
  | .message m =>
      match type with
      | .scalar _ => .message m
      | .message name => .message (messageBack (path.push field) (s.type name) m)

def messageBack (path : Path) (t : MessageType) : Message → Message
  | ⟨slots, _⟩ =>
      match t.form with
      | .members => ⟨slotsBack path t.members slots, []⟩
      | _ => ⟨form path t slots, []⟩

def slotsBack (path : Path) (members : List Member) : List Slot → List Slot
  | [] => []
  | slot :: slots =>
      match members with
      | [] => []
      | m :: members => slotBack path m slot :: slotsBack path members slots

/-- What a member holds as it is read back.  A scalar that is not written is a default, and null may
stand for a value.
-/
def slotBack (path : Path) (m : Member) : Slot → Slot
  | .none =>
      match m.shape with
      | .optional type =>
          if names mask path m.name && nullIsValue s type then
            .one (.message WellKnown.Tree.null.message)
          else .none
      | _ => .none
  | .one v =>
      match m.shape, v with
      | .single (.scalar type), .scalar v =>
          if v.isDefault && !names mask path m.name then .one (.scalar type.default)
          else .one (.scalar v.canonical)
      | .single type, v => .one (valueBack path m.name type v)
      | .optional type, v => .one (valueBack path m.name type v)
      | _, v => .one v
  | .many vs =>
      match m.shape with
      | .repeated type _ _ => .many (elementsBack path m.name type vs)
      | _ => .many vs
  | .entries es =>
      match m.shape with
      | .map _ type => .entries (entriesBack path m.name type es)
      | _ => .entries es
  | .choice tag v =>
      match m.alternative? tag with
      | some a => .choice tag (valueBack path a.name a.type v)
      | none => .choice tag v

def elementsBack (path : Path) (field : String) (type : ValueType) : List Value → List Value
  | [] => []
  | v :: vs => valueBack path field type v :: elementsBack path field type vs

def entriesBack (path : Path) (field : String) (type : ValueType) : List Entry → List Entry
  | [] => []
  | ⟨key, v⟩ :: es => ⟨key, valueBack path field type v⟩ :: entriesBack path field type es

end

end

section

variable (s : Schema) (mask : PathSet)

mutual

/-- The fields that are recorded while the value is read, each as often as a document names it. -/
def valueNamed (path : Path) (field : String) (type : ValueType) : Value → List Path
  | .scalar _ => []
  | .message m =>
      match type with
      | .scalar _ => []
      | .message name => messageNamed (path.push field) (s.type name) m

def messageNamed (path : Path) (t : MessageType) : Message → List Path
  | ⟨slots, _⟩ =>
      match t.form with
      | .members => slotsNamed path t.members slots
      | _ => []

def slotsNamed (path : Path) (members : List Member) : List Slot → List Path
  | [] => []
  | slot :: slots =>
      match members with
      | [] => []
      | m :: members =>
          match m.shape with
          | .oneof _ => slotNamed path m slot ++ slotsNamed path members slots
          | _ =>
              if Slot.isSet m slot || names mask path m.name then
                (path.push m.name :: slotNamed path m slot) ++ slotsNamed path members slots
              else slotsNamed path members slots

/-- The fields inside the slot, and the alternative of a oneof that is set. -/
def slotNamed (path : Path) (m : Member) : Slot → List Path
  | .none => []
  | .one v =>
      match m.shape with
      | .single type | .optional type => valueNamed path m.name type v
      | _ => []
  | .many vs =>
      match m.shape with
      | .repeated type _ _ => elementsNamed path m.name type vs
      | _ => []
  | .entries es =>
      match m.shape with
      | .map _ type => entriesNamed path m.name type es
      | _ => []
  | .choice tag v =>
      match m.alternative? tag with
      | some a => path.push a.name :: valueNamed path a.name a.type v
      | none => []

def elementsNamed (path : Path) (field : String) (type : ValueType) : List Value → List Path
  | [] => []
  | v :: vs => valueNamed path field type v ++ elementsNamed path field type vs

def entriesNamed (path : Path) (field : String) (type : ValueType) : List Entry → List Path
  | [] => []
  | ⟨_, v⟩ :: es => valueNamed path field type v ++ entriesNamed path field type es

end

end

end Protobuf.Json

namespace Protobuf

open FieldMask

section

variable (s : Schema) (Q : Path → MessageType → List Slot → Prop)

mutual

def Value.Everywhere (path : Path) (field : String) (type : ValueType) : Value → Prop
  | .scalar _ => True
  | .message m =>
      match type with
      | .scalar _ => True
      | .message name => m.Everywhere (path.push field) (s.type name)

/-- The property holds of the message and of all messages in its objects, each at its path. -/
def Message.Everywhere (path : Path) (t : MessageType) : Message → Prop
  | ⟨slots, _⟩ => Q path t slots ∧ slotsEverywhere path t.members slots

def slotsEverywhere (path : Path) (members : List Member) : List Slot → Prop
  | [] => True
  | slot :: slots =>
      match members with
      | [] => True
      | m :: members => slot.Everywhere path m ∧ slotsEverywhere path members slots

def Slot.Everywhere (path : Path) (m : Member) : Slot → Prop
  | .none => True
  | .one v =>
      match m.shape with
      | .single type | .optional type => v.Everywhere path m.name type
      | _ => True
  | .many vs =>
      match m.shape with
      | .repeated type _ _ => elementsEverywhere path m.name type vs
      | _ => True
  | .entries es =>
      match m.shape with
      | .map _ type => entriesEverywhere path m.name type es
      | _ => True
  | .choice tag v =>
      match m.alternative? tag with
      | some a => v.Everywhere path a.name a.type
      | none => True

def elementsEverywhere (path : Path) (field : String) (type : ValueType) : List Value → Prop
  | [] => True
  | v :: vs => v.Everywhere path field type ∧ elementsEverywhere path field type vs

def entriesEverywhere (path : Path) (field : String) (type : ValueType) : List Entry → Prop
  | [] => True
  | ⟨_, v⟩ :: es => v.Everywhere path field type ∧ entriesEverywhere path field type es

end

end

variable {s : Schema} {Q : Path → MessageType → List Slot → Prop}

mutual

theorem Value.everywhere_of_forall (h : ∀ path t slots, Q path t slots) (path : Path)
    (field : String) (type : ValueType) (v : Value)
    : v.Everywhere s Q path field type := by
  cases v with
  | scalar v => trivial
  | message m =>
      cases type with
      | scalar type => trivial
      | message name => exact m.everywhere_of_forall h _ _

/-- What holds of any message holds everywhere, by induction on the message. -/
theorem Message.everywhere_of_forall (h : ∀ path t slots, Q path t slots) (path : Path)
    (t : MessageType) (m : Message)
    : m.Everywhere s Q path t := by
  cases m with
  | mk slots unknown => exact ⟨h _ _ _, slotsEverywhere_of_forall h path t.members slots⟩

theorem slotsEverywhere_of_forall (h : ∀ path t slots, Q path t slots) (path : Path)
    (members : List Member) (slots : List Slot)
    : slotsEverywhere s Q path members slots := by
  cases slots with
  | nil => trivial
  | cons slot slots =>
      cases members with
      | nil => trivial
      | cons m members =>
          exact ⟨slot.everywhere_of_forall h path m, slotsEverywhere_of_forall h path members slots⟩

theorem Slot.everywhere_of_forall (h : ∀ path t slots, Q path t slots) (path : Path) (m : Member)
    (slot : Slot)
    : slot.Everywhere s Q path m := by
  cases slot with
  | none => trivial
  | one v =>
      unfold Slot.Everywhere
      split
      · exact v.everywhere_of_forall h _ _ _
      · exact v.everywhere_of_forall h _ _ _
      · trivial
  | many vs =>
      unfold Slot.Everywhere
      split
      · exact elementsEverywhere_of_forall h _ _ _ vs
      · trivial
  | entries es =>
      unfold Slot.Everywhere
      split
      · exact entriesEverywhere_of_forall h _ _ _ es
      · trivial
  | choice tag v =>
      unfold Slot.Everywhere
      split
      · exact v.everywhere_of_forall h _ _ _
      · trivial

theorem elementsEverywhere_of_forall (h : ∀ path t slots, Q path t slots) (path : Path)
    (field : String) (type : ValueType) (vs : List Value)
    : elementsEverywhere s Q path field type vs := by
  cases vs with
  | nil => trivial
  | cons v vs =>
      exact ⟨v.everywhere_of_forall h _ _ _, elementsEverywhere_of_forall h path field type vs⟩

theorem entriesEverywhere_of_forall (h : ∀ path t slots, Q path t slots) (path : Path)
    (field : String) (type : ValueType) (es : List Entry)
    : entriesEverywhere s Q path field type es := by
  cases es with
  | nil => trivial
  | cons e es =>
      cases e with
      | mk key v =>
          exact ⟨v.everywhere_of_forall h _ _ _, entriesEverywhere_of_forall h path field type es⟩

end

end Protobuf
