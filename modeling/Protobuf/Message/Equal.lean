import Protobuf.Message.Basic

/-! Equality of messages member by member.  An absent message equals an empty one, and entries of
maps are compared by key.
-/

namespace Protobuf

mutual

/-- The message equals the empty one of its type. -/
def Message.isBlank (s : Schema) (t : MessageType) : Message → Bool
  | ⟨slots, unknown⟩ => slotsBlank s t.members slots && unknown.isEmpty

/-- Every member is blank. -/
def slotsBlank (s : Schema) (members : List Member) : List Slot → Bool
  | [] => true
  | slot :: slots =>
      match members with
      | [] => false
      | m :: members => slot.isBlank s m && slotsBlank s members slots

/-- The member holds nothing, or what equals its default. -/
def Slot.isBlank (s : Schema) (m : Member) : Slot → Bool
  | .none => true
  | .one v => v.isBlank s m.shape
  | .many vs => vs.isEmpty
  | .entries es => es.isEmpty
  | .choice _ _ => false

/-- A value of a singular member equals its default; a present scalar does not equal none. -/
def Value.isBlank (s : Schema) (shape : Shape) : Value → Bool
  | .scalar v =>
      match shape with
      | .single _ => v.isDefault
      | _ => false
  | .message m =>
      match shape with
      | .single (.message name) => m.isBlank s (s.type name)
      | .optional (.message name) => m.isBlank s (s.type name)
      | _ => false

end

mutual

/-- Equality of values of a type. -/
def Value.equal (s : Schema) (type : ValueType) : Value → Value → Bool
  | .scalar a, .scalar b => a.equal b
  | .message a, .message b =>
      match type with
      | .message name => a.equal s (s.type name) b
      | .scalar _ => false
  | _, _ => false

/-- Equality of messages of a type. -/
def Message.equal (s : Schema) (t : MessageType) : Message → Message → Bool
  | ⟨slots, unknown⟩, other => slotsEqual s t.members slots other.slots && unknown == other.unknown

/-- Equality of the slots of two messages. -/
def slotsEqual (s : Schema) (members : List Member) : List Slot → List Slot → Bool
  | [], others => others.isEmpty
  | slot :: slots, others =>
      match members, others with
      | m :: members, other :: others =>
          slot.equal s m other && slotsEqual s members slots others
      | _, _ => false

/-- Equality of what a member holds. -/
def Slot.equal (s : Schema) (m : Member) : Slot → Slot → Bool
  | .none, .none => true
  | .none, .one b => b.isBlank s m.shape
  | .one a, .none => a.isBlank s m.shape
  | .one a, .one b =>
      match m.shape with
      | .single type => a.equal s type b
      | .optional type => a.equal s type b
      | _ => false
  | .many as, .many bs =>
      match m.shape with
      | .repeated type _ _ => elementsEqual s type as bs
      | _ => false
  | .entries as, .entries bs =>
      match m.shape with
      | .map _ value =>
          as.length == bs.length && (inKeyOrder (entryTests s value as)).all fun test => test bs
      | _ => false
  | .choice tag a, .choice tag' b =>
      match m.alternative? tag with
      | some alternative => tag == tag' && a.equal s alternative.type b
      | none => false
  | _, _ => false

/-- Equality of the elements of repeated members. -/
def elementsEqual (s : Schema) (type : ValueType) : List Value → List Value → Bool
  | [], others => others.isEmpty
  | a :: as, others =>
      match others with
      | b :: bs => a.equal s type b && elementsEqual s type as bs
      | [] => false

/-- For the entries of a map, under their keys, whether another map has an equal value there. -/
def entryTests (s : Schema) (value : ValueType) : List Entry → List (Scalar × (List Entry → Bool))
  | [] => []
  | ⟨key, a⟩ :: as =>
      (key, fun others => (entryValue? key others).any fun b => a.equal s value b)
        :: entryTests s value as

end

end Protobuf
