import Protobuf.Message.Merge
import Protobuf.Proofs.Wire.Locality
import Protobuf.WellKnown.Types

/-! Merging a concatenation is merging its parts one after the other.  Every step of the merge,
from a scalar to a whole record, ends where its input says, so appended bytes stay untouched until
their own turn comes.
-/

namespace Protobuf

open Wire

variable {s : Schema} {embed : Option Embed}

/-- The outcome of merging the same input with more bytes behind it. -/
def Wire.Merged.before {α : Type} (merged : Merged α) (more : List UInt8) : Merged α :=
  { merged with rest := merged.rest ++ more }

theorem mergeNested_append {t : MessageType} {current : Message} {bytes : List UInt8}
    (h : (mergeNested embed t current bytes).failure = none) (more : List UInt8)
    : mergeNested embed t current (bytes ++ more)
        = (mergeNested embed t current bytes).before more := by
  unfold mergeNested at h ⊢
  cases embed with
  | none => cases h
  | some embed =>
      cases read : Decoder.lengthDelimited bytes with
      | error e rest => simp [read] at h
      | ok payload rest =>
          simp only [Decoder.local_lengthDelimited _ _ _ read more]
          rfl

theorem mergeValue_append {type : ValueType} {current : Value} {bytes : List UInt8}
    (h : (mergeValue s embed type current bytes).failure = none) (more : List UInt8)
    : mergeValue s embed type current (bytes ++ more)
        = (mergeValue s embed type current bytes).before more := by
  unfold mergeValue at h ⊢
  split at h
  · simp only [mergeScalar_append h more]
    rfl
  · simp only [mergeNested_append h more]
    rfl
  · rfl

theorem mergeChecked_append {tag : Nat} {wire : WireType} {type : ValueType} {current : Value}
    {bytes : List UInt8}
    (h : (mergeChecked s embed tag wire type current bytes).failure = none) (more : List UInt8)
    : mergeChecked s embed tag wire type current (bytes ++ more)
        = (mergeChecked s embed tag wire type current bytes).before more := by
  unfold mergeChecked at h ⊢
  split at h
  · rename_i expected
    simp only [if_pos expected]
    exact mergeValue_append h more
  · cases h

theorem mergeElement_append {tag : Nat} {wire : WireType} {type : ValueType}
    {capacity : Option Nat} {values : List Value} {bytes : List UInt8}
    (h : (mergeElement s embed tag wire type capacity values bytes).failure = none)
    (more : List UInt8)
    : mergeElement s embed tag wire type capacity values (bytes ++ more)
        = (mergeElement s embed tag wire type capacity values bytes).before more := by
  simp only [mergeElement] at h ⊢
  cases read : (mergeChecked s embed tag wire type (s.emptyValue type) bytes).failure with
  | some e => simp [read] at h
  | none =>
      rw [mergeChecked_append read more]
      simp only [Merged.before, read]

/-- A record of a repeated member ends after its element or its packed run. -/
theorem mergeRepeated_append {tag : Nat} {wire : WireType} {type : ValueType}
    {capacity : Option Nat} {values : List Value} {bytes : List UInt8}
    (h : (mergeRepeated s embed tag wire type capacity values bytes).failure = none)
    (more : List UInt8)
    : mergeRepeated s embed tag wire type capacity values (bytes ++ more)
        = (mergeRepeated s embed tag wire type capacity values bytes).before more := by
  unfold mergeRepeated at h ⊢
  split at h
  · exact mergeElement_append h more
  · split at h
    · rename_i run
      simp only [if_pos run]
      cases read : Decoder.lengthDelimited bytes with
      | error e rest => simp [read] at h
      | ok payload rest =>
          simp only [Decoder.local_lengthDelimited _ _ _ read more]
          rfl
    · rename_i single
      simp only [if_neg single]
      exact mergeElement_append h more

theorem mergeMap_append {tag : Nat} {wire : WireType} {key : ScalarType} {value : ValueType}
    {entries : List Entry} {bytes : List UInt8}
    (h : (mergeMap s embed tag wire key value entries bytes).failure = none)
    (more : List UInt8)
    : mergeMap s embed tag wire key value entries (bytes ++ more)
        = (mergeMap s embed tag wire key value entries bytes).before more := by
  simp only [mergeMap] at h ⊢
  split at h
  · rename_i delimited
    simp only [if_pos delimited]
    cases read : (mergeNested embed (.entry key value) (s.emptyEntry key value) bytes).failure with
    | some e => simp [read] at h
    | none =>
        rw [mergeNested_append read more]
        simp only [Merged.before, read]
        split <;> rfl
  · cases h

/-- An alternative of a oneof ends where its type says, whether it is set or not. -/
theorem mergeAlternative_append {wire : WireType} {a : Alternative} {current : Slot}
    {bytes : List UInt8}
    (h : (mergeAlternative s embed wire a current bytes).failure = none) (more : List UInt8)
    : mergeAlternative s embed wire a current (bytes ++ more)
        = (mergeAlternative s embed wire a current bytes).before more := by
  unfold mergeAlternative at h ⊢
  split at h
  · split at h
    · rename_i same
      simp only [if_pos same, mergeChecked_append h more]
      rfl
    · rename_i other
      simp only [if_neg other, mergeChecked_append h more]
      rfl
  · simp only [mergeChecked_append h more]
    rfl

/-- A record of a member ends where its shape says, by cases on the shape. -/
theorem mergeSlot_append {m : Member} {tag : Nat} {wire : WireType} {current : Slot}
    {bytes : List UInt8}
    (h : (mergeSlot s embed m tag wire current bytes).failure = none) (more : List UInt8)
    : mergeSlot s embed m tag wire current (bytes ++ more)
        = (mergeSlot s embed m tag wire current bytes).before more := by
  unfold mergeSlot at h ⊢
  split at h
  · simp only [mergeChecked_append h more]
    rfl
  · simp only [mergeChecked_append h more]
    rfl
  · split at h
    · rename_i expected
      simp only [if_pos expected, mergeValue_append h more]
      rfl
    · cases h
  · simp only [mergeRepeated_append h more]
    rfl
  · simp only [mergeMap_append h more]
    rfl
  · split at h
    · exact mergeAlternative_append h more
    · rfl
  · rfl

/-- A record of a declared member ends where its member says, by induction on the members. -/
theorem mergeMember_append {tag : Nat} {wire : WireType} {bytes : List UInt8}
    {members : List Member} {slots : List Slot} {merged : Merged (List Slot)}
    (h : mergeMember s embed tag wire bytes members slots = some merged)
    (success : merged.failure = none) (more : List UInt8)
    : mergeMember s embed tag wire (bytes ++ more) members slots = some (merged.before more) := by
  induction members generalizing slots merged with
  | nil => simp [mergeMember] at h
  | cons m members ih =>
      cases slots with
      | nil => simp [mergeMember] at h
      | cons slot slots =>
          simp only [mergeMember] at h ⊢
          split at h
          · rename_i own
            cases h
            rw [if_pos own, mergeSlot_append success more]
            rfl
          · rename_i other
            rw [if_neg other]
            cases found : mergeMember s embed tag wire bytes members slots with
            | none => simp [found] at h
            | some inner =>
                simp only [found, Option.some.injEq] at h
                subst h
                simp only [ih found success]
                rfl

/-- Whether a member declares the field does not depend on the bytes, by induction on the
members.
-/
theorem mergeMember_eq_none {tag : Nat} {wire : WireType} {bytes : List UInt8}
    {members : List Member} {slots : List Slot}
    (h : mergeMember s embed tag wire bytes members slots = none) (other : List UInt8)
    : mergeMember s embed tag wire other members slots = none := by
  induction members generalizing slots with
  | nil => simp [mergeMember]
  | cons m members ih =>
      cases slots with
      | nil => simp [mergeMember]
      | cons slot slots =>
          simp only [mergeMember] at h ⊢
          split at h
          · cases h
          · rename_i foreign
            rw [if_neg foreign]
            cases found : mergeMember s embed tag wire bytes members slots with
            | none => simp [ih found]
            | some inner => simp [found] at h

theorem mergeCounter_append {tag : Nat} {bytes : List UInt8} {slots : List Slot}
    {merged : Merged (List Slot)} (h : mergeCounter tag bytes slots = some merged)
    (success : merged.failure = none) (more : List UInt8)
    : mergeCounter tag (bytes ++ more) slots = some (merged.before more) := by
  unfold mergeCounter at h ⊢
  split at h
  · rename_i counter
    rw [if_pos counter]
    cases read : Decoder.varint bytes with
    | error e rest =>
        simp only [read, Option.some.injEq] at h
        subst h
        cases success
    | ok v rest =>
        simp only [read, Option.some.injEq] at h
        subst h
        simp only [Decoder.local_varint _ _ _ read more]
        rfl
  · cases h

theorem mergeCounter_eq_none {tag : Nat} {bytes : List UInt8} {slots : List Slot}
    (h : mergeCounter tag bytes slots = none) (other : List UInt8)
    : mergeCounter tag other slots = none := by
  unfold mergeCounter at h ⊢
  split at h
  · split at h <;> cases h
  · rename_i foreign
    rw [if_neg foreign]

theorem mergeField_append {t : MessageType} {m : Message} {tag : Nat} {wire : WireType}
    {bytes : List UInt8} {merged : Merged Message}
    (h : mergeField s embed t m tag wire bytes = some merged)
    (success : merged.failure = none) (more : List UInt8)
    : mergeField s embed t m tag wire (bytes ++ more) = some (merged.before more) := by
  by_cases filler : t.form = .filler
  · simp only [mergeField, if_pos filler] at h ⊢
    cases found : mergeCounter tag bytes m.slots with
    | none => simp [found] at h
    | some inner =>
        simp only [found, Option.some.injEq] at h
        subst h
        simp only [mergeCounter_append found success more]
        rfl
  · simp only [mergeField, if_neg filler] at h ⊢
    cases found : mergeMember s embed tag wire bytes t.members m.slots with
    | none => simp [found] at h
    | some inner =>
        simp only [found, Option.some.injEq] at h
        subst h
        simp only [mergeMember_append found success more]
        rfl

theorem mergeField_eq_none {t : MessageType} {m : Message} {tag : Nat} {wire : WireType}
    {bytes : List UInt8} (h : mergeField s embed t m tag wire bytes = none) (other : List UInt8)
    : mergeField s embed t m tag wire other = none := by
  by_cases filler : t.form = .filler
  · simp only [mergeField, if_pos filler] at h ⊢
    cases missing : mergeCounter tag bytes m.slots with
    | some inner => simp [missing] at h
    | none => simp only [mergeCounter_eq_none missing other]
  · simp only [mergeField, if_neg filler] at h ⊢
    cases missing : mergeMember s embed tag wire bytes t.members m.slots with
    | some inner => simp [missing] at h
    | none => simp only [mergeMember_eq_none missing other]

/-- A record ends before the bytes that are appended to it: a declared one as its member says, an
undeclared one as its wire types say.
-/
theorem mergeRecord_append {t : MessageType} {m : Message} {bytes : List UInt8}
    (h : (mergeRecord s embed t m bytes).failure = none) (more : List UInt8)
    : mergeRecord s embed t m (bytes ++ more)
        = (mergeRecord s embed t m bytes).before more := by
  unfold mergeRecord at h ⊢
  cases read : Decoder.key bytes with
  | error e rest => simp [read] at h
  | ok pair rest =>
      simp only [read, Decoder.local_key _ _ _ read more] at h ⊢
      cases found : mergeField s embed t m pair.1 pair.2 rest with
      | some merged =>
          simp only [found] at h
          simp only [mergeField_append found h more]
      | none =>
          simp only [found] at h
          simp only [mergeField_eq_none found (rest ++ more)]
          cases passed : passRecord 0 bytes with
          | error e => simp [passed] at h
          | ok rest' =>
              -- The captured bytes are counted from the end, which moves along with `more`.
              have captured : (bytes ++ more).length - (rest' ++ more).length
                  = bytes.length - rest'.length := by
                simp only [List.length_append]
                omega
              simp only [passRecord_append passed more, captured]
              rw [List.take_append_of_le_length (by omega)]
              rfl

/-- Records that merge without an error can be merged first, by induction on their bytes. -/
theorem mergeRecords_append {t : MessageType} {m m' : Message} {first : List UInt8}
    (h : mergeRecords s embed t m first = (m', none)) (second : List UInt8)
    : mergeRecords s embed t m (first ++ second) = mergeRecords s embed t m' second := by
  induction size : first.length using Nat.strongRecOn generalizing m first with
  | _ size ih =>
      by_cases empty : first = []
      · subst empty
        rw [mergeRecords_nil] at h
        cases h
        rw [List.nil_append]
      cases merged : (mergeRecord s embed t m first).failure with
      | some e =>
          rw [mergeRecords_of_failure empty merged] at h
          cases h
      | none =>
          have longer := mergeRecord_append merged second
          rw [mergeRecords_of_success empty merged] at h
          rw [mergeRecords_of_success (by simp [empty]) (by rw [longer]; exact merged), longer]
          exact ih _ (size ▸ length_of_mergeRecord merged) h rfl

namespace Schema

/-- Merging bytes and then more bytes is merging all of them at once: the same message and the same
error, if there is one.
-/
theorem merge_append (s : Schema) (t : MessageType) (m m' : Message) (a b : List UInt8)
    (h : s.merge t m a = (m', none))
    : s.merge t m (a ++ b) = s.merge t m' b :=
  mergeRecords_append h b

/-- A value that holds an object with one member, and a second object that is cut off: the error of
the second does not undo the first.
-/
theorem merge_append_struct
    : let s := WellKnown.schemaWith []
      let object := [0x2a, 9, 0x0a, 7, 0x0a, 1, 97, 0x12, 2, 0x20, 1]
      let cut := [0x2a, 3, 0x0a, 9, 0]
      let first := s.merge WellKnown.valueType (s.empty WellKnown.valueType.name) object
      first.2 = none
      ∧ s.merge WellKnown.valueType (s.empty WellKnown.valueType.name) (object ++ cut)
          = s.merge WellKnown.valueType first.1 cut
      ∧ (s.merge WellKnown.valueType first.1 cut).2 = some .unexpectedEof := by
  intro s object cut first
  have success : first.2 = none := by decide +kernel
  exact ⟨success, s.merge_append _ _ _ object cut (Prod.ext rfl success), by decide +kernel⟩

end Schema

end Protobuf
