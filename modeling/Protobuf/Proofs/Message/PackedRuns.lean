import Protobuf.Proofs.Message.Interleaving
import Protobuf.Proofs.Message.Loops
import Protobuf.Proofs.Wire.Agreement
import Protobuf.Proofs.Wire.Element

/-! Lists of numbers.  However their values are cut into packed records and records of one value,
the list takes them in their order as far as its capacity allows, whatever records of other fields
stand in between; and a packed record that ends inside a value is refused.
-/

namespace Protobuf

open Wire

variable {s : Schema} {embed : Option Embed} {t : MessageType} {m m' : Message} {member : Member}
  {type : ScalarType} {declared : Bool} {capacity : Option Nat}

-----------------------------------------------------------------------------------------
-- Packed payloads
-----------------------------------------------------------------------------------------

/-- The bytes of elements one after the other. -/
def runBytes (es : List (Element type)) : List UInt8 :=
  es.flatMap (·.bytes)

def runValues (es : List (Element type)) : List Value :=
  es.map fun e => .scalar e.value

/-- Elements are read one after the other, and then what stands behind them. -/
theorem readPacked_runBytes_append (es : List (Element type)) (more : List UInt8)
    : readPacked type (runBytes es ++ more)
        = (runValues es ++ (readPacked type more).1, (readPacked type more).2) := by
  induction es with
  | nil => rfl
  | cons e es ih =>
      simp only [runBytes, runValues, List.flatMap_cons, List.map_cons, List.append_assoc] at ih ⊢
      rw [readPacked_of_reads e.reads, ih]
      rfl

theorem readPacked_runBytes (es : List (Element type))
    : readPacked type (runBytes es) = (runValues es, none) := by
  have read := readPacked_runBytes_append es []
  rw [List.append_nil, readPacked, List.append_nil] at read
  exact read

theorem readPacked_front {e : Element type} {front lost : List UInt8}
    (cut : front ++ lost = e.bytes) (begun : front ≠ []) (proper : lost ≠ [])
    : readPacked type front = ([], some .unexpectedEof) := by
  obtain ⟨rest, failed⟩ := e.readScalar_of_front cut proper
  obtain ⟨b, tail, rfl⟩ := List.exists_cons_of_ne_nil begun
  rw [readPacked]
  split
  · rename_i refused
    cases failed.symm.trans refused
    rfl
  · rename_i found
    cases failed.symm.trans found

-----------------------------------------------------------------------------------------
-- Lists within a capacity
-----------------------------------------------------------------------------------------

/-- A list that stays within the capacity. -/
structure BoundedList (capacity : Option Nat) where
  values : List Value
  within : withinCapacity capacity values.length

namespace BoundedList

/-- Appends values if there is room for all of them. -/
def append (b : BoundedList capacity) (added : List Value)
    : Except DecodeError (BoundedList capacity) :=
  if room : withinCapacity capacity (b.values.length + added.length) then
    .ok ⟨b.values ++ added, by rwa [List.length_append]⟩
  else .error .capacityExceeded

variable {b b' : BoundedList capacity} {added : List Value} {e : DecodeError}

theorem append_of_room (room : withinCapacity capacity (b.values.length + added.length))
    : b.append added = .ok ⟨b.values ++ added, by rwa [List.length_append]⟩ :=
  dif_pos room

theorem append_of_full (full : ¬withinCapacity capacity (b.values.length + added.length))
    : b.append added = .error .capacityExceeded :=
  dif_neg full

theorem room_of_append (h : b.append added = .ok b')
    : withinCapacity capacity (b.values.length + added.length)
      ∧ b'.values = b.values ++ added := by
  by_cases room : withinCapacity capacity (b.values.length + added.length)
  · cases (append_of_room room).symm.trans h
    exact ⟨room, rfl⟩
  · cases (append_of_full room).symm.trans h

theorem full_of_append (h : b.append added = .error e)
    : ¬withinCapacity capacity (b.values.length + added.length) ∧ e = .capacityExceeded := by
  by_cases room : withinCapacity capacity (b.values.length + added.length)
  · cases (append_of_room room).symm.trans h
  · cases (append_of_full room).symm.trans h
    exact ⟨room, rfl⟩

/-- Values that are appended in two parts are appended together. -/
theorem append_bind (b : BoundedList capacity) (first second : List Value)
    : (b.append first >>= fun b' => b'.append second) = b.append (first ++ second) := by
  by_cases room : withinCapacity capacity (b.values.length + first.length)
  · rw [append_of_room room]
    simp only [append, bind, Except.bind, List.length_append, Nat.add_assoc, List.append_assoc]
  · have full : ¬withinCapacity capacity (b.values.length + (first ++ second).length) := by
      rw [List.length_append]
      exact fun all => room (withinCapacity_mono all (by omega))
    rw [append_of_full room, append_of_full full]
    rfl

theorem foldlM_append {α : Type} (values : α → List Value) (parts : List α)
    (b : BoundedList capacity)
    : parts.foldlM (fun b a => b.append (values a)) b = b.append (parts.flatMap values) := by
  induction parts generalizing b with
  | nil =>
      have room : withinCapacity capacity (b.values.length + ([] : List Value).length) := b.within
      rw [List.flatMap_nil, append_of_room room]
      simp only [List.foldlM_nil, List.append_nil]
      rfl
  | cons a parts ih =>
      rw [List.foldlM_cons, List.flatMap_cons, ← append_bind]
      exact congrArg _ (funext fun b' => ih b')

/-- A packed run that does not fit is refused for want of room. -/
theorem appendValues_of_full (full : ¬withinCapacity capacity (b.values.length + added.length))
    : (appendValues capacity b.values added).2 = some .capacityExceeded := by
  have within := b.within
  cases capacity with
  | none => exact absurd rfl full
  | some limit =>
      simp only [withinCapacity, decide_eq_true_eq] at full within
      simp only [appendValues, if_neg (show ¬added.length ≤ limit - b.values.length by omega)]

/-- A packed payload fails for want of room before it fails for what can not be read behind. -/
theorem mergePacked_eq {payload : List UInt8} {failure : Option DecodeError}
    (read : readPacked type payload = (added, failure))
    : (mergePacked type capacity b.values payload).2
        = if withinCapacity capacity (b.values.length + added.length) then failure
          else some .capacityExceeded := by
  simp only [mergePacked, read]
  by_cases room : withinCapacity capacity (b.values.length + added.length)
  · rw [if_pos room, appendValues_eq room]
  · rw [if_neg room]
    have refused := appendValues_of_full room
    cases appended : appendValues capacity b.values added with
    | mk values failure' =>
        rw [appended] at refused
        cases refused
        rfl

end BoundedList

-----------------------------------------------------------------------------------------
-- Pieces
-----------------------------------------------------------------------------------------

/-- A record of a list of numbers: a packed run of any length, or one element. -/
inductive Piece (type : ScalarType) where
  | packed (es : List (Element type)) (small : (runBytes es).length < 2 ^ 63)
  | single (e : Element type)

namespace Piece

/-- The values that a record adds. -/
def values : Piece type → List Value
  | .packed es _ => runValues es
  | .single e => [.scalar e.value]

def bytes (tag : Nat) : Piece type → List UInt8
  | .packed es _ => keyBytes tag .lengthDelimited ++ delimit (runBytes es)
  | .single e => keyBytes tag type.wireType ++ e.bytes

/-- A record of either form adds its values or fails for want of room. -/
theorem readsInto (lawful : t.Lawful) (number : type.wireType ≠ .lengthDelimited)
    (shape : member.shape = .repeated (.scalar type) declared capacity)
    : ReadsInto s embed t member (bytes member.tag) (fun b => .many b.values)
        fun (b : BoundedList capacity) (p : Piece type) => b.append p.values := by
  have own : member.tag ∈ member.tags := Member.tag_mem (by simp [shape])
  have apart : ¬(type.wireType = .lengthDelimited ∧ type.wireType ≠ .lengthDelimited) :=
    fun run => run.2 run.1
  constructor
  case absorbs =>
    intro b b' p appended
    obtain ⟨room, same⟩ := BoundedList.room_of_append appended
    rw [same]
    cases p with
    | packed es small =>
        exact absorbs_run lawful shape number room small (readPacked_runBytes es)
    | single e =>
        have read : mergeValue s embed (.scalar type) (s.emptyValue (.scalar type)) e.bytes
            = ⟨.scalar e.value, none, []⟩ := by
          simp only [mergeValue, Schema.emptyValue, mergeScalar, e.read]
        have absorbed : Absorbs s embed t member
            (keyBytes member.tag (ValueType.scalar type).wireType ++ e.bytes)
            (.many b.values) (.many (b.values ++ [.scalar e.value])) :=
          absorbs_element lawful shape room read
        exact absorbed
  case fails =>
    intro b p e refused
    obtain ⟨full, rfl⟩ := BoundedList.full_of_append refused
    cases p with
    | packed es small =>
        refine fails_record lawful own WireType.noConfusion fun more => ?_
        have tight : (mergePacked type capacity b.values (runBytes es)).2
            = some .capacityExceeded :=
          (b.mergePacked_eq (readPacked_runBytes es)).trans (if_neg full)
        simp only [mergeSlot, shape, mergeRepeated, if_pos (And.intro trivial number),
          Decoder.reads_lengthDelimited small more, tight]
    | single e =>
        refine fails_record lawful own (ValueType.scalar type).wireType_ne fun more => ?_
        have tight : withinCapacity capacity (b.values.length + 1) = false :=
          Bool.eq_false_iff.mpr full
        simp only [mergeSlot, shape, mergeRepeated, if_neg apart, mergeElement, mergeChecked,
          ValueType.wireType, if_true, mergeValue, Schema.emptyValue,
          mergeScalar_of_reads e.reads, appendValue, tight, Bool.false_eq_true, if_false]

end Piece

/-- A packed record whose payload ends inside an element. -/
structure CutRun (type : ScalarType) where
  whole : List (Element type)
  element : Element type
  front : List UInt8
  lost : List UInt8
  cut : front ++ lost = element.bytes
  begun : front ≠ []
  proper : lost ≠ []
  small : (runBytes whole ++ front).length < 2 ^ 63

namespace CutRun

def bytes (tag : Nat) (r : CutRun type) : List UInt8 :=
  keyBytes tag .lengthDelimited ++ delimit (runBytes r.whole ++ r.front)

/-- A run that is cut off fails, for want of room if its whole elements do not fit. -/
theorem fails (r : CutRun type) (lawful : t.Lawful) (number : type.wireType ≠ .lengthDelimited)
    (shape : member.shape = .repeated (.scalar type) declared capacity) (b : BoundedList capacity)
    : Fails s embed t member
        (if withinCapacity capacity (b.values.length + r.whole.length) then .unexpectedEof
          else .capacityExceeded)
        (r.bytes member.tag) (.many b.values) := by
  have own : member.tag ∈ member.tags := Member.tag_mem (by simp [shape])
  have read : readPacked type (runBytes r.whole ++ r.front)
      = (runValues r.whole, some .unexpectedEof) := by
    rw [readPacked_runBytes_append, readPacked_front r.cut r.begun r.proper, List.append_nil]
  have failed := b.mergePacked_eq read
  rw [runValues, List.length_map] at failed
  refine fails_record lawful own WireType.noConfusion fun more => ?_
  simp only [mergeSlot, shape, mergeRepeated, if_pos (And.intro trivial number),
    Decoder.reads_lengthDelimited r.small more, failed]
  split <;> rfl

end CutRun

-----------------------------------------------------------------------------------------
-- Records of a list among others
-----------------------------------------------------------------------------------------

theorem Element.exists_of_hasType (number : type.wireType ≠ .lengthDelimited) {v : Scalar}
    (typed : v.hasType type)
    : ∃ e : Element type, e.bytes = (payload type v).encoding ∧ e.value = v := by
  have small := size_payload_lt number v
  rw [← Payload.length_encoding] at small
  exact ⟨.ofScalar v typed small, rfl, rfl⟩

/-- A list of numbers takes values in their order, in whichever pieces they come: in packed runs,
empty ones too, or one by one, with records of other fields in between.  The message is the one that
the other records lead to, with these values in the list.  Merging fails for want of room exactly if
the list would grow beyond its capacity, and fails at a packed run that ends inside an element.
Every value of the type has bytes of this kind.
-/
theorem merge_pieces (lawful : t.Lawful) (number : type.wireType ≠ .lengthDelimited)
    (shape : member.shape = .repeated (.scalar type) declared capacity) (typed : m.Typed s t)
    (b : BoundedList capacity)
    (held : memberSlot? member.tag t.members m.slots = some (member, .many b.values))
    {parts : List (Piece type ⊕ Record)} (foreign : ∀ r ∈ otherRecords parts, r.Foreign member)
    {budget : Nat}
    (others : mergeRecords s (embedWithin s budget) t m ((otherRecords parts).flatMap (·.bytes))
      = (m', none))
    : let merge := mergeRecords s (embedWithin s budget) t m
      let bytes := interleaved (Piece.bytes member.tag) parts
      let values := (ownParts parts).flatMap Piece.values
      (withinCapacity capacity (b.values.length + values.length)
        → merge bytes = (m'.withSlot t member.tag (.many (b.values ++ values)), none))
      ∧ ((merge bytes).2 = some .capacityExceeded
        ↔ ¬withinCapacity capacity (b.values.length + values.length))
      ∧ (∀ (r : CutRun type) (more : List UInt8),
        (merge (bytes ++ (r.bytes member.tag ++ more))).2
          = some (if withinCapacity capacity (b.values.length + values.length + r.whole.length)
              then .unexpectedEof else .capacityExceeded))
      ∧ ∀ v : Scalar, v.hasType type
        → ∃ e : Element type, e.bytes = (payload type v).encoding ∧ e.value = v := by
  intro merge bytes values
  have reads : ReadsInto s (embedWithin s budget) t member (Piece.bytes member.tag)
      (fun b => .many b.values) fun (b : BoundedList capacity) (p : Piece type) =>
        b.append p.values :=
    Piece.readsInto lawful number shape
  obtain ⟨kept, merged⟩ := reads.merge lawful typed.hasForm held foreign others
  rw [BoundedList.foldlM_append] at merged
  by_cases room : withinCapacity capacity (b.values.length + values.length)
  · rw [BoundedList.append_of_room room] at merged
    have grown : memberSlot? member.tag t.members
          (m'.withSlot t member.tag (.many (b.values ++ values))).slots
        = some (member, .many (b.values ++ values)) :=
      Message.memberSlot?_withSlot kept
    refine ⟨fun _ => merged, ?_, fun r more => ?_, fun v => Element.exists_of_hasType number⟩
    · exact iff_of_false (by simp [merge, bytes, merged]) (not_not_intro room)
    · let list : BoundedList capacity := ⟨b.values ++ values, by rwa [List.length_append]⟩
      have ends : Fails s (embedWithin s budget) t member _ (r.bytes member.tag)
        (.many list.values) :=
        r.fails lawful number shape list
      have failed := ends.merge grown more
      simp only [merge, bytes, mergeRecords_append merged]
      rwa [List.length_append] at failed
  · rw [BoundedList.append_of_full room] at merged
    refine ⟨fun fits => absurd fits room, iff_of_true ?_ room, fun r more => ?_,
      fun v => Element.exists_of_hasType number⟩
    · have failed := merged []
      rwa [List.append_nil] at failed
    · have full : ¬withinCapacity capacity (b.values.length + values.length + r.whole.length) :=
        fun fits => room (withinCapacity_mono fits (Nat.le_add_right _ _))
      rw [if_neg full]
      exact merged _

/-- A packed run, an empty one and a single element in more bytes than it needs fill a list of
three, with a dynamic value in between; a run that is cut off in its first element fails behind
them.
-/
theorem merge_pieces_reading
    : let s := WellKnown.schemaWith [readingType]
      let held (n : Int32) : Value := .scalar (.int32 n)
      let m : Message := ⟨[.one (.scalar (.double 1)), .many [held 7], .none], [0xff]⟩
      let note : Record := ⟨3, [0x1a, 4, 0x1a, 2, 0x68, 0x69]⟩
      let merged := s.merge readingType m note.bytes
      let bytes := [0x12, 1, 2] ++ note.bytes ++ [0x12, 0, 0x10, 0x84, 0]
      merged.2 = none
      ∧ s.merge readingType m bytes
          = (merged.1.withSlot readingType 2 (.many [held 7, held 1, held 2]), none)
      ∧ (s.merge readingType m (bytes ++ [0x12, 1, 0x80])).2 = some .unexpectedEof := by
  intro s held m note merged bytes
  let one : Element .sint32 := .ofVarint rfl [2] 2 (by decide +kernel)
  let two : Element .sint32 := .ofVarint rfl [0x84, 0] 4 (by decide +kernel)
  let parts : List (Piece .sint32 ⊕ Record) :=
    [.inl (.packed [one] (by decide)), .inr note, .inl (.packed [] (by decide)), .inl (.single two)]
  let cut : CutRun .sint32 :=
    ⟨[], .ofVarint rfl [0x80, 1] 128 (by decide +kernel), [0x80], [1], rfl, by decide, by decide,
      by decide⟩
  have typed : m.Typed s readingType := ⟨⟨rfl, ⟨rfl, trivial⟩, trivial, rfl⟩, .nil⟩
  have foreign : ∀ r ∈ otherRecords parts, r.Foreign readingType.members[1] := by
    intro r member
    cases List.mem_singleton.mp member
    exact ⟨by decide, by decide +kernel⟩
  have success : merged.2 = none := by decide +kernel
  have others : mergeRecords s (embedWithin s recursionLimit) readingType m
      ((otherRecords parts).flatMap (·.bytes)) = (merged.1, none) :=
    Prod.ext rfl success
  obtain ⟨whole, -, failed, -⟩ := merge_pieces (by decide) (by decide) rfl typed ⟨[held 7], rfl⟩ rfl
    foreign others
  have written : interleaved (Piece.bytes 2) parts = bytes := by decide +kernel
  have unfinished : cut.bytes 2 = [0x12, 1, 0x80] := by decide +kernel
  have all : s.merge readingType m (interleaved (Piece.bytes 2) parts)
      = (merged.1.withSlot readingType 2 (.many [held 7, held 1, held 2]), none) := whole rfl
  have last : (s.merge readingType m (interleaved (Piece.bytes 2) parts ++ (cut.bytes 2 ++ []))).2
      = some .unexpectedEof := failed cut []
  rw [written] at all
  rw [written, unfinished, List.append_nil] at last
  exact ⟨success, all, last⟩

end Protobuf
