import Protobuf.Proofs.Indexed
import Protobuf.Proofs.Wire.Extent
import Protobuf.Wire.Cursor

/-! Cursors never leave their input.  Where a cursor stands inside its input, no access is out of
range, each decoder leaves the cursor inside, and it comes to what the decoder of the same name
makes of the bytes that are left.
-/

namespace Protobuf.Wire

variable {data : List UInt8} {start stop i n : Nat}

-----------------------------------------------------------------------------------------
-- Varints and records at an offset
-----------------------------------------------------------------------------------------

/-- Reading at an offset sees nothing in front of it, by induction on the bits that are left. -/
theorem decodeGroups_drop (data : List UInt8) (start i shift : Nat) (v : UInt64)
    : decodeGroups data (start + i) shift v
        = (decodeGroups (data.drop start) i shift v).map fun (n, j) => (n, start + j) := by
  fun_induction decodeGroups (data.drop start) i shift v with
  | case1 i shift v beyond =>
      rw [decodeGroups, if_pos beyond]
      rfl
  | case2 i shift v under missing =>
      rw [List.getElem?_drop] at missing
      rw [decodeGroups, if_neg under, missing]
      rfl
  | case3 i shift v under b found v' last =>
      rw [List.getElem?_drop] at found
      rw [decodeGroups, if_neg under, found]
      simp only [if_pos last, v']
      rfl
  | case4 i shift v under b found v' more ih =>
      rw [List.getElem?_drop] at found
      rw [decodeGroups, if_neg under, found]
      simp only [if_neg more]
      exact ih

/-- A varint at an offset is the one in front of the bytes there. -/
theorem readVarint_drop (data : List UInt8) (i : Nat)
    : readVarint (data.drop i)
        = (decodeVarint data i).map fun (v, n) => (v, data.drop (i + n)) := by
  have shifted := decodeGroups_drop data i 0 0 0
  rw [Nat.add_zero] at shifted
  rw [readVarint, decodeVarint, decodeVarint, shifted]
  cases decodeGroups (data.drop i) 0 0 0 with
  | error e => rfl
  | ok found =>
      obtain ⟨v, j⟩ := found
      simp only [Except.map, Nat.sub_zero, Nat.add_sub_cancel_left, List.drop_drop]

/-- What is behind the offset that was reached, or an error if that is behind the end. -/
def behind (data : List UInt8)
    : Except DecodeError (Nat × Nat) → Except DecodeError (Nat × List UInt8)
  | .error e => .error e
  | .ok (depth, i) =>
      if data.length < i then .error .unexpectedEof else .ok (depth, data.drop i)

/-- Passing over a value by its offset and over its bytes is the same, by cases on the wire type. -/
theorem passValue_drop (wire depth : Nat) (inside : i ≤ data.length)
    : passValue wire depth (data.drop i) = behind data (skipValue data wire depth i) := by
  -- Fixed numbers and payloads alike: so many bytes are passed over if they are there.
  have bytes {i : Nat} (inside : i ≤ data.length) (n : Nat)
      : (passBytes n (data.drop i)).map (fun rest => (depth, rest))
        = behind data (.ok (depth, i + n)) := by
    rw [passBytes, behind, List.length_drop]
    by_cases short : data.length < i + n
    · rw [if_pos (by omega), if_pos short]
      rfl
    · rw [if_neg (by omega), if_neg short, List.drop_drop]
      rfl
  unfold passValue skipValue
  split
  · rw [readVarint_drop]
    cases read : decodeVarint data i with
    | error e => rfl
    | ok found =>
        have bounds := bounds_of_decodeVarint read
        simp only [Except.map, behind, if_neg (Nat.not_lt.mpr bounds.2)]
  · exact bytes inside 8
  · rw [readLength, readVarint_drop]
    cases read : decodeVarint data i with
    | error e => rfl
    | ok found =>
        have bounds := bounds_of_decodeVarint read
        simp only [Except.map]
        by_cases legal : found.1.toNat < 2 ^ 63
        · simp only [if_pos legal]
          exact bytes bounds.2 _
        · simp only [if_neg legal, behind]
  · simp only [behind, if_neg (Nat.not_lt.mpr inside)]
  · split
    · rfl
    · simp only [behind, if_neg (Nat.not_lt.mpr inside)]
  · exact bytes inside 4
  · simp only [behind]

/-- Passing over a record by its offset and over its bytes is the same, by induction on the bytes
that are left.
-/
theorem passRecord_drop (data : List UInt8) (depth i : Nat)
    : passRecord depth (data.drop i) = (skipFrom data depth i).map data.drop := by
  fun_induction skipFrom data depth i with
  | case1 depth i ended =>
      rw [List.drop_eq_nil_of_le ended, passRecord]
      rfl
  | case2 depth i inside e key =>
      rw [passRecord_eq, readVarint_drop, key]
      rfl
  | case3 depth i inside k n key e value =>
      have bounds := bounds_of_decodeVarint key
      rw [passRecord_eq, readVarint_drop, key]
      simp only [Except.map, passValue_drop _ _ bounds.2, value, behind]
  | case4 depth i inside k n key depth' j value beyond =>
      have bounds := bounds_of_decodeVarint key
      rw [passRecord_eq, readVarint_drop, key]
      simp only [Except.map, passValue_drop _ _ bounds.2, value, behind, if_pos beyond]
  | case5 depth i inside k n key j within value =>
      have bounds := bounds_of_decodeVarint key
      rw [passRecord_eq, readVarint_drop, key]
      simp only [Except.map, passValue_drop _ _ bounds.2, value, behind, if_neg within, if_true]
  | case6 depth i inside k n key depth' j value within opened ih =>
      have bounds := bounds_of_decodeVarint key
      rw [passRecord_eq, readVarint_drop, key]
      simp only [Except.map, passValue_drop _ _ bounds.2, value, behind, if_neg within,
        if_neg opened]
      exact ih

/-- A record ends inside the input, by induction on the bytes that are left. -/
theorem bounds_of_skipFrom {depth j : Nat} (h : skipFrom data depth i = .ok j)
    : i < j ∧ j ≤ data.length := by
  fun_induction skipFrom data depth i with
  | case1 | case2 | case3 | case4 => cases h
  | case5 depth i inside k n key j' within value =>
      have bounds := bounds_of_decodeVarint key
      have order := le_of_skipValue value
      cases h
      omega
  | case6 depth i inside k n key depth' j' value within opened ih =>
      have bounds := bounds_of_decodeVarint key
      have order := le_of_skipValue value
      have later := ih h
      omega

/-- The record at the front has the length that passing over its bytes says. -/
theorem skip_eq (data : List UInt8)
    : skip data = recordLength data := by
  have passed := passRecord_drop data 0 0
  rw [List.drop_zero] at passed
  rw [recordLength, passed, skip]
  cases found : skipFrom data 0 0 with
  | error e => rfl
  | ok j =>
      have bounds := bounds_of_skipFrom found
      simp only [Except.map, List.length_drop]
      congr 1
      omega

-----------------------------------------------------------------------------------------
-- Decoders
-----------------------------------------------------------------------------------------

namespace IndexedDecoder

open Indexed

/-- Varints at the cursor are those in front of the rest. -/
theorem views_varint
    : Views varint Decoder.varint := by
  intro data i inside
  rw [varint, Decoder.varint, Decoder.ofParser, readVarint_drop]
  cases read : decodeVarint data i with
  | error e => exact .failed inside
  | ok found => exact .ok (bounds_of_decodeVarint read).2

/-- The next bytes are asked for only if there are as many. -/
theorem views_take (n : Nat)
    : Views (take n) (Decoder.slice n) := by
  intro data i inside
  simp only [take, Decoder.slice, List.length_drop]
  by_cases short : data.length < i + n
  · rw [if_pos short, if_pos (by omega)]
    exact .failed inside
  · have within : i + n ≤ data.length := Nat.le_of_not_lt short
    rw [if_neg short, if_neg (by omega), between?_eq_some (Nat.le_add_right _ _) within,
      Nat.add_sub_cancel_left, List.drop_drop]
    exact .ok within

/-- So many bytes at the cursor are those in front of the rest. -/
theorem views_fixed (n : Nat)
    : Views (fixed n) (Decoder.slice n) := by
  intro data i inside
  simp only [fixed, Decoder.slice, List.length_drop]
  by_cases short : data.length < i + n
  · rw [between?_eq_none short, if_pos (by omega)]
    exact .failed inside
  · have within : i + n ≤ data.length := Nat.le_of_not_lt short
    rw [if_neg (by omega), between?_eq_some (Nat.le_add_right _ _) within,
      Nat.add_sub_cancel_left, List.drop_drop]
    exact .ok within

/-- Four bytes at the cursor make the number in front of the rest. -/
theorem views_fixed32
    : Views fixed32 Decoder.fixed32 :=
  (views_fixed 4).bind fun _ => views_pure _

/-- Eight bytes at the cursor make the number in front of the rest. -/
theorem views_fixed64
    : Views fixed64 Decoder.fixed64 :=
  (views_fixed 8).bind fun _ => views_pure _

/-- A length is followed by so many bytes, at the cursor as in front of the rest. -/
theorem views_lengthDelimited
    : Views lengthDelimited Decoder.lengthDelimited := by
  refine views_varint.bind fun length => ?_
  split
  · exact views_take _
  · exact views_fail _

/-- Text at the cursor is text in front of the rest. -/
theorem views_text
    : Views text Decoder.text := by
  refine views_lengthDelimited.bind fun bytes => ?_
  cases Text.ofUtf8? bytes with
  | some text => exact views_pure text
  | none => exact views_fail _

/-- A key at the cursor is a key in front of the rest. -/
theorem views_key
    : Views key Decoder.key := by
  refine views_varint.bind fun code => ?_
  cases Decoder.splitKey code.toNat with
  | ok pair => exact views_pure pair
  | error e => exact views_fail e

/-- A scalar is read by its offset as from its bytes, by cases on the type. -/
theorem views_scalar (type : ScalarType)
    : Views (scalar type) (readScalar type) := by
  have varint (type : ScalarType) := views_varint.bind fun v => views_pure (ofVarint type v)
  have fixed32 (type : ScalarType) := views_fixed32.bind fun v => views_pure (ofFixed32 type v)
  have fixed64 (type : ScalarType) := views_fixed64.bind fun v => views_pure (ofFixed64 type v)
  cases type with
  | string capacity =>
      refine views_text.bind fun text => ?_
      split
      · exact views_pure _
      · exact views_fail _
  | bytes capacity =>
      refine views_lengthDelimited.bind fun bytes => ?_
      split
      · exact views_pure _
      · exact views_fail _
  | fixed32 | sfixed32 | float => exact fixed32 _
  | fixed64 | sfixed64 | double => exact fixed64 _
  | int32 | int64 | uint32 | uint64 | sint32 | sint64 | bool | enumeration _ => exact varint _

/-- A record that is read once more from its key is passed over as its bytes are. -/
theorem agrees_recordAt (inside : i ≤ data.length) (order : start ≤ data.length)
    : Agrees data (recordAt start data i)
        (match passRecord 0 (data.drop start) with
          | .ok rest => .ok ((data.drop start).take ((data.drop start).length - rest.length)) rest
          | .error e => .error e (data.drop i)) := by
  have passed := passRecord_drop (data.drop start) 0 0
  rw [List.drop_zero] at passed
  simp only [recordAt, bind_apply, sliceFrom, Indexed.slice, between?_length order, skip, passed]
  cases found : skipFrom (data.drop start) 0 0 with
  | error e => exact .failed inside
  | ok n =>
      have bounds := bounds_of_skipFrom found
      rw [List.length_drop] at bounds
      have within : start + n ≤ data.length := by omega
      have taken : (data.drop start).length - ((data.drop start).drop n).length = n := by
        simp only [List.length_drop]
        omega
      simp only [Except.map, bind_apply, moveTo, Indexed.slice,
        between?_eq_some (Nat.le_add_right start n) within, Nat.add_sub_cancel_left]
      rw [taken, List.drop_drop]
      exact .ok within

/-- Where offsets inside the input and legal lengths have 63 bits each, the offset behind a length
fits 64 bits.
-/
theorem slice_eq_take (inside : i ≤ data.length) (short : data.length < 2 ^ 63) (legal : n < 2 ^ 63)
    : slice n data i = take n data i := by
  rw [slice, if_neg (by omega)]

end IndexedDecoder

-----------------------------------------------------------------------------------------
-- Cursors
-----------------------------------------------------------------------------------------

namespace Cursor

variable {c c' c'' : Cursor}

/-- The offset is not behind the end of the input. -/
def Inside (c : Cursor) : Prop :=
  c.position ≤ c.data.length

/-- The bytes from the offset on. -/
def rest (c : Cursor) : List UInt8 :=
  c.data.drop c.position

/-- The second cursor is the first one at a place inside the same input. -/
structure Moved (c c' : Cursor) : Prop where
  data : c'.data = c.data
  budget : c'.budget = c.budget
  inside : c'.Inside

/-- A cursor that stands still has moved by nothing. -/
theorem Moved.refl (inside : c.Inside)
    : c.Moved c :=
  ⟨rfl, rfl, inside⟩

/-- Moving twice is moving. -/
theorem Moved.trans (h : c.Moved c') (h' : c'.Moved c'')
    : c.Moved c'' :=
  ⟨h'.data.trans h.data, h'.budget.trans h.budget, h'.inside⟩

/-- What is left is as long as the way to the end. -/
theorem length_rest (c : Cursor)
    : c.rest.length = c.data.length - c.position :=
  List.length_drop

/-- Cursors start inside their input. -/
theorem inside_ofBytes (bytes : List UInt8)
    : (ofBytes bytes).Inside :=
  Nat.zero_le _

/-- At the start everything is left. -/
@[simp]
theorem rest_start (data : List UInt8) (budget : Nat)
    : (Cursor.mk data 0 budget).rest = data :=
  List.drop_zero

/-- A cursor is at the end when nothing is left. -/
theorem atEnd_iff (c : Cursor)
    : c.atEnd ↔ c.rest = [] := by
  rw [atEnd, decide_eq_true_iff, rest, List.drop_eq_nil_iff]

/-- A cursor that has fewer bytes left stands further on. -/
theorem Moved.position_lt (h : c.Moved c') (fewer : c'.rest.length < c.rest.length)
    : c.position < c'.position := by
  rw [length_rest, length_rest, h.data] at fewer
  omega

/-- A cursor that stands further on has fewer bytes left. -/
theorem Moved.length_lt (h : c.Moved c') (further : c.position < c'.position)
    : c'.rest.length < c.rest.length := by
  have inside : c'.position ≤ c'.data.length := h.inside
  rw [length_rest, length_rest, ← h.data]
  omega

-----------------------------------------------------------------------------------------
-- Decoding at a cursor
-----------------------------------------------------------------------------------------

/-- What decoding comes to at a cursor, and what a decoder comes to: the same value or error, with
the cursor in front of the bytes that the decoder leaves.
-/
inductive Agrees {α : Type} (c : Cursor)
    : EStateM.Result (Interruption DecodeError) Cursor α
      → EStateM.Result DecodeError (List UInt8) α → Prop
  | ok {v : α} {c' : Cursor} (moved : c.Moved c') : Agrees c (.ok v c') (.ok v c'.rest)
  | failed {e : DecodeError} {c' : Cursor} (moved : c.Moved c')
    : Agrees c (.error (.failed e) c') (.error e c'.rest)

variable {α : Type} {read : IndexedDecoder α} {d : Decoder α}

/-- Decoders that agree at an offset agree at a cursor there. -/
theorem agrees_of_indexed {seen : EStateM.Result DecodeError (List UInt8) α}
    (h : Indexed.Agrees c.data (read c.data c.position) seen)
    : c.Agrees (c.run read) seen := by
  rw [run]
  generalize read c.data c.position = result at h ⊢
  cases h with
  | @ok v j inside => exact .ok (⟨rfl, rfl, inside⟩ : c.Moved { c with position := j })
  | @failed e j inside => exact .failed (⟨rfl, rfl, inside⟩ : c.Moved { c with position := j })

/-- A decoder at the cursor comes to what the one of the rest does. -/
theorem agrees_run (h : Indexed.Views read d) (inside : c.Inside)
    : c.Agrees (c.run read) (d c.rest) :=
  agrees_of_indexed (h c.data c.position inside)

/-- What decoding leaves when it succeeds, and the decoder with it. -/
theorem moved_of_ok (h : Indexed.Views read d) (inside : c.Inside) {v : α}
    (found : c.run read = .ok v c')
    : c.Moved c' ∧ d c.rest = .ok v c'.rest := by
  have own := agrees_run h inside
  rw [found] at own
  generalize d c.rest = seen at own ⊢
  cases own with
  | ok moved => exact ⟨moved, rfl⟩

/-- A decoder that fails leaves the cursor inside its input. -/
theorem moved_of_failed (h : Indexed.Views read d) (inside : c.Inside) {e : DecodeError}
    (found : c.run read = .error (.failed e) c')
    : c.Moved c' ∧ d c.rest = .error e c'.rest := by
  have own := agrees_run h inside
  rw [found] at own
  generalize d c.rest = seen at own ⊢
  cases own with
  | failed moved => exact ⟨moved, rfl⟩

/-- No decoder leaves its input. -/
theorem in_range (h : Indexed.Views read d) (inside : c.Inside)
    : c.run read ≠ .error .outOfRange c' := by
  intro found
  have own := agrees_run h inside
  rw [found] at own
  cases own

/-- A key stands at the offset, and the cursor goes on behind it. -/
theorem key_of_ok {tag : Nat} {wire : WireType} (found : c.run .key = .ok (tag, wire) c')
    : ∃ code n, decodeVarint c.data c.position = .ok (code, n)
        ∧ Decoder.splitKey code.toNat = .ok (tag, wire)
        ∧ c' = { c with position := c.position + n } := by
  simp only [run, IndexedDecoder.key, IndexedDecoder.varint, Indexed.bind_apply] at found
  cases number : decodeVarint c.data c.position with
  | error e => simp [number] at found
  | ok pair =>
      obtain ⟨code, n⟩ := pair
      simp only [number] at found
      cases split : Decoder.splitKey code.toNat with
      | error e =>
          rw [split] at found
          cases found
      | ok pair =>
          rw [split] at found
          cases found
          exact ⟨code, n, rfl, split, rfl⟩

/-- A length stands at the offset, and the payload is the slice of so many bytes behind it. -/
theorem lengthDelimited_of_ok {payload : List UInt8}
    (found : c.run .lengthDelimited = .ok payload c')
    : ∃ length n, decodeVarint c.data c.position = .ok (length, n) ∧ length.toNat < 2 ^ 63
        ∧ between? c.data (c.position + n) (c.position + n + length.toNat) = some payload
        ∧ c' = { c with position := c.position + n + length.toNat } := by
  simp only [run, IndexedDecoder.lengthDelimited, IndexedDecoder.varint,
    Indexed.bind_apply] at found
  cases number : decodeVarint c.data c.position with
  | error e => simp [number] at found
  | ok pair =>
      obtain ⟨length, n⟩ := pair
      simp only [number] at found
      by_cases legal : length.toNat < 2 ^ 63
      · simp only [if_pos legal, IndexedDecoder.take] at found
        by_cases short : c.data.length < c.position + n + length.toNat
        · simp [if_pos short] at found
        · rw [if_neg short] at found
          cases taken : between? c.data (c.position + n) (c.position + n + length.toNat) with
          | none => simp [taken] at found
          | some bytes =>
              rw [taken] at found
              cases found
              exact ⟨length, n, rfl, legal, taken, rfl⟩
      · simp only [if_neg legal] at found
        cases found

/-- What is left of an input is asked for at a place inside. -/
theorem remaining_eq (inside : c.Inside)
    : remaining c = .ok c.rest c := by
  simp only [remaining, run, Indexed.sliceFrom, Indexed.slice, between?_length inside, rest]

-----------------------------------------------------------------------------------------
-- Readers
-----------------------------------------------------------------------------------------

/-- The reader that keeps the bytes that are left in place of their offset. -/
def reader (c : Cursor) : Reader :=
  ⟨c.data, c.rest, c.budget⟩

/-- What decoding answers, as a reader gives it; nothing if an access is out of range. -/
def answer : EStateM.Result (Interruption DecodeError) Cursor α
    → Option (Except DecodeError α × Reader)
  | .ok v c => some (.ok v, c.reader)
  | .error (.failed e) c => some (.error e, c.reader)
  | .error .outOfRange _ => none

/-- The cursor at the start is seen as the reader at the start. -/
theorem reader_ofBytes (bytes : List UInt8)
    : (ofBytes bytes).reader = .ofBytes bytes :=
  rfl

/-- The cursor stands where its reader is. -/
theorem position_reader (inside : c.Inside)
    : c.reader.position = c.position := by
  unfold Inside at inside
  simp only [Reader.position, reader, length_rest]
  omega

/-- The cursor is at the end when its reader is. -/
theorem atEnd_reader (c : Cursor)
    : c.reader.atEnd = c.atEnd := by
  rw [Bool.eq_iff_iff, atEnd_iff, Reader.atEnd, List.isEmpty_iff, reader]

/-- A cursor that moves is seen as the reader of what is left. -/
theorem Moved.reader (h : c.Moved c')
    : c'.reader = { c.reader with rest := c'.rest } := by
  rw [Cursor.reader, Cursor.reader, h.data, h.budget]

/-- Decoding at a cursor answers what the reader makes of the decoder. -/
theorem answer_run (h : Indexed.Views read d) (inside : c.Inside)
    : answer (c.run read) = some (c.reader.run d) := by
  have own := agrees_run h inside
  have seen : c.reader.rest = c.rest := rfl
  rw [Reader.run, seen]
  generalize c.run read = result at own ⊢
  generalize d c.rest = read at own ⊢
  cases own with
  | ok moved | failed moved => simp only [answer, moved.reader]

/-- A slice at the cursor is the slice of its reader. -/
theorem answer_slice (inside : c.Inside) (n : Nat)
    : answer (c.run (.slice n)) = some (c.reader.slice n) := by
  have taken := answer_run (IndexedDecoder.views_take n) inside
  rw [Reader.slice, position_reader inside]
  by_cases huge : 2 ^ 64 ≤ c.position + n
  · simp only [run, IndexedDecoder.slice, if_pos huge, answer]
  · rw [if_neg huge, ← taken]
    simp only [run, IndexedDecoder.slice, if_neg huge]

/-- A cursor that is opened over a record answers as the reader of the same record. -/
theorem answer_nested (inside : c.Inside)
    : (answer (nested c)).map (fun (opened, r) => (opened.map reader, r))
        = some c.reader.nested := by
  obtain ⟨data, position, budget⟩ := c
  cases budget with
  | zero => rfl
  | succ budget =>
      have read := answer_run IndexedDecoder.views_lengthDelimited inside
      simp only [nested, Reader.nested, reader] at read ⊢
      generalize run _ _ = result at read ⊢
      generalize Reader.run _ _ = seen at read ⊢
      rcases result with ⟨payload, after⟩ | ⟨_ | e, after⟩ <;> cases read
      · simp only [answer, Option.map_some, Except.map, reader, rest_start]
      · rfl

/-- A record at the cursor is the record of its reader. -/
theorem answer_recordAt (inside : c.Inside) (order : start ≤ c.data.length)
    : answer (c.run (.recordAt start)) = some (c.reader.recordAt start) := by
  have read := agrees_of_indexed (IndexedDecoder.agrees_recordAt inside order)
  have same : c.reader.input = c.data := rfl
  have left : c.reader.rest = c.data.drop c.position := rfl
  simp only [Reader.recordAt, same]
  generalize c.run (.recordAt start) = result at read ⊢
  cases passed : passRecord 0 (c.data.drop start) with
  | error e =>
      rw [passed] at read
      generalize kept : c.data.drop c.position = rest at read
      cases read with
      | failed moved => simp only [answer, moved.reader, ← kept, ← left]
  | ok rest =>
      rw [passed] at read
      cases read with
      | ok moved => simp only [answer, moved.reader, same]

end Cursor

end Protobuf.Wire
