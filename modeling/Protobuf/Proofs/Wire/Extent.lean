import Protobuf.Proofs.Wire.Payload

/-! How far reading goes.  A reader that succeeds has taken a part from the front of its bytes, and
takes the same part whatever stands behind it; a reader that fails has not gone past the end.
-/

namespace Protobuf.Wire

-----------------------------------------------------------------------------------------
-- Parsers that return the rest
-----------------------------------------------------------------------------------------

/-- A base-128 number is a part of its own, by induction on the limit. -/
theorem readGroups_split {limit n : Nat} {bytes rest : List UInt8}
    (h : readGroups limit bytes = .ok (n, rest))
    : ∃ part, bytes = part ++ rest
        ∧ ∀ more, readGroups limit (part ++ more) = .ok (n, more) := by
  induction limit generalizing n bytes with
  | zero => simp [readGroups] at h
  | succ limit ih =>
      cases bytes with
      | nil => simp [readGroups] at h
      | cons b tail =>
          simp only [readGroups] at h
          split at h
          · rename_i last
            cases h
            exact ⟨[b], rfl, fun more => by simp [readGroups, last]⟩
          · rename_i continued
            split at h
            · rename_i high rest' read
              cases h
              obtain ⟨part, rfl, others⟩ := ih read
              exact ⟨b :: part, rfl, fun more => by simp [readGroups, continued, others]⟩
            · cases h

/-- A varint stands in front of what is left, and is read the same in front of any bytes. -/
theorem readVarint_split {bytes rest : List UInt8} {v : UInt64}
    (h : readVarint bytes = .ok (v, rest))
    : ∃ part, bytes = part ++ rest ∧ ∀ more, readVarint (part ++ more) = .ok (v, more) := by
  simp only [readVarint_eq] at h
  split at h
  · rename_i n rest' read
    cases h
    obtain ⟨part, rfl, alone⟩ := readGroups_split read
    exact ⟨part, rfl, fun more => by simp [readVarint_eq, alone]⟩
  · cases h

/-- Bytes that are passed over stand in front of what is left, whatever that is. -/
theorem passBytes_split {n : Nat} {bytes rest : List UInt8} (h : passBytes n bytes = .ok rest)
    : ∃ part, bytes = part ++ rest ∧ ∀ more, passBytes n (part ++ more) = .ok more := by
  simp only [passBytes] at h
  split at h
  · cases h
  · rename_i enough
    cases h
    have length : (bytes.take n).length = n := List.length_take_of_le (by omega)
    refine ⟨bytes.take n, (List.take_append_drop n bytes).symm, fun more => ?_⟩
    rw [passBytes, if_neg (by simp only [List.length_append]; omega), List.drop_left' length]

/-- A length stands in front of what is left, whatever that is. -/
theorem readLength_split {length : Nat} {bytes rest : List UInt8}
    (h : readLength bytes = .ok (length, rest))
    : ∃ part, bytes = part ++ rest ∧ ∀ more, readLength (part ++ more) = .ok (length, more) := by
  simp only [readLength] at h
  split at h
  · cases h
  · rename_i v rest' read
    split at h
    · rename_i legal
      cases h
      obtain ⟨part, rfl, alone⟩ := readVarint_split read
      exact ⟨part, rfl, fun more => by simp only [readLength, alone, if_pos legal]⟩
    · cases h

/-- A value is a part of its own, by cases on the wire type. -/
theorem passValue_split {wire depth depth' : Nat} {bytes rest : List UInt8}
    (h : passValue wire depth bytes = .ok (depth', rest))
    : ∃ part, bytes = part ++ rest
        ∧ ∀ more, passValue wire depth (part ++ more) = .ok (depth', more) := by
  have bytesCase {n : Nat} {bytes : List UInt8}
      (h : (passBytes n bytes).map (fun rest => (depth, rest)) = .ok (depth', rest))
      : ∃ part, bytes = part ++ rest ∧ ∀ more,
          (passBytes n (part ++ more)).map (fun rest => (depth, rest)) = .ok (depth', more) := by
    cases passed : passBytes n bytes with
    | error e => simp [passed, Except.map] at h
    | ok rest' =>
        simp only [passed, Except.map, Except.ok.injEq, Prod.mk.injEq] at h
        obtain ⟨rfl, rfl⟩ := h
        obtain ⟨part, rfl, alone⟩ := passBytes_split passed
        exact ⟨part, rfl, fun more => by simp [alone, Except.map]⟩
  unfold passValue at h ⊢
  split at h
  · cases read : readVarint bytes with
    | error e => simp [read, Except.map] at h
    | ok pair =>
        simp only [read, Except.map, Except.ok.injEq, Prod.mk.injEq] at h
        obtain ⟨rfl, rfl⟩ := h
        obtain ⟨part, rfl, alone⟩ := readVarint_split read
        exact ⟨part, rfl, fun more => by simp [alone, Except.map]⟩
  · exact bytesCase h
  · split at h
    · cases h
    · rename_i read
      obtain ⟨prefixed, rfl, length⟩ := readLength_split read
      obtain ⟨part, rfl, alone⟩ := bytesCase h
      refine ⟨prefixed ++ part, (List.append_assoc _ _ _).symm, fun more => ?_⟩
      simp only [List.append_assoc, length]
      exact alone more
  · cases h
    exact ⟨[], rfl, fun _ => rfl⟩
  · split at h
    · cases h
    · rename_i unclosed
      cases h
      exact ⟨[], rfl, fun _ => by simp [unclosed]⟩
  · exact bytesCase h
  · cases h

/-- A record is a part of its own, by induction on the bytes. -/
theorem passRecord_split {depth : Nat} {bytes rest : List UInt8}
    (h : passRecord depth bytes = .ok rest)
    : ∃ part, bytes = part ++ rest ∧ ∀ more, passRecord depth (part ++ more) = .ok more := by
  fun_induction passRecord depth bytes with
  | case1 => cases h
  | case2 => cases h
  | case3 => cases h
  | case4 depth b tail key rest' read rest'' passed =>
      cases h
      obtain ⟨front, whole, key⟩ := readVarint_split read
      obtain ⟨part, rfl, value⟩ := passValue_split passed
      refine ⟨front ++ part, by rw [whole, List.append_assoc], fun more => ?_⟩
      rw [passRecord_eq, List.append_assoc, key]
      simp only [value, if_true]
  | case5 depth b tail key rest' read depth' rest'' passed inside ih =>
      obtain ⟨front, whole, key⟩ := readVarint_split read
      obtain ⟨part, rfl, value⟩ := passValue_split passed
      obtain ⟨others, rfl, behind⟩ := ih h
      refine ⟨front ++ part ++ others, by rw [whole]; simp only [List.append_assoc], fun more => ?_⟩
      rw [passRecord_eq, List.append_assoc, List.append_assoc, key]
      simp only [value, if_neg inside, behind]

-----------------------------------------------------------------------------------------
-- Decoders
-----------------------------------------------------------------------------------------

namespace Decoder

/-- A varint stands in front of what is left. -/
theorem suffix_of_varint {bytes rest : List UInt8} {v : UInt64} (h : varint bytes = .ok v rest)
    : rest <:+ bytes := by
  simp only [varint, ofParser] at h
  cases read : readVarint bytes with
  | error e => simp [read] at h
  | ok pair =>
      obtain ⟨part, whole, -⟩ := readVarint_split read
      simp only [read, EStateM.Result.ok.injEq] at h
      exact ⟨part, h.2 ▸ whole.symm⟩

/-- A payload stands between its length and what is left. -/
theorem split_of_lengthDelimited {bytes payload rest : List UInt8}
    (h : lengthDelimited bytes = .ok payload rest)
    : ∃ length, length ≠ [] ∧ bytes = length ++ (payload ++ rest) := by
  simp only [lengthDelimited, Bind.bind, EStateM.bind] at h
  have shorter := consumes_varint bytes
  cases read : varint bytes with
  | error e rest' => simp [read] at h
  | ok n behind =>
      obtain ⟨length, rfl⟩ := suffix_of_varint read
      simp only [read] at h shorter
      split at h
      · simp only [slice] at h
        split at h
        · cases h
        · cases h
          refine ⟨length, ?_, by rw [List.take_append_drop]⟩
          rintro rfl
          exact Nat.lt_irrefl _ shorter
      · cases h

end Decoder

-----------------------------------------------------------------------------------------
-- Values that are read end where they are passed over
-----------------------------------------------------------------------------------------

theorem WireType.code_of_ofCode? {n : Nat} {wire : WireType} (h : ofCode? n = some wire)
    : wire.code = n := by
  unfold ofCode? at h
  split at h <;> cases h <;> rfl

namespace Decoder

/-- What the decoder reads is a value of the wire type as a reader that does not know it sees it. -/
def Passes {α : Type} (wire : WireType) (d : Decoder α) : Prop :=
  ∀ bytes value rest, d bytes = .ok value rest
    → passValue wire.code 0 bytes = .ok (0, rest)

/-- What is done with a value once it has been read does not change where it ends. -/
theorem Passes.bind {α β : Type} {wire : WireType} {d : Decoder α} {f : α → Decoder β}
    (h : d.Passes wire) (stays : ∀ value bytes b rest, f value bytes = .ok b rest → rest = bytes)
    : Passes wire (d >>= f) := by
  intro bytes b rest run
  simp only [Bind.bind, EStateM.bind] at run
  cases read : d bytes with
  | error e rest' => simp [read] at run
  | ok value rest' =>
      simp only [read] at run
      rw [stays value rest' b rest run]
      exact h bytes value rest' read

theorem stays_pure {α : Type} {value b : α} {bytes rest : List UInt8}
    (h : (pure value : Decoder α) bytes = .ok b rest)
    : rest = bytes := by
  cases h
  rfl

/-- A varint ends where it is passed over. -/
theorem passes_varint
    : varint.Passes .varint := by
  intro bytes value rest h
  simp only [varint, ofParser] at h
  cases read : readVarint bytes with
  | error e => simp [read] at h
  | ok pair =>
      simp only [read, EStateM.Result.ok.injEq] at h
      obtain ⟨rfl, rfl⟩ := h
      simp [passValue, WireType.code, read, Except.map]

/-- A slice ends where as many bytes are passed over. -/
theorem passBytes_of_slice {n : Nat} {bytes value rest : List UInt8}
    (h : slice n bytes = .ok value rest)
    : passBytes n bytes = .ok rest := by
  simp only [slice] at h
  split at h
  · cases h
  · rename_i enough
    cases h
    rw [passBytes, if_neg enough]

/-- A payload ends where it is passed over with its length. -/
theorem passes_lengthDelimited
    : lengthDelimited.Passes .lengthDelimited := by
  intro bytes value rest h
  simp only [lengthDelimited, varint, ofParser, Bind.bind, EStateM.bind] at h
  cases read : readVarint bytes with
  | error e => simp [read] at h
  | ok pair =>
      simp only [read] at h
      split at h
      · rename_i legal
        simp only [passValue, WireType.code, readLength, read, if_pos legal, passBytes_of_slice h,
          Except.map]
      · cases h

/-- A text ends where its payload is passed over. -/
theorem passes_text
    : text.Passes .lengthDelimited := by
  refine passes_lengthDelimited.bind fun bytes behind value rest h => ?_
  cases found : Text.ofUtf8? bytes with
  | some text =>
      simp only [found] at h
      exact stays_pure h
  | none =>
      simp only [found] at h
      cases h

theorem passes_fixed32
    : fixed32.Passes .thirtyTwoBit := by
  refine Passes.bind (fun bytes value rest h => ?_) fun _ _ _ _ => stays_pure
  simp [passValue, WireType.code, passBytes_of_slice h, Except.map]

theorem passes_fixed64
    : fixed64.Passes .sixtyFourBit := by
  refine Passes.bind (fun bytes value rest h => ?_) fun _ _ _ _ => stays_pure
  simp [passValue, WireType.code, passBytes_of_slice h, Except.map]

/-- The number in front of a record says its field number and wire type. -/
theorem readVarint_of_key {tag : Nat} {wire : WireType} {bytes rest : List UInt8}
    (h : key bytes = .ok (tag, wire) rest)
    : ∃ code, readVarint bytes = .ok (code, rest) ∧ splitKey code.toNat = .ok (tag, wire) := by
  simp only [key, varint, ofParser, Bind.bind, EStateM.bind] at h
  cases read : readVarint bytes with
  | error e => simp [read] at h
  | ok pair =>
      obtain ⟨code, rest'⟩ := pair
      simp only [read] at h
      cases found : splitKey code.toNat with
      | error e =>
          simp only [found] at h
          cases h
      | ok legal =>
          simp only [found] at h
          cases h
          exact ⟨code, rfl, found⟩

/-- The last three bits of a key are the code of its wire type. -/
theorem code_of_splitKey {code tag : Nat} {wire : WireType} (h : splitKey code = .ok (tag, wire))
    : code % 8 = wire.code := by
  cases named : WireType.ofCode? (code % 8) with
  | none => simp [splitKey, named] at h
  | some found =>
      by_cases illegal : code / 8 = 0 ∨ maxTag < code / 8
      · simp only [splitKey, named, if_pos illegal] at h
        cases h
      · simp only [splitKey, named, if_neg illegal] at h
        split at h
        · cases h
        · cases h
          exact (WireType.code_of_ofCode? named).symm

end Decoder

/-- A scalar that is read takes the bytes that its wire type says. -/
theorem passes_readScalar (type : ScalarType)
    : (readScalar type).Passes type.wireType := by
  have stays {α : Type} {fits : Prop} [Decidable fits] {a b : α} {bytes rest : List UInt8}
      (h : (if fits then pure a else throw .capacityExceeded : Decoder α) bytes = .ok b rest)
      : rest = bytes := by
    split at h
    · exact Decoder.stays_pure h
    · cases h
  cases type with
  | string capacity => exact Decoder.passes_text.bind fun _ _ _ _ => stays
  | bytes capacity => exact Decoder.passes_lengthDelimited.bind fun _ _ _ _ => stays
  | fixed32 | sfixed32 | float =>
      exact Decoder.passes_fixed32.bind fun _ _ _ _ => Decoder.stays_pure
  | fixed64 | sfixed64 | double =>
      exact Decoder.passes_fixed64.bind fun _ _ _ _ => Decoder.stays_pure
  | _ => exact Decoder.passes_varint.bind fun _ _ _ _ => Decoder.stays_pure

-----------------------------------------------------------------------------------------
-- Values that are read are parts of their own
-----------------------------------------------------------------------------------------

namespace Decoder

/-- What the decoder takes is a part of its own: it takes the same part whatever stands behind. -/
def Splits {α : Type} (d : Decoder α) : Prop :=
  ∀ bytes value rest, d bytes = .ok value rest
    → ∃ part, bytes = part ++ rest ∧ ∀ more, d (part ++ more) = .ok value more

/-- A decoder that reads nothing takes nothing. -/
theorem splits_pure {α : Type} (value : α)
    : Splits (pure value) := by
  intro bytes value' rest h
  cases h
  exact ⟨[], rfl, fun _ => rfl⟩

theorem splits_throw {α : Type} (e : DecodeError)
    : Splits (throw e : Decoder α) := by
  intro bytes value rest h
  cases h

/-- Two parts one after the other are one part. -/
theorem Splits.bind {α β : Type} {d : Decoder α} {f : α → Decoder β} (h : d.Splits)
    (hf : ∀ value, (f value).Splits)
    : Splits (d >>= f) := by
  intro bytes value rest run
  simp only [Bind.bind, EStateM.bind] at run
  cases read : d bytes with
  | error e rest' => simp [read] at run
  | ok found rest' =>
      simp only [read] at run
      obtain ⟨first, rfl, alone⟩ := h _ _ _ read
      obtain ⟨second, rfl, behind⟩ := hf found _ _ _ run
      refine ⟨first ++ second, (List.append_assoc _ _ _).symm, fun more => ?_⟩
      simp only [Bind.bind, EStateM.bind, List.append_assoc, alone, behind]

/-- A varint is taken from the front. -/
theorem splits_varint
    : varint.Splits := by
  intro bytes value rest h
  simp only [varint, ofParser] at h
  cases read : readVarint bytes with
  | error e => simp [read] at h
  | ok pair =>
      simp only [read, EStateM.Result.ok.injEq] at h
      obtain ⟨rfl, rfl⟩ := h
      obtain ⟨part, rfl, alone⟩ := readVarint_split read
      exact ⟨part, rfl, fun more => by simp only [varint, ofParser, alone]⟩

/-- A slice is taken from the front. -/
theorem splits_slice (n : Nat)
    : (slice n).Splits := by
  intro bytes value rest h
  simp only [slice] at h
  split at h
  · cases h
  · rename_i enough
    cases h
    have length : (bytes.take n).length = n := List.length_take_of_le (by omega)
    refine ⟨bytes.take n, (List.take_append_drop n bytes).symm, fun more => ?_⟩
    rw [slice, if_neg (by simp only [List.length_append]; omega), List.take_left' length,
      List.drop_left' length]

/-- A payload is taken from the front with its length. -/
theorem splits_lengthDelimited
    : lengthDelimited.Splits := by
  refine splits_varint.bind fun length => ?_
  split
  · exact splits_slice _
  · exact splits_throw _

/-- A text is taken from the front. -/
theorem splits_text
    : text.Splits := by
  refine splits_lengthDelimited.bind fun bytes => ?_
  split
  · exact splits_pure _
  · exact splits_throw _

/-- A key is taken from the front. -/
theorem splits_key
    : key.Splits := by
  refine splits_varint.bind fun code => ?_
  split
  · exact splits_pure _
  · exact splits_throw _

theorem splits_fixed32
    : fixed32.Splits :=
  (splits_slice 4).bind fun _ => splits_pure _

theorem splits_fixed64
    : fixed64.Splits :=
  (splits_slice 8).bind fun _ => splits_pure _

end Decoder

/-- A scalar of any type is taken from the front. -/
theorem splits_readScalar (type : ScalarType)
    : (readScalar type).Splits := by
  unfold readScalar
  split
  · refine Decoder.splits_text.bind fun text => ?_
    split
    · exact Decoder.splits_pure _
    · exact Decoder.splits_throw _
  · refine Decoder.splits_lengthDelimited.bind fun bytes => ?_
    split
    · exact Decoder.splits_pure _
    · exact Decoder.splits_throw _
  · split
    · exact Decoder.splits_fixed32.bind fun _ => Decoder.splits_pure _
    · exact Decoder.splits_fixed64.bind fun _ => Decoder.splits_pure _
    · exact Decoder.splits_varint.bind fun _ => Decoder.splits_pure _

-----------------------------------------------------------------------------------------
-- Records
-----------------------------------------------------------------------------------------

/-- A record whose value is passed over at once ends behind its value. -/
theorem passRecord_of_passValue {tag : Nat} {wire : WireType} {bytes payload rest : List UInt8}
    (key : Decoder.key bytes = .ok (tag, wire) payload)
    (value : passValue wire.code 0 payload = .ok (0, rest))
    : passRecord 0 bytes = .ok rest := by
  obtain ⟨code, read, legal⟩ := Decoder.readVarint_of_key key
  rw [passRecord_eq, read]
  simp only [Decoder.code_of_splitKey legal, value, if_true]

/-- A record that stands in front of other bytes is one of its own. -/
theorem record_split {tag : Nat} {wire : WireType} {bytes payload rest : List UInt8}
    (key : Decoder.key bytes = .ok (tag, wire) payload) (passed : passRecord 0 bytes = .ok rest)
    : ∃ record payload', bytes = record ++ rest ∧ Decoder.key record = .ok (tag, wire) payload'
        ∧ passRecord 0 record = .ok [] := by
  obtain ⟨code, read, legal⟩ := Decoder.readVarint_of_key key
  obtain ⟨record, whole, alone⟩ := passRecord_split passed
  obtain ⟨front, rfl, number⟩ := readVarint_split read
  -- The value ends where the record does, so the key is the front of the record.
  have behind : rest <:+ payload := by
    rw [passRecord_eq, read] at passed
    simp only at passed
    cases value : passValue (code.toNat % 8) 0 payload with
    | error e => simp [value] at passed
    | ok pair =>
        obtain ⟨depth, rest'⟩ := pair
        obtain ⟨part, rfl, -⟩ := passValue_split value
        simp only [value] at passed
        split at passed
        · cases passed
          exact List.suffix_append _ _
        · obtain ⟨others, rfl, -⟩ := passRecord_split passed
          exact (List.suffix_append _ _).trans (List.suffix_append _ _)
  obtain ⟨inside, rfl⟩ := behind
  have split : record = front ++ inside := by
    rw [← List.append_assoc] at whole
    exact (List.append_cancel_right whole).symm
  have complete := alone []
  rw [List.append_nil] at complete
  refine ⟨record, inside, whole, ?_, complete⟩
  simp only [split, Decoder.key, Decoder.varint, Decoder.ofParser, Bind.bind, EStateM.bind,
    number, legal]
  rfl

end Protobuf.Wire
