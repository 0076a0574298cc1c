import Protobuf.Proofs.Wire.Extent
import Protobuf.Proofs.Wire.Truncation

/-! The grammar of a record: a key and a value that is laid out as the key says, or the records of a
group between its two keys.  Passing over a record goes over exactly what the grammar derives,
although it only counts the groups that are open.
-/

namespace Protobuf.Wire

/-- The bytes are one varint, and it reads as `v`. -/
def IsVarint (v : UInt64) (bytes : List UInt8) : Prop :=
  readVarint bytes = .ok (v, [])

/-- The bytes are one varint whose low three bits name the wire type. -/
def IsKey (wire : WireType) (bytes : List UInt8) : Prop :=
  ∃ code, IsVarint code bytes ∧ code.toNat % 8 = wire.code

/-- The bytes are a value laid out by the wire type. -/
inductive IsValue : WireType → List UInt8 → Prop
  | varint {v value} (number : IsVarint v value) : IsValue .varint value
  | sixtyFourBit {value} (width : value.length = 8) : IsValue .sixtyFourBit value
  | lengthDelimited {v length payload} (number : IsVarint v length) (legal : v.toNat < 2 ^ 63)
    (width : payload.length = v.toNat)
    : IsValue .lengthDelimited (length ++ payload)
  | thirtyTwoBit {value} (width : value.length = 4) : IsValue .thirtyTwoBit value

/-- The bytes are one record.  The two keys of a group need not agree in their field numbers. -/
inductive IsRecord : List UInt8 → Prop
  | single {wire key value} (named : IsKey wire key) (laid : IsValue wire value)
    : IsRecord (key ++ value)
  | group {start stop} {records : List (List UInt8)} (opened : IsKey .startGroup start)
    (inside : ∀ record ∈ records, IsRecord record) (closed : IsKey .endGroup stop)
    : IsRecord (start ++ (records.flatten ++ stop))

variable {wire : WireType} {depth : Nat} {bytes key value rest : List UInt8} {v : UInt64}

-----------------------------------------------------------------------------------------
-- What the grammar derives is passed over
-----------------------------------------------------------------------------------------

theorem IsVarint.read (h : IsVarint v bytes) (more : List UInt8)
    : readVarint (bytes ++ more) = .ok (v, more) :=
  readVarint_append h more

theorem IsVarint.ne_nil (h : IsVarint v bytes)
    : bytes ≠ [] := by
  rintro rfl
  exact absurd (length_of_readVarint h) (Nat.lt_irrefl _)

theorem passBytes_width {n : Nat} (h : bytes.length = n) (more : List UInt8)
    : passBytes n (bytes ++ more) = .ok more := by
  rw [passBytes, if_neg (by simp only [List.length_append]; omega), List.drop_left' h]

theorem IsValue.passed (h : IsValue wire value) (depth : Nat) (more : List UInt8)
    : passValue wire.code depth (value ++ more) = .ok (depth, more) := by
  cases h with
  | varint number => simp [passValue, WireType.code, number.read, Except.map]
  | sixtyFourBit width => simp [passValue, WireType.code, passBytes_width width, Except.map]
  | lengthDelimited number legal width =>
      simp [passValue, WireType.code, readLength, number.read, legal, passBytes_width width,
        Except.map]
  | thirtyTwoBit width => simp [passValue, WireType.code, passBytes_width width, Except.map]

theorem IsKey.passed (h : IsKey wire key) (depth : Nat) (behind : List UInt8)
    : passRecord depth (key ++ behind)
        = match passValue wire.code depth behind with
          | .error e => .error e
          | .ok (depth', rest) => if depth' = 0 then .ok rest else passRecord depth' rest := by
  obtain ⟨code, number, named⟩ := h
  rw [passRecord_eq, number.read]
  rcases read : passValue wire.code depth behind with e | ⟨depth', rest⟩ <;>
    simp only [named, read]

/-- Inside open groups one record is passed over after the other. -/
theorem passRecord_records {records : List (List UInt8)}
    (h : ∀ record ∈ records, ∀ more,
      passRecord (depth + 1) (record ++ more) = passRecord (depth + 1) more)
    (more : List UInt8)
    : passRecord (depth + 1) (records.flatten ++ more) = passRecord (depth + 1) more := by
  induction records with
  | nil => rfl
  | cons record records ih =>
      rw [List.flatten_cons, List.append_assoc, h record (by simp)]
      exact ih fun other member => h other (by simp [member])

/-- A record is passed over at any depth, by induction on the grammar. -/
theorem IsRecord.passed {record : List UInt8} (h : IsRecord record) (depth : Nat)
    (more : List UInt8)
    : passRecord depth (record ++ more)
      = if depth = 0 then .ok more else passRecord depth more := by
  induction h generalizing depth more with
  | single named laid =>
      rw [List.append_assoc, named.passed, laid.passed]
  | @group start stop records opened inside closed ih =>
      have entered : passRecord depth (start ++ (records.flatten ++ (stop ++ more)))
          = passRecord (depth + 1) (records.flatten ++ (stop ++ more)) := by
        rw [opened.passed]
        rfl
      have left : passRecord (depth + 1) (stop ++ more)
          = if depth = 0 then .ok more else passRecord depth more := by
        rw [closed.passed]
        rfl
      rw [List.append_assoc, List.append_assoc, entered, passRecord_records, left]
      exact fun record member more => by rw [ih record member, if_neg (Nat.succ_ne_zero depth)]

theorem IsRecord.ne_nil (h : IsRecord bytes)
    : bytes ≠ [] := by
  have key {wire : WireType} {key behind : List UInt8} (h : IsKey wire key)
      : key ++ behind ≠ [] := by
    obtain ⟨code, number, -⟩ := h
    simp [number.ne_nil]
  cases h with
  | single named laid => exact key named
  | group opened inside closed => exact key opened

-----------------------------------------------------------------------------------------
-- What is passed over is derived
-----------------------------------------------------------------------------------------

/-- Records and end keys that close `depth` groups, the innermost first. -/
inductive Closes : Nat → List UInt8 → Prop
  | done : Closes 0 []
  | level {depth stop outer} {records : List (List UInt8)}
    (inside : ∀ record ∈ records, IsRecord record) (closed : IsKey .endGroup stop)
    (behind : Closes depth outer)
    : Closes (depth + 1) (records.flatten ++ (stop ++ outer))

/-- The bytes finish what is open: one record if no group is, else all the groups. -/
def Finishes (depth : Nat) (bytes : List UInt8) : Prop :=
  if depth = 0 then IsRecord bytes else Closes depth bytes

theorem IsRecord.finishes {record outer : List UInt8} (h : IsRecord record)
    (behind : Closes depth outer)
    : Finishes depth (record ++ outer) := by
  cases behind with
  | done => rwa [List.append_nil, Finishes, if_pos rfl]
  | @level depth stop outer records inside closed behind =>
      have more : ∀ other ∈ record :: records, IsRecord other := by
        simpa [h] using inside
      rw [Finishes, if_neg (Nat.succ_ne_zero depth), ← List.append_assoc, ← List.flatten_cons]
      exact .level more closed behind

theorem isVarint_split (h : readVarint bytes = .ok (v, rest))
    : ∃ part, bytes = part ++ rest ∧ IsVarint v part := by
  obtain ⟨part, rfl, alone⟩ := readVarint_split h
  have whole := alone []
  rw [List.append_nil] at whole
  exact ⟨part, rfl, whole⟩

theorem width_split {n : Nat} (h : passBytes n bytes = .ok rest)
    : ∃ part, bytes = part ++ rest ∧ part.length = n := by
  simp only [passBytes] at h
  split at h
  · cases h
  · cases h
    exact ⟨bytes.take n, (List.take_append_drop n bytes).symm, List.length_take_of_le (by omega)⟩

/-- What passing over a value can do: go over a value, or open or close a group. -/
theorem passValue_cases {code depth' : Nat} (h : passValue code depth bytes = .ok (depth', rest))
    : (∃ wire value, code = wire.code ∧ IsValue wire value ∧ bytes = value ++ rest ∧ depth' = depth)
      ∨ (code = WireType.startGroup.code ∧ bytes = rest ∧ depth' = depth + 1)
      ∨ (code = WireType.endGroup.code ∧ bytes = rest ∧ depth = depth' + 1) := by
  have bytesCase {n : Nat} {bytes : List UInt8}
      (h : (passBytes n bytes).map (fun rest => (depth, rest)) = .ok (depth', rest))
      : ∃ part, bytes = part ++ rest ∧ part.length = n ∧ depth' = depth := by
    cases passed : passBytes n bytes with
    | error e => simp [passed, Except.map] at h
    | ok rest' =>
        simp only [passed, Except.map, Except.ok.injEq, Prod.mk.injEq] at h
        obtain ⟨rfl, rfl⟩ := h
        obtain ⟨part, whole, width⟩ := width_split passed
        exact ⟨part, whole, width, rfl⟩
  unfold passValue at h
  split at h
  · cases read : readVarint bytes with
    | error e => simp [read, Except.map] at h
    | ok pair =>
        simp only [read, Except.map, Except.ok.injEq, Prod.mk.injEq] at h
        obtain ⟨rfl, rfl⟩ := h
        obtain ⟨part, whole, number⟩ := isVarint_split read
        exact .inl ⟨.varint, part, rfl, .varint number, whole, rfl⟩
  · obtain ⟨part, whole, width, same⟩ := bytesCase h
    exact .inl ⟨.sixtyFourBit, part, rfl, .sixtyFourBit width, whole, same⟩
  · split at h
    · cases h
    · rename_i length behind read
      obtain ⟨payload, rfl, width, same⟩ := bytesCase h
      simp only [readLength] at read
      split at read
      · cases read
      · rename_i v behind' found
        split at read
        · rename_i legal
          cases read
          obtain ⟨part, rfl, number⟩ := isVarint_split found
          exact .inl ⟨.lengthDelimited, part ++ payload, rfl, .lengthDelimited number legal width,
            (List.append_assoc _ _ _).symm, same⟩
        · cases read
  · cases h
    exact .inr (.inl ⟨rfl, rfl, rfl⟩)
  · split at h
    · cases h
    · rename_i opened
      cases h
      exact .inr (.inr ⟨rfl, rfl, by omega⟩)
  · obtain ⟨part, whole, width, same⟩ := bytesCase h
    exact .inl ⟨.thirtyTwoBit, part, rfl, .thirtyTwoBit width, whole, same⟩
  · cases h

/-- What is passed over finishes what is open, by induction on the bytes. -/
theorem finishes_of_passRecord (h : passRecord depth bytes = .ok rest)
    : ∃ part, bytes = part ++ rest ∧ Finishes depth part := by
  fun_induction passRecord depth bytes with
  | case1 => cases h
  | case2 => cases h
  | case3 => cases h
  | case4 depth b tail code behind read rest' passed =>
      cases h
      obtain ⟨key, whole, number⟩ := isVarint_split read
      rw [whole]
      rcases passValue_cases passed with ⟨wire, value, named, laid, rfl, rfl⟩ | ⟨-, -, opened⟩
        | ⟨named, rfl, rfl⟩
      · refine ⟨key ++ value, (List.append_assoc _ _ _).symm, ?_⟩
        have record : IsRecord (key ++ value) := .single ⟨code, number, named⟩ laid
        simpa using record.finishes .done
      · cases opened
      · refine ⟨key, rfl, ?_⟩
        have closed : Closes 1 (List.flatten [] ++ (key ++ [])) :=
          .level (by simp) ⟨code, number, named⟩ .done
        rw [Finishes, if_neg (by decide)]
        simpa using closed
  | case5 depth b tail code behind read depth' rest' passed inside ih =>
      obtain ⟨key, whole, number⟩ := isVarint_split read
      obtain ⟨others, rfl, finishes⟩ := ih h
      rw [Finishes, if_neg inside] at finishes
      rw [whole]
      rcases passValue_cases passed with ⟨wire, value, named, laid, rfl, rfl⟩ | ⟨named, rfl, rfl⟩
        | ⟨named, rfl, rfl⟩
      · refine ⟨key ++ value ++ others, by simp only [List.append_assoc], ?_⟩
        exact (IsRecord.single ⟨code, number, named⟩ laid).finishes finishes
      · cases finishes with
        | @level _ stop outer records derived closed behind =>
            refine ⟨key ++ (records.flatten ++ stop) ++ outer, by simp only [List.append_assoc], ?_⟩
            exact (IsRecord.group ⟨code, number, named⟩ derived closed).finishes behind
      · refine ⟨key ++ others, by simp only [List.append_assoc], ?_⟩
        rw [Finishes, if_neg (Nat.succ_ne_zero _)]
        exact @Closes.level _ key others [] (by simp) ⟨code, number, named⟩ finishes

-----------------------------------------------------------------------------------------
-- The length of a record
-----------------------------------------------------------------------------------------

theorem recordLength_of_isRecord {record : List UInt8} (h : IsRecord record) (more : List UInt8)
    : recordLength (record ++ more) = .ok record.length := by
  rw [recordLength, h.passed, if_pos rfl]
  simp

theorem isRecord_of_recordLength {n : Nat} (h : recordLength bytes = .ok n)
    : n ≤ bytes.length ∧ IsRecord (bytes.take n) := by
  simp only [recordLength] at h
  split at h
  · cases h
  · rename_i rest passed
    cases h
    obtain ⟨part, rfl, record⟩ := finishes_of_passRecord passed
    rw [Finishes, if_pos rfl] at record
    simpa using record

theorem recordLength_ok_iff {n : Nat}
    : recordLength bytes = .ok n ↔ n ≤ bytes.length ∧ IsRecord (bytes.take n) := by
  refine ⟨isRecord_of_recordLength, fun ⟨inside, record⟩ => ?_⟩
  have found := recordLength_of_isRecord record (bytes.drop n)
  rwa [List.take_append_drop, List.length_take_of_le inside] at found

/-- The front of a record lacks the rest and nothing else. -/
theorem recordLength_of_front {record : List UInt8} (h : IsRecord record) {k : Nat}
    (proper : k < record.length)
    : recordLength (record.take k) = .error .unexpectedEof := by
  have whole : passRecord 0 (record.take k ++ record.drop k) = .ok [] := by
    have passed := h.passed 0 []
    rwa [List.append_nil, if_pos rfl, ← List.take_append_drop k record] at passed
  rw [recordLength, passRecord_of_front whole (by simpa using proper)]

/-- A length is found exactly where the grammar derives a record at the front of the bytes.  It is
the length of that record, and no other record stands there.  Bytes behind the record make no
difference, and any shorter part of it lacks the rest.
-/
theorem record_is_delimited (bytes : List UInt8) (n : Nat)
    : (recordLength bytes = .ok n ↔ n ≤ bytes.length ∧ IsRecord (bytes.take n))
      ∧ (recordLength bytes = .ok n
          → (∀ m, m ≤ bytes.length → IsRecord (bytes.take m) → m = n)
            ∧ 0 < n ∧ n ≤ bytes.length
            ∧ (∀ more, recordLength (bytes.take n ++ more) = .ok n)
            ∧ ∀ k < n, recordLength (bytes.take k) = .error .unexpectedEof) := by
  refine ⟨recordLength_ok_iff, fun found => ?_⟩
  obtain ⟨inside, record⟩ := isRecord_of_recordLength found
  have length : (bytes.take n).length = n := List.length_take_of_le inside
  refine ⟨fun m inside' record' => ?_, ?_, inside, fun more => ?_, fun k shorter => ?_⟩
  · have found' := recordLength_ok_iff.mpr ⟨inside', record'⟩
    rw [found, Except.ok.injEq] at found'
    exact found'.symm
  · rw [← length]
    exact List.length_pos_iff.mpr record.ne_nil
  · rw [recordLength_of_isRecord record, length]
  · have front := recordLength_of_front record (length.symm ▸ shorter)
    rwa [List.take_take, Nat.min_eq_left (Nat.le_of_lt shorter)] at front

/-- A group around one number, with a byte behind it and with its end cut off. -/
theorem record_is_delimited_group
    : recordLength [0x2b, 0x08, 0x01, 0x2c, 0xff] = .ok 4
      ∧ recordLength [0x2b, 0x08, 0x01] = .error .unexpectedEof := by
  have number (v : UInt64) (small : v.toNat < 128) : IsVarint v [v.toUInt8] := by
    have read := readVarint_varint v []
    rwa [varint_eq, groups, if_pos small, UInt8.ofNat_uInt64ToNat] at read
  have inside : IsRecord ([0x08] ++ [0x01]) :=
    .single ⟨8, number 8 (by decide), rfl⟩ (.varint (number 1 (by decide)))
  have record : IsRecord ([0x2b] ++ (List.flatten [[0x08, 0x01]] ++ [0x2c])) :=
    .group ⟨43, number 43 (by decide), rfl⟩ (by simpa using inside) ⟨44, number 44 (by decide), rfl⟩
  obtain ⟨derived, delimited⟩ := record_is_delimited [0x2b, 0x08, 0x01, 0x2c, 0xff] 4
  have found := derived.mpr ⟨by decide, record⟩
  exact ⟨found, (delimited found).2.2.2.2 3 (by decide)⟩

end Protobuf.Wire
