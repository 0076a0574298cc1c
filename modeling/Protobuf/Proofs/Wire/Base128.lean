import Protobuf.Proofs.Wire.Varint

/-! Which bytes are read as a varint.  What a varint spells is said without the reader.  Reading
gives that number up to the bits that a tenth byte puts beyond the 64th, and fails in two ways only:
ten bytes that all go on, or fewer than ten and nothing behind them.
-/

namespace Protobuf.Wire

/-- The number that bytes spell in base 128, least group first. -/
def spelled : List UInt8 → Nat
  | [] => 0
  | b :: rest => b.toNat % 128 + 128 * spelled rest

/-- Every byte carries the continuation bit. -/
def Unfinished (bytes : List UInt8) : Prop :=
  ∀ b ∈ bytes, 128 ≤ b

/-- Every byte but the last carries the continuation bit. -/
def Terminated (bytes : List UInt8) : Prop :=
  ∃ front last, bytes = front ++ [last] ∧ Unfinished front ∧ last < 128

-----------------------------------------------------------------------------------------
-- Unfinished and terminated bytes
-----------------------------------------------------------------------------------------

theorem unfinished_nil
    : Unfinished [] :=
  fun _ member => nomatch member

theorem Unfinished.cons {b : UInt8} {bytes : List UInt8} (first : ¬b < 128) (h : Unfinished bytes)
    : Unfinished (b :: bytes) :=
  List.forall_mem_cons.mpr ⟨UInt8.not_lt.mp first, h⟩

theorem unfinished_cons {b : UInt8} {bytes : List UInt8} (h : Unfinished (b :: bytes))
    : ¬b < 128 ∧ Unfinished bytes :=
  ⟨UInt8.not_lt.mpr (List.forall_mem_cons.mp h).1, (List.forall_mem_cons.mp h).2⟩

theorem terminated_singleton {b : UInt8} (h : b < 128)
    : Terminated [b] :=
  ⟨[], b, rfl, unfinished_nil, h⟩

theorem Terminated.cons {b : UInt8} {bytes : List UInt8} (first : ¬b < 128) (h : Terminated bytes)
    : Terminated (b :: bytes) := by
  obtain ⟨front, last, rfl, others, ends⟩ := h
  exact ⟨b :: front, last, rfl, others.cons first, ends⟩

/-- Bytes begin with a varint of at most `limit` bytes, or go on for so many, or stop before. -/
theorem begins (limit : Nat) (bytes : List UInt8)
    : (∃ part rest, bytes = part ++ rest ∧ Terminated part ∧ part.length ≤ limit)
      ∨ (limit ≤ bytes.length ∧ Unfinished (bytes.take limit))
      ∨ (bytes.length < limit ∧ Unfinished bytes) := by
  induction bytes generalizing limit with
  | nil =>
      cases limit with
      | zero => exact .inr (.inl ⟨Nat.le_refl _, unfinished_nil⟩)
      | succ limit => exact .inr (.inr ⟨Nat.succ_pos _, unfinished_nil⟩)
  | cons b bytes ih =>
      cases limit with
      | zero => exact .inr (.inl ⟨Nat.zero_le _, unfinished_nil⟩)
      | succ limit =>
          by_cases ends : b < 128
          · exact .inl ⟨[b], bytes, rfl, terminated_singleton ends, by simp⟩
          rcases ih limit with ⟨part, rest, rfl, whole, short⟩ | ⟨long, others⟩ | ⟨short, others⟩
          · exact .inl ⟨b :: part, rest, rfl, whole.cons ends, Nat.succ_le_succ short⟩
          · exact .inr (.inl ⟨Nat.succ_le_succ long, others.cons ends⟩)
          · exact .inr (.inr ⟨Nat.succ_lt_succ short, others.cons ends⟩)

-----------------------------------------------------------------------------------------
-- The reader on each of them
-----------------------------------------------------------------------------------------

variable {limit n : Nat} {bytes part rest : List UInt8}

/-- A terminated number is read whatever stands behind it, by induction on the bytes that go on. -/
theorem readGroups_of_terminated (h : Terminated part) (short : part.length ≤ limit)
    (rest : List UInt8)
    : readGroups limit (part ++ rest) = .ok (spelled part, rest) := by
  obtain ⟨front, last, rfl, others, ends⟩ := h
  induction front generalizing limit with
  | nil =>
      cases limit with
      | zero => simp at short
      | succ limit =>
          have low : last.toNat % 128 = last.toNat :=
            Nat.mod_eq_of_lt (UInt8.lt_iff_toNat_lt.mp ends)
          simp [readGroups, if_pos ends, spelled, low]
  | cons b front ih =>
      obtain ⟨first, behind⟩ := unfinished_cons others
      cases limit with
      | zero => simp at short
      | succ limit =>
          have fewer := ih (Nat.le_of_succ_le_succ short) behind
          have high := UInt8.le_iff_toNat_le.mp (UInt8.not_lt.mp first)
          have low : b.toNat % 128 = b.toNat - 128 := by
            have := b.toNat_lt
            simp at high
            omega
          simp only [List.cons_append, readGroups, if_neg first, fewer, spelled, low]

/-- Bytes that go on up to the limit are refused, by induction on them. -/
theorem readGroups_of_unfinished (h : Unfinished part) (rest : List UInt8)
    : readGroups part.length (part ++ rest) = .error .intOverflow := by
  induction part with
  | nil => rfl
  | cons b part ih =>
      obtain ⟨first, behind⟩ := unfinished_cons h
      simp only [List.cons_append, List.length_cons, readGroups, if_neg first, ih behind]

/-- Bytes that go on and stop before the limit are refused, by induction on them. -/
theorem readGroups_of_truncated (h : Unfinished bytes) (short : bytes.length < limit)
    : readGroups limit bytes = .error .unexpectedEof := by
  induction bytes generalizing limit with
  | nil =>
      cases limit with
      | zero => cases short
      | succ limit => rfl
  | cons b bytes ih =>
      obtain ⟨first, behind⟩ := unfinished_cons h
      cases limit with
      | zero => cases short
      | succ limit =>
          simp only [readGroups, if_neg first, ih behind (Nat.lt_of_succ_lt_succ short)]

theorem readGroups_of_take (long : limit ≤ bytes.length) (h : Unfinished (bytes.take limit))
    : readGroups limit bytes = .error .intOverflow := by
  have refused := readGroups_of_unfinished h (bytes.drop limit)
  rwa [List.take_append_drop, List.length_take_of_le long] at refused

/-- All that the reader can do, by what the bytes begin with. -/
theorem readGroups_cases (limit : Nat) (bytes : List UInt8)
    : (∃ part rest, bytes = part ++ rest ∧ Terminated part ∧ part.length ≤ limit
        ∧ readGroups limit bytes = .ok (spelled part, rest))
      ∨ (limit ≤ bytes.length ∧ Unfinished (bytes.take limit)
        ∧ readGroups limit bytes = .error .intOverflow)
      ∨ (bytes.length < limit ∧ Unfinished bytes
        ∧ readGroups limit bytes = .error .unexpectedEof) := by
  rcases begins limit bytes with ⟨part, rest, rfl, whole, short⟩ | ⟨long, others⟩ | ⟨short, others⟩
  · exact .inl ⟨part, rest, rfl, whole, short, readGroups_of_terminated whole short rest⟩
  · exact .inr (.inl ⟨long, others, readGroups_of_take long others⟩)
  · exact .inr (.inr ⟨short, others, readGroups_of_truncated others short⟩)

/-- What is read is a terminated number within the limit. -/
theorem readGroups_ok_iff
    : readGroups limit bytes = .ok (n, rest)
      ↔ ∃ part, bytes = part ++ rest ∧ Terminated part ∧ part.length ≤ limit
          ∧ n = spelled part := by
  constructor
  · intro read
    rcases readGroups_cases limit bytes with ⟨part, rest', split, whole, short, found⟩
      | ⟨-, -, refused⟩ | ⟨-, -, refused⟩
    · rw [found] at read
      cases read
      exact ⟨part, split, whole, short, rfl⟩
    · rw [refused] at read
      cases read
    · rw [refused] at read
      cases read
  · rintro ⟨part, rfl, whole, short, rfl⟩
    exact readGroups_of_terminated whole short rest

/-- What is refused goes on up to the limit, or goes on and stops before it. -/
theorem readGroups_error_iff {e : DecodeError}
    : readGroups limit bytes = .error e
      ↔ (e = .intOverflow ∧ limit ≤ bytes.length ∧ Unfinished (bytes.take limit))
        ∨ (e = .unexpectedEof ∧ bytes.length < limit ∧ Unfinished bytes) := by
  constructor
  · intro read
    rcases readGroups_cases limit bytes with ⟨part, rest, -, -, -, found⟩
      | ⟨long, others, refused⟩ | ⟨short, others, refused⟩
    · rw [found] at read
      cases read
    · rw [refused] at read
      cases read
      exact .inl ⟨rfl, long, others⟩
    · rw [refused] at read
      cases read
      exact .inr ⟨rfl, short, others⟩
  · rintro (⟨rfl, long, others⟩ | ⟨rfl, short, others⟩)
    · exact readGroups_of_take long others
    · exact readGroups_of_truncated others short

-----------------------------------------------------------------------------------------
-- Numbers of more than 64 bits
-----------------------------------------------------------------------------------------

theorem spelled_lt (bytes : List UInt8)
    : spelled bytes < 128 ^ bytes.length := by
  induction bytes with
  | nil => exact Nat.one_pos
  | cons b bytes ih =>
      have group := Nat.mod_lt b.toNat (show 0 < 128 by decide)
      rw [spelled, List.length_cons, Nat.pow_succ]
      omega

theorem spelled_append (front behind : List UInt8)
    : spelled (front ++ behind) = spelled front + 128 ^ front.length * spelled behind := by
  induction front with
  | nil => simp [spelled]
  | cons b front ih =>
      simp only [List.cons_append, spelled, ih, List.length_cons, Nat.pow_succ, Nat.mul_add,
        Nat.mul_comm, Nat.mul_assoc, Nat.add_assoc]

/-- Of the varints only those with a tenth byte above one spell more than 64 bits. -/
theorem spelled_lt_iff (h : Terminated part) (short : part.length ≤ 10)
    : spelled part < 2 ^ 64 ↔ ∀ b, part[9]? = some b → b ≤ 1 := by
  obtain ⟨front, last, rfl, -, ends⟩ := h
  have low : spelled [last] = last.toNat := by
    have := UInt8.lt_iff_toNat_lt.mp ends
    simp only [spelled]
    simp at this
    omega
  have bound := spelled_lt front
  have length : front.length ≤ 9 := by
    rw [List.length_append, List.length_singleton] at short
    omega
  rw [spelled_append, low]
  rcases Nat.lt_or_eq_of_le length with fewer | nine
  · have whole := spelled_lt (front ++ [last])
    have missing : (front ++ [last])[9]? = none :=
      List.getElem?_eq_none (by simp only [List.length_append, List.length_singleton]; omega)
    rw [spelled_append, low, List.length_append, List.length_singleton] at whole
    have power : 128 ^ (front.length + 1) ≤ 128 ^ 9 := Nat.pow_le_pow_right (by decide) fewer
    refine ⟨fun _ b found => ?_, fun _ => ?_⟩
    · rw [missing] at found
      cases found
    · exact Nat.lt_of_lt_of_le (Nat.lt_of_lt_of_le whole power) (by decide)
  · have tenth : (front ++ [last])[9]? = some last := by
      rw [← nine]
      exact List.getElem?_concat_length
    rw [tenth]
    rw [nine] at bound ⊢
    simp only [Option.some.injEq, forall_eq', UInt8.le_iff_toNat_le]
    simp only [UInt8.toNat_one]
    omega

-----------------------------------------------------------------------------------------
-- Varints
-----------------------------------------------------------------------------------------

theorem readVarint_ok_iff {v : UInt64}
    : readVarint bytes = .ok (v, rest)
      ↔ ∃ part, bytes = part ++ rest ∧ Terminated part ∧ part.length ≤ 10
          ∧ v.toNat = spelled part % 2 ^ 64 := by
  constructor
  · intro h
    simp only [readVarint_eq] at h
    split at h
    · rename_i n rest' read
      cases h
      obtain ⟨part, whole, terminated, short, rfl⟩ := readGroups_ok_iff.mp read
      exact ⟨part, whole, terminated, short, UInt64.toNat_ofNat'⟩
    · cases h
  · rintro ⟨part, whole, terminated, short, number⟩
    have read := readGroups_ok_iff.mpr ⟨part, whole, terminated, short, rfl⟩
    have low : UInt64.ofNat (spelled part) = v := by
      rw [← UInt64.toNat_inj, UInt64.toNat_ofNat', number]
    simp only [readVarint_eq, read, low]

theorem readVarint_error_iff {e : DecodeError}
    : readVarint bytes = .error e
      ↔ (e = .intOverflow ∧ 10 ≤ bytes.length ∧ Unfinished (bytes.take 10))
        ∨ (e = .unexpectedEof ∧ bytes.length < 10 ∧ Unfinished bytes) := by
  rw [← readGroups_error_iff]
  cases read : readGroups 10 bytes <;> simp [readVarint_eq, read]

/-- At an offset a varint is read exactly where at most ten bytes begin of which only the last has
no continuation bit, as the low 64 bits of the number that they spell.  That is the whole number
unless a tenth byte is above one.  Ten bytes that all go on are an overflow; fewer that all go on
are too few bytes, and nothing else goes wrong.
-/
theorem varints_read_at (bytes : List UInt8) (offset : Nat)
    : (∀ v rest, readVarint (bytes.drop offset) = .ok (v, rest)
        ↔ ∃ part, bytes.drop offset = part ++ rest ∧ Terminated part ∧ part.length ≤ 10
            ∧ v.toNat = spelled part % 2 ^ 64)
      ∧ (∀ part, Terminated part → part.length ≤ 10
        → (spelled part < 2 ^ 64 ↔ ∀ b, part[9]? = some b → b ≤ 1))
      ∧ (readVarint (bytes.drop offset) = .error .intOverflow
        ↔ 10 ≤ (bytes.drop offset).length ∧ Unfinished ((bytes.drop offset).take 10))
      ∧ (readVarint (bytes.drop offset) = .error .unexpectedEof
        ↔ (bytes.drop offset).length < 10 ∧ Unfinished (bytes.drop offset))
      ∧ ∀ e, readVarint (bytes.drop offset) = .error e → e = .intOverflow ∨ e = .unexpectedEof := by
  refine ⟨fun v rest => readVarint_ok_iff, fun part => spelled_lt_iff, ?_, ?_, fun e refused => ?_⟩
  · simp [readVarint_error_iff]
  · simp [readVarint_error_iff]
  · exact (readVarint_error_iff.mp refused).imp And.left And.left

/-- The tenth byte puts a bit beyond the 64th, which is lost without an error. -/
theorem tenth_byte_is_cut
    : let bytes : List UInt8 := List.replicate 9 255 ++ [2]
      Terminated bytes ∧ bytes.length = 10 ∧ spelled bytes = 2 ^ 64 + 9223372036854775807
      ∧ readVarint bytes = .ok (9223372036854775807, []) := by
  intro bytes
  have terminated : Terminated bytes := by
    refine ⟨List.replicate 9 255, 2, rfl, fun b listed => ?_, by decide⟩
    rw [List.eq_of_mem_replicate listed]
    decide
  have number : spelled bytes = 2 ^ 64 + 9223372036854775807 := by decide
  refine ⟨terminated, rfl, number,
    readVarint_ok_iff.mpr ⟨bytes, rfl, terminated, Nat.le_refl 10, ?_⟩⟩
  rw [number]
  decide

end Protobuf.Wire
