import Protobuf.Text.Utf8

/-! The bytes of characters.  An ASCII character is its own byte, and all bytes of another character
lie beyond ASCII.
-/

namespace Protobuf.Text

theorem toNat_ofNat_of_lt {n : Nat} (small : n < 0xd800)
    : (Char.ofNat n).toNat = n := by
  rw [Char.ofNat, dif_pos (Or.inl small : n.isValidChar)]
  rfl

theorem utf8_ofList (chars : List Char)
    : utf8 (String.ofList chars) = chars.flatMap String.utf8EncodeChar := by
  simp [utf8, List.utf8Encode]

theorem utf8_eq_flatMap (text : String)
    : utf8 text = text.toList.flatMap String.utf8EncodeChar := by
  rw [← utf8_ofList, String.ofList_toList]

theorem utf8_append (a b : String)
    : utf8 (a ++ b) = utf8 a ++ utf8 b := by
  simp only [utf8_eq_flatMap, String.toList_append, List.flatMap_append]

theorem utf8EncodeChar_of_lt {c : Char} (ascii : c.toNat < 128)
    : String.utf8EncodeChar c = [UInt8.ofNat c.toNat] :=
  if_pos (Nat.le_of_lt_succ ascii)

theorem utf8_of_ascii {chars : List Char} (ascii : ∀ c ∈ chars, c.toNat < 128)
    : chars.flatMap String.utf8EncodeChar = chars.map fun c => UInt8.ofNat c.toNat := by
  induction chars with
  | nil => rfl
  | cons c chars ih =>
      obtain ⟨first, others⟩ := List.forall_mem_cons.mp ascii
      rw [List.flatMap_cons, utf8EncodeChar_of_lt first, ih others, List.singleton_append,
        List.map_cons]

theorem le_of_mem_utf8EncodeChar {c : Char} (large : 128 ≤ c.toNat) {b : UInt8}
    (listed : b ∈ String.utf8EncodeChar c)
    : 128 ≤ b.toNat := by
  change b ∈ (if c.toNat ≤ 127 then _ else _) at listed
  rw [if_neg (by omega)] at listed
  split at listed
  · simp only [List.mem_cons, List.not_mem_nil, or_false] at listed
    rcases listed with rfl | rfl <;> simp only [UInt8.toNat_ofNat'] <;> omega
  · split at listed
    all_goals
      simp only [List.mem_cons, List.not_mem_nil, or_false] at listed
      rcases listed with rfl | rfl | rfl | rfl <;> simp only [UInt8.toNat_ofNat'] <;> omega

theorem eq_utf8_of_ofUtf8? {bytes : List UInt8} {text : String} (h : ofUtf8? bytes = some text)
    : bytes = utf8 text := by
  unfold ofUtf8? String.fromUTF8? at h
  split at h
  · cases h
    rfl
  · cases h

/-- The bytes of a character tell where it ends. -/
theorem utf8EncodeChar_append_inj {c d : Char} {a b : List UInt8}
    (h : String.utf8EncodeChar c ++ a = String.utf8EncodeChar d ++ b)
    : c = d ∧ a = b := by
  have decoded (e : Char) (behind : List UInt8)
      : (String.utf8EncodeChar e ++ behind).toByteArray.utf8DecodeChar? 0 = some e := by
    rw [List.toByteArray_append]
    exact ByteArray.utf8DecodeChar?_utf8EncodeChar_append
  have same := decoded d b
  rw [← h, decoded c a] at same
  cases same
  exact ⟨rfl, List.append_cancel_left h⟩

/-- Which bytes begin a character, and which ones continue it. -/
theorem utf8EncodeChar_eq_cons (c : Char)
    : ∃ b others, String.utf8EncodeChar c = b :: others ∧ (b.toNat < 128 ∨ 192 ≤ b.toNat)
      ∧ ∀ other ∈ others, 128 ≤ other.toNat ∧ other.toNat < 192 := by
  have bound : c.val.toNat < 0x110000 := by
    rcases c.valid with small | ⟨_, large⟩
    · exact Nat.lt_trans small (by decide)
    · exact large
  unfold String.utf8EncodeChar
  generalize c.val.toNat = v at bound
  simp only
  repeat' split
  · exact ⟨_, _, rfl, .inl (by rw [UInt8.toNat_ofNat']; omega), by simp⟩
  all_goals
    refine ⟨_, _, rfl, .inr ?_, ?_⟩
    · rw [UInt8.toNat_ofNat']
      omega
    · simp only [List.forall_mem_cons, List.not_mem_nil, false_imp_iff, implies_true, and_true,
        UInt8.toNat_ofNat']
      omega

end Protobuf.Text
