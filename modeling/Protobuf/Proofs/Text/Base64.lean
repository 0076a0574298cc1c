import Mathlib.Data.List.DropRight
import Mathlib.Data.List.GetD
import Mathlib.Data.List.Nodup
import Protobuf.Text.Base64

/-! Base 64 is read back.  The bits of all bytes are cut into groups of six, each of which is one
digit of an alphabet; the texts that are read are the spellings of bytes in either alphabet, padded
or not, and no text spells two byte strings.
-/

namespace Protobuf.Text

-----------------------------------------------------------------------------------------
-- Digits
-----------------------------------------------------------------------------------------

theorem lt_of_mem_base64Digits (bytes : List UInt8)
    : ∀ n ∈ base64Digits bytes, n < 64 := by
  have byte (a : UInt8) : a.toNat < 256 := a.toNat_lt
  fun_induction base64Digits bytes with
  | case1 => simp
  | case2 a =>
      have := byte a
      simp only [List.mem_cons, List.not_mem_nil, or_false]
      rintro n (rfl | rfl) <;> omega
  | case3 a b =>
      have := byte a
      have := byte b
      simp only [List.mem_cons, List.not_mem_nil, or_false]
      rintro n (rfl | rfl | rfl) <;> omega
  | case4 a b c rest ih =>
      have := byte a
      have := byte b
      have := byte c
      simp only [List.mem_cons]
      rintro n (rfl | rfl | rfl | rfl | listed)
      · omega
      · omega
      · omega
      · omega
      · exact ih n listed

theorem ofNat_eq_of_toNat {n : Nat} {b : UInt8} (h : n = b.toNat)
    : UInt8.ofNat n = b := by
  rw [h, UInt8.ofNat_toNat]

theorem ofBase64Digits?_base64Digits (bytes : List UInt8)
    : ofBase64Digits? (base64Digits bytes) = some bytes := by
  have byte (a : UInt8) : a.toNat < 256 := a.toNat_lt
  fun_induction base64Digits bytes with
  | case1 => rfl
  | case2 a =>
      have := byte a
      rw [ofBase64Digits?, if_pos (by omega), ofNat_eq_of_toNat (b := a) (by omega)]
  | case3 a b =>
      have := byte a
      have := byte b
      rw [ofBase64Digits?, if_pos (by omega), ofNat_eq_of_toNat (b := a) (by omega),
        ofNat_eq_of_toNat (b := b) (by omega)]
  | case4 a b c rest ih =>
      have := byte a
      have := byte b
      have := byte c
      simp only [ofBase64Digits?, ih]
      rw [ofNat_eq_of_toNat (b := a) (by omega), ofNat_eq_of_toNat (b := b) (by omega),
        ofNat_eq_of_toNat (b := c) (by omega)]

/-- Digits are the digits of the bytes that they spell, four digits at a time. -/
theorem eq_of_ofBase64Digits? {digits : List Nat} {bytes : List UInt8}
    (small : ∀ n ∈ digits, n < 64) (h : ofBase64Digits? digits = some bytes)
    : digits = base64Digits bytes := by
  have exact {n : Nat} (byte : n < 256) : (UInt8.ofNat n).toNat = n := UInt8.toNat_ofNat_of_lt' byte
  fun_induction ofBase64Digits? digits generalizing bytes with
  | case1 =>
      cases h
      rfl
  | case2 => cases h
  | case3 a b unused =>
      simp only [List.forall_mem_cons] at small
      cases h
      rw [base64Digits, exact (by omega)]
      simp only [List.cons.injEq, and_true]
      omega
  | case4 => cases h
  | case5 a b c unused =>
      simp only [List.forall_mem_cons] at small
      cases h
      rw [base64Digits, exact (by omega), exact (by omega)]
      simp only [List.cons.injEq, and_true]
      omega
  | case6 => cases h
  | case7 => cases h
  | case8 a b c d rest bytes spelled ih =>
      simp only [List.forall_mem_cons] at small
      cases h
      rw [base64Digits, exact (by omega), exact (by omega), exact (by omega),
        ← ih small.2.2.2.2 spelled]
      simp only [List.cons.injEq, and_true]
      omega

-----------------------------------------------------------------------------------------
-- Bits in groups
-----------------------------------------------------------------------------------------

/-- The bits of a byte, the high one first. -/
def byteBits (b : UInt8) : List Bool :=
  (List.range 8).map fun i => b.toNat.testBit (7 - i)

/-- The number that bits spell, the high one first. -/
def bitsValue (bits : List Bool) : Nat :=
  bits.foldl (fun n bit => 2 * n + bit.toNat) 0

/-- The numbers of the groups of six bits; the last group is filled up with zeros. -/
def sextets : List Bool → List Nat
  | [] => []
  | a :: b :: c :: d :: e :: f :: bits => bitsValue [a, b, c, d, e, f] :: sextets bits
  | bits => [bitsValue (bits.rightpad 6 false)]

theorem bitsValue_append (front behind : List Bool)
    : bitsValue (front ++ behind) = bitsValue front * 2 ^ behind.length + bitsValue behind := by
  induction behind using List.reverseRecOn with
  | nil => simp [bitsValue]
  | append_singleton behind bit ih =>
      have last (bits : List Bool) : bitsValue (bits ++ [bit])
        = 2 * bitsValue bits + bit.toNat := by
        simp [bitsValue]
      rw [← List.append_assoc, last, last, ih, List.length_append,
        List.length_singleton, Nat.pow_succ]
      grind

theorem length_byteBits (b : UInt8)
    : (byteBits b).length = 8 := by
  rw [byteBits, List.length_map, List.length_range]

theorem bitsValue_lt (bits : List Bool)
    : bitsValue bits < 2 ^ bits.length := by
  induction bits using List.reverseRecOn with
  | nil => exact Nat.one_pos
  | append_singleton bits bit ih =>
      have last : bitsValue [bit] ≤ 1 := by cases bit <;> decide
      rw [bitsValue_append, List.length_append, List.length_singleton, Nat.pow_succ]
      omega

/-- The low bits of a number, the high one first, spell its rest, by induction on how many they are.
-/
theorem bitsValue_testBit (n k : Nat)
    : bitsValue ((List.range k).map fun i => n.testBit (k - 1 - i)) = n % 2 ^ k := by
  induction k with
  | zero => exact (Nat.mod_one n).symm
  | succ k ih =>
      have high : bitsValue [n.testBit k] = n / 2 ^ k % 2 :=
        (Nat.zero_add _).trans (Nat.toNat_testBit n k)
      have others : (fun i => n.testBit (k + 1 - 1 - i)) ∘ Nat.succ
        = fun i => n.testBit (k - 1 - i) := by
        funext i
        exact congrArg n.testBit (by omega)
      rw [List.range_succ_eq_map, List.map_cons, List.map_map, others, ← List.singleton_append,
        bitsValue_append, ih, List.length_map, List.length_range, Nat.mod_pow_succ,
          Nat.add_comm, Nat.mul_comm]
      exact congrArg (n % 2 ^ k + 2 ^ k * ·) high

/-- The bits of a byte spell it, so its first bits spell its quotient and the others its rest. -/
theorem bitsValue_byteBits (b : UInt8) (k : Nat)
    : bitsValue ((byteBits b).take k) = b.toNat / 2 ^ (8 - k)
      ∧ bitsValue ((byteBits b).drop k) = b.toNat % 2 ^ (8 - k) := by
  have whole : bitsValue (byteBits b) = b.toNat :=
    (bitsValue_testBit b.toNat 8).trans (Nat.mod_eq_of_lt b.toNat_lt)
  have small := bitsValue_lt ((byteBits b).drop k)
  rw [← List.take_append_drop k (byteBits b), bitsValue_append] at whole
  rw [List.length_drop, length_byteBits] at small whole
  rw [← whole, Nat.add_comm, Nat.add_mul_div_right _ _ (Nat.two_pow_pos _), Nat.div_eq_of_lt small,
    Nat.zero_add, Nat.add_mul_mod_self_right, Nat.mod_eq_of_lt small]
  exact ⟨rfl, rfl⟩

/-- Six bits are one group. -/
theorem sextets_six {group : List Bool} (six : group.length = 6) (bits : List Bool)
    : sextets (group ++ bits) = bitsValue group :: sextets bits := by
  match group, six with
  | [a, b, c, d, e, f], _ => rfl

/-- Bits that are fewer than six are filled up. -/
theorem sextets_few {bits : List Bool} (some : bits ≠ []) (few : bits.length < 6)
    : sextets bits = [bitsValue bits * 2 ^ (6 - bits.length)] := by
  have zeros (n : Nat) : bitsValue (List.replicate n false) = 0 := by
    induction n with
    | zero => rfl
    | succ n ih => rw [List.replicate_succ', bitsValue_append, ih]; rfl
  have value : bitsValue (bits.rightpad 6 false) = bitsValue bits * 2 ^ (6 - bits.length) := by
    rw [List.rightpad, bitsValue_append, zeros, List.length_replicate, Nat.add_zero]
  rw [← value]
  match bits, some, few with
  | [a], _, _ | [a, b], _, _ | [a, b, c], _, _ | [a, b, c, d], _, _ | [a, b, c, d, e], _, _ => rfl

/-- A group that is begun takes the bits that it lacks from the next byte. -/
theorem sextets_across {front : List Bool} {k : Nat} (six : front.length + k = 6) (b : UInt8)
    (bits : List Bool)
    : sextets (front ++ (byteBits b ++ bits))
        = (bitsValue front * 2 ^ k + b.toNat / 2 ^ (8 - k))
          :: sextets ((byteBits b).drop k ++ bits) := by
  have taken : ((byteBits b).take k).length = k := by
    rw [List.length_take, length_byteBits]
    omega
  have group : front ++ (byteBits b ++ bits)
      = (front ++ (byteBits b).take k) ++ ((byteBits b).drop k ++ bits) := by
    rw [List.append_assoc, ← List.append_assoc ((byteBits b).take k), List.take_append_drop]
  rw [group, sextets_six (by rw [List.length_append, taken, six]), bitsValue_append, taken,
    (bitsValue_byteBits b k).1]

/-- The bits that the last byte has left are filled up. -/
theorem sextets_last (b : UInt8) {k : Nat} (most : 2 < k) (least : k < 8)
    : sextets ((byteBits b).drop k) = [b.toNat % 2 ^ (8 - k) * 2 ^ (k - 2)] := by
  have left : ((byteBits b).drop k).length = 8 - k := by rw [List.length_drop, length_byteBits]
  rw [sextets_few (by rw [← List.length_pos_iff]; omega) (by omega), (bitsValue_byteBits b k).2,
    left, show 6 - (8 - k) = k - 2 by omega]

/-- The digits of bytes are the groups of their bits, three bytes at a time. -/
theorem sextets_byteBits (bytes : List UInt8)
    : sextets (bytes.flatMap byteBits) = base64Digits bytes := by
  have left (b : UInt8) (k : Nat) : ((byteBits b).drop k).length = 8 - k := by
    rw [List.length_drop, length_byteBits]
  have first (a : UInt8) (bits : List Bool)
      : sextets (byteBits a ++ bits) = a.toNat / 4 :: sextets ((byteBits a).drop 6 ++ bits) := by
    simpa [bitsValue] using @sextets_across [] 6 rfl a bits
  have second (a b : UInt8) (bits : List Bool)
      : sextets ((byteBits a).drop 6 ++ (byteBits b ++ bits))
        = (a.toNat % 4 * 16 + b.toNat / 16) :: sextets ((byteBits b).drop 4 ++ bits) := by
    rw [sextets_across (k := 4) (by rw [left]), (bitsValue_byteBits a 6).2]
  have third (b c : UInt8) (bits : List Bool)
      : sextets ((byteBits b).drop 4 ++ (byteBits c ++ bits))
        = (b.toNat % 16 * 4 + c.toNat / 64) :: sextets ((byteBits c).drop 2 ++ bits) := by
    rw [sextets_across (k := 2) (by rw [left]), (bitsValue_byteBits b 4).2]
  have fourth (c : UInt8) (bits : List Bool)
      : sextets ((byteBits c).drop 2 ++ bits) = c.toNat % 64 :: sextets bits := by
    rw [sextets_six (left c 2), (bitsValue_byteBits c 2).2]
  fun_induction base64Digits bytes with
  | case1 => rfl
  | case2 a =>
      rw [List.flatMap_cons, List.flatMap_nil, first, List.append_nil,
        sextets_last a (by decide) (by decide)]
  | case3 a b =>
      rw [List.flatMap_cons, List.flatMap_cons, List.flatMap_nil, first, second, List.append_nil,
        sextets_last b (by decide) (by decide)]
  | case4 a b c bytes ih =>
      rw [List.flatMap_cons, List.flatMap_cons, List.flatMap_cons, first, second, third, fourth, ih]

-----------------------------------------------------------------------------------------
-- Texts that spell bytes
-----------------------------------------------------------------------------------------

/-- The digits of base 64 in the alphabet for addresses and file names. -/
def urlAlphabet : List Char :=
  "ABCDEFGHIJKLMNOPQRSTUVWXYZabcdefghijklmnopqrstuvwxyz0123456789-_".toList

/-- The text of bytes in an alphabet, padded to a multiple of four characters or not. -/
def spelling (alphabet : List Char) (padded : Bool) (bytes : List UInt8) : List Char :=
  let digits := (sextets (bytes.flatMap byteBits)).map fun n => alphabet.getD n '='
  digits ++ if padded then List.replicate ((4 - digits.length % 4) % 4) '=' else []

theorem spelling_eq (alphabet : List Char) (padded : Bool) (bytes : List UInt8)
    : spelling alphabet padded bytes = (base64Digits bytes).map (fun n => alphabet.getD n '=')
        ++ if padded then List.replicate ((4 - (base64Digits bytes).length % 4) % 4)
          '=' else [] := by
  rw [spelling, sextets_byteBits, List.length_map]

/-- The padding fills up the last group of four characters. -/
theorem base64Padding_eq (bytes : List UInt8)
    : base64Padding bytes.length
        = List.replicate ((4 - (base64Digits bytes).length % 4) % 4) '=' := by
  fun_induction base64Digits bytes with
  | case1 | case2 a | case3 a b => rfl
  | case4 a b c bytes ih =>
      have group : base64Padding (bytes.length + 3) = base64Padding bytes.length := by
        simp only [base64Padding, Nat.add_mod_right]
      simp only [List.length_cons, group, ih, Nat.add_assoc, Nat.reduceAdd, Nat.add_mod_right]

/-- Bytes are written in the standard alphabet with padding. -/
theorem base64_eq_spelling (bytes : List UInt8)
    : base64 bytes = String.ofList (spelling base64Alphabet true bytes) := by
  rw [base64, base64Padding_eq, spelling_eq, if_pos rfl]
  rfl

theorem base64Alphabet_eq
    : base64Alphabet = [
        'A', 'B', 'C', 'D', 'E', 'F', 'G', 'H', 'I', 'J', 'K', 'L', 'M', 'N', 'O', 'P',
        'Q', 'R', 'S', 'T', 'U', 'V', 'W', 'X', 'Y', 'Z', 'a', 'b', 'c', 'd', 'e', 'f',
        'g', 'h', 'i', 'j', 'k', 'l', 'm', 'n', 'o', 'p', 'q', 'r', 's', 't', 'u', 'v',
        'w', 'x', 'y', 'z', '0', '1', '2', '3', '4', '5', '6', '7', '8', '9', '+', '/'] :=
  String.toList_ofList

/-- The alphabets differ in their last two characters. -/
theorem urlAlphabet_eq
    : urlAlphabet = base64Alphabet.take 62 ++ ['-', '_'] := by
  rw [base64Alphabet_eq]
  exact String.toList_ofList

theorem length_base64Alphabet
    : base64Alphabet.length = 64 := by
  rw [base64Alphabet_eq]
  rfl

theorem nodup_base64Alphabet
    : base64Alphabet.Nodup := by
  rw [base64Alphabet_eq]
  exact List.Nodup.of_map Char.toNat (by decide +kernel)

/-- A character has the number of which it is the digit. -/
theorem base64Value?_eq_some_iff {c : Char} {n : Nat}
    : base64Value? c = some n ↔ c = base64Char n ∧ n < 64 := by
  have digit {n : Nat} (inside : n < base64Alphabet.length) : base64Char n = base64Alphabet[n] := by
    rw [base64Char, List.getD_eq_getElem?_getD, List.getElem?_eq_getElem inside, Option.getD_some]
  rw [base64Value?, List.findIdx?_eq_some_iff_getElem]
  constructor
  · rintro ⟨inside, same, -⟩
    exact ⟨(eq_of_beq same).symm.trans (digit inside).symm, length_base64Alphabet ▸ inside⟩
  · rintro ⟨own, small⟩
    have inside : n < base64Alphabet.length := length_base64Alphabet ▸ small
    have same := own.trans (digit inside)
    refine ⟨inside, beq_of_eq same.symm, fun k less found => ?_⟩
    have again : k = n := nodup_base64Alphabet.getElem_inj_iff.mp ((eq_of_beq found).trans same)
    exact absurd again (Nat.ne_of_lt less)

/-- Characters have the numbers of which they are the digits. -/
theorem mapM_base64Value? (chars : List Char) (digits : List Nat)
    : chars.mapM base64Value? = some digits
        ↔ chars = digits.map base64Char ∧ ∀ n ∈ digits, n < 64 := by
  induction chars generalizing digits with
  | nil =>
      cases digits with
      | nil => simp
      | cons n digits => simp
  | cons c chars ih =>
      cases digits with
      | nil => simp [Option.bind_eq_some_iff]
      | cons n digits =>
          simp only [List.mapM_cons, Option.bind_eq_bind, Option.bind_eq_some_iff, Option.pure_def,
            Option.some.injEq, List.cons.injEq, List.map_cons, List.forall_mem_cons]
          constructor
          · rintro ⟨_, first, _, others, rfl, rfl⟩
            obtain ⟨own, small⟩ := base64Value?_eq_some_iff.mp first
            obtain ⟨behind, all⟩ := (ih _).mp others
            exact ⟨⟨own, behind⟩, small, all⟩
          · rintro ⟨⟨own, behind⟩, small, all⟩
            exact ⟨n, base64Value?_eq_some_iff.mpr ⟨own, small⟩, digits, (ih _).mpr ⟨behind, all⟩,
              rfl, rfl⟩

theorem dropPadding_append {digits padding : List Char} (padded : ∀ c ∈ padding, c = '=')
    (unpadded : ∀ c ∈ digits, c ≠ '=')
    : dropPadding (digits ++ padding) = digits := by
  have front : ∀ c ∈ padding.reverse, (c == '=') = true := by simpa using padded
  rw [dropPadding, List.reverse_append, List.dropWhile_append_of_pos front]
  have kept : digits.reverse.dropWhile (· == '=') = digits.reverse := by
    cases reversed : digits.reverse with
    | nil => rfl
    | cons c others =>
        have other : c ≠ '=' := unpadded c (List.mem_reverse.mp (by simp [reversed]))
        exact List.dropWhile_cons_of_neg (by simpa using other)
  rw [kept, List.reverse_reverse]

/-- A text spells bytes if it is their unpadded spelling, up to padding at its end and the alphabet.
-/
theorem ofBase64?_eq_some_iff {text : String} {bytes : List UInt8}
    : ofBase64? text = some bytes
        ↔ (text.toList.rdropWhile (· == '=')).map standardBase64Char
          = spelling base64Alphabet false bytes := by
  have unpadded : spelling base64Alphabet false bytes = (base64Digits bytes).map base64Char := by
    rw [spelling_eq, if_neg Bool.false_ne_true, List.append_nil]
    exact List.map_congr_left fun _ _ => rfl
  have digits : (dropPadding text.toList).mapM (fun c => base64Value? (standardBase64Char c))
      = ((text.toList.rdropWhile (· == '=')).map standardBase64Char).mapM base64Value? := by
    rw [List.mapM_map]
    rfl
  rw [ofBase64?, digits, unpadded]
  constructor
  · intro h
    split at h
    · cases h
    · rename_i numbers read
      obtain ⟨same, small⟩ := (mapM_base64Value? _ _).mp read
      rw [same, eq_of_ofBase64Digits? small h]
  · intro h
    rw [(mapM_base64Value? _ _).mpr ⟨h, lt_of_mem_base64Digits bytes⟩]
    exact ofBase64Digits?_base64Digits bytes

/-- The digits of both alphabets are read as those of the standard one, and none of them is padding.
-/
theorem digit_of_known {alphabet : List Char} (known : alphabet ∈ [base64Alphabet, urlAlphabet])
    {n : Nat} (small : n < 64)
    : alphabet.getD n '=' ≠ '=' ∧ standardBase64Char (alphabet.getD n '=') = base64Char n := by
  have facts : '=' ∉ alphabet ∧ alphabet.map standardBase64Char = base64Alphabet := by
    simp only [List.mem_cons, List.not_mem_nil, or_false] at known
    rcases known with standard | url
    · rw [standard, base64Alphabet_eq]
      decide +kernel
    · rw [url, urlAlphabet_eq, base64Alphabet_eq]
      decide +kernel
  obtain ⟨unpadded, standard⟩ := facts
  have inside : n < alphabet.length := by
    rw [← List.length_map standardBase64Char, standard, length_base64Alphabet]
    exact small
  constructor
  · rw [List.getD_eq_getElem _ _ inside]
    exact ne_of_mem_of_not_mem (List.getElem_mem inside) unpadded
  · rw [base64Char, ← standard]
    exact (List.getD_map alphabet '=' standardBase64Char).symm

/-- All four spellings of bytes spell them. -/
theorem ofBase64?_spelling {alphabet : List Char} (known : alphabet ∈ [base64Alphabet, urlAlphabet])
    (padded : Bool) (bytes : List UInt8)
    : ofBase64? (String.ofList (spelling alphabet padded bytes)) = some bytes := by
  have small := lt_of_mem_base64Digits bytes
  have padding : ∀ c ∈ if padded then List.replicate ((4 - (base64Digits bytes).length % 4) % 4) '='
      else [], c = '=' := by
    split
    · exact fun c listed => List.eq_of_mem_replicate listed
    · nofun
  have unpadded : ∀ c ∈ (base64Digits bytes).map (fun n => alphabet.getD n '='), c ≠ '=' := by
    intro c listed
    obtain ⟨n, own, rfl⟩ := List.mem_map.mp listed
    exact (digit_of_known known (small n own)).1
  have front := dropPadding_append padding unpadded
  rw [← spelling_eq] at front
  rw [ofBase64?_eq_some_iff, String.toList_ofList]
  change (dropPadding (spelling alphabet padded bytes)).map standardBase64Char = _
  rw [front, List.map_map, spelling_eq, if_neg Bool.false_ne_true, List.append_nil]
  exact List.map_congr_left fun n listed => (digit_of_known known (small n listed)).2

/-- The text of bytes is read as the bytes. -/
theorem ofBase64?_base64 (bytes : List UInt8)
    : ofBase64? (base64 bytes) = some bytes := by
  rw [base64_eq_spelling]
  exact ofBase64?_spelling (by simp) true bytes

end Protobuf.Text
