import Protobuf.Proofs.Json.Cursor
import Protobuf.Proofs.Json.Tree
import Protobuf.Proofs.Schema.Lawful
import Protobuf.Proofs.Schema.Names
import Protobuf.Proofs.Text.Base64
import Protobuf.Proofs.Wire.Payload

/-! Scalars are read as they were written.  The exceptions are patterns of no number, of which one
stands for all, and finite floats whose text does not lead back to them, which is left to a
hypothesis about the float.
-/

namespace Protobuf

open Json Number Text

namespace Scalar

/-- The scalar with one pattern for what is no number. -/
def canonical : Scalar → Scalar
  | .float bits => .float (if floatIsNaN bits then UInt32.ofNat single.quietNaN else bits)
  | .double bits => .double (if doubleIsNaN bits then UInt64.ofNat Number.double.quietNaN else bits)
  | v => v

/-- The number text of a finite float is read as the float. -/
def ReadsBack : Scalar → Prop
  | .float bits => specialText (single.value bits.toNat) = none
      → ∃ wide, Reader.doubleOfText (floatText single bits.toNat) = .ok wide
        ∧ ¬(Reader.largestFloat < wide % Number.double.signBit
          ∧ wide % Number.double.signBit < Number.double.infinity)
        ∧ Reader.narrow wide = bits.toNat
  | .double bits => specialText (Number.double.value bits.toNat) = none
      → Reader.doubleOfText (floatText Number.double bits.toNat) = .ok bits.toNat
  | _ => True

end Scalar

namespace Json

-----------------------------------------------------------------------------------------
-- Tokens
-----------------------------------------------------------------------------------------

theorem reads_numericText_number (type : String) (v : Numeral)
    : Reads (fun r => r.numericText type) (.number v) (some (String.ofList v.text)) := by
  intro r more h
  simp only [Reader.numericText, h.sound]
  simp only [h.beginValue, h.begun.peekKind, Node.kind, h.begun.scan (number_text v h.ends)]
  rfl

theorem reads_numericText_string (type text : String)
    : Reads (fun r => r.numericText type) (.string text) (some text) := by
  intro r more h
  simp only [Reader.numericText, h.sound]
  simp only [h.beginValue, h.begun.peekKind, Node.kind,
    h.begun.scan (string_stringLiteral text more)]
  rfl

theorem reads_stringAs (type text : String)
    : Reads (fun r => r.stringAs type) (.string text) (some text) := by
  intro r more h
  simp only [Reader.stringAs, h.sound]
  simp only [h.beginValue, h.begun.peekKind, Node.kind,
    h.begun.scan (string_stringLiteral text more)]
  rfl

-----------------------------------------------------------------------------------------
-- Integers
-----------------------------------------------------------------------------------------

/-- An integer is read from its text. -/
theorem integerOfText_int (n : Int)
    : Reader.integerOfText (toString n) = .ok n := by
  obtain ⟨c, others, first, digit⟩ := toDigits_cons n.natAbs
  have digits := (isDigits_toDigits n.natAbs).2
  have chars := toList_toString_int n
  have body : dropMinus (toString n).toList = Nat.toDigits 10 n.natAbs := by
    rw [chars]
    split
    · rfl
    · rw [List.nil_append, first, dropMinus]
      rintro _ same
      cases same
      cases digit
  have negative : ((toString n).toList.head? == some '-') = decide (n < 0) := by
    rw [chars]
    by_cases below : n < 0
    · simp [below]
    · have other : c ≠ '-' := by
        rintro rfl
        cases digit
      simp [below, first, other]
  have front : (Nat.toDigits 10 n.natAbs ++ []).takeWhile Char.isDigit
      = Nat.toDigits 10 n.natAbs ++ [].takeWhile Char.isDigit :=
    List.takeWhile_append_of_pos digits
  have behind : (Nat.toDigits 10 n.natAbs ++ []).dropWhile Char.isDigit
      = [].dropWhile Char.isDigit :=
    List.dropWhile_append_of_pos digits
  rw [List.append_nil] at front behind
  have decimal : decimalOfNumber (toString n).toList = ⟨decide (n < 0), n.natAbs, 0⟩ := by
    simp only [decimalOfNumber, body, negative, front, behind, List.takeWhile_nil,
      List.dropWhile_nil, List.append_nil, decimalValue_toDigits]
    rfl
  have whole : ((toString n).toList.any fun c => c == '.' || c == 'e' || c == 'E') = false := by
    have plain : ∀ c ∈ (toString n).toList, c = '-' ∨ c.isDigit := by
      rw [chars]
      intro c listed
      rcases List.mem_append.mp listed with sign | listed
      · split at sign
        · exact .inl (List.mem_singleton.mp sign)
        · cases sign
      · exact .inr (digits c listed)
    refine List.any_eq_false.mpr fun c listed => ?_
    rcases plain c listed with rfl | digit
    · decide
    · intro other
      simp only [Bool.or_eq_true, beq_iff_eq] at other
      rcases other with (rfl | rfl) | rfl <;> cases digit
  simp only [Reader.integerOfText, isNumber_of_isNumeral (isNumeral_int n), decimal, whole,
    Bool.not_true, Bool.false_eq_true, if_false, decide_eq_true_eq]
  congr 1
  split <;> omega

/-- An integer of the range is read from a numeral or a string with its text. -/
theorem reads_integer {tree : Node} {i low high : Int} (type : String)
    (text : Reads (fun r => r.numericText type) tree (some (toString i)))
    (inside : low ≤ i ∧ i ≤ high)
    : Reads (fun r => r.integer type low high) tree i := by
  intro r more h
  simp only [Reader.integer, text r more h, integerOfText_int, if_pos inside]

theorem reads_numericText_int (type : String) (n : Int)
    : Reads (fun r => r.numericText type) (.number (.ofInt n)) (some (toString n)) := by
  have read := reads_numericText_number type (.ofInt n)
  rwa [Numeral.ofInt, String.ofList_toList] at read

theorem reads_int32 (v : Int32)
    : Reads Reader.int32 (.number (.ofInt v.toInt)) v := by
  intro r more h
  have read := reads_integer "int32" (reads_numericText_int "int32" v.toInt)
    (show -2 ^ 31 ≤ v.toInt ∧ v.toInt ≤ 2 ^ 31 - 1 from
      ⟨v.le_toInt, Int.le_sub_one_of_lt v.toInt_lt⟩) r more h
  simp only at read
  simp only [Reader.int32, read, Int32.ofInt_toInt]

theorem reads_int64 (v : Int64)
    : Reads Reader.int64 (.string (toString v.toInt)) v := by
  intro r more h
  have read := reads_integer "int64" (reads_numericText_string "int64" (toString v.toInt))
    (show -2 ^ 63 ≤ v.toInt ∧ v.toInt ≤ 2 ^ 63 - 1 from
      ⟨v.le_toInt, Int.le_sub_one_of_lt v.toInt_lt⟩) r more h
  simp only at read
  simp only [Reader.int64, read, Int64.ofInt_toInt]

theorem reads_uint32 (v : UInt32)
    : Reads Reader.uint32 (.number (.ofNat v.toNat)) v := by
  intro r more h
  have small := v.toNat_lt
  have read := reads_integer "uint32" (reads_numericText_int "uint32" v.toNat)
    (show (0 : Int) ≤ v.toNat ∧ (v.toNat : Int) ≤ 2 ^ 32 - 1 by omega) r more h
  simp only at read
  simp only [Reader.uint32, read, Int.toNat_natCast, UInt32.ofNat_toNat]

theorem reads_uint64 (v : UInt64)
    : Reads Reader.uint64 (.string (toString v.toNat)) v := by
  intro r more h
  have small := v.toNat_lt
  have read := reads_integer "uint64" (reads_numericText_string "uint64" (toString (v.toNat : Int)))
    (show (0 : Int) ≤ v.toNat ∧ (v.toNat : Int) ≤ 2 ^ 64 - 1 by omega) r more h
  simp only at read
  simp only [Reader.uint64, read, Int.toNat_natCast, UInt64.ofNat_toNat]

-----------------------------------------------------------------------------------------
-- Truth values, texts and bytes
-----------------------------------------------------------------------------------------

theorem reads_bool (v : Bool)
    : Reads Reader.bool (.bool v) v := by
  intro r more h
  have head (b : UInt8) (bytes : List UInt8) (same : utf8 (Node.bool v).text = b :: bytes)
      : r.rest.head? = some b := by
    rw [h.text, same]
    rfl
  simp only [Reader.bool, h.sound]
  simp only [h.beginValue, h.begun.peekKind, Node.kind]
  cases v with
  | true =>
      rw [head 116 _ rfl, if_pos rfl, h.begun.scan (literal_utf8 "true" more)]
      rfl
  | false =>
      rw [head 102 _ rfl, if_neg (by decide), h.begun.scan (literal_utf8 "false" more)]
      rfl

theorem reads_string (v : String)
    : Reads Reader.string (.string v) v := by
  intro r more h
  simp only [Reader.string, reads_stringAs "string" v r more h, Option.getD_some]

theorem reads_bytes (v : List UInt8)
    : Reads Reader.bytes (.string (base64 v)) v := by
  intro r more h
  simp only [Reader.bytes, reads_stringAs "bytes" (base64 v) r more h, ofBase64?_base64]

-----------------------------------------------------------------------------------------
-- Enumerations
-----------------------------------------------------------------------------------------

/-- The name that is written for a number stands for it. -/
theorem numberInTables_of_name {e : EnumType} (legible : e.Legible) {v : Int32}
    {name : String} (h : nameInTables [e.nameTable] v = some name)
    : numberInTables [e.numberTable] name = some v := by
  unfold nameInTables at h
  unfold numberInTables
  rw [List.flatten_singleton] at h ⊢
  obtain ⟨_, _, split, -⟩ := List.lookup_eq_some_iff.mp h
  have listed : (v, name) ∈ e.nameTable := by simp [split]
  exact legible _ listed

theorem reads_enumeration {e : EnumType} (legible : e.Legible) (config : Config) (v : Int32)
    : Reads (fun r => r.enumeration [e.numberTable]) (enumNode config e v) v := by
  have number : Reads (fun r => r.enumeration [e.numberTable]) (.number (.ofInt v.toInt)) v := by
    intro r more h
    simp only [Reader.enumeration, h.sound]
    simp only [h.beginValue, h.begun.peekKind, Node.kind, reads_int32 v _ more h.begun]
    rfl
  unfold enumNode
  split
  · exact number
  · split
    · rename_i name named
      intro r more h
      simp only [Reader.enumeration, h.sound]
      simp only [h.beginValue, h.begun.peekKind, Node.kind,
        h.begun.scan (string_stringLiteral name more), numberInTables_of_name legible named,
        Option.some_or]
      rfl
    · exact number

-----------------------------------------------------------------------------------------
-- Floats
-----------------------------------------------------------------------------------------

/-- A text that stands for a `double`, as a number or between quotes. -/
theorem reads_floating {tree : Node} {text : String} {bits : Nat} (type : String)
    (spelled : Reads (fun r => r.numericText type) tree (some text))
    (value : Reader.doubleOfText text = .ok bits)
    : Reads (fun r => r.floating type) tree (some bits) := by
  intro r more h
  simp only [Reader.floating, spelled r more h, value]

theorem reads_float {tree : Node} {text : String} {wide : Nat}
    (spelled : Reads (fun r => r.numericText "float32") tree (some text))
    (value : Reader.doubleOfText text = .ok wide)
    (inside : ¬(Reader.largestFloat < wide % double.signBit
      ∧ wide % double.signBit < double.infinity))
    : Reads Reader.float tree (UInt32.ofNat (Reader.narrow wide)) := by
  intro r more h
  simp only [Reader.float, reads_floating "float32" spelled value r more h, if_neg inside]

theorem reads_double {tree : Node} {text : String} {bits : Nat}
    (spelled : Reads (fun r => r.numericText "float64") tree (some text))
    (value : Reader.doubleOfText text = .ok bits)
    : Reads Reader.double tree (UInt64.ofNat bits) := by
  intro r more h
  simp only [Reader.double, reads_floating "float64" spelled value r more h]

/-- A pattern stands for no number, an infinity or a finite number. -/
theorem value_cases (f : Format) {bits : Nat} (small : bits < 2 * f.signBit)
    : (f.value bits = .notANumber ∧ f.infinity < bits % f.signBit)
      ∨ (bits % f.signBit ≤ f.infinity
        ∧ ((∃ negative, f.value bits = .infinite negative
            ∧ bits = (if negative then f.signBit else 0) + f.infinity)
          ∨ specialText (f.value bits) = none)) := by
  have whole := Nat.div_add_mod bits f.signBit
  simp only [Format.value]
  split
  · exact .inr ⟨by omega, .inr rfl⟩
  · split
    · rename_i infinite
      refine .inr ⟨Nat.le_of_eq infinite, .inl ⟨_, rfl, ?_⟩⟩
      have half : bits / f.signBit < 2 := Nat.div_lt_of_lt_mul (Nat.mul_comm _ _ ▸ small)
      rw [infinite] at whole
      generalize bits / f.signBit = sign at half whole
      rcases (show sign = 0 ∨ sign = 1 by omega) with rfl | rfl
      · simpa using whole.symm
      · simpa using whole.symm
    · exact .inl ⟨rfl, by omega⟩

theorem floatNode_of_special {f : Format} {bits : Nat} {text : String}
    (special : specialText (f.value bits) = some text)
    : floatNode f bits = .string text := by
  unfold floatNode
  split
  · rename_i other same
    cases special.symm.trans same
    rfl
  · rename_i finite
    cases special.symm.trans finite

theorem floatNode_of_finite {f : Format} {bits : Nat} (finite : specialText (f.value bits) = none)
    : floatNode f bits = .number ⟨(floatText f bits).toList, isNumeral_floatText finite⟩ := by
  unfold floatNode
  split
  · rename_i special
    cases finite.symm.trans special
  · rfl

/-- What is written for a float is a number with its text, or the word for it between quotes. -/
theorem reads_floatNode (f : Format) (bits : Nat) (type : String)
    : Reads (fun r => r.numericText type) (floatNode f bits)
        (some ((specialText (f.value bits)).getD (floatText f bits))) := by
  cases special : specialText (f.value bits) with
  | some text =>
      rw [floatNode_of_special special]
      exact reads_numericText_string type text
  | none =>
      rw [floatNode_of_finite special]
      have read := reads_numericText_number type
        ⟨(floatText f bits).toList, isNumeral_floatText special⟩
      rwa [String.ofList_toList] at read

theorem canonical_float {bits : UInt32} (number : ¬single.infinity < bits.toNat % single.signBit)
    : (Scalar.float bits).canonical = .float bits := by
  have other : floatIsNaN bits = false := decide_eq_false number
  rw [Scalar.canonical, other, if_neg Bool.false_ne_true]

theorem canonical_double {bits : UInt64} (number : ¬double.infinity < bits.toNat % double.signBit)
    : (Scalar.double bits).canonical = .double bits := by
  have other : doubleIsNaN bits = false := decide_eq_false number
  rw [Scalar.canonical, other, if_neg Bool.false_ne_true]

/-- A `float` is read with its bits, or with those that stand for what is no number. -/
theorem reads_floatNode_single {bits : UInt32} (back : (Scalar.float bits).ReadsBack)
    : ∃ v, Reads Reader.float (floatNode single bits.toNat) v
        ∧ (Scalar.float bits).canonical = .float v := by
  have spelled := reads_floatNode single bits.toNat "float32"
  rcases value_cases single (show bits.toNat < 2 * single.signBit from bits.toNat_lt) with
    ⟨value, nan⟩ | ⟨number, ⟨negative, value, same⟩ | finite⟩
  · have text : Reader.doubleOfText "NaN" = .ok double.quietNaN := rfl
    have other : floatIsNaN bits = true := decide_eq_true nan
    rw [value] at spelled
    refine ⟨_, reads_float spelled text (by decide), ?_⟩
    rw [Scalar.canonical, other, if_pos rfl]
    rfl
  · have pattern : UInt32.ofNat ((if negative then single.signBit else 0) + single.infinity)
      = bits :=
      by rw [← same, UInt32.ofNat_toNat]
    rw [value] at spelled
    refine ⟨bits, ?_, canonical_float (Nat.not_lt.mpr number)⟩
    rw [← pattern] at spelled ⊢
    cases negative with
    | false =>
        have text : Reader.doubleOfText "Infinity" = .ok double.infinity := rfl
        exact reads_float spelled text (by decide)
    | true =>
        have text : Reader.doubleOfText "-Infinity" = .ok (double.signBit + double.infinity) := rfl
        exact reads_float spelled text (by decide)
  · obtain ⟨wide, value, inside, narrow⟩ := back finite
    rw [finite] at spelled
    have read := reads_float spelled value inside
    rw [narrow, UInt32.ofNat_toNat] at read
    exact ⟨bits, read, canonical_float (Nat.not_lt.mpr number)⟩

/-- A `double` is read with its bits, or with those that stand for what is no number. -/
theorem reads_floatNode_double {bits : UInt64} (back : (Scalar.double bits).ReadsBack)
    : ∃ v, Reads Reader.double (floatNode double bits.toNat) v
        ∧ (Scalar.double bits).canonical = .double v := by
  have spelled := reads_floatNode double bits.toNat "float64"
  rcases value_cases double (show bits.toNat < 2 * double.signBit from bits.toNat_lt) with
    ⟨value, nan⟩ | ⟨number, ⟨negative, value, same⟩ | finite⟩
  · have text : Reader.doubleOfText "NaN" = .ok double.quietNaN := rfl
    have other : doubleIsNaN bits = true := decide_eq_true nan
    rw [value] at spelled
    refine ⟨_, reads_double spelled text, ?_⟩
    rw [Scalar.canonical, other, if_pos rfl]
  · have pattern : UInt64.ofNat ((if negative then double.signBit else 0) + double.infinity)
      = bits :=
      by rw [← same, UInt64.ofNat_toNat]
    rw [value] at spelled
    refine ⟨bits, ?_, canonical_double (Nat.not_lt.mpr number)⟩
    rw [← pattern] at spelled ⊢
    cases negative with
    | false =>
        have text : Reader.doubleOfText "Infinity" = .ok double.infinity := rfl
        exact reads_double spelled text
    | true =>
        have text : Reader.doubleOfText "-Infinity" = .ok (double.signBit + double.infinity) := rfl
        exact reads_double spelled text
  · rw [finite] at spelled
    have read := reads_double spelled (back finite)
    rw [UInt64.ofNat_toNat] at read
    exact ⟨bits, read, canonical_double (Nat.not_lt.mpr number)⟩

-----------------------------------------------------------------------------------------
-- Scalars of a type
-----------------------------------------------------------------------------------------

theorem Reads.map {α β : Type} {read : Reader → α × Reader} {n : Node} {v : α} (h : Reads read n v)
    (f : α → β)
    : Reads (fun r => (f (read r).1, (read r).2)) n (f v) := by
  intro r more faces
  simp only [h r more faces]

theorem Reads.boundedBy {α : Type} {read : Reader → α × Reader} {n : Node} {v : α}
    (h : Reads read n v) {capacity : Option Nat} (length : α → Nat) (empty : α)
    (fits : withinCapacity capacity (length v))
    : Reads (fun r => Json.boundedBy capacity length empty (read r)) n v := by
  intro r more faces
  simp only [Json.boundedBy, h r more faces, fits, if_true]

/-- A scalar is read from what is written for it, by cases on its type. -/
theorem reads_scalar {type : ScalarType} {v : Scalar} (typed : v.hasType type)
    (names : type.Legible) (back : v.ReadsBack) (config : Config)
    : Reads (readScalar type) (scalarNode config type v) v.canonical := by
  cases type <;> cases v <;> try cases typed
  case int32.int32 v | sint32.int32 v | sfixed32.int32 v => exact (reads_int32 v).map Scalar.int32
  case int64.int64 v | sint64.int64 v | sfixed64.int64 v => exact (reads_int64 v).map Scalar.int64
  case uint32.uint32 v | fixed32.uint32 v => exact (reads_uint32 v).map Scalar.uint32
  case uint64.uint64 v | fixed64.uint64 v => exact (reads_uint64 v).map Scalar.uint64
  case bool.bool v => exact (reads_bool v).map Scalar.bool
  case float.float bits =>
      obtain ⟨v, read, same⟩ := reads_floatNode_single back
      rw [same]
      exact read.map Scalar.float
  case double.double bits =>
      obtain ⟨v, read, same⟩ := reads_floatNode_double back
      rw [same]
      exact read.map Scalar.double
  case string.string capacity v =>
      have fits : withinCapacity capacity (utf8 v).length := typed
      exact ((reads_string v).boundedBy (fun v => (utf8 v).length) "" fits).map Scalar.string
  case bytes.bytes capacity v =>
      have fits : withinCapacity capacity v.length := typed
      exact ((reads_bytes v).boundedBy List.length [] fits).map Scalar.bytes
  case enumeration.int32 e v => exact (reads_enumeration names config v).map Scalar.int32

-----------------------------------------------------------------------------------------
-- Keys of maps
-----------------------------------------------------------------------------------------

theorem integerKey_of_text {signed : Bool} {type text : String} {low high n : Int}
    (value : integerText? signed text = some n) (inside : low ≤ n ∧ n ≤ high)
    : integerKey signed type low high text = .ok n := by
  rw [integerKey, value]
  exact if_pos inside

/-- A key of a map is read from what is written for it, by cases on its type. -/
theorem keyOfText_keyText {type : ScalarType} {key : Scalar} (isKey : type.isKey)
    (typed : key.hasType type)
    : keyOfText type (keyText key) = .ok key := by
  have int32 (v : Int32) : (integerKey true "i32" (-2 ^ 31) (2 ^ 31 - 1) (toString v.toInt)).map
      (fun n => Scalar.int32 (Int32.ofInt n)) = .ok (.int32 v) := by
    rw [integerKey_of_text (integerText?_int _) ⟨v.le_toInt, Int.le_sub_one_of_lt v.toInt_lt⟩]
    exact congrArg (fun v => Except.ok (Scalar.int32 v)) v.ofInt_toInt
  have int64 (v : Int64) : (integerKey true "i64" (-2 ^ 63) (2 ^ 63 - 1) (toString v.toInt)).map
      (fun n => Scalar.int64 (Int64.ofInt n)) = .ok (.int64 v) := by
    rw [integerKey_of_text (integerText?_int _) ⟨v.le_toInt, Int.le_sub_one_of_lt v.toInt_lt⟩]
    exact congrArg (fun v => Except.ok (Scalar.int64 v)) v.ofInt_toInt
  have uint32 (v : UInt32) : (integerKey false "u32" 0 (2 ^ 32 - 1) (toString v.toNat)).map
      (fun n => Scalar.uint32 (UInt32.ofNat n.toNat)) = .ok (.uint32 v) := by
    have small := v.toNat_lt
    rw [integerKey_of_text (integerText?_nat _) (by omega)]
    exact congrArg (fun v => Except.ok (Scalar.uint32 v)) UInt32.ofNat_toNat
  have uint64 (v : UInt64) : (integerKey false "u64" 0 (2 ^ 64 - 1) (toString v.toNat)).map
      (fun n => Scalar.uint64 (UInt64.ofNat n.toNat)) = .ok (.uint64 v) := by
    have small := v.toNat_lt
    rw [integerKey_of_text (integerText?_nat _) (by omega)]
    exact congrArg (fun v => Except.ok (Scalar.uint64 v)) UInt64.ofNat_toNat
  cases type <;> cases key <;> try cases typed
  case int32.int32 v | sint32.int32 v | sfixed32.int32 v => exact int32 v
  case int64.int64 v | sint64.int64 v | sfixed64.int64 v => exact int64 v
  case uint32.uint32 v | fixed32.uint32 v => exact uint32 v
  case uint64.uint64 v | fixed64.uint64 v => exact uint64 v
  case bool.bool v => cases v <;> rfl
  case string.string capacity v =>
      cases capacity with
      | none => rfl
      | some limit => exact if_pos (of_decide_eq_true typed)
  all_goals cases isKey

end Json

end Protobuf
