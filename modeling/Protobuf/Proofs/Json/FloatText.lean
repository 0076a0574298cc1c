import Protobuf.Proofs.Json.NumberValue
import Protobuf.Proofs.Json.Places
import Protobuf.Proofs.Json.Scalars
import Protobuf.Proofs.Json.Writing
import Protobuf.Proofs.Number.Narrowing
import Protobuf.Proofs.Number.Shortest

/-! The texts of floats lead back to them.  A `double` is read from its text; a `float` is read as a
`double` first, which loses two magnitudes: the greatest, whose text stands for more than its value,
and one whose text rounds to a point halfway to the next.
-/

namespace Protobuf.Json

open Number Text

-----------------------------------------------------------------------------------------
-- Bits
-----------------------------------------------------------------------------------------

/-- The bits of a magnitude with a sign. -/
def signedBits (f : Format) (negative : Bool) (magnitude : Nat) : Nat :=
  (if negative then f.signBit else 0) + magnitude

theorem infinity_lt_signBit (f : Format)
    : f.infinity < f.signBit := by
  rw [Format.infinity, Format.signBit, Nat.pow_add, Nat.mul_comm]
  exact Nat.mul_lt_mul_of_pos_left (Nat.sub_lt (Nat.two_pow_pos _) Nat.one_pos) (Nat.two_pow_pos _)

/-- Sign and magnitude of bits that are put together from them. -/
theorem signedBits_parts {f : Format} {magnitude : Nat} (negative : Bool)
    (bounded : magnitude < f.signBit)
    : signedBits f negative magnitude % f.signBit = magnitude
      ∧ (signedBits f negative magnitude / f.signBit % 2 = 1 ↔ negative = true) := by
  have positive : 0 < f.signBit := Nat.two_pow_pos _
  cases negative with
  | false =>
      simp [signedBits, Nat.mod_eq_of_lt bounded, Nat.div_eq_of_lt bounded]
  | true =>
      simp [signedBits, Nat.mod_eq_of_lt bounded, Nat.div_eq_of_lt bounded, positive]

/-- Bits are put together from their sign and magnitude. -/
theorem signedBits_of_lt {f : Format} {bits : Nat} (small : bits < 2 * f.signBit)
    : signedBits f (bits / f.signBit % 2 = 1) (bits % f.signBit) = bits := by
  have half : bits / f.signBit < 2 := Nat.div_lt_of_lt_mul (Nat.mul_comm _ _ ▸ small)
  have whole := Nat.div_add_mod bits f.signBit
  rw [signedBits]
  generalize bits / f.signBit = sign at half whole
  rcases (show sign = 0 ∨ sign = 1 by omega) with rfl | rfl
  · simpa using whole
  · simpa using whole

theorem value_signedBits {f : Format} {magnitude : Nat} (negative : Bool)
    (finite : magnitude < f.infinity)
    : f.value (signedBits f negative magnitude)
      = .finite negative (f.magnitude magnitude).1 (f.magnitude magnitude).2 := by
  obtain ⟨rest, sign⟩ :=
    signedBits_parts negative (Nat.lt_trans finite (infinity_lt_signBit f))
  simp only [Format.value, rest, if_pos finite, sign]
  simp

/-- Finite bits have a finite magnitude. -/
theorem exists_signedBits {f : Format} {bits : Nat} (small : bits < 2 * f.signBit)
    (finite : specialText (f.value bits) = none)
    : ∃ negative magnitude, bits = signedBits f negative magnitude ∧ magnitude < f.infinity := by
  refine ⟨_, _, (signedBits_of_lt small).symm, ?_⟩
  simp only [Format.value] at finite
  split at finite
  · assumption
  · split at finite
    · generalize decide (bits / f.signBit % 2 = 1) = negative at finite
      cases negative <;> cases finite
    · cases finite

-----------------------------------------------------------------------------------------
-- Texts
-----------------------------------------------------------------------------------------

/-- The decimal whose notation is the text of a magnitude. -/
def textDecimal (f : Format) (negative : Bool) (magnitude : Nat) : Decimal :=
  shortest f negative (f.magnitude magnitude).1 (f.magnitude magnitude).2

theorem textDecimal_zero (f : Format) (negative : Bool)
    : textDecimal f negative 0 = ⟨negative, 0, 0⟩ := by
  have zero : (f.magnitude 0).1 = 0 := by simp [Format.magnitude]
  rw [textDecimal, shortest, if_pos zero]

/-- The text of a magnitude stands for a decimal that rounds to it. -/
theorem textDecimal_spec {f : Format} (moderate : f.IsModerate) (negative : Bool) {magnitude : Nat}
    (finite : magnitude < f.infinity)
    : (textDecimal f negative magnitude).negative = negative
      ∧ f.IsNearest (textDecimal f negative magnitude).size magnitude := by
  cases magnitude with
  | zero =>
      rw [textDecimal_zero]
      refine ⟨rfl, ?_⟩
      have nearest := f.isNearest_real (Nat.zero_le f.infinity)
      rwa [f.real_zero, show (0 : ℚ) = (⟨negative, 0, 0⟩ : Decimal).size by simp [Decimal.size]]
        at nearest
  | succ pattern =>
      obtain ⟨sign, nearest, -⟩ := shortest_spec moderate negative finite
      exact ⟨sign, nearest⟩

/-- Powers of ten that are decided by the number of digits belong to no finite magnitude. -/
theorem leadingExponent_textDecimal {f : Format} (moderate : f.IsModerate) (negative : Bool)
    {magnitude : Nat} (finite : magnitude < f.infinity)
    : -400 ≤ (textDecimal f negative magnitude).leadingExponent
      ∧ (textDecimal f negative magnitude).leadingExponent ≤ 400 := by
  cases magnitude with
  | zero =>
      have zero : (⟨negative, 0, 0⟩ : Decimal).leadingExponent = 0 := by
        simp [Decimal.leadingExponent, Decimal.digits]
      rw [textDecimal_zero, zero]
      exact ⟨by decide, by decide⟩
  | succ pattern =>
      have nearest := (textDecimal_spec moderate negative finite).2
      have read := Decimal.isNearest_toMagnitude moderate (textDecimal f negative (pattern + 1))
      have same := read.unique nearest
      unfold Decimal.toMagnitude at same
      split at same
      · cases same
      split at same
      · exact absurd same (Nat.ne_of_gt finite)
      split at same
      · cases same
      · omega

/-- The text of a magnitude is made from its decimal in scientific notation. -/
theorem formatFloat_textDecimal {f : Format} (moderate : f.IsModerate) (negative : Bool)
    {magnitude : Nat} (finite : magnitude < f.infinity)
    : formatFloat (textDecimal f negative magnitude).scientific
        = some (textDecimal f negative magnitude).jsonNotation := by
  have bounds := leadingExponent_textDecimal moderate negative finite
  rw [formatFloat_scientific, if_pos (by omega)]

theorem floatText_signedBits {f : Format} (moderate : f.IsModerate) {magnitude : Nat}
    (negative : Bool) (finite : magnitude < f.infinity)
    : floatText f (signedBits f negative magnitude)
      = String.ofList (textDecimal f negative magnitude).jsonNotation := by
  have written := formatFloat_textDecimal moderate negative finite
  rw [textDecimal] at written ⊢
  simp only [floatText, value_signedBits negative finite, written, Option.getD_some]

/-- A number text is read as the nearest `double` of what it denotes, if that is finite. -/
theorem doubleOfText_of_denotes {text : String} (legal : IsNumeral text.toList) {negative : Bool}
    {size : ℚ} (denotes : Denotes text.toList negative size) {magnitude : Nat}
    (nearest : double.IsNearest size magnitude)
    : Reader.doubleOfText text = if magnitude < double.infinity
        then .ok (signedBits double negative magnitude) else .error (.outOfRange text) := by
  have number := isNumber_of_isNumeral legal
  have other (word : String) (wrong : isNumber word.toList = false) : text ≠ word := by
    rintro rfl
    cases wrong.symm.trans number
  obtain ⟨sign, value⟩ := decimalOfNumber_of_denotes denotes
  have read := Decimal.isNearest_toMagnitude isModerate_double (decimalOfNumber text.toList)
  rw [value] at read
  rw [Reader.doubleOfText, if_neg (other "NaN" (by decide)),
    if_neg (other "Infinity" (by decide)), if_neg (other "-Infinity" (by decide)), number]
  simp only [Decimal.toBits, sign, read.unique nearest, Bool.not_true, Bool.false_eq_true, if_false]
  rfl

/-- The text of a magnitude is read as the nearest `double`. -/
theorem doubleOfText_floatText {f : Format} (moderate : f.IsModerate) (negative : Bool)
    {magnitude wide : Nat} (finite : magnitude < f.infinity)
    (nearest : double.IsNearest (textDecimal f negative magnitude).size wide)
    (bounded : wide < double.infinity)
    : Reader.doubleOfText (floatText f (signedBits f negative magnitude))
      = .ok (signedBits double negative wide) := by
  have text := floatText_signedBits moderate negative finite
  have legal : IsNumeral (floatText f (signedBits f negative magnitude)).toList := by
    refine isNumeral_floatText ?_
    rw [value_signedBits negative finite]
    rfl
  have denotes := denotes_jsonNotation (textDecimal f negative magnitude)
  rw [(textDecimal_spec moderate negative finite).1,
    ← String.toList_ofList (l := (textDecimal f negative magnitude).jsonNotation), ← text]
      at denotes
  rw [doubleOfText_of_denotes legal denotes nearest, if_pos bounded]

/-- A `double` is read from its text. -/
theorem readsBack_double (bits : UInt64)
    : (Scalar.double bits).ReadsBack := by
  intro finite
  obtain ⟨negative, magnitude, same, bounded⟩ :=
    exists_signedBits (show bits.toNat < 2 * double.signBit from bits.toNat_lt) finite
  rw [same]
  exact doubleOfText_floatText isModerate_double negative bounded
    (textDecimal_spec isModerate_double negative bounded).2 bounded

-----------------------------------------------------------------------------------------
-- Narrow numbers
-----------------------------------------------------------------------------------------

/-- A finite `double` is rounded to the nearest `float`. -/
theorem narrow_signedBits {wide : Nat} (negative : Bool) (finite : wide < double.infinity)
    {magnitude : Nat} (nearest : single.IsNearest (double.real wide) magnitude)
    : Reader.narrow (signedBits double negative wide) = signedBits single negative magnitude := by
  have number := double.real_eq_magnitude wide
  simp only [Reader.narrow, value_signedBits negative finite]
  rw [signedBits]
  congr 1
  generalize (double.magnitude wide).1 = mantissa at *
  generalize (double.magnitude wide).2 = exponent at *
  split
  · rename_i zero
    rw [number, zero, Nat.cast_zero, zero_mul, ← single.real_zero] at nearest
    exact (single.isNearest_real (Nat.zero_le _)).unique nearest
  · rename_i written
    have rounded := Format.isNearest_ofRatio (f := single) (by decide)
      (Nat.mul_pos (Nat.pos_of_ne_zero written) (Nat.two_pow_pos exponent.toNat))
      (Nat.two_pow_pos (-exponent).toNat)
    have ratio : ((mantissa * 2 ^ exponent.toNat : Nat) : ℚ) / (2 ^ (-exponent).toNat : Nat)
        = double.real wide := by
      rw [number, zpow_eq_toNat_div]
      push_cast
      rw [mul_div_assoc]
    rw [ratio] at rounded
    exact rounded.unique nearest

/-- The greatest finite `float`. -/
def greatestFloat : Nat := 0x7f7fffff

theorem real_largestFloat
    : double.real Reader.largestFloat = single.real greatestFloat := by
  have wide : double.magnitude Reader.largestFloat = ((2 ^ 24 - 1) * 2 ^ 29, 75) := by decide
  have narrow : single.magnitude greatestFloat = (2 ^ 24 - 1, 104) := by decide
  rw [Format.real_eq_magnitude, Format.real_eq_magnitude, wide, narrow]
  norm_num

/-- What is below the greatest `float` is in its range as a `double`. -/
theorem lt_largestFloat {magnitude wide : Nat} (less : magnitude < greatestFloat)
    (nearest : single.IsNearest (double.real wide) magnitude)
    : wide < Reader.largestFloat := by
  have below := nearest.below (Nat.lt_trans less (by decide))
  have next := single.boundary_lt_real magnitude
  have last := single.real_strictMono.monotone (show magnitude + 1 ≤ greatestFloat from less)
  refine double.real_strictMono.lt_iff_lt.mp ?_
  rw [real_largestFloat]
  rcases below with below | ⟨below, -⟩ <;> linarith

/-- The text of a `float` is read as a `double` in its range that is nearest to it. -/
theorem readsBack_signedBits {bits : UInt32} {negative : Bool} {magnitude wide : Nat}
    (same : bits.toNat = signedBits single negative magnitude) (less : magnitude < greatestFloat)
    (nearest : double.IsNearest (textDecimal single negative magnitude).size wide)
    (bounded : wide < double.infinity)
    (narrowed : single.IsNearest (double.real wide) magnitude)
    : (Scalar.float bits).ReadsBack := by
  intro _
  have finite : magnitude < single.infinity := Nat.lt_trans less (by decide)
  have rest : signedBits double negative wide % double.signBit = wide :=
    (signedBits_parts negative (Nat.lt_trans bounded (infinity_lt_signBit double))).1
  refine ⟨signedBits double negative wide, ?_, ?_, ?_⟩
  · rw [same]
    exact doubleOfText_floatText isModerate_single negative finite nearest bounded
  · rw [rest]
    exact fun outside => Nat.lt_asymm outside.1 (lt_largestFloat less narrowed)
  · rw [same]
    exact narrow_signedBits negative bounded narrowed

/-- A `float` is read from its text, but for two magnitudes. -/
theorem readsBack_float {bits : UInt32} (notGreatest : bits.toNat % single.signBit ≠ greatestFloat)
    (notRounded : bits.toNat % single.signBit ≠ doubleRounded)
    : (Scalar.float bits).ReadsBack := by
  intro finite
  obtain ⟨negative, magnitude, same, bounded⟩ :=
    exists_signedBits (show bits.toNat < 2 * single.signBit from bits.toNat_lt) finite
  have rest := (signedBits_parts negative (Nat.lt_trans bounded (infinity_lt_signBit single))).1
  rw [same, rest] at notGreatest notRounded
  have less : magnitude < greatestFloat := by
    rw [show single.infinity = greatestFloat + 1 by decide] at bounded
    omega
  obtain ⟨-, near⟩ := textDecimal_spec isModerate_single negative bounded
  have nearest := Decimal.isNearest_toMagnitude isModerate_double
    (textDecimal single negative magnitude)
  have narrowed
      : (textDecimal single negative magnitude).toMagnitude double < double.infinity
        ∧ single.IsNearest (double.real
          ((textDecimal single negative magnitude).toMagnitude double))
          magnitude := by
    cases magnitude with
    | zero =>
        have none : (⟨negative, 0, 0⟩ : Decimal).toMagnitude double = 0 := if_pos rfl
        rw [textDecimal_zero, none]
        refine ⟨by decide, ?_⟩
        have zero := single.isNearest_real (Nat.zero_le single.infinity)
        rwa [single.real_zero, ← double.real_zero] at zero
    | succ pattern =>
        obtain ⟨-, -, step⟩ := shortest_spec isModerate_single negative bounded
        have written : (textDecimal single negative (pattern + 1)).coefficient ≠ 0 := by
          intro none
          have zero := single.isNearest_real (Nat.zero_le single.infinity)
          rw [Decimal.size, none, Nat.cast_zero, zero_mul, ← single.real_zero] at near
          exact absurd (zero.unique near) (Nat.succ_ne_zero pattern).symm
        exact isNearest_narrow bounded notRounded (Nat.pos_of_ne_zero written) step near nearest
  exact readsBack_signedBits same less nearest narrowed.1 narrowed.2 finite

-----------------------------------------------------------------------------------------
-- Written and read
-----------------------------------------------------------------------------------------

/-- The value is refused for the cause, and the reader stands behind it. -/
def Rejects {α : Type} (read : Reader → α × Reader) (n : Node) (default : α) (cause : Cause)
    : Prop :=
  ∀ r more, r.Faces n more → read r = (default, (r.behind more []).latch cause)

section

variable {α : Type} {write : Writer → Writer} {read : Reader → α × Reader} {v v' : α} {n : Node}

/-- A value is read as one result. -/
theorem Reads.unique (first : Reads read n v) (second : Reads read n v')
    : v = v' := by
  have faces := Reader.faces_ofBytes none n
  exact congrArg Prod.fst ((first _ [] faces).symm.trans (second _ [] faces))

/-- What is refused is not read. -/
theorem Rejects.not_reads {default : α} {cause : Cause} (rejected : Rejects read n default cause)
    : ¬ Reads read n v := by
  intro reads
  have faces := Reader.faces_ofBytes none n
  have faults := congrArg (fun result => result.2.fault)
    ((rejected _ [] faces).symm.trans (reads _ [] faces))
  simp [Reader.latch, Reader.behind, faces.sound] at faults

/-- What the writer writes is one value, and the reader reads it as the result without a fault. -/
def Returns (write : Writer → Writer) (read : Reader → α × Reader) (v : α) : Prop :=
  ∃ n, (∀ w, Spells w (write w) (some n)) ∧ Reads read n v

/-- What is returned is read from the value that is written. -/
theorem Returns.reads (returned : Returns write read v) (spelled : ∀ w, Spells w (write w) (some n))
    : Reads read n v := by
  obtain ⟨other, spelled', reads⟩ := returned
  have same : n.text = other.text := by
    have outputs := congrArg Writer.output
      (Eq.trans (spelled (.ofConfig {} .empty)).symm (spelled' (.ofConfig {} .empty)))
    simpa [Writer.ofConfig] using outputs
  exact fun r more faces => reads r more ⟨faces.sound, same ▸ faces.text, faces.ends⟩

theorem Returns.unique (first : Returns write read v) (second : Returns write read v')
    : v = v' := by
  obtain ⟨_, spelled, reads⟩ := first
  exact reads.unique (second.reads spelled)

end

theorem returns_double {bits : UInt64} (finite : specialText (double.value bits.toNat) = none)
    : Returns (·.double bits) Reader.double bits := by
  refine ⟨floatNode double bits.toNat, fun w => spells_floating w double bits.toNat, ?_⟩
  have spelled := reads_floatNode double bits.toNat "float64"
  rw [finite] at spelled
  have read := reads_double spelled (readsBack_double bits finite)
  rwa [UInt64.ofNat_toNat] at read

section

variable {bits : UInt32} {wide : Nat} (finite : specialText (single.value bits.toNat) = none)
  (text : Reader.doubleOfText (floatText single bits.toNat) = .ok wide)

include finite text

/-- The `float` whose text is read as a `double` of the range comes out as the nearest to it. -/
theorem returns_float
    (inside : ¬(Reader.largestFloat < wide % double.signBit
      ∧ wide % double.signBit < double.infinity))
    : Returns (·.float bits) Reader.float (UInt32.ofNat (Reader.narrow wide)) := by
  refine ⟨floatNode single bits.toNat, fun w => spells_floating w single bits.toNat, ?_⟩
  have spelled := reads_floatNode single bits.toNat "float32"
  rw [finite] at spelled
  exact reads_float spelled text inside

/-- A `float` whose text is read as a `double` beyond the range is refused. -/
theorem rejects_float
    (outside : Reader.largestFloat < wide % double.signBit
      ∧ wide % double.signBit < double.infinity)
    : Rejects Reader.float (floatNode single bits.toNat) 0
        (.invalidValue "float32" (.outOfRange (floatDisplay double wide))) := by
  intro r more h
  have spelled := reads_floatNode single bits.toNat "float32"
  rw [finite] at spelled
  simp only [Reader.float, reads_floating "float32" spelled text r more h, if_pos outside]
  rfl

end

/-- The bits whose texts do not lead back to them: the greatest and the least number, whose texts
stand for more than their values, and the numbers whose text as a `double` is halfway to the next.
-/
def lostFloats : List UInt32 :=
  [0x7f7fffff, 0xff7fffff, 0x15ae43fd, 0x95ae43fd]

theorem not_returns_lostFloats {bits : UInt32} (lost : bits ∈ lostFloats)
    : ¬ Returns (·.float bits) Reader.float bits := by
  have spelled (bits : UInt32) (w : Writer) : Spells w (w.float bits)
    (some (floatNode single bits.toNat)) :=
    spells_floating w single bits.toNat
  simp only [lostFloats, List.mem_cons, List.not_mem_nil, or_false] at lost
  rcases lost with rfl | rfl | rfl | rfl
  · have text : Reader.doubleOfText (floatText single (0x7f7fffff : UInt32).toNat)
        = .ok 0x47efffffe54daff8 := by rfl
    intro returned
    exact (rejects_float (by decide) text (by decide)).not_reads (returned.reads (spelled _))
  · have text : Reader.doubleOfText (floatText single (0xff7fffff : UInt32).toNat)
        = .ok 0xc7efffffe54daff8 := by rfl
    intro returned
    exact (rejects_float (by decide) text (by decide)).not_reads (returned.reads (spelled _))
  · have text : Reader.doubleOfText (floatText single (0x15ae43fd : UInt32).toNat)
        = .ok 0x3ab5c87fb0000000 := by rfl
    intro returned
    exact absurd (returned.unique (returns_float (by decide) text (by decide))) (by decide +kernel)
  · have text : Reader.doubleOfText (floatText single (0x95ae43fd : UInt32).toNat)
        = .ok 0xbab5c87fb0000000 := by rfl
    intro returned
    exact absurd (returned.unique (returns_float (by decide) text (by decide))) (by decide +kernel)

theorem returns_float_of_not_mem {bits : UInt32}
    (finite : specialText (single.value bits.toNat) = none) (kept : bits ∉ lostFloats)
    : Returns (·.float bits) Reader.float bits := by
  have small : bits.toNat < 2 * 2 ^ 31 := bits.toNat_lt
  have other (lost : UInt32) (listed : lost ∈ lostFloats) : bits.toNat ≠ lost.toNat :=
    fun same => kept (UInt32.toNat_inj.mp same ▸ listed)
  have greatest : bits.toNat ≠ 0x7f7fffff := other 0x7f7fffff (by decide)
  have least : bits.toNat ≠ 0xff7fffff := other 0xff7fffff (by decide)
  have rounded : bits.toNat ≠ 0x15ae43fd := other 0x15ae43fd (by decide)
  have rounded' : bits.toNat ≠ 0x95ae43fd := other 0x95ae43fd (by decide)
  have notGreatest : bits.toNat % single.signBit ≠ greatestFloat := by
    change bits.toNat % 2 ^ 31 ≠ 0x7f7fffff
    omega
  have notRounded : bits.toNat % single.signBit ≠ doubleRounded := by
    change bits.toNat % 2 ^ 31 ≠ 0x15ae43fd
    omega
  obtain ⟨wide, text, inside, narrow⟩ := readsBack_float notGreatest notRounded finite
  have returned := returns_float finite text inside
  rwa [narrow, UInt32.ofNat_toNat] at returned

/-- Every finite `double` is read from what is written for it, and of the finite `float` numbers all
but four are.
-/
theorem floats_return {wide : UInt64} {narrow : UInt32}
    (wideFinite : specialText (double.value wide.toNat) = none)
    (narrowFinite : specialText (single.value narrow.toNat) = none)
    : Returns (·.double wide) Reader.double wide
      ∧ (Returns (·.float narrow) Reader.float narrow ↔ narrow ∉ lostFloats) :=
  ⟨returns_double wideFinite,
    fun returned lost => not_returns_lostFloats lost returned,
    returns_float_of_not_mem narrowFinite⟩

theorem floats_return_tenth
    : Returns (·.double 0x3fb999999999999a) Reader.double 0x3fb999999999999a
      ∧ (Returns (·.float 0x3dcccccd) Reader.float 0x3dcccccd ↔ 0x3dcccccd ∉ lostFloats) :=
  floats_return (by decide) (by decide)

/-- The greatest `float` is refused where its text is read, and another one is read as the next. -/
theorem floats_do_not_return
    : let written (bits : UInt32) := ((Writer.ofConfig {} .empty).float bits).output
      let read (text : String) := (Reader.ofBytes (utf8 text) none).float
      specialText (single.value 0x7f7fffff) = none ∧ written 0x7f7fffff = "3.4028235e+38"
        ∧ (read "3.4028235e+38").2.fault = some ⟨.unmarshal, "", .invalidValue "float32"
          (.outOfRange "340282350000000000000000000000000000000")⟩
        ∧ specialText (single.value 0x15ae43fd) = none ∧ written 0x15ae43fd = "7.038531e-26"
        ∧ (read "7.038531e-26").1 = 0x15ae43fe ∧ (read "7.038531e-26").2.fault = none := by
  decide +kernel

end Protobuf.Json
