import Mathlib.Algebra.Order.Field.Power
import Mathlib.Tactic.FieldSimp
import Mathlib.Tactic.Ring
import Protobuf.Proofs.Time.Fraction

/-! Which texts denote spans of time, and how spans are written.  A text is taken apart into its
sign, its whole seconds and its decimals; the span that is read has exactly its value, and a span is
written with as few groups of decimals as tell it.
-/

namespace Protobuf.Time

open Text

-----------------------------------------------------------------------------------------
-- Texts in their parts
-----------------------------------------------------------------------------------------

/-- The text of a span in its parts: a sign, whole seconds, and a fraction of up to nine digits.
The whole seconds may be left out in front of a fraction.
-/
structure SpanText where
  negative : Bool
  whole : List Char
  fraction : Option (List Char)
  wholeDigits : ∀ c ∈ whole, c.isDigit
  legal : IsFraction fraction
  short : (fraction.getD []).length ≤ 9
  present : fraction = none → whole ≠ []

namespace SpanText

/-- The digits behind the point. -/
def decimals (t : SpanText) : List Char :=
  t.fraction.getD []

/-- The text without its sign and its suffix. -/
def body (t : SpanText) : List Char :=
  t.whole ++ pointed t.fraction

/-- The text that the parts make up. -/
def chars (t : SpanText) : List Char :=
  (if t.negative then ['-'] else []) ++ t.body ++ ['s']

/-- The number of seconds that the text spells. -/
def value (t : SpanText) : ℚ :=
  (if t.negative then -1 else 1)
    * (decimalValue t.whole + decimalValue t.decimals / 10 ^ t.decimals.length)

/-- The whole seconds are in the range of spans. -/
def Bounded (t : SpanText) : Prop :=
  decimalValue t.whole ≤ 315576000000

/-- The span that the text denotes. -/
def span (t : SpanText) : Duration :=
  let seconds : Int := decimalValue t.whole
  let nanos : Int := nanosOfDigits t.decimals
  if t.negative then ⟨Int64.ofInt (-seconds), Int32.ofInt (-nanos)⟩
  else ⟨Int64.ofInt seconds, Int32.ofInt nanos⟩

end SpanText

/-- What can be written: seconds and nanoseconds in their ranges and not of different signs. -/
structure Duration.Proper (d : Duration) : Prop where
  seconds : |d.seconds.toInt| ≤ 315576000000
  nanos : |d.nanos.toInt| < 1000000000
  signs : ¬(0 < d.seconds.toInt ∧ d.nanos.toInt < 0) ∧ ¬(d.seconds.toInt < 0 ∧ 0 < d.nanos.toInt)

-----------------------------------------------------------------------------------------
-- The value of a text
-----------------------------------------------------------------------------------------

namespace SpanText

variable {t : SpanText}

/-- The parts of the span are those of the text, with its sign. -/
theorem toInt_span (bounded : t.Bounded)
    : t.span.seconds.toInt = (if t.negative then -1 else 1) * (decimalValue t.whole : Int)
      ∧ t.span.nanos.toInt = (if t.negative then -1 else 1) * (nanosOfDigits t.decimals : Int) := by
  have small : nanosOfDigits t.decimals < 1000000000 :=
    nanosOfDigits_lt (isDigit_of_isFraction t.legal) t.short
  have large : decimalValue t.whole ≤ 315576000000 := bounded
  have seconds (n : Int) (low : -315576000000 ≤ n) (high : n ≤ 315576000000)
      : (Int64.ofInt n).toInt = n :=
    Int64.toInt_ofInt_of_le (by omega) (by omega)
  have nanos (n : Int) (low : -1000000000 < n) (high : n < 1000000000) : (Int32.ofInt n).toInt
    = n :=
    Int32.toInt_ofInt_of_le (by omega) (by omega)
  unfold span
  cases t.negative with
  | true =>
      simp only [if_true]
      rw [seconds _ (by omega) (by omega), nanos _ (by omega) (by omega)]
      omega
  | false =>
      simp only [Bool.false_eq_true, if_false]
      rw [seconds _ (by omega) (by omega), nanos _ (by omega) (by omega)]
      omega

theorem proper_span (bounded : t.Bounded)
    : t.span.Proper := by
  obtain ⟨seconds, nanos⟩ := toInt_span bounded
  have small : nanosOfDigits t.decimals < 1000000000 :=
    nanosOfDigits_lt (isDigit_of_isFraction t.legal) t.short
  have large : decimalValue t.whole ≤ 315576000000 := bounded
  constructor
  · rw [seconds, abs_le]
    split <;> omega
  · rw [nanos, abs_lt]
    split <;> omega
  · rw [seconds, nanos]
    split <;> omega

/-- The nanoseconds of the span add up to the value of the text. -/
theorem value_eq (bounded : t.Bounded)
    : (t.span.seconds.toInt : ℚ) * 10 ^ 9 + t.span.nanos.toInt = t.value * 10 ^ 9 := by
  obtain ⟨seconds, nanos⟩ := toInt_span bounded
  have whole : (10 : ℚ) ^ 9 = 10 ^ t.decimals.length * 10 ^ (9 - t.decimals.length) := by
    rw [← pow_add, Nat.add_sub_cancel' (show t.decimals.length ≤ 9 from t.short)]
  have digits : (nanosOfDigits t.decimals : ℚ)
      = decimalValue t.decimals / 10 ^ t.decimals.length * 10 ^ 9 := by
    rw [whole, nanosOfDigits_eq]
    push_cast
    field_simp
  rw [seconds, nanos, value]
  push_cast
  rw [digits]
  ring

-----------------------------------------------------------------------------------------
-- Reading
-----------------------------------------------------------------------------------------

theorem stripSuffix_eq_some {chars body : List Char}
    : Duration.stripSuffix chars = some body ↔ chars = body ++ ['s'] := by
  constructor
  · intro h
    unfold Duration.stripSuffix at h
    split at h
    · rename_i last
      cases h
      exact (List.dropLast_append_getLast? _ last).symm
    · cases h
  · rintro rfl
    simp [Duration.stripSuffix]

/-- Digits and a fraction are told apart by the point. -/
theorem splitPoint_pointed {whole : List Char} (digits : ∀ c ∈ whole, c.isDigit)
    {fraction : Option (List Char)} (legal : IsFraction fraction)
    : Duration.splitPoint (whole ++ pointed fraction) = some (whole, fraction.getD []) := by
  have inside : ∀ c ∈ whole, c != '.' := by
    intro c listed
    have digit := digits c listed
    rw [bne_iff_ne]
    rintro rfl
    cases digit
  have front : (whole ++ pointed fraction).takeWhile (· != '.')
      = whole ++ (pointed fraction).takeWhile (· != '.') := List.takeWhile_append_of_pos inside
  have behind : (whole ++ pointed fraction).dropWhile (· != '.')
      = (pointed fraction).dropWhile (· != '.') := List.dropWhile_append_of_pos inside
  rw [Duration.splitPoint, front, behind]
  cases fraction with
  | none => simp [pointed]
  | some decimals =>
      obtain ⟨c, others, rfl⟩ := List.exists_cons_of_ne_nil (legal decimals rfl).1
      simp [pointed]

/-- What was told apart by the first point makes up the text. -/
theorem eq_of_splitPoint {body whole decimals : List Char}
    (h : Duration.splitPoint body = some (whole, decimals))
    : ∃ fraction, body = whole ++ pointed fraction ∧ decimals = fraction.getD []
      ∧ ∀ digits ∈ fraction, digits ≠ [] := by
  have parts : body.takeWhile (· != '.') ++ body.dropWhile (· != '.') = body :=
    List.takeWhile_append_dropWhile
  have point : ∀ c ∈ (body.dropWhile (· != '.')).head?, c = '.' := by
    intro c first
    have stopped := List.head?_dropWhile_not (· != '.') body
    rw [first] at stopped
    simpa using stopped
  unfold Duration.splitPoint at h
  split at h
  · rename_i nothing
    cases h
    rw [nothing] at parts
    exact ⟨none, parts.symm, rfl, nofun⟩
  · cases h
  · rename_i c others written behind
    cases h
    cases point c (by rw [behind]; rfl)
    refine ⟨some decimals, ?_, rfl, ?_⟩
    · rw [pointed, ← behind, parts]
    · rintro _ ⟨⟩
      exact written

/-- The sign is told from the rest of the text, which begins with a digit or a point. -/
theorem head?_body_ne (t : SpanText)
    : t.body.head? ≠ some '-' := by
  cases whole : t.whole with
  | cons c others =>
      have digit := t.wholeDigits c (by simp [whole])
      rw [body, whole, List.cons_append, List.head?_cons, ne_eq, Option.some.injEq]
      rintro rfl
      cases digit
  | nil =>
      cases fraction : t.fraction with
      | none => exact absurd whole (t.present fraction)
      | some digits => simp [body, whole, fraction, pointed]

/-- There are digits before the point or behind it. -/
theorem isEmpty_decimals (t : SpanText) (empty : t.whole.isEmpty)
    : t.decimals.isEmpty = false := by
  cases fraction : t.fraction with
  | none => exact absurd (List.isEmpty_iff.mp empty) (t.present fraction)
  | some digits =>
      rw [decimals, fraction, Option.getD_some, List.isEmpty_eq_false_iff]
      exact (t.legal digits fraction).1

/-- A text is read as its span unless its whole seconds are too many, which has one cause if they
are a 64-bit number and another if they are not.
-/
theorem ofText_chars (t : SpanText)
    : Duration.ofText (String.ofList t.chars)
        = if Int64.maxValue.toInt < decimalValue t.whole then
            .error (.notDuration (String.ofList t.chars))
          else if maxDurationSeconds < decimalValue t.whole then
            .error (.textOutOfRange (String.ofList t.chars))
          else .ok t.span := by
  have split : Duration.splitPoint t.body = some (t.whole, t.decimals) :=
    splitPoint_pointed t.wholeDigits t.legal
  have behind : t.decimals.all Char.isDigit := List.all_eq_true.mpr (isDigit_of_isFraction t.legal)
  have legal : ((t.whole.isEmpty && t.decimals.isEmpty) || !t.whole.all Char.isDigit
      || !t.decimals.all Char.isDigit) = false := by
    rw [List.all_eq_true.mpr t.wholeDigits, behind]
    cases empty : t.whole.isEmpty with
    | true => rw [t.isEmpty_decimals empty]; rfl
    | false => rfl
  have short : ¬9 < t.decimals.length := Nat.not_lt.mpr t.short
  have stripped : Duration.stripSuffix t.chars
    = some ((if t.negative then ['-'] else []) ++ t.body) :=
    stripSuffix_eq_some.mpr rfl
  rw [Duration.ofText, String.toList_ofList, stripped]
  cases sign : t.negative with
  | true =>
      simp only [if_true, List.cons_append, List.nil_append, List.head?_cons, List.tail_cons, split,
        legal, Bool.false_eq_true, if_false, short, span, sign]
  | false =>
      simp only [Bool.false_eq_true, if_false, List.nil_append, t.head?_body_ne, split, legal,
        short, span, sign]

theorem ofText_chars_eq_ok {d : Duration}
    : Duration.ofText (String.ofList t.chars) = .ok d ↔ t.Bounded ∧ t.span = d := by
  have limit : Int64.maxValue.toInt = 9223372036854775807 := rfl
  have most : maxDurationSeconds = 315576000000 := rfl
  rw [ofText_chars, Bounded]
  split
  · rename_i large
    exact ⟨nofun, fun h => absurd h.1 (by omega)⟩
  · split
    · rename_i large
      exact ⟨nofun, fun h => absurd h.1 (by omega)⟩
    · rename_i small
      exact ⟨fun h => ⟨by omega, Except.ok.inj h⟩, fun h => congrArg Except.ok h.2⟩

/-- What is read as a span is a text in range. -/
theorem exists_of_ofText {text : String} {d : Duration} (h : Duration.ofText text = .ok d)
    : ∃ t : SpanText, text.toList = t.chars ∧ t.Bounded := by
  unfold Duration.ofText at h
  split at h
  · cases h
  rename_i signed stripped
  rw [stripSuffix_eq_some] at stripped
  dsimp only at h
  generalize rest : (if signed.head? = some '-' then signed.tail else signed) = unsigned at h
  have front : (if decide (signed.head? = some '-') then ['-'] else []) ++ unsigned = signed := by
    rw [← rest]
    cases signed with
    | nil => simp
    | cons c others => by_cases minus : c = '-' <;> simp [minus]
  split at h
  · cases h
  rename_i whole decimals split
  obtain ⟨fraction, parts, rfl, written⟩ := eq_of_splitPoint split
  split at h
  · cases h
  rename_i legal
  split at h
  · cases h
  rename_i short
  split at h
  · cases h
  split at h
  · cases h
  rename_i inside
  simp only [Bool.or_eq_true, Bool.and_eq_true, Bool.not_eq_true', not_or, not_and,
    Bool.not_eq_false, List.all_eq_true, List.isEmpty_iff] at legal
  obtain ⟨⟨present, wholeDigits⟩, digits⟩ := legal
  refine ⟨⟨decide (signed.head? = some '-'), whole, fraction, wholeDigits, ?_, Nat.not_lt.mp short,
    ?_⟩, ?_, ?_⟩
  · rintro behind rfl
    exact ⟨written behind rfl, digits⟩
  · rintro rfl empty
    exact present empty rfl
  · rw [stripped, chars, body, ← parts, front]
  · change decimalValue whole ≤ 315576000000
    simp only [maxDurationSeconds] at inside
    omega

-----------------------------------------------------------------------------------------
-- Writing
-----------------------------------------------------------------------------------------

/-- A proper span is written as a text that denotes it. -/
theorem exists_of_proper {d : Duration} (proper : d.Proper)
    : ∃ t : SpanText, d.text = .ok (String.ofList t.chars) ∧ t.Bounded ∧ t.span = d
      ∧ ShowsNanos t.decimals d.nanos.toInt.natAbs := by
  obtain ⟨range, parts, signs⟩ := proper
  rw [abs_le] at range
  rw [abs_lt] at parts
  obtain ⟨fraction, spelled, legal, shows⟩ :=
    exists_fraction (show d.nanos.toInt.natAbs < 1000000000 by omega)
  have digits : ∀ c ∈ Nat.toDigits 10 d.seconds.toInt.natAbs, c.isDigit :=
    fun _ listed => Nat.isDigit_of_mem_toDigits (by decide) (by decide) listed
  have short : (fraction.getD []).length ≤ 9 := by
    have places := shows.places
    simp only [List.mem_cons, List.not_mem_nil, or_false] at places
    omega
  refine ⟨⟨decide (d.seconds.toInt < 0 ∨ d.nanos.toInt < 0), _, fraction, digits, legal, short,
    fun _ => Nat.toDigits_ne_nil⟩, ?_, ?_, ?_, shows⟩
  · have inside : ¬(d.seconds.toInt < -maxDurationSeconds
      ∨ maxDurationSeconds < d.seconds.toInt) := by
      simp only [maxDurationSeconds]
      omega
    have below : ¬(d.nanos.toInt ≤ -nanosPerSecond ∨ nanosPerSecond ≤ d.nanos.toInt) := by
      simp only [nanosPerSecond]
      omega
    have alike : ¬((0 < d.seconds.toInt ∧ d.nanos.toInt < 0)
      ∨ d.seconds.toInt < 0 ∧ 0 < d.nanos.toInt) := by
      omega
    simp only [Duration.text, inside, below, alike, if_false, toList_toString_nat, spelled, chars,
      body, decide_eq_true_eq, List.append_assoc]
  · change decimalValue (Nat.toDigits 10 _) ≤ _
    rw [decimalValue_toDigits]
    omega
  · simp only [span, decimals, decimalValue_toDigits, shows.exact, decide_eq_true_eq]
    split
    · rw [show -(d.seconds.toInt.natAbs : Int) = d.seconds.toInt by omega,
        show -(d.nanos.toInt.natAbs : Int)
          = d.nanos.toInt by omega, Int64.ofInt_toInt, Int32.ofInt_toInt]
    · rw [show (d.seconds.toInt.natAbs : Int) = d.seconds.toInt by omega,
        show (d.nanos.toInt.natAbs : Int)
          = d.nanos.toInt by omega, Int64.ofInt_toInt, Int32.ofInt_toInt]

end SpanText

namespace Duration

/-- Nothing but proper spans is written. -/
theorem proper_of_text {d : Duration} {text : String} (written : d.text = .ok text)
    : d.Proper := by
  unfold Duration.text at written
  dsimp only at written
  split at written
  · cases written
  rename_i range
  split at written
  · cases written
  rename_i parts
  split at written
  · cases written
  rename_i signs
  simp only [maxDurationSeconds] at range
  simp only [nanosPerSecond] at parts
  constructor
  · rw [abs_le]
    omega
  · rw [abs_lt]
    omega
  · omega

/-- A span is read from its text. -/
theorem ofText_text {d : Duration} {text : String} (written : d.text = .ok text)
    : ofText text = .ok d := by
  obtain ⟨t, same, bounded, denoted, -⟩ := SpanText.exists_of_proper (proper_of_text written)
  cases same.symm.trans written
  exact SpanText.ofText_chars_eq_ok.mpr ⟨bounded, denoted⟩

/-- The texts that are read as spans are those with whole seconds in range, and the span has the
value of its text.  The spans that are written are the proper ones, with as few groups of decimals
as tell the nanoseconds, and the text is read as the span.
-/
theorem spans_read_exactly
    : (∀ text, (∃ d, ofText text = .ok d) ↔ ∃ t : SpanText, text.toList = t.chars ∧ t.Bounded)
      ∧ (∀ (t : SpanText) d, ofText (String.ofList t.chars) = .ok d
        → (d.seconds.toInt : ℚ) * 10 ^ 9 + d.nanos.toInt = t.value * 10 ^ 9 ∧ d.Proper)
      ∧ (∀ d : Duration, (∃ text, d.text = .ok text) ↔ d.Proper)
      ∧ ∀ (d : Duration) text, d.text = .ok text → ofText text = .ok d
        ∧ ∃ t : SpanText, text.toList = t.chars ∧ ShowsNanos t.decimals d.nanos.toInt.natAbs := by
  refine ⟨fun text => ⟨?_, ?_⟩, ?_, fun d => ⟨?_, ?_⟩, ?_⟩
  · rintro ⟨d, read⟩
    exact SpanText.exists_of_ofText read
  · rintro ⟨t, same, bounded⟩
    have read := SpanText.ofText_chars_eq_ok.mpr ⟨bounded, rfl⟩
    rw [← same, String.ofList_toList] at read
    exact ⟨t.span, read⟩
  · intro t d read
    obtain ⟨bounded, rfl⟩ := SpanText.ofText_chars_eq_ok.mp read
    exact ⟨SpanText.value_eq bounded, SpanText.proper_span bounded⟩
  · rintro ⟨text, written⟩
    exact proper_of_text written
  · intro proper
    obtain ⟨t, written, -⟩ := SpanText.exists_of_proper proper
    exact ⟨_, written⟩
  · intro d text written
    refine ⟨ofText_text written, ?_⟩
    obtain ⟨t, same, -, -, shows⟩ := SpanText.exists_of_proper (proper_of_text written)
    cases same.symm.trans written
    exact ⟨t, String.toList_ofList, shows⟩

/-- Half a second back: the sign is kept although there are no whole seconds, and the fraction is
written with three digits.
-/
theorem spans_read_exactly_half
    : let t : SpanText := ⟨true, [], some ['5'], nofun, by simp [IsFraction], by decide, nofun⟩
      let d : Duration := ⟨0, -500000000⟩
      ofText "-.5s" = .ok d
      ∧ (d.seconds.toInt : ℚ) * 10 ^ 9 + d.nanos.toInt = t.value * 10 ^ 9
      ∧ d.Proper
      ∧ d.text = .ok "-0.500s"
      ∧ ofText "-0.500s" = .ok d := by
  intro t d
  obtain ⟨accepted, exact, -, returned⟩ := spans_read_exactly
  have read : ofText "-.5s" = .ok d := by decide +kernel
  have written : d.text = .ok "-0.500s" := by decide +kernel
  obtain ⟨value, proper⟩ := exact t d read
  exact ⟨read, value, proper, written, (returned d _ written).1⟩

end Duration

end Protobuf.Time
