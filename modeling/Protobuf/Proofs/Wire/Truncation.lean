import Protobuf.Proofs.Wire.Locality

/-! A verdict on bytes is kept when bytes are appended, except that more were needed.  So the front
of a record can only fail for want of the rest.
-/

namespace Protobuf.Wire

variable {limit n wire depth : Nat} {bytes : List UInt8} {e : DecodeError}

/-- Bytes behind a refused base-128 number make no difference, by induction on the limit. -/
theorem readGroups_error_append (h : readGroups limit bytes = .error e) (final : e ≠ .unexpectedEof)
    (more : List UInt8)
    : readGroups limit (bytes ++ more) = .error e := by
  induction limit generalizing bytes with
  | zero => exact h
  | succ limit ih =>
      cases bytes with
      | nil =>
          cases h
          exact absurd rfl final
      | cons b bytes =>
          simp only [readGroups, List.cons_append] at h ⊢
          split at h
          · cases h
          · rename_i continued
            rw [if_neg continued]
            split at h
            · cases h
            · rename_i refused
              cases h
              rw [ih refused]

theorem readVarint_error_append (h : readVarint bytes = .error e) (final : e ≠ .unexpectedEof)
    (more : List UInt8)
    : readVarint (bytes ++ more) = .error e := by
  simp only [readVarint_eq] at h ⊢
  split at h
  · cases h
  · rename_i refused
    cases h
    rw [readGroups_error_append refused final]

/-- Bytes are only refused if there are too few. -/
theorem error_of_passBytes (h : passBytes n bytes = .error e)
    : e = .unexpectedEof := by
  simp only [passBytes] at h
  split at h
  · cases h
    rfl
  · cases h

theorem readLength_error_append (h : readLength bytes = .error e) (final : e ≠ .unexpectedEof)
    (more : List UInt8)
    : readLength (bytes ++ more) = .error e := by
  simp only [readLength] at h ⊢
  split at h
  · rename_i refused
    cases h
    rw [readVarint_error_append refused final]
  · rename_i v rest read
    simp only [readVarint_append read]
    split at h
    · cases h
    · rename_i long
      cases h
      rw [if_neg long]

/-- Bytes behind a refused value make no difference, by cases on the wire type. -/
theorem passValue_error_append (h : passValue wire depth bytes = .error e)
    (final : e ≠ .unexpectedEof) (more : List UInt8)
    : passValue wire depth (bytes ++ more) = .error e := by
  have bytesCase {n : Nat} {bytes : List UInt8}
      (h : (passBytes n bytes).map (fun rest => (depth, rest)) = .error e)
      : False := by
    cases passed : passBytes n bytes with
    | error e' =>
        simp only [passed, Except.map, Except.error.injEq] at h
        exact final (h ▸ error_of_passBytes passed)
    | ok rest => simp [passed, Except.map] at h
  unfold passValue at h ⊢
  split at h
  · cases read : readVarint bytes with
    | error e' =>
        simp only [read, Except.map, Except.error.injEq] at h
        cases h
        simp only [readVarint_error_append read final, Except.map]
    | ok pair => simp [read, Except.map] at h
  · exact (bytesCase h).elim
  · split at h
    · rename_i refused
      cases h
      simp only [readLength_error_append refused final]
    · exact (bytesCase h).elim
  · cases h
  · split at h
    · rename_i unopened
      cases h
      simp [unopened]
    · cases h
  · exact (bytesCase h).elim
  · cases h
    rfl

/-- Bytes behind a refused record make no difference, by induction on the bytes. -/
theorem passRecord_error_append (h : passRecord depth bytes = .error e)
    (final : e ≠ .unexpectedEof) (more : List UInt8)
    : passRecord depth (bytes ++ more) = .error e := by
  fun_induction passRecord depth bytes with
  | case1 =>
      cases h
      exact absurd rfl final
  | case2 depth b tail e' refused =>
      cases h
      rw [passRecord_eq, readVarint_error_append refused final]
  | case3 depth b tail key rest read e' refused =>
      cases h
      rw [passRecord_eq, readVarint_append read]
      simp only [passValue_error_append refused final]
  | case4 => cases h
  | case5 depth b tail key rest read depth' rest' passed inside ih =>
      rw [passRecord_eq, readVarint_append read]
      simp only [passValue_append passed, if_neg inside, ih h]

/-- The front of a record lacks the rest and nothing else. -/
theorem passRecord_of_front {front more : List UInt8}
    (whole : passRecord depth (front ++ more) = .ok []) (proper : more ≠ [])
    : passRecord depth front = .error .unexpectedEof := by
  cases passed : passRecord depth front with
  | ok rest =>
      have appended := passRecord_append passed more
      rw [whole, Except.ok.injEq] at appended
      exact absurd (List.append_eq_nil_iff.mp appended.symm).2 proper
  | error e =>
      by_cases short : e = .unexpectedEof
      · rw [short]
      · rw [passRecord_error_append passed short] at whole
        cases whole

end Protobuf.Wire
