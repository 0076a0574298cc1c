import Protobuf.Json.IndexedScanner
import Protobuf.Proofs.Indexed
import Protobuf.Proofs.Json.Extent

/-! Scanning by index comes to what scanning the bytes comes to.  From an offset inside the
document, no scanner reads out of range, each leaves the offset inside, and it finds the same token
or the same fault at the same place.
-/

namespace Protobuf.Json.IndexedScanner

open Indexed

variable {data : List UInt8} {i j : Nat} {b : UInt8}

-----------------------------------------------------------------------------------------
-- Bytes at an offset
-----------------------------------------------------------------------------------------

theorem drop_of_getElem? (h : data[i]? = some b)
    : data.drop i = b :: data.drop (i + 1) := by
  obtain ⟨inside, rfl⟩ := List.getElem?_eq_some_iff.mp h
  exact List.drop_eq_getElem_cons inside

theorem drop_of_getElem?_none (h : data[i]? = none)
    : data.drop i = [] :=
  List.drop_eq_nil_of_le (List.getElem?_eq_none_iff.mp h)

theorem runEnd_of_neg {kind : UInt8 → Bool} (found : data[i]? = some b) (other : ¬kind b)
    : runEnd kind data i = i := by
  rw [runEnd]
  split
  · rename_i found'
    cases found.symm.trans found'
    rw [if_neg other]
  · rfl

/-- A run of bytes of a kind ends inside, by induction on the bytes that are left. -/
theorem bounds_runEnd (kind : UInt8 → Bool) (inside : i ≤ data.length)
    : i ≤ runEnd kind data i ∧ runEnd kind data i ≤ data.length := by
  fun_induction runEnd kind data i with
  | case1 i b found here ih =>
      have within := ih (lt_of_getElem? found)
      omega
  | case2 | case3 => exact ⟨Nat.le_refl _, inside⟩

/-- What is behind a run of bytes of a kind, by induction on the bytes that are left. -/
theorem drop_runEnd (kind : UInt8 → Bool) (data : List UInt8) (i : Nat)
    : data.drop (runEnd kind data i) = (data.drop i).dropWhile kind := by
  fun_induction runEnd kind data i with
  | case1 i b found here ih =>
      rw [ih, drop_of_getElem? found, List.dropWhile_cons_of_pos here]
  | case2 i b found other => rw [drop_of_getElem? found, List.dropWhile_cons_of_neg other]
  | case3 i found => rw [drop_of_getElem?_none found, List.dropWhile_nil]

/-- The bytes up to the end of a run are the run. -/
theorem between?_runEnd (kind : UInt8 → Bool) (inside : i ≤ data.length)
    : between? data i (runEnd kind data i) = some ((data.drop i).takeWhile kind) := by
  have bounds := bounds_runEnd kind inside
  have parts := congrArg List.length
    (List.takeWhile_append_dropWhile (p := kind) (l := data.drop i))
  rw [← drop_runEnd, List.length_append, List.length_drop, List.length_drop] at parts
  have length : ((data.drop i).takeWhile kind).length = runEnd kind data i - i := by omega
  rw [between?_eq_some bounds.1 bounds.2, ← length,
    ← List.prefix_iff_eq_take.mp (List.takeWhile_prefix kind)]

-----------------------------------------------------------------------------------------
-- Bytes and words
-----------------------------------------------------------------------------------------

theorem views_peek
    : Views peek Scanner.peek := by
  intro data i inside
  have seen : Scanner.peek (data.drop i)
      = .ok data[runEnd isBlank data i]? (data.drop (runEnd isBlank data i)) := by
    rw [Scanner.peek, dropBlanks, ← drop_runEnd, List.head?_drop]
  rw [seen]
  exact .ok (bounds_runEnd isBlank inside).2

/-- A byte that was looked at stands at the offset. -/
theorem found_of_peek {found : Option UInt8} (h : peek data i = .ok found j)
    : data[j]? = found := by
  simp only [peek, blanks, byte?, bind_apply] at h
  cases h
  rfl

theorem advance_apply (data : List UInt8) (i : Nat)
    : advance data i = .ok () (i + 1) :=
  rfl

/-- Moving over a byte that is there stays inside. -/
theorem agrees_advance (found : data[i]? = some b)
    : Agrees data (advance data i) (Scanner.advance (data.drop i)) := by
  rw [advance_apply, Scanner.advance, List.tail_drop]
  exact .ok (lt_of_getElem? found)

theorem views_expect (b : UInt8) (fault : SyntaxFault)
    : Views (expect b fault) (Scanner.expect b fault) := by
  intro data i inside
  refine (views_peek data i inside).bind fun found j looked inside => ?_
  split
  · rename_i same
    exact agrees_advance ((found_of_peek looked).trans (eq_of_beq same))
  · exact views_fail fault data j inside

theorem views_literal (word : String)
    : Views (literal word) (Scanner.literal word) := by
  intro data i inside
  simp only [literal, Scanner.literal, bind_apply, position, sliceFrom, slice,
    between?_length inside]
  split
  · rename_i front
    have shorter := (List.isPrefixOf_iff_prefix.mp front).length_le
    rw [List.length_drop] at shorter
    rw [List.drop_drop]
    exact .ok (by omega)
  · exact .failed inside

/-- A number at an offset is one in front of the rest. -/
theorem views_number
    : Views number Scanner.number := by
  intro data i inside
  simp only [number, Scanner.number, between?_runEnd isNumberByte inside, ← drop_runEnd]
  split
  · exact .ok (bounds_runEnd isNumberByte inside).2
  · exact .failed inside

-----------------------------------------------------------------------------------------
-- Strings
-----------------------------------------------------------------------------------------

/-- Four hexadecimal digits are there, or the offset stays. -/
theorem hex4?_drop (inside : i ≤ data.length)
    : (∃ n, Json.hex4? (data.drop i) = some (n, data.drop (i + 4))
        ∧ hex4? data i = .ok (some n) (i + 4) ∧ i + 4 ≤ data.length)
      ∨ (Json.hex4? (data.drop i) = none ∧ hex4? data i = .ok none i) := by
  have length : ((data.drop i).take 4).length = min 4 (data.length - i) := by
    rw [List.length_take, List.length_drop]
  by_cases short : data.length < i + 4
  · refine .inr ⟨?_, ?_⟩
    · rw [Json.hex4?, if_neg (by omega)]
    · rw [hex4?, between?_eq_none short]
  · have within : i + 4 ≤ data.length := Nat.le_of_not_lt short
    have full : ((data.drop i).take 4).length = 4 := by omega
    have there : between? data i (i + 4) = some ((data.drop i).take 4) := by
      rw [between?_eq_some (Nat.le_add_right i 4) within, Nat.add_sub_cancel_left]
    have digits : Json.hex4? ((data.drop i).take 4)
        = (Json.hex4? (data.drop i)).map fun found => (found.1, []) := by
      simp only [Json.hex4?, List.take_take, Nat.min_self, full, if_true, Option.map_map]
      rw [List.drop_eq_nil_of_le (Nat.le_of_eq full)]
      rfl
    simp only [hex4?, there, digits]
    cases value : Json.hex4? (data.drop i) with
    | none => exact .inr ⟨rfl, rfl⟩
    | some pair =>
        obtain ⟨n, rest⟩ := pair
        have behind : rest = data.drop (i + 4) := by
          simp only [Json.hex4?, if_pos full, Option.map_eq_some_iff, Prod.mk.injEq] at value
          obtain ⟨_, -, -, rfl⟩ := value
          exact List.drop_drop
        exact .inl ⟨n, by rw [behind], rfl, within⟩

theorem views_lowSurrogate
    : Views lowSurrogate Scanner.lowSurrogate := by
  intro data i inside
  simp only [lowSurrogate, bind_apply, position, sliceFrom, slice, between?_length inside]
  split
  · rename_i front
    obtain ⟨rest, whole⟩ := List.isPrefixOf_iff_prefix.mp front
    have behind : rest = data.drop (i + 2) := by
      rw [← List.drop_drop, ← whole]
      rfl
    have within : i + 2 ≤ data.length := by
      have parts := congrArg List.length whole
      rw [List.length_append, List.length_drop] at parts
      simp only [List.length_cons, List.length_nil] at parts
      omega
    rw [show data.drop i = 92 :: 117 :: rest from whole.symm, Scanner.lowSurrogate, behind]
    rcases hex4?_drop within with ⟨low, value, found, inside'⟩ | ⟨value, found⟩
    · simp only [value, found, bind_apply, moveTo]
      split
      · exact .ok inside'
      · exact .failed inside'
    · simp only [value, found, bind_apply, moveTo]
      exact .failed within
  · rename_i other
    have seen : Scanner.lowSurrogate (data.drop i)
      = .error .invalidSurrogatePair (data.drop i) := by
      unfold Scanner.lowSurrogate
      split
      · rename_i rest whole
        rw [whole] at other
        exact absurd (by simp [List.isPrefixOf]) other
      · rfl
    rw [seen]
    exact .failed inside

theorem views_unicodeEscape
    : Views unicodeEscape Scanner.unicodeEscape := by
  intro data i inside
  simp only [unicodeEscape, Scanner.unicodeEscape, bind_apply]
  rcases hex4?_drop inside with ⟨high, value, found, within⟩ | ⟨value, found⟩
  · simp only [value, found]
    split
    · have low := views_lowSurrogate data (i + 4) within
      simp only [bind_apply]
      generalize lowSurrogate data (i + 4) = result at low ⊢
      generalize Scanner.lowSurrogate (data.drop (i + 4)) = seen at low ⊢
      cases low with
      | ok inside' => exact .ok inside'
      | failed inside' => exact .failed inside'
    · cases charOfCode? high with
      | some c => exact .ok within
      | none => exact .failed within
  · simp only [value, found]
    exact .failed inside

/-- An escape at an offset is one in front of the rest. -/
theorem views_escape
    : Views escape Scanner.escape := by
  intro data i inside
  simp only [escape, bind_apply, byte?]
  cases found : data[i]? with
  | none =>
      rw [drop_of_getElem?_none found, Scanner.escape, ← drop_of_getElem?_none found]
      exact .failed inside
  | some b =>
      have within : i + 1 ≤ data.length := lt_of_getElem? found
      rw [drop_of_getElem? found, Scanner.escape]
      simp only [bind_apply, advance_apply]
      iterate 6
        split
        · exact .ok within
      split
      · have char := views_unicodeEscape data (i + 1) within
        simp only [bind_apply]
        generalize unicodeEscape data (i + 1) = result at char ⊢
        generalize Scanner.unicodeEscape (data.drop (i + 1)) = seen at char ⊢
        cases char with
        | ok inside' => exact .ok inside'
        | failed inside' => exact .failed inside'
      · exact .failed within

/-- Behind its backslash an escape takes bytes of its own. -/
theorem le_of_escape {decoded : List UInt8} (inside : i ≤ data.length)
    (found : escape data i = .ok decoded j)
    : i ≤ j := by
  obtain ⟨inside', seen⟩ := views_escape.of_ok inside found
  have shorter := (Scanner.suffixes_escape.of_ok seen).length_le
  rw [List.length_drop, List.length_drop] at shorter
  omega

/-- A string is scanned to its closing quote by index as by its bytes, by induction on the bytes
that are left.
-/
theorem agrees_stringBytes (scanned : List UInt8) (inside : i ≤ data.length)
    : Agrees data (stringBytes data scanned i) (Scanner.stringBytes scanned (data.drop i)) := by
  fun_induction stringBytes data scanned i with
  | case1 scanned i found =>
      rw [drop_of_getElem?_none found, Scanner.stringBytes, ← drop_of_getElem?_none found]
      exact .failed inside
  | case2 scanned i found =>
      rw [drop_of_getElem? found, Scanner.stringBytes, if_pos rfl]
      exact .ok (lt_of_getElem? found)
  | case3 scanned i why j escaped found =>
      have own := views_escape data (i + 1) (lt_of_getElem? found)
      rw [drop_of_getElem? found, Scanner.stringBytes]
      rw [escaped] at own
      generalize Scanner.escape (data.drop (i + 1)) = seen at own ⊢
      cases own with
      | failed inside' => exact .failed inside'
  | case4 scanned i decoded j escaped further found quote ih =>
      obtain ⟨inside', seen⟩ := views_escape.of_ok (lt_of_getElem? found) escaped
      have shorter := (Scanner.suffixes_escape.of_ok seen).length_le
      rw [drop_of_getElem? found, Scanner.stringBytes]
      simp only [seen, if_pos shorter]
      exact ih inside'
  | case5 scanned i decoded j escaped backwards found =>
      have order := le_of_escape (lt_of_getElem? found) escaped
      omega
  | case6 scanned i b found quote slash control =>
      rw [drop_of_getElem? found, Scanner.stringBytes, if_neg quote, if_neg slash, if_pos control]
      exact .failed (lt_of_getElem? found)
  | case7 scanned i b found quote slash plain ih =>
      rw [drop_of_getElem? found, Scanner.stringBytes, if_neg quote, if_neg slash, if_neg plain]
      exact ih (lt_of_getElem? found)

/-- A string is scanned where its quote stands. -/
theorem agrees_string (found : data[i]? = some b)
    : Agrees data (string data i) (Scanner.string (data.drop i)) := by
  have own := agrees_stringBytes [] (lt_of_getElem? found)
  simp only [string, Scanner.string, List.tail_drop]
  generalize stringBytes data [] (i + 1) = result at own ⊢
  generalize Scanner.stringBytes [] (data.drop (i + 1)) = seen at own ⊢
  cases own with
  | failed inside => exact .failed inside
  | @ok decoded j inside =>
      cases text : Text.ofUtf8? decoded with
      | some text =>
          simp only [text]
          exact .ok inside
      | none =>
          simp only [text]
          exact .failed inside

-----------------------------------------------------------------------------------------
-- Values
-----------------------------------------------------------------------------------------

section

variable {value : IndexedScanner Unit} {seen : Scanner Unit}

theorem found_of_bind_peek {α : Type} {read : IndexedScanner α} {next : Option UInt8}
    (h : (read >>= fun _ => peek) data i = .ok next j)
    : data[j]? = next := by
  rw [bind_apply] at h
  split at h
  · exact found_of_peek h
  · cases h

/-- A key and its colon at an offset are those in front of the rest. -/
theorem views_keyAndColon
    : Views keyAndColon Scanner.keyAndColon := by
  intro data i inside
  refine (views_peek data i inside).bind fun next j looked inside => ?_
  split
  · rename_i quote
    refine (agrees_string ((found_of_peek looked).trans (eq_of_beq quote))).bind ?_
    intro key j _ inside
    exact ((views_expect 58 .expectedColon).bind fun _ => views_pure key) data j inside
  · exact views_fail SyntaxFault.expectedKey data j inside

theorem found_of_member {next : Option UInt8} (h : member value data i = .ok next j)
    : data[j]? = next := by
  rw [member, bind_apply] at h
  split at h
  · exact found_of_bind_peek h
  · cases h

theorem views_member (h : Views value seen)
    : Views (member value) (do
        let _ ← Scanner.keyAndColon
        seen
        Scanner.peek) :=
  views_keyAndColon.bind fun _ => h.bind fun _ => views_peek

end

section

variable {part : IndexedScanner (Option UInt8)} {seen : Scanner (Option UInt8)} {close : UInt8}
  {fault : SyntaxFault} {loop : Scanner Unit}

/-- The parts of a container are passed over by index as by their bytes, by induction on the bytes
that are left.
-/
theorem views_skipParts (h : Views part seen)
    (there : ∀ data i next j, part data i = .ok next j → data[j]? = next)
    (turn : ∀ bytes, loop bytes
      = match seen bytes with
        | .error e rest => .error e rest
        | .ok next rest =>
            if next = some 44 then
              if rest.length < bytes.length then loop rest.tail else .error fault rest
            else if next = some close then .ok () rest.tail
            else .error fault rest)
    : Views (skipParts part close fault) loop := by
  intro data i inside
  rw [skipParts]
  induction size : data.length - i using Nat.strongRecOn generalizing i with
  | ind n ih =>
      have own := h data i inside
      rw [skipPartsFrom, turn]
      generalize found : part data i = result at own ⊢
      generalize seen (data.drop i) = read at own ⊢
      cases own with
      | failed inside' => exact .failed inside'
      | @ok next j inside' =>
          have at_ := there data i next j found
          simp only [List.length_drop, List.tail_drop]
          split
          · rename_i comma
            have front := lt_of_getElem? (at_.trans comma)
            split
            · exact ih _ (by omega) _ front rfl
            · exact .failed inside'
          · split
            · rename_i closed
              exact .ok (lt_of_getElem? (at_.trans closed))
            · exact .failed inside'

theorem views_enclosed (parts : Views (skipParts part close fault) loop)
    : Views (enclosed part close fault) (Scanner.enclosed close loop) := by
  intro data i inside
  refine (views_peek data i inside).bind fun next j looked inside => ?_
  split
  · rename_i closed
    exact agrees_advance ((found_of_peek looked).trans (eq_of_beq closed))
  · exact parts data j inside

end

theorem skipMembers_turn (value : Scanner Unit) (bytes : List UInt8)
    : Scanner.skipMembers value bytes
        = match (do
            let _ ← Scanner.keyAndColon
            value
            Scanner.peek : Scanner (Option UInt8)) bytes with
          | .error e rest => .error e rest
          | .ok next rest =>
              if next = some 44 then
                if rest.length < bytes.length then Scanner.skipMembers value rest.tail
                else .error .expectedCommaOrBrace rest
              else if next = some 125 then .ok () rest.tail
              else .error .expectedCommaOrBrace rest := by
  rw [Scanner.skipMembers, Scanner.member_eq]
  split <;> simp_all

theorem skipElements_turn (value : Scanner Unit) (bytes : List UInt8)
    : Scanner.skipElements value bytes
        = match (do
            value
            Scanner.peek : Scanner (Option UInt8)) bytes with
          | .error e rest => .error e rest
          | .ok next rest =>
              if next = some 44 then
                if rest.length < bytes.length then Scanner.skipElements value rest.tail
                else .error .expectedCommaOrBracket rest
              else if next = some 93 then .ok () rest.tail
              else .error .expectedCommaOrBracket rest := by
  rw [Scanner.skipElements]
  split <;> simp_all

/-- A value is passed over by index as by its bytes, by induction on the levels that it may nest. -/
theorem views_skipValue (depth : Nat)
    : Views (skipValue depth) (Scanner.skipValue depth) := by
  induction depth with
  | zero => exact views_fail _
  | succ depth ih =>
      intro data i inside
      rw [skipValue, Scanner.skipValue]
      refine (views_peek data i inside).bind fun next j looked inside => ?_
      cases next with
      | none => exact .failed inside
      | some b =>
          have found := found_of_peek looked
          have members := views_enclosed (views_skipParts (views_member ih)
            (fun _ _ _ _ => found_of_member) (skipMembers_turn (Scanner.skipValue depth)))
          have elements := views_enclosed (views_skipParts (ih.bind fun _ => views_peek)
            (fun _ _ _ _ => found_of_bind_peek) (skipElements_turn (Scanner.skipValue depth)))
          simp only
          split
          · exact (agrees_advance found).bind fun _ k _ inside => members data k inside
          split
          · exact (agrees_advance found).bind fun _ k _ inside => elements data k inside
          split
          · exact (agrees_string found).bind fun _ k _ inside => .ok inside
          split
          · exact views_literal _ data j inside
          split
          · exact views_literal _ data j inside
          split
          · exact views_literal _ data j inside
          split
          · exact (views_number data j inside).bind fun _ k _ inside => .ok inside
          · exact .failed inside

end Protobuf.Json.IndexedScanner
