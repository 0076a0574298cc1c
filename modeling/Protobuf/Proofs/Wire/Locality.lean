import Protobuf.Proofs.Wire.Varint
import Protobuf.Wire.Payload

/-! Reading never looks past what it consumes: when a reader succeeds on some bytes, it succeeds
with the same value whatever bytes are appended, and leaves them behind.
-/

namespace Protobuf.Wire

-----------------------------------------------------------------------------------------
-- Parsers that return the rest
-----------------------------------------------------------------------------------------

/-- Bytes behind a base-128 number make no difference to it, by induction on the limit. -/
theorem readGroups_append {limit n : Nat} {bytes rest : List UInt8}
    (h : readGroups limit bytes = .ok (n, rest)) (more : List UInt8)
    : readGroups limit (bytes ++ more) = .ok (n, rest ++ more) := by
  induction limit generalizing n bytes with
  | zero => simp [readGroups] at h
  | succ limit ih =>
      cases bytes with
      | nil => simp [readGroups] at h
      | cons b tail =>
          simp only [readGroups, List.cons_append] at h ⊢
          split at h
          · rename_i last
            cases h
            rw [if_pos last]
          · rename_i continued
            rw [if_neg continued]
            split at h
            · rename_i high rest' read
              cases h
              rw [ih read]
            · cases h

theorem readVarint_append {bytes rest : List UInt8} {v : UInt64}
    (h : readVarint bytes = .ok (v, rest)) (more : List UInt8)
    : readVarint (bytes ++ more) = .ok (v, rest ++ more) := by
  simp only [readVarint_eq] at h ⊢
  split at h
  · rename_i n rest' read
    cases h
    rw [readGroups_append read]
  · cases h

theorem passBytes_append {n : Nat} {bytes rest : List UInt8}
    (h : passBytes n bytes = .ok rest) (more : List UInt8)
    : passBytes n (bytes ++ more) = .ok (rest ++ more) := by
  simp only [passBytes] at h ⊢
  split at h
  · cases h
  · rename_i enough
    cases h
    rw [if_neg (by simp only [List.length_append]; omega),
      List.drop_append_of_le_length (by omega)]

theorem readLength_append {length : Nat} {bytes rest : List UInt8}
    (h : readLength bytes = .ok (length, rest)) (more : List UInt8)
    : readLength (bytes ++ more) = .ok (length, rest ++ more) := by
  simp only [readLength] at h ⊢
  split at h
  · cases h
  · rename_i v rest' read
    simp only [readVarint_append read]
    split at h
    · rename_i legal
      cases h
      rw [if_pos legal]
    · cases h

/-- Bytes behind a value make no difference to where it ends, by cases on the wire type. -/
theorem passValue_append {wire depth depth' : Nat} {bytes rest : List UInt8}
    (h : passValue wire depth bytes = .ok (depth', rest)) (more : List UInt8)
    : passValue wire depth (bytes ++ more) = .ok (depth', rest ++ more) := by
  have bytesCase {n : Nat} {bytes : List UInt8}
      (h : (passBytes n bytes).map (fun rest => (depth, rest)) = .ok (depth', rest))
      : (passBytes n (bytes ++ more)).map (fun rest => (depth, rest))
          = .ok (depth', rest ++ more) := by
    cases passed : passBytes n bytes with
    | error e => simp [passed, Except.map] at h
    | ok rest' =>
        simp only [passed, Except.map, Except.ok.injEq, Prod.mk.injEq] at h
        obtain ⟨rfl, rfl⟩ := h
        simp [passBytes_append passed, Except.map]
  unfold passValue at h ⊢
  split at h
  · cases read : readVarint bytes with
    | error e => simp [read, Except.map] at h
    | ok pair =>
        simp only [read, Except.map, Except.ok.injEq, Prod.mk.injEq] at h
        obtain ⟨rfl, rfl⟩ := h
        simp [readVarint_append read, Except.map]
  · exact bytesCase h
  · split at h
    · cases h
    · rename_i read
      simp only [readLength_append read]
      exact bytesCase h
  · cases h
    rfl
  · split at h
    · cases h
    · rename_i unclosed
      cases h
      simp only [if_neg unclosed]
  · exact bytesCase h
  · cases h

/-- Bytes behind a record make no difference to where it ends, by induction on the bytes. -/
theorem passRecord_append {depth : Nat} {bytes rest : List UInt8}
    (h : passRecord depth bytes = .ok rest) (more : List UInt8)
    : passRecord depth (bytes ++ more) = .ok (rest ++ more) := by
  rw [passRecord_eq]
  fun_induction passRecord depth bytes with
  | case1 => cases h
  | case2 => cases h
  | case3 => cases h
  | case4 depth b tail key rest' read rest'' passed =>
      cases h
      simp only [readVarint_append read, passValue_append passed, if_true]
  | case5 depth b tail key rest' read depth' rest'' passed inside ih =>
      simp only [readVarint_append read, passValue_append passed, if_neg inside]
      rw [passRecord_eq]
      exact ih h

-----------------------------------------------------------------------------------------
-- Decoders
-----------------------------------------------------------------------------------------

namespace Decoder

/-- Bytes behind those that a successful decoder consumes make no difference. -/
def Local {α : Type} (d : Decoder α) : Prop :=
  ∀ bytes value rest, d bytes = .ok value rest
    → ∀ more, d (bytes ++ more) = .ok value (rest ++ more)

theorem local_pure {α : Type} (value : α)
    : Local (pure value) := by
  intro bytes value' rest h more
  cases h
  rfl

theorem local_throw {α : Type} (e : DecodeError)
    : Local (throw e : Decoder α) := by
  intro bytes value rest h
  cases h

/-- What two decoders consume one after the other is what both consume. -/
theorem Local.bind {α β : Type} {d : Decoder α} {f : α → Decoder β}
    (h : d.Local) (hf : ∀ value, (f value).Local)
    : Local (d >>= f) := by
  intro bytes value rest run more
  simp only [Bind.bind, EStateM.bind] at run ⊢
  cases first : d bytes with
  | error e rest' => simp [first] at run
  | ok value' rest' =>
      simp only [first] at run
      simp only [h _ _ _ first more]
      exact hf value' _ _ _ run more

theorem local_varint
    : varint.Local := by
  intro bytes value rest h more
  simp only [varint, ofParser] at h ⊢
  cases read : readVarint bytes with
  | error e => simp [read] at h
  | ok pair =>
      simp only [read, EStateM.Result.ok.injEq] at h
      obtain ⟨rfl, rfl⟩ := h
      simp [readVarint_append read]

theorem local_slice (n : Nat)
    : (slice n).Local := by
  intro bytes value rest h more
  simp only [slice] at h ⊢
  split at h
  · cases h
  · rename_i enough
    cases h
    rw [if_neg (by simp only [List.length_append]; omega),
      List.take_append_of_le_length (by omega), List.drop_append_of_le_length (by omega)]

theorem local_lengthDelimited
    : lengthDelimited.Local := by
  refine local_varint.bind fun length => ?_
  split
  · exact local_slice _
  · exact local_throw _

theorem local_text
    : text.Local := by
  refine local_lengthDelimited.bind fun bytes => ?_
  split
  · exact local_pure _
  · exact local_throw _

theorem local_key
    : key.Local := by
  refine local_varint.bind fun code => ?_
  split
  · exact local_pure _
  · exact local_throw _

theorem local_fixed32
    : fixed32.Local :=
  (local_slice 4).bind fun _ => local_pure _

theorem local_fixed64
    : fixed64.Local :=
  (local_slice 8).bind fun _ => local_pure _

end Decoder

/-- A scalar ends where the layout of its type says. -/
theorem local_readScalar (type : ScalarType)
    : (readScalar type).Local := by
  unfold readScalar
  split
  · refine Decoder.local_text.bind fun text => ?_
    split
    · exact Decoder.local_pure _
    · exact Decoder.local_throw _
  · refine Decoder.local_lengthDelimited.bind fun bytes => ?_
    split
    · exact Decoder.local_pure _
    · exact Decoder.local_throw _
  · split
    · exact Decoder.local_fixed32.bind fun _ => Decoder.local_pure _
    · exact Decoder.local_fixed64.bind fun _ => Decoder.local_pure _
    · exact Decoder.local_varint.bind fun _ => Decoder.local_pure _

theorem mergeScalar_append {type : ScalarType} {current : Scalar} {bytes : List UInt8}
    (h : (mergeScalar type current bytes).failure = none) (more : List UInt8)
    : mergeScalar type current (bytes ++ more)
        = { mergeScalar type current bytes with
            rest := (mergeScalar type current bytes).rest ++ more } := by
  unfold mergeScalar at h ⊢
  cases read : readScalar type bytes with
  | error e rest => simp [read] at h
  | ok value rest => simp only [local_readScalar type _ _ _ read more]

end Protobuf.Wire
