import Protobuf.Proofs.Wire.Payload
import Protobuf.Proofs.Wire.Truncation

/-! The bytes of one scalar, in any form that a reader takes.  A front of them that lacks at least
one byte lacks the rest and nothing else.
-/

namespace Protobuf.Wire

-----------------------------------------------------------------------------------------
-- Verdicts that stand
-----------------------------------------------------------------------------------------

namespace Decoder

/-- What the decoder refuses it refuses whatever follows, unless it lacked bytes. -/
def Final {α : Type} (d : Decoder α) : Prop :=
  ∀ bytes e rest, d bytes = .error e rest → e ≠ .unexpectedEof
    → ∀ more, ∃ rest', d (bytes ++ more) = .error e rest'

theorem final_pure {α : Type} (value : α)
    : Final (pure value) :=
  fun _ _ _ failed => nomatch failed

theorem final_throw {α : Type} (e : DecodeError)
    : Final (throw e : Decoder α) := by
  intro bytes e' rest failed _ more
  cases failed
  exact ⟨_, rfl⟩

theorem Final.bind {α β : Type} {d : Decoder α} {f : α → Decoder β} (h : d.Final)
    (consumed : d.Local) (hf : ∀ value, (f value).Final)
    : Final (d >>= f) := by
  intro bytes e rest failed final more
  simp only [Bind.bind, EStateM.bind] at failed ⊢
  cases first : d bytes with
  | error e' rest' =>
      simp only [first] at failed
      cases failed
      obtain ⟨rest', refused⟩ := h _ _ _ first final more
      exact ⟨rest', by rw [refused]⟩
  | ok value rest' =>
      simp only [first] at failed
      rw [consumed _ _ _ first more]
      exact hf value _ _ _ failed final more

theorem final_varint
    : varint.Final := by
  intro bytes e rest failed final more
  simp only [varint, ofParser] at failed ⊢
  cases read : readVarint bytes with
  | ok pair => simp [read] at failed
  | error e' =>
      simp only [read] at failed
      cases failed
      exact ⟨_, by rw [readVarint_error_append read final]⟩

theorem final_slice (n : Nat)
    : (slice n).Final := by
  intro bytes e rest failed final
  simp only [slice] at failed
  split at failed
  · cases failed
    exact absurd rfl final
  · cases failed

theorem final_lengthDelimited
    : lengthDelimited.Final := by
  refine final_varint.bind local_varint fun length => ?_
  split
  · exact final_slice _
  · exact final_throw _

theorem final_text
    : text.Final := by
  refine final_lengthDelimited.bind local_lengthDelimited fun bytes => ?_
  split
  · exact final_pure _
  · exact final_throw _

theorem final_fixed32
    : fixed32.Final :=
  (final_slice 4).bind (local_slice 4) fun _ => final_pure _

theorem final_fixed64
    : fixed64.Final :=
  (final_slice 8).bind (local_slice 8) fun _ => final_pure _

/-- The front of what a decoder reads lacks the rest. -/
theorem Final.of_front {α : Type} {d : Decoder α} (h : d.Final) (consumed : d.Local)
    {front lost : List UInt8} {value : α} (read : d (front ++ lost) = .ok value [])
    (proper : lost ≠ [])
    : ∃ rest, d front = .error .unexpectedEof rest := by
  cases early : d front with
  | ok value' rest =>
      have appended := consumed _ _ _ early lost
      rw [read] at appended
      injection appended with _ same
      exact absurd (List.append_eq_nil_iff.mp same.symm).2 proper
  | error e rest =>
      by_cases short : e = .unexpectedEof
      · exact ⟨rest, by rw [short]⟩
      · obtain ⟨rest', refused⟩ := h _ _ _ early short lost
        cases read.symm.trans refused

end Decoder

theorem final_readScalar (type : ScalarType)
    : (readScalar type).Final := by
  unfold readScalar
  split
  · refine Decoder.final_text.bind Decoder.local_text fun text => ?_
    split
    · exact Decoder.final_pure _
    · exact Decoder.final_throw _
  · refine Decoder.final_lengthDelimited.bind Decoder.local_lengthDelimited fun bytes => ?_
    split
    · exact Decoder.final_pure _
    · exact Decoder.final_throw _
  · split
    · exact Decoder.final_fixed32.bind Decoder.local_fixed32 fun _ => Decoder.final_pure _
    · exact Decoder.final_fixed64.bind Decoder.local_fixed64 fun _ => Decoder.final_pure _
    · exact Decoder.final_varint.bind Decoder.local_varint fun _ => Decoder.final_pure _

-----------------------------------------------------------------------------------------
-- Elements
-----------------------------------------------------------------------------------------

/-- A scalar of the type and bytes that are read as it; the shortest are one form among others. -/
structure Element (type : ScalarType) where
  bytes : List UInt8
  value : Scalar
  read : readScalar type bytes = .ok value []

namespace Element

variable {type : ScalarType}

theorem reads (e : Element type)
    : (readScalar type).Reads e.bytes e.value :=
  fun more => local_readScalar type _ _ _ e.read more

/-- The form in which a writer writes the scalar. -/
def ofScalar (v : Scalar) (typed : v.hasType type)
    (small : (payload type v).encoding.length < 2 ^ 63)
    : Element type :=
  ⟨(payload type v).encoding, v, (reads_readScalar typed small).whole⟩

/-- A varint that is read is a scalar of a type written as one, whatever form it has. -/
def ofVarint (wire : type.wireType = .varint) (bytes : List UInt8) (n : UInt64)
    (read : readVarint bytes = .ok (n, []))
    : Element type where
  bytes := bytes
  value := Wire.ofVarint type n
  read := by
    have varint : Decoder.varint bytes = .ok n [] := by
      simp only [Decoder.varint, Decoder.ofParser, read]
    cases type <;> first
      | exact WireType.noConfusion wire
      | change EStateM.bind Decoder.varint (fun n => pure (Wire.ofVarint _ n)) bytes = _
        rw [EStateM.bind, varint]
        rfl

/-- An element that is cut off is not read. -/
theorem readScalar_of_front (e : Element type) {front lost : List UInt8}
    (cut : front ++ lost = e.bytes) (proper : lost ≠ [])
    : ∃ rest, readScalar type front = .error .unexpectedEof rest :=
  (final_readScalar type).of_front (local_readScalar type) (cut ▸ e.read) proper

end Element

end Protobuf.Wire
