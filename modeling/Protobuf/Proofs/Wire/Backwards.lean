import Protobuf.Proofs.Wire.Encoder

/-! Writing from the end, step by step, against the bytes in their order.  However deep payloads
nest, a region takes steps exactly if it has room for all their bytes.  Otherwise the first step
that does not fit stops the run, with a suffix of the bytes in place.
-/

namespace Protobuf.Wire

/-- A step of a writer.  The steps of a payload are taken before its length is written. -/
inductive WriteStep where
  | bytes (bytes : List UInt8)
  | fixed32 (v : UInt32)
  | fixed64 (v : UInt64)
  | varint (v : UInt64)
  | key (tag : Nat) (wire : WireType)
  | lengthDelimited (payload : List WriteStep)

mutual

/-- The bytes of a step. -/
def WriteStep.encoding : WriteStep → List UInt8
  | .bytes bytes => bytes
  | .fixed32 v => toLittleEndian 4 v.toNat
  | .fixed64 v => toLittleEndian 8 v.toNat
  | .varint v => Wire.varint v
  | .key tag wire => keyBytes tag wire
  | .lengthDelimited payload => delimit (stepsEncoding payload)

/-- The bytes of steps; those of a later step stand in front. -/
def stepsEncoding : List WriteStep → List UInt8
  | [] => []
  | step :: steps => stepsEncoding steps ++ step.encoding

end

mutual

/-- Takes a step. -/
def WriteStep.run : WriteStep → Encoder
  | .bytes bytes => Encoder.put bytes
  | .fixed32 v => Encoder.fixed32 v
  | .fixed64 v => Encoder.fixed64 v
  | .varint v => Encoder.varint v
  | .key tag wire => Encoder.key tag wire
  | .lengthDelimited payload => Encoder.lengthDelimited (runSteps payload)

/-- Takes steps up to the first that fails. -/
def runSteps : List WriteStep → Encoder
  | [] => Encoder.skip
  | step :: steps => do
      step.run
      runSteps steps

end

namespace Encoder

-----------------------------------------------------------------------------------------
-- Writing without room for everything
-----------------------------------------------------------------------------------------

/-- The writer stopped for want of space, with a suffix of the bytes in front of what was there. -/
structure Stopped (w : Writer) (bytes : List UInt8) (e : EncodeError) (w' : Writer) : Prop where
  short : ∃ needed, e = .insufficientSpace needed w'.free ∧ w'.free < needed
  written : ∃ part, part <:+ bytes ∧ w'.bytes = part ++ w.bytes ∧ w'.free + part.length = w.free

/-- The encoder puts the bytes in front of what is there, the last of them first, until space runs
out.
-/
structure Refines (e : Encoder) (bytes : List UInt8) : Prop where
  writes : e.Writes bytes
  stops
    : ∀ w : Writer, w.free < bytes.length
        → ∃ fault w', e w = .error fault w' ∧ Stopped w bytes fault w'

theorem refines_skip
    : Refines skip [] :=
  ⟨writes_skip, fun _ room => nomatch room⟩

/-- Bytes that are written at once are written whole or not at all. -/
theorem refines_put (bytes : List UInt8)
    : Refines (put bytes) bytes := by
  refine ⟨writes_put bytes, fun w room => ⟨.insufficientSpace bytes.length w.free, w, ?_, ?_⟩⟩
  · rw [put, if_pos room]
  · exact ⟨⟨_, rfl, room⟩, [], List.nil_suffix, rfl, rfl⟩

/-- More bytes in front of the others do not change what the others leave behind. -/
theorem Stopped.append {w w' : Writer} {bytes : List UInt8} {e : EncodeError}
    (h : Stopped w bytes e w') (more : List UInt8)
    : Stopped w (more ++ bytes) e w' := by
  obtain ⟨part, suffix, rest⟩ := h.written
  exact ⟨h.short, part, suffix.trans (List.suffix_append more bytes), rest⟩

/-- What is written later stops in front of what is written first. -/
theorem Refines.andThen {d e : Encoder} {first second : List UInt8} (hd : d.Refines first)
    (he : e.Refines second)
    : Refines (do d; e) (second ++ first) := by
  refine ⟨hd.writes.andThen he.writes, fun w room => ?_⟩
  by_cases fits : first.length ≤ w.free
  · rw [List.length_append] at room
    obtain ⟨fault, w', failed, short, part, suffix, bytes, free⟩ :=
      he.stops ⟨w.free - first.length, first ++ w.bytes⟩ (by simp only; omega)
    refine ⟨fault, w', ?_, short, part ++ first, ?_, ?_, ?_⟩
    · simp only [Bind.bind, EStateM.bind, hd.writes w fits, failed]
    · obtain ⟨front, rfl⟩ := suffix
      exact ⟨front, (List.append_assoc front part first).symm⟩
    · rw [bytes, List.append_assoc]
    · simp only at free
      simp only [List.length_append]
      omega
  · obtain ⟨fault, w', failed, stopped⟩ := hd.stops w (by omega)
    refine ⟨fault, w', ?_, stopped.append second⟩
    simp only [Bind.bind, EStateM.bind, failed]

/-- A payload that is written is followed by how far the free space shrank. -/
theorem lengthDelimited_eq (e : Encoder) (w : Writer)
    : lengthDelimited e w
        = match e w with
          | .ok () w' => varint (UInt64.ofNat (w.free - w'.free)) w'
          | .error fault w' => .error fault w' := by
  have state : (EStateM.get : EStateM EncodeError Writer Writer) w = .ok w w := rfl
  simp only [lengthDelimited, Bind.bind, EStateM.bind, get, getThe, MonadStateOf.get, state]
  cases e w <;> rfl

theorem Refines.lengthDelimited {e : Encoder} {payload : List UInt8} (h : e.Refines payload)
    : Refines (Encoder.lengthDelimited e) (delimit payload) := by
  refine ⟨h.writes.lengthDelimited, fun w room => ?_⟩
  by_cases fits : payload.length ≤ w.free
  · have written : w.free - (w.free - payload.length) = payload.length := by omega
    have stopped := (h.andThen (refines_put (Wire.varint (UInt64.ofNat payload.length)))).stops w
      room
    simp only [Bind.bind, EStateM.bind, h.writes w fits] at stopped
    simp only [lengthDelimited_eq, h.writes w fits, written]
    exact stopped
  · obtain ⟨fault, w', failed, stopped⟩ := h.stops w (by omega)
    refine ⟨fault, w', ?_, stopped.append _⟩
    simp only [lengthDelimited_eq, failed]

end Encoder

-----------------------------------------------------------------------------------------
-- Steps
-----------------------------------------------------------------------------------------

mutual

/-- By induction on the steps, those of payloads included. -/
theorem WriteStep.refines_run (step : WriteStep)
    : step.run.Refines step.encoding := by
  cases step with
  | bytes bytes => exact Encoder.refines_put bytes
  | fixed32 v => exact Encoder.refines_put _
  | fixed64 v => exact Encoder.refines_put _
  | varint v => exact Encoder.refines_put _
  | key tag wire => exact Encoder.refines_put _
  | lengthDelimited payload => exact (refines_runSteps payload).lengthDelimited

theorem refines_runSteps (steps : List WriteStep)
    : (runSteps steps).Refines (stepsEncoding steps) := by
  cases steps with
  | nil => exact Encoder.refines_skip
  | cons step steps => exact step.refines_run.andThen (refines_runSteps steps)

end

/-- A region takes steps exactly if it has room for their bytes, and then holds those bytes.  If it
has not, some step needs more space than is left, and a suffix of the bytes is in place.  In either
case the written bytes and the free ones make up the region.
-/
theorem steps_fill_backwards (capacity : Nat) (steps : List WriteStep)
    : ((∃ w, runSteps steps (Writer.ofCapacity capacity) = .ok () w)
        ↔ (stepsEncoding steps).length ≤ capacity)
      ∧ (∀ w, runSteps steps (Writer.ofCapacity capacity) = .ok () w
        → w.bytes = stepsEncoding steps ∧ w.free + w.bytes.length = capacity)
      ∧ ∀ e w, runSteps steps (Writer.ofCapacity capacity) = .error e w
        → (∃ needed, e = .insufficientSpace needed w.free ∧ w.free < needed)
          ∧ w.bytes <:+ stepsEncoding steps ∧ w.free + w.bytes.length = capacity := by
  have refines := refines_runSteps steps
  by_cases room : (stepsEncoding steps).length ≤ capacity
  · rw [refines.writes (Writer.ofCapacity capacity) room]
    refine ⟨⟨fun _ => room, fun _ => ⟨_, rfl⟩⟩, ?_, ?_⟩
    · rintro w ⟨⟩
      simp only [Writer.ofCapacity, List.append_nil, true_and]
      omega
    · rintro e w ⟨⟩
  · obtain ⟨fault, w', failed, ⟨needed, rfl, short⟩, part, suffix, bytes, free⟩ :=
      refines.stops (Writer.ofCapacity capacity) (Nat.lt_of_not_le room)
    have written : w'.bytes = part := by simpa [Writer.ofCapacity] using bytes
    rw [failed]
    refine ⟨⟨?_, fun fits => absurd fits room⟩, ?_, ?_⟩
    · rintro ⟨w, ⟨⟩⟩
    · rintro w ⟨⟩
    · rintro e w ⟨⟩
      exact ⟨⟨needed, rfl, short⟩, written ▸ suffix, written ▸ free⟩

end Protobuf.Wire
