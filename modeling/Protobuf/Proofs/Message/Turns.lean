import Protobuf.Proofs.Message.Loops

/-! Loops over cursors come to what merging the bytes gives.  Each turn takes the record at the
front and keeps the outcome of its loop, so the outcome of the first loop is the merge of all bytes.
-/

namespace Protobuf

open Wire

variable {s : Schema} {t : MessageType} {m : Message} {tag : Nat} {wire : WireType}
  {bytes : List UInt8} {r r' : Cursor} {type : ScalarType} {capacity : Option Nat}
  {values : List Value}

-----------------------------------------------------------------------------------------
-- Turns
-----------------------------------------------------------------------------------------

/-- The cursor covers the payload of the record that begins where the call says.  A key with the
field number stands there and a length behind it; the payload is the slice of so many bytes that
follows, and the loop that waits goes on behind it.
-/
def Call.Opens (call : Call) (r : Cursor) : Prop :=
  ∃ code n length k, decodeVarint call.reader.data call.start = .ok (code, n)
    ∧ Decoder.splitKey code.toNat = .ok (call.tag, .lengthDelimited)
    ∧ decodeVarint call.reader.data (call.start + n) = .ok (length, k)
    ∧ call.reader.position = call.start + n + k + length.toNat
    ∧ between? call.reader.data (call.start + n + k) call.reader.position = some r.data

/-- What a turn can be.  A record that is merged in place, or can not be merged, moves the cursor
on; a record that opens a loop is behind the cursor of the loop that waits, and its payload is the
input of the new cursor.  Either way the outcome stays what it was.
-/
inductive Loop.Follows (s : Schema) (f : Loop) : Turn → Prop
  | merged {task : Task} {failure : Option DecodeError} {r : Cursor}
    (kind : task.isMessage = f.task.isMessage) (moved : f.reader.Moved r)
    (further : failure = none → f.reader.position < r.position)
    (outcome : f.outcome s = Loop.resume s task failure r)
    : Follows s f (.merged task failure r)
  | opened {inner : Loop} {call : Call}
    (kind : f.task.isMessage) (moved : f.reader.Moved call.reader)
    (start : call.start = f.reader.position) (opens : call.Opens inner.reader)
    (fresh : inner.reader.position = 0)
    (budget : inner.task.isMessage → inner.reader.budget + 1 = f.reader.budget)
    (outcome : f.outcome s = call.resume s (inner.outcome s))
    : Follows s f (.opened inner call)

/-- A turn that fails need not come further. -/
theorem Loop.Follows.failed {f : Loop} {task : Task} {e : DecodeError} {r : Cursor}
    (kind : task.isMessage = f.task.isMessage) (moved : f.reader.Moved r)
    (outcome : f.outcome s = Loop.resume s task (some e) r)
    : Loop.Follows s f (.merged task (some e) r) :=
  .merged kind moved (fun sound => absurd sound (Option.some_ne_none e)) outcome

/-- At its end a loop has what it has merged. -/
theorem outcome_of_atEnd {f : Loop} (h : f.reader.atEnd)
    : f.outcome s = (f.task, none) := by
  obtain ⟨task, r⟩ := f
  have empty : r.rest = [] := r.atEnd_iff.mp h
  cases task with
  | message t m => simp [Loop.outcome, empty]
  | run type capacity values => simp [Loop.outcome, empty, mergePacked_nil]

/-- The outcome of a loop is that of the loop behind its first record. -/
theorem outcome_of_record {m' : Message} {failure : Option DecodeError} {r r' : Cursor}
    (nonempty : r.rest ≠ []) (moved : r.Moved r')
    (record : mergeRecord s (embedWithin s r.budget) t m r.rest = ⟨m', failure, r'.rest⟩)
    : Loop.outcome s ⟨.message t m, r⟩ = Loop.resume s (.message t m') failure r' := by
  cases failure with
  | some e =>
      simp only [Loop.outcome, Loop.resume]
      rw [mergeRecords_of_failure nonempty (by rw [record]), record]
  | none =>
      simp only [Loop.outcome, Loop.resume, moved.budget]
      rw [mergeRecords_of_success nonempty (by rw [record]), record]

/-- One turn of a loop over a packed run reads one element. -/
theorem follows_run {r : Cursor} (inside : r.Inside) (nonempty : r.rest ≠ [])
    : Loop.Follows s ⟨.run type capacity values, r⟩
        (Loop.turn s ⟨.run type capacity values, r⟩) := by
  have shorter := consumes_readScalar type r.rest
  have read := Cursor.agrees_run (IndexedDecoder.views_scalar type) inside
  simp only [Loop.turn]
  generalize r.run (.scalar type) = result at read ⊢
  generalize seen : readScalar type r.rest = found at read shorter
  cases read with
  | failed moved =>
      refine .failed rfl moved ?_
      simp only [Loop.outcome, mergePacked_of_error nonempty seen, Loop.resume]
  | ok moved =>
      refine .merged rfl moved (fun _ => moved.position_lt shorter) ?_
      simp only [Loop.outcome, mergePacked_of_value seen]
      rcases appendValue capacity values (.scalar _) with ⟨values', _ | e⟩ <;> rfl

/-- A key and a length-delimited payload behind it make the record that a call names. -/
theorem opens_of_read {inner after : Cursor} (key : r.run .key = .ok (tag, .lengthDelimited) r')
    (read : r'.run .lengthDelimited = .ok inner.data after)
    : Call.Opens ⟨t, m, tag, r.position, after⟩ inner := by
  obtain ⟨code, n, first, split, rfl⟩ := Cursor.key_of_ok key
  obtain ⟨length, k, second, -, payload, rfl⟩ := Cursor.lengthDelimited_of_ok read
  exact ⟨code, n, length, k, first, split, second, rfl, payload⟩

/-- What is read of a record is received by the message in one turn, which comes further unless
reading failed.
-/
theorem follows_received {found : Found} {failure : Option DecodeError} (nonempty : r.rest ≠ [])
    (moved : r.Moved r') (fewer : failure = none → r'.rest.length < r.rest.length)
    (record : mergeRecord s (embedWithin s r.budget) t m r.rest
      = ⟨(m.receive t tag found failure).1, (m.receive t tag found failure).2, r'.rest⟩)
    : Loop.Follows s ⟨.message t m, r⟩ (.received t m tag found failure r') := by
  have success (sound : (m.receive t tag found failure).2 = none) : failure = none := by
    cases failure with
    | none => rfl
    | some e =>
        rw [receive_failure] at sound
        cases sound
  exact .merged rfl moved (fun sound => moved.position_lt (fewer (success sound)))
    (outcome_of_record nonempty moved record)

/-- The record of a target is read behind its key: the loop goes on as merging the record does, by
cases on the target.
-/
theorem follows_target {r r' : Cursor} (inside : r.Inside) (nonempty : r.rest ≠ [])
    (key : r.run .key = .ok (tag, wire) r') {target : Target}
    (found : m.target? s t tag wire = some target)
    : Loop.Follows s ⟨.message t m, r⟩ (target.turn t m tag r.position r') := by
  obtain ⟨first, seen⟩ := Cursor.moved_of_ok IndexedDecoder.views_key inside key
  have shorter := Decoder.consumes_key r.rest
  rw [seen] at shorter
  -- Behind the key, merging the record is merging into the target.
  have record : mergeRecord s (embedWithin s r.budget) t m r.rest
      = target.into (embedWithin s r'.budget) t m tag r'.rest := by
    simp only [mergeRecord, seen, mergeField_eq, found, Option.map_some, first.budget]
  have refused {read : Found} {e : DecodeError} {r'' : Cursor} (moved : r'.Moved r'')
      : mergeRecord s (embedWithin s r.budget) t m r.rest
          = ⟨(m.receive t tag read (some e)).1, (m.receive t tag read (some e)).2, r''.rest⟩
        → Loop.Follows s ⟨.message t m, r⟩ (.received t m tag read (some e) r'') :=
    follows_received nonempty (first.trans moved)
      fun sound => absurd sound (Option.some_ne_none e)
  cases target with
  | scalar type v =>
      have read := Cursor.agrees_run (IndexedDecoder.views_scalar type) first.inside
      have fewer := consumes_readScalar type r'.rest
      simp only [Target.turn]
      simp only [Target.into, mergeScalar] at record
      generalize r'.run (.scalar type) = result at read ⊢
      generalize readScalar type r'.rest = seen at read record fewer
      cases read with
      | failed moved => exact refused moved record
      | ok moved =>
          exact follows_received nonempty (first.trans moved)
            (fun _ => Nat.lt_trans fewer shorter) record
  | message u c =>
      have read := mergeNested_nested (s := s) (u := u) (c := c) first.inside
      cases wire_of_target? found (.inl ⟨u, c, rfl⟩)
      simp only [Target.turn]
      simp only [Target.into] at record
      cases opened : r'.nested with
      | error why after =>
          rw [opened] at read
          cases why with
          | outOfRange => exact read.elim
          | failed e =>
              obtain ⟨moved, same⟩ := read
              rw [same] at record
              exact refused moved record
      | ok inner after =>
          rw [opened] at read
          obtain ⟨moved, payload, fresh, budget, same⟩ := read
          rw [same] at record
          exact .opened rfl (first.trans moved) rfl (opens_of_read key payload) fresh
            (fun _ => budget.trans first.budget)
            (outcome_of_record nonempty (first.trans moved) record)
  | run type capacity values =>
      have read := Cursor.agrees_run IndexedDecoder.views_lengthDelimited first.inside
      cases wire_of_target? found (.inr ⟨type, capacity, values, rfl⟩)
      simp only [Target.turn]
      simp only [Target.into] at record
      cases opened : r'.run .lengthDelimited with
      | error why after =>
          rw [opened] at read
          generalize Decoder.lengthDelimited r'.rest = seen at read record
          cases read with
          | failed moved => exact refused moved record
      | ok payload after =>
          obtain ⟨moved, same⟩ := Cursor.moved_of_ok IndexedDecoder.views_lengthDelimited
            first.inside opened
          rw [same] at record
          refine .opened rfl (first.trans moved) rfl (opens_of_read key opened) rfl
            (fun message => absurd message Bool.false_ne_true)
            (outcome_of_record nonempty (first.trans moved) (record.trans ?_))
          simp only [Task.found, Loop.outcome, Cursor.ofBytes, Cursor.rest_start]
  | refused e =>
      exact .failed rfl first (outcome_of_record nonempty first record)
  | nothing =>
      exact .merged rfl first (fun _ => first.position_lt shorter)
        (outcome_of_record nonempty first record)

/-- A record that no member declares is passed over from its key. -/
theorem follows_unknown {r r' : Cursor} (inside : r.Inside) (nonempty : r.rest ≠ [])
    (key : r.run .key = .ok (tag, wire) r') (missing : m.target? s t tag wire = none)
    : Loop.Follows s ⟨.message t m, r⟩
        (.after (r'.run (.recordAt r.position))
          (fun record r => .merged (.message t (keepUnknown t m record)) none r)
          fun e r => .merged (.message t m) (some e) r) := by
  obtain ⟨first, seen⟩ := Cursor.moved_of_ok IndexedDecoder.views_key inside key
  have place : r'.data.drop r.position = r.rest := by rw [first.data, Cursor.rest]
  have order : r.position ≤ r'.data.length := first.data ▸ inside
  have read := Cursor.agrees_of_indexed (IndexedDecoder.agrees_recordAt first.inside order)
  rw [place] at read
  generalize r'.run (.recordAt r.position) = result at read ⊢
  cases passed : passRecord 0 r.rest with
  | error e =>
      have record : mergeRecord s (embedWithin s r.budget) t m r.rest = ⟨m, some e, r'.rest⟩ := by
        simp only [mergeRecord, seen, mergeField_eq, missing, Option.map_none, passed]
      rw [passed, ← Cursor.rest] at read
      generalize r'.rest = left at read record
      cases read with
      | failed moved =>
          have behind := first.trans moved
          exact .failed rfl behind (outcome_of_record nonempty behind record)
  | ok rest =>
      have fewer := length_of_passRecord passed
      have record : mergeRecord s (embedWithin s r.budget) t m r.rest
          = ⟨keepUnknown t m (r.rest.take (r.rest.length - rest.length)), none, rest⟩ := by
        simp only [mergeRecord, seen, mergeField_eq, missing, Option.map_none, passed]
      rw [passed] at read
      cases read with
      | ok moved =>
          have behind := first.trans moved
          exact .merged rfl behind (fun _ => behind.position_lt fewer)
            (outcome_of_record nonempty behind record)

/-- One turn of a loop over a message, by cases on what its key leads to. -/
theorem follows_message {r : Cursor} (inside : r.Inside) (nonempty : r.rest ≠ [])
    : Loop.Follows s ⟨.message t m, r⟩ (Loop.turn s ⟨.message t m, r⟩) := by
  simp only [Loop.turn]
  cases key : r.run .key with
  | error why r' =>
      cases why with
      | outOfRange => exact absurd key (Cursor.in_range IndexedDecoder.views_key inside)
      | failed e =>
          obtain ⟨first, seen⟩ := Cursor.moved_of_failed IndexedDecoder.views_key inside key
          refine .failed rfl first (outcome_of_record nonempty first ?_)
          simp only [mergeRecord, seen]
  | ok pair r' =>
      obtain ⟨tag, wire⟩ := pair
      cases found : m.target? s t tag wire with
      | some target =>
          simp only [Turn.after, found]
          exact follows_target inside nonempty key found
      | none =>
          simp only [Turn.after, found]
          exact follows_unknown inside nonempty key found

/-- Every turn of a loop that is not at its end is one of these, by cases on what the loop builds.
-/
theorem follows_turn {f : Loop} (inside : f.reader.Inside) (more : f.reader.atEnd = false)
    : f.Follows s (f.turn s) := by
  obtain ⟨task, r⟩ := f
  have nonempty : r.rest ≠ [] := by
    intro empty
    rw [r.atEnd_iff.mpr empty] at more
    cases more
  cases task with
  | message t m => exact follows_message inside nonempty
  | run type capacity values => exact follows_run inside nonempty

-----------------------------------------------------------------------------------------
-- Runs
-----------------------------------------------------------------------------------------

/-- Runs are put together. -/
theorem Reaches.trans {n k : Nat} {c c' last : Config} (h : Reaches s n c c')
    (h' : Reaches s k c' last)
    : Reaches s (n + k) c last := by
  induction h with
  | refl c => rwa [Nat.zero_add]
  | step first _ ih => exact Nat.add_right_comm _ _ _ ▸ .step first (ih h')

theorem Reaches.of_step {c c' : Config} (h : c.step s = some c')
    : Reaches s 1 c c' :=
  .step h (.refl c')

/-- The record of a call has its key, its length and its payload in front of the place where the
loop that waits goes on.
-/
theorem Call.Opens.length_lt {call : Call} {r : Cursor} (opens : call.Opens r)
    : call.start + r.data.length + 2 ≤ call.reader.position := by
  obtain ⟨code, n, length, k, key, -, second, place, payload⟩ := opens
  have first := bounds_of_decodeVarint key
  have next := bounds_of_decodeVarint second
  have covered := bounds_of_between? payload
  omega

/-- A loop ends with its outcome after at most two steps for each byte and one more, by induction on
what its cursor has left.  A loop that a record opens has the payload, and the loop that waits has
what stands behind it; the key and the length pay for opening and closing.
-/
theorem reaches_outcome (f : Loop) (inside : f.reader.Inside) (outer : List Call)
    : ∃ n ≤ 2 * f.reader.rest.length + 1,
        Reaches s n (.running f outer)
          (.returning (f.outcome s).1 (f.outcome s).2 outer) := by
  induction size : f.reader.rest.length using Nat.strongRecOn generalizing f outer with
  | _ left ih =>
      cases more : f.reader.atEnd with
      | true =>
          refine ⟨1, by omega, .of_step ?_⟩
          rw [outcome_of_atEnd more]
          simp only [Config.step, more, if_true]
      | false =>
          have turn := follows_turn (s := s) inside more
          cases next : f.turn s with
          | aborted =>
              rw [next] at turn
              cases turn
          | merged task failure r =>
              rw [next] at turn
              obtain ⟨-, moved, further, outcome⟩ := turn
              rw [outcome]
              cases failure with
              | some e =>
                  refine ⟨1, by omega, .of_step ?_⟩
                  simp only [Config.step, more, next, Bool.false_eq_true, if_false, Loop.resume]
              | none =>
                  have fewer := moved.length_lt (further rfl)
                  obtain ⟨n, few, others⟩ := ih r.rest.length (size ▸ fewer) ⟨task, r⟩
                    moved.inside outer rfl
                  refine ⟨n + 1, by omega, .step ?_ others⟩
                  simp only [Config.step, more, next, Bool.false_eq_true, if_false]
          | opened inner call =>
              rw [next] at turn
              cases turn with | opened _ moved start opens fresh _ outcome =>
              have record := opens.length_lt
              have payload : inner.reader.rest.length = inner.reader.data.length := by
                rw [Cursor.length_rest, fresh, Nat.sub_zero]
              have own := f.reader.length_rest
              have behind := call.reader.length_rest
              have end_inside := moved.inside
              unfold Cursor.Inside at end_inside
              rw [moved.data] at behind end_inside
              -- The payload and what is behind it are together shorter than the bytes in front of
              -- the cursor, so the turns of both loops are few enough.
              obtain ⟨n, few, inner_ends⟩ := ih _ (by omega) inner
                (by rw [Cursor.Inside, fresh]; exact Nat.zero_le _) (call :: outer) rfl
              have opening : (Config.running f outer).step s
                  = some (.running inner (call :: outer)) := by
                simp only [Config.step, more, next, Bool.false_eq_true, if_false]
              rw [outcome, Call.resume]
              cases received : call.current.receive call.type call.tag (inner.outcome s).1.found
                  (inner.outcome s).2 with
              | mk m failure =>
                  cases failure with
                  | some e =>
                      refine ⟨n + 1 + 1, by omega,
                        .step opening (inner_ends.trans (.of_step ?_))⟩
                      simp only [Config.step, received, Loop.resume]
                  | none =>
                      obtain ⟨k, few', others⟩ := ih call.reader.rest.length (by omega)
                        ⟨.message call.type m, call.reader⟩ moved.inside outer rfl
                      refine ⟨n + (k + 1) + 1, by omega,
                        .step opening (inner_ends.trans (.step ?_ others))⟩
                      simp only [Config.step, received]

/-- The loops end with what merging the bytes gives. -/
theorem reaches_merge (t : MessageType) (m : Message) (bytes : List UInt8)
    : ∃ n ≤ 2 * bytes.length + 1,
        Reaches s n (.start t m bytes)
          (.returning (.message t (s.merge t m bytes).1) (s.merge t m bytes).2 []) := by
  have run := reaches_outcome (s := s) ⟨.message t m, .ofBytes bytes⟩
    (Cursor.inside_ofBytes bytes) []
  simpa only [Loop.outcome, Cursor.ofBytes, Cursor.rest_start, Config.start, Schema.merge] using run

end Protobuf
