import Protobuf.Proofs.Json.Places
import Protobuf.Proofs.Json.Typing
import Protobuf.Proofs.Message.Overlay

/-! Two readings of the same document, side by side.  They read into different things, and what
joins before joins behind: so it is for each member of an object and for each element of an array,
and so for all of them.
-/

namespace Protobuf.Json

-----------------------------------------------------------------------------------------
-- Two readings side by side
-----------------------------------------------------------------------------------------

/-- The second reading goes the way of the first one that does not fail.  What joins before joins
behind, as long as it fits; and what fits behind did so before.
-/
structure Layered {α : Type} (fits : α → Prop) (joins : α → α → Prop) (y z : α) (a b : α × Reader)
    : Prop where
  back : a.2.fault = none → fits a.1 → fits y
  onward : a.2.fault = none → fits a.1 → joins y z → b.2 = a.2 ∧ joins a.1 b.1

section

variable {α : Type} {fits : α → Prop} {joins : α → α → Prop} {y z : α} {a b : α × Reader}

theorem layered_of_failed (failed : a.2.fault.isSome)
    : Layered fits joins y z a b := by
  have never : a.2.fault ≠ none := Option.isSome_iff_ne_none.mp failed
  exact ⟨fun sound => absurd sound never, fun sound => absurd sound never⟩

/-- The members of an object are read side by side, by induction on them. -/
theorem layered_keys {P : α → Prop} {read : String → α → Reader → α × Reader} {fields : List Field}
    {behind : Bool} {r : Reader} (onward : ∀ key v (r : Reader), r.Onward (read key v r).2)
    (outcome : ∀ key v (r : Reader), r.fault = none → r.Outcome True (read key v r).2)
    (keeps : ∀ key v (r : Reader), P v → P (read key v r).1)
    (steps : ∀ field ∈ fields, ∀ y z (r : Reader), P y → r.Fronts field.value
      → Layered fits joins y z (read field.key y r) (read field.key z r))
    (at_ : r.AtFields behind fields) (h : P y)
    : Layered fits joins y z (r.keys read y) (r.keys read z) := by
  induction fields generalizing y z r behind with
  | nil =>
      obtain ⟨q, reached, -, -⟩ := at_.nextKey_nil
      rw [Reader.keys, Reader.keys, reached]
      exact ⟨fun _ fit => fit, fun _ _ joined => ⟨rfl, joined⟩⟩
  | cons field fields ih =>
      obtain ⟨key, n⟩ := field
      obtain ⟨first, others⟩ := List.forall_mem_cons.mp steps
      obtain ⟨q, reached, front, pending, -, next⟩ := at_.nextKey_cons
      rw [Reader.keys_unfold onward, Reader.keys_unfold onward, reached]
      dsimp only
      rcases outcome key y q front.sound with failed | ⟨-, left⟩ | took
      · rw [keys_of_fault _ _ failed]
        exact layered_of_failed failed
      · exact layered_of_failed
          (Reader.isSome_keys_of_pending read _ left.sound (left.pending.trans pending))
      · have own := first y z q h front
        have rest (z' : α) := ih others (next _ took) (keeps key y q h) (z := z')
        refine ⟨fun sound fit => own.back took.sound ((rest z).back sound fit),
          fun sound fit joined => ?_⟩
        obtain ⟨same, inner⟩ := own.onward took.sound ((rest z).back sound fit) joined
        rw [same]
        exact (rest _).onward sound fit inner

theorem layered_object {P : α → Prop} {read : String → α → Reader → α × Reader} {n : Node}
    {r : Reader} (onward : ∀ key v (r : Reader), r.Onward (read key v r).2)
    (outcome : ∀ key v (r : Reader), r.fault = none → r.Outcome True (read key v r).2)
    (keeps : ∀ key v (r : Reader), P v → P (read key v r).1)
    (steps : ∀ fields, n = .object fields → ∀ field ∈ fields, ∀ y z (r : Reader), P y
      → r.Fronts field.value → Layered fits joins y z (read field.key y r) (read field.key z r))
    (front : r.Fronts n) (h : P y)
    : Layered fits joins y z (r.object read y) (r.object read z) := by
  rw [Reader.object, Reader.object]
  cases n with
  | object fields =>
      obtain ⟨q, entered, at_, -⟩ := front.enter_object
      rw [entered]
      exact layered_keys onward outcome keeps (steps fields rfl) at_ h
  | null | bool _ | number _ | string _ | array _ =>
      obtain ⟨refused, failed⟩ := front.isSome_enter .object nofun
      rw [show r.enter .object = (false, (r.enter .object).2) from Prod.ext refused rfl]
      exact layered_of_failed failed

/-- The elements of an array are read side by side, by induction on them. -/
theorem layered_elements {P : α → Prop} {read : α → Reader → α × Reader} {items : List Node}
    {behind : Bool} {r : Reader}
    (outcome : ∀ v (r : Reader), r.fault = none → r.Outcome True (read v r).2)
    (keeps : ∀ v (r : Reader), P v → P (read v r).1)
    (steps : ∀ n ∈ items, ∀ y z (r : Reader), P y → r.Fronts n
      → Layered fits joins y z (read y r) (read z r))
    (at_ : r.AtItems behind items) (h : P y)
    : Layered fits joins y z (r.elements read y) (r.elements read z) := by
  induction items generalizing y z r behind with
  | nil =>
      obtain ⟨q, reached, -, -⟩ := at_.nextElement_nil
      rw [Reader.elements, Reader.elements, reached]
      exact ⟨fun _ fit => fit, fun _ _ joined => ⟨rfl, joined⟩⟩
  | cons n items ih =>
      obtain ⟨first, others⟩ := List.forall_mem_cons.mp steps
      obtain ⟨q, reached, front, pending, -, next⟩ := at_.nextElement_cons
      rw [Reader.elements_unfold outcome, Reader.elements_unfold outcome, reached]
      dsimp only
      rcases outcome y q front.sound with failed | ⟨-, left⟩ | took
      · rw [elements_of_fault _ _ failed]
        exact layered_of_failed failed
      · exact layered_of_failed
          (Reader.isSome_elements_of_pending read _ left.sound (left.pending.trans pending))
      · have own := first y z q h front
        have rest (z' : α) := ih others (next _ took) (keeps y q h) (z := z')
        refine ⟨fun sound fit => own.back took.sound ((rest z).back sound fit),
          fun sound fit joined => ?_⟩
        obtain ⟨same, inner⟩ := own.onward took.sound ((rest z).back sound fit) joined
        rw [same]
        exact (rest _).onward sound fit inner

theorem layered_array {P : α → Prop} {read : α → Reader → α × Reader} {n : Node} {r : Reader}
    (outcome : ∀ v (r : Reader), r.fault = none → r.Outcome True (read v r).2)
    (keeps : ∀ v (r : Reader), P v → P (read v r).1)
    (steps : ∀ n y z (r : Reader), P y → r.Fronts n
      → Layered fits joins y z (read y r) (read z r))
    (front : r.Fronts n) (h : P y)
    : Layered fits joins y z (r.array read y) (r.array read z) := by
  rw [Reader.array, Reader.array]
  cases n with
  | array items =>
      obtain ⟨q, entered, at_, -⟩ := front.enter_array
      rw [entered]
      exact layered_elements outcome keeps (fun n _ => steps n) at_ h
  | null | bool _ | number _ | string _ | object _ =>
      obtain ⟨refused, failed⟩ := front.isSome_enter .array nofun
      rw [show r.enter .array = (false, (r.enter .array).2) from Prod.ext refused rfl]
      exact layered_of_failed failed

/-- It is enough to look at what joins before. -/
theorem layered_of_joins {x : α} {b : α → α × Reader} (joined : joins y x)
    (h : ∀ z, joins y z → Layered fits joins y z a (b z)) (z : α)
    : Layered fits joins y z a (b z) :=
  ⟨(h x joined).back, fun sound fit joined => (h z joined).onward sound fit joined⟩

theorem layered_settled {w : α} {q : Reader} (fit : fits y) (joined : joins w w)
    : Layered fits joins y z (w, q) (w, q) :=
  ⟨fun _ _ => fit, fun _ _ _ => ⟨rfl, joined⟩⟩

/-- What is read into a part is read into the whole. -/
theorem Layered.lift {β : Type} {fits' : β → Prop} {joins' : β → β → Prop}
    (h : Layered fits joins y z a b) (f : α → β) (fit : ∀ v, fits' (f v) ↔ fits v)
    (before : joins' (f y) (f z) → joins y z) (after : joins a.1 b.1 → joins' (f a.1) (f b.1))
    : Layered fits' joins' (f y) (f z) (f a.1, a.2) (f b.1, b.2) := by
  refine ⟨fun sound fits' => (fit _).mpr (h.back sound ((fit _).mp fits')),
    fun sound fits' joined => ?_⟩
  obtain ⟨same, inner⟩ := h.onward sound ((fit _).mp fits') (before joined)
  exact ⟨same, after inner⟩

theorem Layered.field {name : String} {r : Reader} {first second : Reader → α × Reader}
    (h : Layered fits joins y z (first { r with path := r.path.push name })
      (second { r with path := r.path.push name }))
    : Layered fits joins y z (r.withField name first) (r.withField name second) := by
  refine ⟨h.back, fun sound fit joined => ?_⟩
  obtain ⟨same, inner⟩ := h.onward sound fit joined
  exact ⟨congrArg (fun q : Reader => { q with path := r.path }) same, inner⟩

end

-----------------------------------------------------------------------------------------
-- Named members
-----------------------------------------------------------------------------------------

/-- The slot that a key names is read on top of the one below, by induction on the members. -/
theorem layered_readNamed {F : Member → Option (Slot → Reader → Slot × Reader)}
    {members : List Member} {xs ys zs : List Slot}
    (steps : List.Forall₂ (fun m x => ∀ read, F m = some read → ∀ y z, y.Sound s m
      → Layered (x.Room s m) (x.Joins s m) y z (read y r) (read z r)) members xs)
    (sound : List.Forall₂ (fun m slot => slot.Sound s m) members ys)
    (joined : SlotsJoin s members xs ys zs)
    : readNamed F members ys r = none ∧ readNamed F members zs r = none
      ∨ ∃ a b, readNamed F members ys r = some a ∧ readNamed F members zs r = some b
          ∧ Layered (slotsRoom s members xs) (SlotsJoin s members xs) ys zs a b := by
  induction joined with
  | nil => exact .inl ⟨rfl, rfl⟩
  | @cons m x y z members xs ys zs own others ih =>
      cases steps with
      | cons step steps =>
          cases sound with
          | cons first sound =>
              cases found : F m with
              | some read =>
                  have inner := step read found y z first
                  refine .inr ⟨((read y r).1 :: ys, (read y r).2),
                    ((read z r).1 :: zs, (read z r).2), by rw [readNamed, found],
                    by rw [readNamed, found],
                    fun fault fit => ⟨inner.back fault fit.1, fit.2⟩, fun fault fit _ => ?_⟩
                  obtain ⟨same, joins⟩ := inner.onward fault fit.1 own
                  exact ⟨same, .cons joins others⟩
              | none =>
                  rcases ih steps sound with ⟨missing, missing'⟩ | ⟨a, b, done, done', inner⟩
                  · refine .inl ⟨?_, ?_⟩
                    · rw [readNamed, found, missing]
                      rfl
                    · rw [readNamed, found, missing']
                      rfl
                  · refine .inr ⟨(y :: a.1, a.2), (z :: b.1, b.2),
                      by rw [readNamed, found, done]; rfl, by rw [readNamed, found, done']; rfl,
                      fun fault fit => ⟨fit.1, inner.back fault fit.2⟩, fun fault fit _ => ?_⟩
                    obtain ⟨same, joins⟩ := inner.onward fault fit.2 others
                    exact ⟨same, .cons own joins⟩

end Protobuf.Json
