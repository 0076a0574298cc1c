import Protobuf.Indexed

/-! Computations that read by index beside those that consume bytes from the front.  From an offset
inside, the one comes to what the other makes of the bytes from there on; then it is not out of
range, and it leaves the offset inside.
-/

namespace Protobuf

-----------------------------------------------------------------------------------------
-- Bytes between offsets
-----------------------------------------------------------------------------------------

variable {data : List UInt8} {start stop i j : Nat}

/-- A slice within the data is there. -/
theorem between?_eq_some (order : start ≤ stop) (inside : stop ≤ data.length)
    : between? data start stop = some ((data.drop start).take (stop - start)) :=
  if_pos ⟨order, inside⟩

/-- A slice beyond the end is out of range. -/
theorem between?_eq_none (short : data.length < stop)
    : between? data start stop = none :=
  if_neg fun both => Nat.not_lt.mpr both.2 short

/-- Bytes that are there lie between offsets inside. -/
theorem bounds_of_between? {bytes : List UInt8} (h : between? data start stop = some bytes)
    : start ≤ stop ∧ stop ≤ data.length ∧ bytes = (data.drop start).take (stop - start)
        ∧ bytes.length = stop - start := by
  unfold between? at h
  split at h
  · rename_i bounds
    cases h
    refine ⟨bounds.1, bounds.2, rfl, ?_⟩
    rw [List.length_take, List.length_drop]
    omega
  · cases h

/-- The bytes up to the end are those that are not dropped. -/
theorem between?_length (inside : start ≤ data.length)
    : between? data start data.length = some (data.drop start) := by
  rw [between?_eq_some inside (Nat.le_refl _), ← List.length_drop, List.take_length]

-----------------------------------------------------------------------------------------
-- Views
-----------------------------------------------------------------------------------------

namespace Indexed

variable {ε α β : Type}

/-- What a computation comes to by index and what one comes to by its bytes: the same value or
error, with the offset in front of the bytes that are left.
-/
inductive Agrees (data : List UInt8)
    : EStateM.Result (Interruption ε) Nat α → EStateM.Result ε (List UInt8) α → Prop
  | ok {v : α} {j : Nat} (inside : j ≤ data.length) : Agrees data (.ok v j) (.ok v (data.drop j))
  | failed {e : ε} {j : Nat} (inside : j ≤ data.length)
    : Agrees data (.error (.failed e) j) (.error e (data.drop j))

/-- From every offset inside, the one computation comes to what the other makes of the bytes there.
-/
def Views (read : Indexed ε α) (d : EStateM ε (List UInt8) α) : Prop :=
  ∀ data i, i ≤ data.length → Agrees data (read data i) (d (data.drop i))

theorem bind_apply (read : Indexed ε α) (f : α → Indexed ε β)
    : (read >>= f) data i
        = match read data i with
          | .ok v j => f v data j
          | .error why j => .error why j := by
  simp only [Bind.bind, ReaderT.bind, EStateM.bind]
  cases read data i <;> rfl

/-- Reading on from where a computation has come to. -/
theorem Agrees.bind {read : Indexed ε α} {d : EStateM ε (List UInt8) α} {f : α → Indexed ε β}
    {g : α → EStateM ε (List UInt8) β} (first : Agrees data (read data i) (d (data.drop i)))
    (others : ∀ v j, read data i = .ok v j → j ≤ data.length
      → Agrees data (f v data j) (g v (data.drop j)))
    : Agrees data ((read >>= f) data i) ((d >>= g) (data.drop i)) := by
  rw [bind_apply]
  simp only [Bind.bind, EStateM.bind]
  generalize read data i = result at first others ⊢
  generalize d (data.drop i) = seen at first ⊢
  cases first with
  | ok inside => exact others _ _ rfl inside
  | failed inside => exact .failed inside

/-- What is read next is read behind, by its offset as in front of the rest. -/
theorem Views.bind {read : Indexed ε α} {d : EStateM ε (List UInt8) α} {f : α → Indexed ε β}
    {g : α → EStateM ε (List UInt8) β} (first : Views read d) (others : ∀ v, Views (f v) (g v))
    : Views (read >>= f) (d >>= g) :=
  fun data i inside => (first data i inside).bind fun v j _ inside => others v data j inside

theorem views_pure (v : α)
    : Views (pure v : Indexed ε α) (pure v) :=
  fun _ _ inside => .ok inside

theorem views_fail (e : ε)
    : Views (fail e : Indexed ε α) (throw e) :=
  fun _ _ inside => .failed inside

variable {read : Indexed ε α} {d : EStateM ε (List UInt8) α}

theorem Views.of_ok (h : Views read d) (inside : i ≤ data.length) {v : α}
    (found : read data i = .ok v j)
    : j ≤ data.length ∧ d (data.drop i) = .ok v (data.drop j) := by
  have own := h data i inside
  rw [found] at own
  generalize d (data.drop i) = seen at own ⊢
  cases own with
  | ok inside => exact ⟨inside, rfl⟩

end Indexed

end Protobuf
