import Mathlib.Logic.Function.Basic

/-!
# Holders of a lock

A lock is a flag, and each thread knows whether it holds it.

* `Exclusive holds locked`: the flag is set while a thread holds the lock, and at most one does;
* **`Exclusive.take`**, **`Exclusive.release`**: locking and unlocking keep this.
-/

namespace Atomic

variable {ι : Type} [DecidableEq ι]

/-- At most one thread holds the lock, and the flag tells whether one does. -/
structure Exclusive (holds : ι → Bool) (locked : Bool) : Prop where
  unique : ∀ i j, holds i = true → holds j = true → i = j
  locked_iff : locked = true ↔ ∃ i, holds i = true

omit [DecidableEq ι] in
theorem Exclusive.start {holds : ι → Bool} (h : ∀ i, holds i = false) : Exclusive holds false where
  unique i _ hi := by
    rw [h i] at hi
    cases hi
  locked_iff := by simp [h]

/-- A free lock is taken. -/
theorem Exclusive.take {holds : ι → Bool} (h : Exclusive holds false) (i : ι) :
    Exclusive (Function.update holds i true) true := by
  have hfree : ∀ j, holds j ≠ true := fun j hj => nomatch h.locked_iff.mpr ⟨j, hj⟩
  have honly : ∀ j, Function.update holds i true j = true → j = i := by
    intro j hj
    by_contra hne
    rw [Function.update_of_ne hne] at hj
    exact hfree j hj
  refine ⟨fun j k hj hk => (honly j hj).trans (honly k hk).symm, fun _ => ⟨i, ?_⟩, fun _ => rfl⟩
  rw [Function.update_self]

/-- The holder gives the lock back. -/
theorem Exclusive.release {holds : ι → Bool} {locked : Bool} (h : Exclusive holds locked) {i : ι}
    (hi : holds i = true) : Exclusive (Function.update holds i false) false := by
  refine .start fun j => ?_
  by_cases hj : j = i
  · rw [hj, Function.update_self]
  · rw [Function.update_of_ne hj, Bool.eq_false_iff]
    exact fun hh => hj (h.unique j i hh hi)

/-- Steps that are not about the lock. -/
theorem Exclusive.keep {holds : ι → Bool} {locked : Bool} (h : Exclusive holds locked) {i : ι}
    {b : Bool} (hb : b = holds i) : Exclusive (Function.update holds i b) locked := by
  rw [hb, Function.update_eq_self]
  exact h

end Atomic
