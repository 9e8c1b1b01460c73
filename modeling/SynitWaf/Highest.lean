import Mathlib.Order.MinMax

/-!
# The highest element of a list

* `foldl_max_le_iff`, `le_foldl_max_iff`: bounds of a running maximum;
* `IsHighest`, **`isHighest_foldl`**: a running maximum from below is the highest element.
-/

namespace Highest

variable {α : Type} [LinearOrder α] {l : List α} {h x : α}

theorem foldl_max_le_iff : l.foldl max h ≤ x ↔ h ≤ x ∧ ∀ y ∈ l, y ≤ x := by
  induction l generalizing h with
  | nil => simp
  | cons y l ih => simp [ih, and_assoc]

theorem le_foldl_max_iff : x ≤ l.foldl max h ↔ x ≤ h ∨ ∃ y ∈ l, x ≤ y := by
  induction l generalizing h with
  | nil => simp
  | cons y l ih => simp [ih, or_assoc]

/-- `x` is the highest element of `l`. -/
def IsHighest (x : α) (l : List α) : Prop := x ∈ l ∧ ∀ y ∈ l, y ≤ x

theorem foldl_max_mem (h : α) (l : List α) : l.foldl max h = h ∨ l.foldl max h ∈ l := by
  induction l generalizing h with
  | nil => exact .inl rfl
  | cons y l ih =>
    rw [List.foldl_cons]
    rcases ih (max h y) with heq | hmem
    · rcases max_choice h y with hmax | hmax
      · exact .inl (heq.trans hmax)
      · exact .inr (by rw [heq, hmax]; exact List.mem_cons_self)
    · exact .inr (List.mem_cons_of_mem y hmem)

/-- **A running maximum** that starts below all elements is the highest one. -/
theorem isHighest_foldl (hne : l ≠ []) (hle : ∀ y ∈ l, h ≤ y) : IsHighest (l.foldl max h) l := by
  have hbound := (foldl_max_le_iff (l := l)).mp (le_refl (l.foldl max h))
  refine ⟨?_, hbound.2⟩
  rcases foldl_max_mem h l with heq | hmem
  · -- the start is the maximum, so every element equals it
    obtain ⟨y, hy⟩ := List.exists_mem_of_ne_nil l hne
    have hy' : y = h := le_antisymm ((hbound.2 y hy).trans_eq heq) (hle y hy)
    rwa [heq, ← hy']
  · exact hmem

end Highest
