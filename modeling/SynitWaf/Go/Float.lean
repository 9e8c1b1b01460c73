import Mathlib.Data.Rat.Defs

/-!
# Floating point numbers

The values of a `float64`, with the comparisons of Go: not-a-number compares with nothing.

* `Float64`, `Float64.notPositive`, `Float64.same`.
-/

namespace Go

/-- A `float64`: not a number, an infinity or a finite number. -/
inductive Float64 where
  | nan
  | inf (negative : Bool)
  | finite (q : ℚ)
  deriving DecidableEq

/-- `x <= 0`. -/
def Float64.notPositive : Float64 → Bool
  | .nan => false
  | .inf negative => negative
  | .finite q => q ≤ 0

/-- `x == y`. -/
def Float64.same : Float64 → Float64 → Bool
  | .nan, _ => false
  | x, y => x = y

theorem Float64.eq_of_same {x y : Float64} (h : x.same y = true) : x = y := by
  cases x with
  | nan => cases h
  | inf negative => exact of_decide_eq_true h
  | finite q => exact of_decide_eq_true h

@[simp] theorem Float64.finite_same (q : ℚ) : (finite q).same (finite q) = true :=
  decide_eq_true rfl

end Go
