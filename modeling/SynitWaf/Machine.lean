import Mathlib.Data.List.Induction
import Mathlib.Data.Nat.Notation

/-!
# Machines with labelled steps

A machine takes a step for a label, or is not able to. A run is a list of labels.

* `run`, `run_append`;
* **`run_induction`**: what holds of a run at the beginning and is kept by every step holds of
  every run;
* **`run_invariant`**: the same for a property of states.
-/

namespace Machine

variable {σ ℓ : Type} {step : σ → ℓ → Option σ}

/-- The state after the steps of a run, if the machine can take them. -/
def run (step : σ → ℓ → Option σ) (s : σ) (labels : List ℓ) : Option σ := labels.foldlM step s

theorem run_append_list (s : σ) (labels labels' : List ℓ) :
    run step s (labels ++ labels') = (run step s labels).bind (run step · labels') :=
  List.foldlM_append ..

theorem run_append (s : σ) (labels : List ℓ) (l : ℓ) :
    run step s (labels ++ [l]) = (run step s labels).bind (step · l) := by
  rw [run_append_list]
  cases run step s labels with
  | none => rfl
  | some s' => simp [run]

/-- **Induction over a run**, step by step. -/
theorem run_induction {P : List ℓ → σ → Prop} {s : σ} (hinit : P [] s)
    (hstep : ∀ labels s₁ l s₂, run step s labels = some s₁ → P labels s₁ → step s₁ l = some s₂ →
      P (labels ++ [l]) s₂) {labels : List ℓ} {s' : σ} (h : run step s labels = some s') :
    P labels s' := by
  induction labels using List.reverseRecOn generalizing s' with
  | nil => cases h; exact hinit
  | append_singleton labels l ih =>
    rw [run_append] at h
    obtain ⟨s₁, hs₁, hl⟩ := Option.bind_eq_some_iff.mp h
    exact hstep labels s₁ l s' hs₁ (ih hs₁) hl

/-- **Invariants** hold at the end of every run. -/
theorem run_invariant {I : σ → Prop} {s : σ} (hinit : I s)
    (hstep : ∀ s₁ l s₂, I s₁ → step s₁ l = some s₂ → I s₂) {labels : List ℓ} {s' : σ}
    (h : run step s labels = some s') : I s' :=
  run_induction (P := fun _ s => I s) hinit (fun _ s₁ l s₂ _ hI hl => hstep s₁ l s₂ hI hl) h

end Machine
