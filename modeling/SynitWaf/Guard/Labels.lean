import Mathlib.Data.List.Basic
import SynitWaf.Guard.Classifier

/-!
# The labels of the guard's model

The guard starts only if the configured sets tell the two labels of its model apart.

* **`validateModelLabels`**;
* **`valid_labels_scored`**: `infer` knows both labels, and does not take one for the other.
-/

namespace SynitWaf.Guard

open Go

variable {c : ModelLabels} {labels : List GoString}

/-- One round of the loop of `validateModelLabels`. -/
def countLabel (c : ModelLabels) (counts : ℕ × ℕ) (rawLabel : GoString) : Result (ℕ × ℕ) :=
  let label := c.unicode.toUpper (trimSpace rawLabel)
  if c.injectionLabels label = c.safeLabels label then
    .error (str "model label " ++ c.quote rawLabel ++
      str " must belong to exactly one configured label set")
  else .ok (if c.injectionLabels label then (counts.1 + 1, counts.2) else (counts.1, counts.2 + 1))

/-- `validateModelLabels`, with the labels in the order of the iteration. -/
def validateModelLabels (c : ModelLabels) (labels : List GoString) : Result Unit := do
  refuse (labels.length ≠ 2) (str "prompt-injection model must expose exactly two labels")
  let counts ← labels.foldlM (countLabel c) (0, 0)
  refuse (counts.1 ≠ 1 ∨ counts.2 ≠ 1)
    (str "prompt-injection model must expose exactly one injection and one safe label")

theorem countLabel_eq_ok {counts counts' : ℕ × ℕ} {rawLabel : GoString}
    (h : countLabel c counts rawLabel = .ok counts') : ∃ b : Bool,
      (∀ i score, scoreOf c i [(rawLabel, score)] = .ok (if b then score else 1 - score)) ∧
        counts' = if b then (counts.1 + 1, counts.2) else (counts.1, counts.2 + 1) := by
  refine ⟨c.injectionLabels (c.unicode.toUpper (trimSpace rawLabel)), ?_⟩
  simp only [countLabel, scoreOf] at h ⊢
  split at h <;> cases h
  cases hinjection : c.injectionLabels (c.unicode.toUpper (trimSpace rawLabel)) <;> simp_all

theorem validateModelLabels_eq_ok (h : validateModelLabels c labels = .ok ()) :
    ∃ injection safe, labels.Perm [injection, safe] ∧ ∀ i score,
      scoreOf c i [(injection, score)] = .ok score ∧ scoreOf c i [(safe, score)] = .ok (1 - score) := by
  obtain ⟨_, hlength, h⟩ := result_bind_eq_ok.mp h
  obtain ⟨x, y, rfl⟩ := List.length_eq_two.mp (not_not.mp (refuse_eq_ok.mp hlength))
  obtain ⟨_, hcounts, h⟩ := result_bind_eq_ok.mp h
  obtain ⟨_, hx, hcounts⟩ := result_bind_eq_ok.mp hcounts
  obtain ⟨_, hy, hcounts⟩ := result_bind_eq_ok.mp hcounts
  cases hcounts
  obtain ⟨b, hx', rfl⟩ := countLabel_eq_ok hx
  obtain ⟨b', hy', rfl⟩ := countLabel_eq_ok hy
  cases b <;> cases b'
  · simp at h
  · exact ⟨y, x, .swap .., fun i score => ⟨hy' i score, hx' i score⟩⟩
  · exact ⟨x, y, .refl _, fun i score => ⟨hx' i score, hy' i score⟩⟩
  · simp at h

theorem mapM_scoreOf {f : GoString × ℚ → ℚ} {outputs : List (GoString × ℚ)}
    (h : ∀ o ∈ outputs, ∀ i, scoreOf c i [o] = .ok (f o)) (k : ℕ) :
    ((outputs.map fun o => [o]).zipIdx k).mapM (fun (o, i) => scoreOf c i o) =
      .ok (outputs.map f) := by
  induction outputs generalizing k with
  | nil => rfl
  | cons o outputs ih =>
    obtain ⟨ho, houtputs⟩ := List.forall_mem_cons.mp h
    simp only [List.map_cons, List.zipIdx_cons, List.mapM_cons, ho, ih houtputs]
    rfl

/-- **The scores of a model with valid labels.** One of its two labels stands for injections. Every
run that gives each text one of the two labels is scored: by the score if it is this label, and by
what is missing to 1 if it is the other. -/
theorem valid_labels_scored (c : ModelLabels) (labels : List GoString)
    (hvalid : validateModelLabels c labels = .ok ()) : ∃ injection safe,
      labels.Perm [injection, safe] ∧ ∀ (texts : List GoString) (outputs : List (GoString × ℚ)),
        outputs.length = texts.length → (∀ o ∈ outputs, o.1 ∈ labels) →
        infer c texts (.outputs (outputs.map fun o => [o])) =
          .ok (outputs.map fun o => if o.1 = injection then o.2 else 1 - o.2) := by
  obtain ⟨injection, safe, hperm, hscore⟩ := validateModelLabels_eq_ok hvalid
  refine ⟨injection, safe, hperm, fun texts outputs hlength hlabels => ?_⟩
  simp only [infer, List.length_map, hlength, ne_eq, not_true, if_false]
  refine mapM_scoreOf (fun o ho i => ?_) 0
  obtain ⟨label, score⟩ := o
  have hlabel := hperm.mem_iff.mp (hlabels _ ho)
  dsimp only at hlabel ⊢
  split_ifs with heq
  · rw [heq, (hscore i score).1]
  · simp only [List.mem_cons, heq, List.not_mem_nil, or_false, false_or] at hlabel
    rw [hlabel, (hscore i score).2]

theorem valid_labels_scored_plain : ∃ injection,
    infer plainLabels [str "a"] (.outputs [[(str "SAFE", 1 / 4)]]) =
      .ok [if str "SAFE" = injection then 1 / 4 else 1 - 1 / 4] := by
  obtain ⟨injection, _, -, h⟩ :=
    valid_labels_scored plainLabels [str "SAFE", str "INJECTION"] (by decide +kernel)
  exact ⟨injection, h [str "a"] [(str "SAFE", 1 / 4)] rfl (by simp)⟩

end SynitWaf.Guard
