import SynitWaf.Atomic.Pool

/-!
# Reasoning about one thread at a time

`p.Triple I φ Q` is a triple for a thread among others: if every operation of the thread and the state
in which it is performed satisfy `I`, then they satisfy `φ`, and the value it returns satisfies `Q`. In
`p.Ensures I φ Q` the assumption is about the states alone. When operations that satisfy `φ` keep it,
the triples of all threads hold together in every interleaving.

* `Prog.Triple`, `Prog.Ensures`; the rules `Triple.bind`, `Triple.mono`, `Triple.and`, `Ensures.lift`;
* `Triple.path`: the triple along a path; `Ensures.run`: for a program run alone;
* **`Pool.ensures`**: threads that keep `I` for each other all end as their triples say.
-/

namespace Atomic

variable {σ τ : Type} {S : Sig σ} {T : Sig τ} {α β : Type}

/-- As long as its operations are as in `I`, the program performs operations in `φ` and returns values
in `Q`. -/
def Prog.Triple (I φ : S.Op → σ → Prop) (Q : α → Prop) : Prog S α → Prop
  | .ret a => Q a
  | .act o k => ∀ s, I o s → φ o s ∧ (k (S.exec o s).1).Triple I φ Q

/-- In states that satisfy `I`, the program performs operations in `φ` and returns values in `Q`. -/
abbrev Prog.Ensures (I : σ → Prop) (φ : S.Op → σ → Prop) (Q : α → Prop) (p : Prog S α) : Prop :=
  p.Triple (fun _ => I) φ Q

namespace Prog.Triple

variable {I φ : S.Op → σ → Prop} {Q : α → Prop}

@[simp] theorem ret_iff (a : α) : (.ret a : Prog S α).Triple I φ Q ↔ Q a := Iff.rfl

@[simp] theorem act_iff (o : S.Op) (k : S.Res o → Prog S α) : (Prog.act o k).Triple I φ Q ↔
    ∀ s, I o s → φ o s ∧ (k (S.exec o s).1).Triple I φ Q := Iff.rfl

theorem bind {p : Prog S α} {f : α → Prog S β} {R : β → Prop} (hp : p.Triple I φ Q)
    (hf : ∀ a, Q a → (f a).Triple I φ R) : (p >>= f).Triple I φ R := by
  induction p with
  | ret a => exact hf a hp
  | act o k ih =>
    intro s hs
    exact ⟨(hp s hs).1, ih _ (hp s hs).2⟩

theorem mono {p : Prog S α} {φ' : S.Op → σ → Prop} {Q' : α → Prop} (hp : p.Triple I φ Q)
    (hφ : ∀ o s, φ o s → φ' o s) (hQ : ∀ a, Q a → Q' a) : p.Triple I φ' Q' := by
  induction p with
  | ret a => exact hQ a hp
  | act o k ih =>
    intro s hs
    exact ⟨hφ o s (hp s hs).1, ih _ (hp s hs).2⟩

/-- A triple for a stronger assumption. -/
theorem assume {p : Prog S α} {I' : S.Op → σ → Prop} (hp : p.Triple I φ Q)
    (hI : ∀ o s, I' o s → I o s) : p.Triple I' φ Q := by
  induction p with
  | ret a => exact hp
  | act o k ih =>
    intro s hs
    exact ⟨(hp s (hI o s hs)).1, ih _ (hp s (hI o s hs)).2⟩

theorem and {p : Prog S α} {Q' : α → Prop} (hp : p.Triple I φ Q) (hp' : p.Triple I φ Q') :
    p.Triple I φ fun a => Q a ∧ Q' a := by
  induction p with
  | ret a => exact ⟨hp, hp'⟩
  | act o k ih =>
    intro s hs
    exact ⟨(hp s hs).1, ih _ (hp s hs).2 (hp' s hs).2⟩

theorem path {p q : Prog S α} {t : Steps S} (h : Path p t q) (hp : p.Triple I φ Q)
    (hI : ∀ e ∈ t, I e.1 e.2) : q.Triple I φ Q ∧ ∀ e ∈ t, φ e.1 e.2 := by
  induction h with
  | nil p => exact ⟨hp, by simp⟩
  | cons h ih =>
    have hstep := hp _ (hI _ List.mem_cons_self)
    have hrest := ih hstep.2 fun e he => hI e (List.mem_cons_of_mem _ he)
    exact ⟨hrest.1, by simpa using ⟨hstep.1, fun o s he => hrest.2 (o, s) he⟩⟩

end Prog.Triple

namespace Prog.Ensures

variable {I : σ → Prop} {φ : S.Op → σ → Prop} {Q : α → Prop}

/-- The triple of a lifted program speaks about the part of the state it is lifted to. -/
theorem lift {E : Embed S T} {p : Prog S α} {ψ : T.Op → τ → Prop} (hp : p.Ensures I φ Q)
    (h : ∀ o t, φ o (E.view t) → ψ (E.op o) t) :
    (p.lift E).Ensures (fun t => I (E.view t)) ψ Q := by
  induction p with
  | ret a => exact hp
  | act o k ih =>
    intro t ht
    refine ⟨h o t (hp _ ht).1, ih _ ?_⟩
    rw [E.ans_exec]
    exact (hp _ ht).2

/-- A program that keeps `I` itself, run alone. -/
theorem run {p : Prog S α} (hp : p.Ensures I φ Q) (keep : ∀ o s, φ o s → I s → I (S.exec o s).2)
    {s : σ} (hs : I s) : Q (p.run s).1 ∧ I (p.run s).2 := by
  induction p generalizing s with
  | ret a => exact ⟨hp, hs⟩
  | act o k ih => exact ih _ (hp s hs).2 (keep o s (hp s hs).1 hs)

end Prog.Ensures

section Pool

variable {ι : Type} [DecidableEq ι] {I : σ → Prop} {φ : S.Op → σ → Prop} {Q : ι → α → Prop}
  {threads : ι → Prog S α} {mem : σ}

/-- **Threads that respect each other.** If every thread has its triple, and the operations they
perform keep `I`, then in every run all states satisfy `I`, all steps satisfy `φ`, and what a thread
returns satisfies its postcondition. -/
theorem Pool.ensures (ht : ∀ i, (threads i).Ensures I φ (Q i)) (hm : I mem)
    (keep : ∀ o s, φ o s → I s → I (S.exec o s).2) (sched : List ι) :
    I ((Pool.start threads mem).runs sched).mem ∧
      (∀ e ∈ ((Pool.start threads mem).runs sched).trace, I e.2.2 ∧ φ e.2.1 e.2.2) ∧
      ∀ i a, ((Pool.start threads mem).runs sched).threads i = .ret a → Q i a := by
  have hinv : I ((Pool.start threads mem).runs sched).mem ∧
      (∀ e ∈ ((Pool.start threads mem).runs sched).trace, I e.2.2 ∧ φ e.2.1 e.2.2) ∧
      ∀ i, (((Pool.start threads mem).runs sched).threads i).Ensures I φ (Q i) := by
    refine Pool.runs_induction (c := Pool.start threads mem)
      (P := fun c => I c.mem ∧ (∀ e ∈ c.trace, I e.2.2 ∧ φ e.2.1 e.2.2) ∧
        ∀ i, (c.threads i).Ensures I φ (Q i)) ⟨hm, by simp [Pool.start], ht⟩ ?_ sched
    rintro d j ⟨hmem, htrace, hthreads⟩
    obtain h | ⟨o, k, hj, -, h⟩ := d.step_cases j
    · rw [h]
      exact ⟨hmem, htrace, hthreads⟩
    · have hstep := hthreads j
      rw [hj] at hstep
      have hs := hstep d.mem hmem
      rw [h]
      refine ⟨keep o d.mem hs.1 hmem, ?_, ?_⟩
      · intro e he
        rcases List.mem_append.mp he with he | he
        · exact htrace e he
        · rw [List.mem_singleton.mp he]
          exact ⟨hmem, hs.1⟩
      · intro i
        by_cases hi : i = j
        · subst hi
          simpa using hs.2
        · simpa [Function.update_of_ne hi] using hthreads i
  refine ⟨hinv.1, hinv.2.1, fun i a hi => ?_⟩
  have hret := hinv.2.2 i
  rw [hi] at hret
  exact hret

end Pool

end Atomic
