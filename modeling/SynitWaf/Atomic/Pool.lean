import SynitWaf.Atomic.Prog

/-!
# Interleaved runs of a pool of programs

A pool holds one program per thread and the shared state. A schedule names the thread of each
step; scheduling a finished or blocked thread changes nothing. Every step taken is recorded
with the state it was taken in, so that a condition on an interleaving is a condition on its
trace.

* `Pool.step`, `Pool.runs`, `Pool.step_cases`, `Pool.runs_induction`, `Pool.runs_locals`;
* `own i t`: the part of a trace taken by thread `i`; **`path_own`**: it is a path of the
  program of `i`, so that facts about one thread are proved without its environment;
  **`returns_of_within`**: a bounded thread returns when it is scheduled often enough;
* `replay`: the state after a trace; **`state_of_split`**: the state recorded at a step is the
  replay of the steps before it;
* `AtSteps`: a condition on every step of a trace.
-/

namespace Atomic

variable {σ : Type} {S : Sig σ} {ι α : Type} [DecidableEq ι]

/-- The steps of all threads, in order, each with its thread and the state it was taken in. -/
abbrev Trace (S : Sig σ) (ι : Type) : Type := List (ι × S.Op × σ)

/-- Threads over a shared state, with the trace of the steps taken so far. -/
structure Pool (S : Sig σ) (ι α : Type) where
  threads : ι → Prog S α
  mem : σ
  trace : Trace S ι

/-- Threads about to start. -/
def Pool.start (threads : ι → Prog S α) (mem : σ) : Pool S ι α := ⟨threads, mem, []⟩

/-- One step of thread `i`. -/
def Pool.step (c : Pool S ι α) (i : ι) : Pool S ι α :=
  match c.threads i with
  | .ret _ => c
  | .act o k =>
    if S.enabled o c.mem then
      { threads := Function.update c.threads i (k (S.exec o c.mem).1)
        mem := (S.exec o c.mem).2
        trace := c.trace ++ [(i, o, c.mem)] }
    else c

/-- A whole schedule. -/
def Pool.runs (c : Pool S ι α) (sched : List ι) : Pool S ι α := sched.foldl Pool.step c

/-- **What a step can do**: nothing, or one enabled operation of the scheduled thread. -/
theorem Pool.step_cases (c : Pool S ι α) (i : ι) : c.step i = c ∨
    ∃ o k, c.threads i = .act o k ∧ S.enabled o c.mem ∧ c.step i =
      ⟨Function.update c.threads i (k (S.exec o c.mem).1), (S.exec o c.mem).2,
        c.trace ++ [(i, o, c.mem)]⟩ := by
  unfold Pool.step
  split
  next => exact .inl rfl
  next o k h =>
    split
    next he => exact .inr ⟨o, k, h, he, rfl⟩
    next => exact .inl rfl

/-- A property of the start that every step keeps holds after every schedule. -/
theorem Pool.runs_induction {P : Pool S ι α → Prop} {c : Pool S ι α} (h₀ : P c)
    (hs : ∀ d i, P d → P (d.step i)) (sched : List ι) : P (c.runs sched) := by
  induction sched generalizing c with
  | nil => exact h₀
  | cons i sched ih => exact ih (hs c i h₀)

/-- **Every part of a trace up to a step is a run**, and the step records the state it ends in. -/
theorem Pool.runs_split {c : Pool S ι α} (hc : c.trace = []) {sched : List ι} {t₁ t₂ : Trace S ι}
    {e : ι × S.Op × σ} (h : (c.runs sched).trace = t₁ ++ e :: t₂) :
    ∃ sched', (c.runs sched').trace = t₁ ∧ (c.runs sched').mem = e.2.2 := by
  induction sched using List.reverseRecOn generalizing t₂ with
  | nil =>
    have hnil : [] = t₁ ++ e :: t₂ := hc.symm.trans h
    simp at hnil
  | append_singleton sched j ih =>
    rw [Pool.runs, List.foldl_append, ← Pool.runs] at h
    obtain hstep | ⟨o, k, -, -, hstep⟩ := (c.runs sched).step_cases j
    · exact ih (h ▸ congrArg Pool.trace hstep.symm)
    · have htrace : (c.runs sched).trace ++ [(j, o, (c.runs sched).mem)] = t₁ ++ e :: t₂ :=
        (congrArg Pool.trace hstep).symm.trans h
      cases t₂ using List.reverseRecOn with
      | nil =>
        obtain ⟨ht, he⟩ := List.append_inj' htrace rfl
        cases he
        exact ⟨sched, ht, rfl⟩
      | append_singleton t₂ x =>
        rw [← List.cons_append, ← List.append_assoc] at htrace
        exact ih (List.append_inj' htrace rfl).1

/-- **Threads with local states.** Each thread is at a local state that stands for the rest of its
program, and `Move` says how a step changes it; what every move keeps holds after every schedule. -/
theorem Pool.runs_locals {L : Type} (prog : L → Prog S α) {Move : σ → L → S.Op → L → Prop}
    (hmove : ∀ l o k s, prog l = .act o k → ∃ l', k (S.exec o s).1 = prog l' ∧ Move s l o l')
    {P : (ι → L) → σ → Trace S ι → Prop} {loc : ι → L} {mem : σ} (h₀ : P loc mem [])
    (hs : ∀ loc s t j o l, P loc s t → S.enabled o s = true → Move s (loc j) o l →
      P (Function.update loc j l) (S.exec o s).2 (t ++ [(j, o, s)])) (sched : List ι) :
    ∃ loc', (∀ i, ((Pool.start (prog ∘ loc) mem).runs sched).threads i = prog (loc' i)) ∧
      P loc' ((Pool.start (prog ∘ loc) mem).runs sched).mem
        ((Pool.start (prog ∘ loc) mem).runs sched).trace := by
  refine Pool.runs_induction (c := Pool.start (prog ∘ loc) mem)
    (P := fun c => ∃ loc', (∀ i, c.threads i = prog (loc' i)) ∧ P loc' c.mem c.trace)
    ⟨loc, fun _ => rfl, h₀⟩ ?_ sched
  rintro d j ⟨loc', hprog, hP⟩
  obtain h | ⟨o, k, ht, he, h⟩ := d.step_cases j
  · rw [h]
    exact ⟨loc', hprog, hP⟩
  · obtain ⟨l, hk, hm⟩ := hmove (loc' j) o k d.mem ((hprog j).symm.trans ht)
    rw [h]
    refine ⟨Function.update loc' j l, fun i => ?_, hs loc' d.mem d.trace j o l hP he hm⟩
    by_cases hi : i = j
    · subst hi
      simpa using hk
    · simpa [Function.update_of_ne hi] using hprog i

/-! ## The steps of one thread -/

/-- The steps thread `i` took, in order. -/
def own (i : ι) (t : Trace S ι) : Steps S :=
  t.filterMap fun e => if e.1 = i then some e.2 else none

@[simp] theorem own_nil (i : ι) : own i ([] : Trace S ι) = [] := rfl

@[simp] theorem own_append (i : ι) (t u : Trace S ι) :
    own i (t ++ u) = own i t ++ own i u := List.filterMap_append

@[simp] theorem own_cons_self (i : ι) (e : S.Op × σ) (t : Trace S ι) :
    own i ((i, e) :: t) = e :: own i t := by
  simp [own]

theorem own_cons_ne {i j : ι} (h : j ≠ i) (e : S.Op × σ) (t : Trace S ι) :
    own i ((j, e) :: t) = own i t := by
  simp [own, h]

theorem mem_own {i : ι} {e : S.Op × σ} {t : Trace S ι} : e ∈ own i t ↔ (i, e) ∈ t := by
  simp only [own, List.mem_filterMap]
  constructor
  · rintro ⟨⟨j, e'⟩, hm, he⟩
    by_cases hj : j = i
    · rw [if_pos hj] at he
      cases he
      exact hj ▸ hm
    · rw [if_neg hj] at he
      cases he
  · intro h
    exact ⟨(i, e), h, if_pos rfl⟩

/-- A step of thread `i` splits the trace of all threads where it splits that of `i`. -/
theorem own_split {i : ι} {t : Trace S ι} {a b : Steps S} {e : S.Op × σ}
    (h : own i t = a ++ e :: b) :
    ∃ t₁ t₂, t = t₁ ++ (i, e) :: t₂ ∧ own i t₁ = a ∧ own i t₂ = b := by
  induction t generalizing a with
  | nil => simp at h
  | cons x t ih =>
    obtain ⟨j, x⟩ := x
    by_cases hj : j = i
    · subst hj
      rw [own_cons_self] at h
      cases a with
      | nil =>
        obtain ⟨rfl, rfl⟩ := List.cons_eq_cons.mp h
        exact ⟨[], t, rfl, rfl, rfl⟩
      | cons y a =>
        obtain ⟨rfl, ht⟩ := List.cons_eq_cons.mp h
        obtain ⟨t₁, t₂, rfl, rfl, rfl⟩ := ih ht
        exact ⟨(j, x) :: t₁, t₂, rfl, own_cons_self _ _ _, rfl⟩
    · rw [own_cons_ne hj] at h
      obtain ⟨t₁, t₂, rfl, rfl, rfl⟩ := ih h
      exact ⟨(j, x) :: t₁, t₂, rfl, own_cons_ne hj _ _, rfl⟩

/-- **The steps of a thread are a path of its program.** -/
theorem path_own (threads : ι → Prog S α) (mem : σ) (sched : List ι) (i : ι) :
    Path (threads i) (own i ((Pool.start threads mem).runs sched).trace)
      (((Pool.start threads mem).runs sched).threads i) := by
  refine Pool.runs_induction (P := fun c => Path (threads i) (own i c.trace) (c.threads i))
    (.nil _) ?_ sched
  intro d j hd
  obtain h | ⟨o, k, ht, -, h⟩ := d.step_cases j
  · rw [h]; exact hd
  · rw [h]
    by_cases hj : j = i
    · subst hj
      rw [ht] at hd
      simpa using hd.snoc d.mem
    · simpa [own_cons_ne hj, Function.update_of_ne (Ne.symm hj)] using hd

/-- A thread that is never blocked moves whenever it is scheduled, until it returns. -/
theorem length_own_of_enabled (hS : ∀ o s, S.enabled o s = true) (threads : ι → Prog S α) (mem : σ)
    (sched : List ι) (i : ι) :
    (∃ a, ((Pool.start threads mem).runs sched).threads i = .ret a) ∨
      (own i ((Pool.start threads mem).runs sched).trace).length = sched.count i := by
  induction sched using List.reverseRecOn with
  | nil => exact .inr rfl
  | append_singleton sched j ih =>
    rw [Pool.runs, List.foldl_append, ← Pool.runs]
    set d := (Pool.start threads mem).runs sched
    change (∃ a, (d.step j).threads i = .ret a) ∨
      (own i (d.step j).trace).length = (sched ++ [j]).count i
    by_cases hj : j = i
    · subst hj
      cases ht : d.threads j with
      | ret a => exact .inl ⟨a, by simp [Pool.step, ht]⟩
      | act o k =>
        obtain ⟨a, ha⟩ | ih := ih
        · rw [ha] at ht; cases ht
        · exact .inr (by simp [Pool.step, ht, hS, ih])
    · obtain h | ⟨o, k, -, -, h⟩ := d.step_cases j
      · rw [h]; simpa [hj] using ih
      · rw [h]; simpa [hj, own_cons_ne hj, Function.update_of_ne (Ne.symm hj)] using ih

/-- **A bounded thread that is never blocked returns** once it has been scheduled often enough. -/
theorem returns_of_within (hS : ∀ o s, S.enabled o s = true) {threads : ι → Prog S α} {mem : σ}
    {sched : List ι} {i : ι} {Q : α → Prop} {n : ℕ} (hp : (threads i).Within Q n)
    (hn : n ≤ sched.count i) :
    ∃ a, ((Pool.start threads mem).runs sched).threads i = .ret a := by
  obtain h | h := length_own_of_enabled hS threads mem sched i
  · exact h
  · have hw := (path_own threads mem sched i).within hp
    rw [h, Nat.sub_eq_zero_of_le hn] at hw
    exact hw.zero

/-! ## States along a trace -/

/-- The state after the steps of a trace. -/
def replay (s : σ) (t : Trace S ι) : σ := t.foldl (fun s e => (S.exec e.2.1 s).2) s

omit [DecidableEq ι] in
@[simp] theorem replay_nil (s : σ) : replay s ([] : Trace S ι) = s := rfl

omit [DecidableEq ι] in
@[simp] theorem replay_append (s : σ) (t u : Trace S ι) :
    replay s (t ++ u) = replay (replay s t) u := List.foldl_append

omit [DecidableEq ι] in
@[simp] theorem replay_cons (s : σ) (e : ι × S.Op × σ) (t : Trace S ι) :
    replay s (e :: t) = replay (S.exec e.2.1 s).2 t := rfl

/-- Every step of `t` records the state that the steps before it lead to. -/
def Chained (s : σ) : Trace S ι → Prop
  | [] => True
  | e :: t => e.2.2 = s ∧ Chained (S.exec e.2.1 s).2 t

omit [DecidableEq ι] in
theorem chained_append {s : σ} {t u : Trace S ι} :
    Chained s (t ++ u) ↔ Chained s t ∧ Chained (replay s t) u := by
  induction t generalizing s with
  | nil => simp [Chained]
  | cons e t ih => simp [Chained, ih, and_assoc]

theorem chained_runs (threads : ι → Prog S α) (mem : σ) (sched : List ι) :
    Chained mem ((Pool.start threads mem).runs sched).trace ∧
      ((Pool.start threads mem).runs sched).mem =
        replay mem ((Pool.start threads mem).runs sched).trace := by
  refine Pool.runs_induction (c := Pool.start threads mem)
    (P := fun c => Chained mem c.trace ∧ c.mem = replay mem c.trace) ⟨trivial, rfl⟩ ?_ sched
  rintro d j ⟨hc, hm⟩
  obtain h | ⟨o, k, -, -, h⟩ := d.step_cases j
  · rw [h]; exact ⟨hc, hm⟩
  · rw [h]
    refine ⟨chained_append.mpr ⟨hc, hm, trivial⟩, ?_⟩
    rw [replay_append, ← hm]
    rfl

omit [DecidableEq ι] in
/-- **The state recorded at a step** is the replay of the steps before it. -/
theorem state_of_split {s : σ} {t₁ t₂ : Trace S ι} {e : ι × S.Op × σ}
    (h : Chained s (t₁ ++ e :: t₂)) : e.2.2 = replay s t₁ := (chained_append.mp h).2.1

omit [DecidableEq ι] in
/-- What every step of a trace keeps. -/
theorem replay_induction {P : σ → Prop} {s : σ} {t : Trace S ι} (hs : P s)
    (keep : ∀ e ∈ t, ∀ s, P s → P (S.exec e.2.1 s).2) : P (replay s t) := by
  induction t generalizing s with
  | nil => exact hs
  | cons e t ih =>
    exact ih (keep e List.mem_cons_self s hs) fun x hx => keep x (List.mem_cons_of_mem _ hx)

omit [DecidableEq ι] in
/-- What every step of a trace keeps in the state in which it is taken. -/
theorem chained_induction {P : σ → Prop} {s : σ} {t : Trace S ι} (hc : Chained s t) (hs : P s)
    (keep : ∀ e ∈ t, P e.2.2 → P (S.exec e.2.1 e.2.2).2) : P (replay s t) := by
  induction t generalizing s with
  | nil => exact hs
  | cons e t ih =>
    have hstep := keep e List.mem_cons_self
    rw [hc.1] at hstep
    exact ih hc.2 (hstep hs) fun x hx => keep x (List.mem_cons_of_mem _ hx)

omit [DecidableEq ι] in
/-- What every step of a trace keeps holds in every state of it. -/
theorem chained_states {P : σ → Prop} {s : σ} {t : Trace S ι} (hc : Chained s t) (hs : P s)
    (keep : ∀ e ∈ t, P e.2.2 → P (S.exec e.2.1 e.2.2).2) : ∀ e ∈ t, P e.2.2 := by
  induction t generalizing s with
  | nil => exact nofun
  | cons e t ih =>
    have he : P e.2.2 := hc.1 ▸ hs
    have hstep := keep e List.mem_cons_self he
    rw [hc.1] at hstep
    have hrest := ih hc.2 hstep fun x hx => keep x (List.mem_cons_of_mem _ hx)
    simpa using ⟨he, fun i o s' hmem => hrest (i, o, s') hmem⟩

omit [DecidableEq ι] in
/-- What a step establishes and all later steps keep. -/
theorem replay_of_split {P : σ → Prop} {s : σ} {t₁ t₂ : Trace S ι} {e : ι × S.Op × σ}
    (he : ∀ s, P (S.exec e.2.1 s).2) (keep : ∀ x ∈ t₂, ∀ s, P s → P (S.exec x.2.1 s).2) :
    P (replay s (t₁ ++ e :: t₂)) := by
  rw [replay_append, replay_cons]
  exact replay_induction (he _) keep

/-- Every step satisfies `P`, given the steps before it. -/
def AtSteps (P : Trace S ι → ι × S.Op × σ → Prop) (t : Trace S ι) : Prop :=
  ∀ n : Fin t.length, P (t.take n) (t.get n)

instance (P : Trace S ι → ι × S.Op × σ → Prop) [∀ t e, Decidable (P t e)] (t : Trace S ι) :
    Decidable (AtSteps P t) :=
  inferInstanceAs (Decidable (∀ _ : Fin _, _))

omit [DecidableEq ι] in
theorem AtSteps.split {P : Trace S ι → ι × S.Op × σ → Prop} {t₁ t₂ : Trace S ι}
    {e : ι × S.Op × σ} (h : AtSteps P (t₁ ++ e :: t₂)) : P t₁ e := by
  have hn : t₁.length < (t₁ ++ e :: t₂).length := by simp
  simpa using h ⟨t₁.length, hn⟩

omit [DecidableEq ι] in
theorem atSteps_snoc {P : Trace S ι → ι × S.Op × σ → Prop} {t : Trace S ι} {e : ι × S.Op × σ} :
    AtSteps P (t ++ [e]) ↔ AtSteps P t ∧ P t e := by
  constructor
  · refine fun h => ⟨fun n => ?_, h.split⟩
    have hn : n.1 < (t ++ [e]).length := by simp [Nat.lt_succ_of_lt n.2]
    simpa [List.take_append_of_le_length (Nat.le_of_lt n.2)] using h ⟨n.1, hn⟩
  · rintro ⟨h, he⟩ ⟨n, hn⟩
    obtain hlt | rfl : n < t.length ∨ n = t.length := by
      simp only [List.length_append, List.length_singleton] at hn
      omega
    · simpa [List.take_append_of_le_length (Nat.le_of_lt hlt), List.getElem_append_left hlt] using
        h ⟨n, hlt⟩
    · simpa using he

omit [DecidableEq ι] in
theorem AtSteps.of_append {P : Trace S ι → ι × S.Op × σ → Prop} {t u : Trace S ι}
    (h : AtSteps P (t ++ u)) : AtSteps P t := by
  induction u using List.reverseRecOn with
  | nil => simpa using h
  | append_singleton u e ih =>
    rw [← List.append_assoc] at h
    exact ih (atSteps_snoc.mp h).1

end Atomic
