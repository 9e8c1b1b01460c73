import SynitWaf.Atomic.Ensures

/-!
# The order of operations in one thread

What a program does first and what it does later is a fact about the program; in an interleaving it
becomes a fact about the steps of its thread, whatever the other threads do in between.

* `Prog.Avoids B`: no operation in `B` is performed;
* `Prog.Behind A B`: an operation in `B` is performed only after one in `A`;
* `Prog.Before A B`: once an operation in `B` is performed, none in `A` follows;
* `Prog.Performs A`: an operation in `A` is performed; `Prog.LeadsTo E B`: the operations in `B` are
  those of a final part in `E`;
* **`Pool.behind`**, **`Pool.before`**: the same for the steps of a thread in a run.
-/

namespace Atomic

variable {σ : Type} {S : Sig σ} {α β : Type} {A B : S.Op → Prop}

namespace Prog

/-- The program performs no operation in `B`. -/
def Avoids (B : S.Op → Prop) (p : Prog S α) : Prop :=
  p.Triple (fun _ _ => True) (fun o _ => ¬ B o) (fun _ => True)

/-- Until it has performed an operation in `A`, the program performs none in `B`. -/
def Behind (A B : S.Op → Prop) : Prog S α → Prop
  | .ret _ => True
  | .act o k => ∀ s, ¬ B o ∧ (A o ∨ (k (S.exec o s).1).Behind A B)

/-- Once it has performed an operation in `B`, the program performs none in `A`. -/
def Before (A B : S.Op → Prop) : Prog S α → Prop
  | .ret _ => True
  | .act o k => ∀ s, (B o → (k (S.exec o s).1).Avoids A) ∧ (k (S.exec o s).1).Before A B

/-- Before it returns, the program performs an operation in `A`. -/
def Performs (A : S.Op → Prop) : Prog S α → Prop
  | .ret _ => False
  | .act o k => A o ∨ ∀ s, (k (S.exec o s).1).Performs A

/-- The operations in `B` all belong to a final part of the program that is in `E`. -/
def LeadsTo (E : Prog S α → Prop) (B : S.Op → Prop) (p : Prog S α) : Prop :=
  ∀ t a, Path p t (.ret a) → (∀ e ∈ t, ¬ B e.1) ∨
    ∃ q t₁ t₂, E q ∧ t = t₁ ++ t₂ ∧ Path q t₂ (.ret a)

@[simp] theorem avoids_ret (a : α) : (.ret a : Prog S α).Avoids B := trivial

@[simp] theorem avoids_act (o : S.Op) (k : S.Res o → Prog S α) :
    (Prog.act o k).Avoids B ↔ ∀ s, ¬ B o ∧ (k (S.exec o s).1).Avoids B := by
  simp [Avoids]

theorem avoids_op {o : S.Op} (h : ¬ B o) : (op o).Avoids B :=
  (avoids_act _ _).mpr fun _ => ⟨h, avoids_ret _⟩

@[simp] theorem behind_ret (a : α) : (.ret a : Prog S α).Behind A B := trivial

/-! ## Rules -/

theorem Avoids.bind {p : Prog S α} {f : α → Prog S β} (hp : p.Avoids B)
    (hf : ∀ a, (f a).Avoids B) : (p >>= f).Avoids B :=
  Triple.bind hp fun a _ => hf a

theorem Avoids.behind {p : Prog S α} (hp : p.Avoids B) : p.Behind A B := by
  induction p with
  | ret a => trivial
  | act o k ih =>
    rw [avoids_act] at hp
    exact fun s => ⟨(hp s).1, .inr (ih _ (hp s).2)⟩

theorem Behind.bind {p : Prog S α} {f : α → Prog S β} (hp : p.Behind A B)
    (hf : ∀ a, (f a).Behind A B) : (p >>= f).Behind A B := by
  induction p with
  | ret a => exact hf a
  | act o k ih => exact fun s => ⟨(hp s).1, (hp s).2.imp id (ih _)⟩

theorem Avoids.before {p : Prog S α} (hp : p.Avoids A) : p.Before A B := by
  induction p with
  | ret a => trivial
  | act o k ih =>
    rw [avoids_act] at hp
    exact fun s => ⟨fun _ => (hp s).2, ih _ (hp s).2⟩

/-- First a part without operations in `B`, then the rest. -/
theorem Avoids.before_bind {p : Prog S α} {f : α → Prog S β} (hp : p.Avoids B)
    (hf : ∀ a, (f a).Before A B) : (p >>= f).Before A B := by
  induction p with
  | ret a => exact hf a
  | act o k ih =>
    rw [avoids_act] at hp
    exact fun s => ⟨fun hB => absurd hB (hp s).1, ih _ (hp s).2⟩

theorem Before.bind {p : Prog S α} {f : α → Prog S β} (hp : p.Before A B)
    (hf : ∀ a, (f a).Avoids A) : (p >>= f).Before A B := by
  induction p with
  | ret a => exact (hf a).before
  | act o k ih => exact fun s => ⟨fun hB => ((hp s).1 hB).bind hf, ih _ (hp s).2⟩

theorem Performs.bind {p : Prog S α} (hp : p.Performs A) (f : α → Prog S β) :
    (p >>= f).Performs A := by
  induction p with
  | ret a => exact hp.elim
  | act o k ih => exact hp.imp id fun h s => ih _ (h s)

theorem Performs.of_bind {p : Prog S α} {f : α → Prog S β} (hf : ∀ a, (f a).Performs A) :
    (p >>= f).Performs A := by
  induction p with
  | ret a => exact hf a
  | act o k ih => exact .inr fun s => ih _

/-- First a part that performs an operation in `A` and none in `B`, then anything. -/
theorem Performs.behind_bind {p : Prog S α} (hA : p.Performs A) (hB : p.Avoids B)
    (f : α → Prog S β) : (p >>= f).Behind A B := by
  induction p with
  | ret a => exact hA.elim
  | act o k ih =>
    rw [avoids_act] at hB
    exact fun s => ⟨(hB s).1, hA.imp id fun h => ih _ (h s) (hB s).2⟩

theorem LeadsTo.self {E : Prog S α → Prop} {p : Prog S α} (hp : E p) : p.LeadsTo E B :=
  fun t _ h => .inr ⟨p, [], t, hp, rfl, h⟩

/-! ## Paths -/

theorem Avoids.path {p q : Prog S α} {t : Steps S} (hp : p.Avoids B) (h : Path p t q) :
    ∀ e ∈ t, ¬ B e.1 :=
  (Triple.path h hp fun _ _ => trivial).2

theorem Avoids.leadsTo {E : Prog S α → Prop} {p : Prog S α} (hp : p.Avoids B) : p.LeadsTo E B :=
  fun _ _ h => .inl (hp.path h)

/-- First a part without operations in `B`, then the rest. -/
theorem Avoids.leadsTo_bind {E : Prog S β → Prop} {p : Prog S α} {f : α → Prog S β}
    (hp : p.Avoids B) (hf : ∀ a, (f a).LeadsTo E B) : (p >>= f).LeadsTo E B := by
  intro t b h
  obtain ⟨a, t₁, t₂, rfl, h₁, h₂⟩ := h.bind_inv
  obtain hB | ⟨q, u₁, u₂, hq, rfl, hpath⟩ := hf a t₂ b h₂
  · left
    intro e he
    rcases List.mem_append.mp he with he | he
    · exact hp.path h₁ e he
    · exact hB e he
  · exact .inr ⟨q, t₁ ++ u₁, u₂, hq, (List.append_assoc _ _ _).symm, hpath⟩

theorem Behind.path {p q : Prog S α} {t₁ t₂ : Steps S} {e : S.Op × σ} (hp : p.Behind A B)
    (h : Path p (t₁ ++ e :: t₂) q) (he : B e.1) : ∃ x ∈ t₁, A x.1 := by
  induction t₁ generalizing p with
  | nil =>
    cases h with
    | @cons o k s _ _ h => exact absurd he (hp s).1
  | cons x t₁ ih =>
    cases h with
    | @cons o k s _ _ h =>
      rcases (hp s).2 with hA | hk
      · exact ⟨(o, s), List.mem_cons_self, hA⟩
      · obtain ⟨y, hy, hA⟩ := ih hk h
        exact ⟨y, List.mem_cons_of_mem _ hy, hA⟩

theorem Before.path {p q : Prog S α} {t₁ t₂ : Steps S} {e : S.Op × σ} (hp : p.Before A B)
    (h : Path p (t₁ ++ e :: t₂) q) (he : B e.1) : ∀ x ∈ t₂, ¬ A x.1 := by
  induction t₁ generalizing p with
  | nil =>
    cases h with
    | @cons o k s _ _ h => exact ((hp s).1 he).path h
  | cons x t₁ ih =>
    cases h with
    | @cons o k s _ _ h => exact ih (hp s).2 h

end Prog

/-! ## Runs -/

section Pool

variable {ι : Type} [DecidableEq ι] {threads : ι → Prog S α} {mem : σ} {sched : List ι} {i : ι}
  {t₁ t₂ : Trace S ι} {e : S.Op × σ}

theorem path_of_split
    (ht : ((Pool.start threads mem).runs sched).trace = t₁ ++ (i, e) :: t₂) :
    Path (threads i) (own i t₁ ++ e :: own i t₂)
      (((Pool.start threads mem).runs sched).threads i) := by
  have hpath := path_own threads mem sched i
  rwa [ht, own_append, own_cons_self] at hpath

theorem Pool.avoids (hp : (threads i).Avoids B)
    {x : S.Op × σ} (hx : (i, x) ∈ ((Pool.start threads mem).runs sched).trace) : ¬ B x.1 :=
  hp.path (path_own threads mem sched i) x (mem_own.mpr hx)

/-- **Operations in `B` come behind operations in `A`** in every run. -/
theorem Pool.behind (hp : (threads i).Behind A B)
    (ht : ((Pool.start threads mem).runs sched).trace = t₁ ++ (i, e) :: t₂) (he : B e.1) :
    ∃ x, (i, x) ∈ t₁ ∧ A x.1 := by
  obtain ⟨x, hx, hA⟩ := hp.path (path_of_split ht) he
  exact ⟨x, mem_own.mp hx, hA⟩

/-- **No operation in `A` follows one in `B`**, in every run. -/
theorem Pool.before (hp : (threads i).Before A B)
    (ht : ((Pool.start threads mem).runs sched).trace = t₁ ++ (i, e) :: t₂) (he : B e.1)
    {x : S.Op × σ} (hx : (i, x) ∈ t₂) : ¬ A x.1 :=
  hp.path (path_of_split ht) he x (mem_own.mpr hx)

end Pool

end Atomic
