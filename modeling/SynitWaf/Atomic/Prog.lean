import Mathlib.Algebra.GroupWithZero.Nat
import Mathlib.Data.List.Induction
import Mathlib.Logic.Function.Basic

/-!
# Programs over atomic operations

A concurrent program is a tree of atomic operations on a shared state: it either returns or
performs one operation and continues with the answer. The same tree has a sequential meaning
(`Prog.run`) and, in `Atomic.Pool`, an interleaved one.

* `Sig`: the operations, their answers and their effect; `Prog`, its monad, `Prog.run`;
* `Prog.Within Q n`: the program returns a value in `Q` after at most `n` operations;
* **`Path`**: the operations one thread performs, each with the state it was performed in;
  `Path.bind_inv` cuts a finished path of `p >>= f` into a path of `p` and a path of `f`;
  `Path.locals` follows a path by local states; `Prog.steps`: the path of a program that runs alone;
* `Embed`, `Prog.lift`: a program over a small signature inside a larger one.
-/

namespace Atomic

/-- Two threads are written as numerals. -/
instance twoThreads : NeZero 2 := ⟨by decide⟩

/-- Three threads are written as numerals. -/
instance threeThreads : NeZero 3 := ⟨by decide⟩

/-- Atomic operations on a shared state `σ`. A disabled operation blocks its thread. -/
structure Sig (σ : Type) where
  Op : Type
  Res : Op → Type
  exec : (o : Op) → σ → Res o × σ
  enabled : Op → σ → Bool := fun _ _ => true

/-- A program over the operations of `S`. -/
inductive Prog {σ : Type} (S : Sig σ) (α : Type) where
  | ret (a : α)
  | act (o : S.Op) (k : S.Res o → Prog S α)

variable {σ τ : Type} {S : Sig σ} {T : Sig τ} {α β : Type}

namespace Prog

/-- Sequencing. -/
def bind : Prog S α → (α → Prog S β) → Prog S β
  | ret a, f => f a
  | act o k, f => act o fun r => (k r).bind f

instance : Monad (Prog S) where
  pure := ret
  bind := bind

/-- The program of one operation. -/
def op (o : S.Op) : Prog S (S.Res o) := act o ret

@[simp] theorem pure_eq (a : α) : (pure a : Prog S α) = ret a := rfl

@[simp] theorem ret_bind (a : α) (f : α → Prog S β) : ret a >>= f = f a := rfl

@[simp] theorem act_bind (o : S.Op) (k : S.Res o → Prog S α) (f : α → Prog S β) :
    act o k >>= f = act o fun r => k r >>= f := rfl

@[simp] theorem op_bind (o : S.Op) (f : S.Res o → Prog S β) : op o >>= f = act o f := rfl

theorem bind_assoc {γ : Type} (p : Prog S α) (f : α → Prog S β) (g : β → Prog S γ) :
    (p >>= f) >>= g = p >>= fun a => f a >>= g := by
  induction p with
  | ret a => rfl
  | act o k ih => exact congrArg (act o) (funext ih)

/-- The value of a finished program. -/
def result? : Prog S α → Option α
  | ret a => some a
  | act _ _ => none

theorem result?_eq_some {p : Prog S α} {a : α} : p.result? = some a ↔ p = ret a := by
  cases p <;> simp [result?]

/-- The sequential meaning: all operations run without interference. -/
def run : Prog S α → σ → α × σ
  | ret a, s => (a, s)
  | act o k, s => (k (S.exec o s).1).run (S.exec o s).2

@[simp] theorem run_ret (a : α) (s : σ) : (ret a : Prog S α).run s = (a, s) := rfl

@[simp] theorem run_act (o : S.Op) (k : S.Res o → Prog S α) (s : σ) :
    (act o k).run s = (k (S.exec o s).1).run (S.exec o s).2 := rfl

@[simp] theorem run_bind (p : Prog S α) (f : α → Prog S β) (s : σ) :
    (p >>= f).run s = (f (p.run s).1).run (p.run s).2 := by
  induction p generalizing s with
  | ret a => rfl
  | act o k ih => exact ih _ _

/-- The program returns a value in `Q` after at most `n` operations, whatever they answer. -/
def Within (Q : α → Prop) : ℕ → Prog S α → Prop
  | _, ret a => Q a
  | 0, act _ _ => False
  | n + 1, act _ k => ∀ r, (k r).Within Q n

@[simp] theorem within_ret (Q : α → Prop) (n : ℕ) (a : α) :
    (ret a : Prog S α).Within Q n ↔ Q a := by
  cases n <;> rfl

theorem Within.mono {Q R : α → Prop} {n m : ℕ} {p : Prog S α} (h : p.Within Q n) (hm : n ≤ m)
    (hQ : ∀ a, Q a → R a) : p.Within R m := by
  induction p generalizing n m with
  | ret a => exact (within_ret R m a).mpr (hQ a ((within_ret Q n a).mp h))
  | act o k ih =>
    cases n with
    | zero => exact h.elim
    | succ n =>
      obtain ⟨m, rfl⟩ : ∃ m', m = m' + 1 := ⟨m - 1, by omega⟩
      exact fun r => ih r (h r) (by omega)

theorem Within.le {Q : α → Prop} {n m : ℕ} {p : Prog S α} (h : p.Within Q n) (hm : n ≤ m) :
    p.Within Q m := h.mono hm fun _ h => h

theorem Within.zero {Q : α → Prop} {p : Prog S α} (h : p.Within Q 0) : ∃ a, p = ret a := by
  cases p with
  | ret a => exact ⟨a, rfl⟩
  | act o k => exact h.elim

theorem Within.bind {Q : α → Prop} {R : β → Prop} {n m : ℕ} {p : Prog S α} {f : α → Prog S β}
    (hp : p.Within Q n) (hf : ∀ a, Q a → (f a).Within R m) : (p >>= f).Within R (n + m) := by
  induction p generalizing n with
  | ret a => exact (hf a ((within_ret Q n a).mp hp)).le (Nat.le_add_left m n)
  | act o k ih =>
    cases n with
    | zero => exact hp.elim
    | succ n =>
      rw [Nat.succ_add]
      exact fun r => ih r (hp r)

end Prog

/-! ## Paths of one thread -/

/-- The operations of one thread, each with the state it was performed in. -/
abbrev Steps (S : Sig σ) : Type := List (S.Op × σ)

/-- The operation was performed in a state that satisfies `φ`. -/
def Performed (t : Steps S) (o : S.Op) (φ : σ → Prop) : Prop := ∃ s, (o, s) ∈ t ∧ φ s

theorem Performed.append {t : Steps S} {o : S.Op} {φ : σ → Prop} (h : Performed t o φ)
    (u : Steps S) : Performed (t ++ u) o φ := by
  obtain ⟨s, hs, hφ⟩ := h
  exact ⟨s, List.mem_append_left u hs, hφ⟩

theorem Performed.last (t : Steps S) (o : S.Op) (s : σ) {φ : σ → Prop} (h : φ s) :
    Performed (t ++ [(o, s)]) o φ := ⟨s, by simp, h⟩

/-- `Path p t q`: performing the operations `t`, each in the state it stands with, turns `p` into
`q`. The states need not follow from each other: other threads run in between. -/
inductive Path : Prog S α → Steps S → Prog S α → Prop
  | nil (p : Prog S α) : Path p [] p
  | cons {o : S.Op} {k : S.Res o → Prog S α} {s : σ} {t : Steps S} {q : Prog S α} :
      Path (k (S.exec o s).1) t q → Path (.act o k) ((o, s) :: t) q

namespace Path

theorem ret_inv {a : α} {t : Steps S} {q : Prog S α} (h : Path (.ret a) t q) :
    t = [] ∧ q = .ret a := by
  cases h
  exact ⟨rfl, rfl⟩

theorem act_inv {o : S.Op} {k : S.Res o → Prog S α} {t : Steps S} {q : Prog S α}
    (h : Path (.act o k) t q) : (t = [] ∧ q = .act o k) ∨
      ∃ s t', t = (o, s) :: t' ∧ Path (k (S.exec o s).1) t' q := by
  cases h with
  | nil => exact .inl ⟨rfl, rfl⟩
  | cons h => exact .inr ⟨_, _, rfl, h⟩

/-- A finished path through an operation has performed it. -/
theorem act_ret_inv {o : S.Op} {k : S.Res o → Prog S α} {t : Steps S} {a : α}
    (h : Path (.act o k) t (.ret a)) :
    ∃ s t', t = (o, s) :: t' ∧ Path (k (S.exec o s).1) t' (.ret a) := by
  obtain ⟨-, h⟩ | h := act_inv h
  · cases h
  · exact h

theorem snoc {p : Prog S α} {t : Steps S} {o : S.Op} {k : S.Res o → Prog S α}
    (h : Path p t (.act o k)) (s : σ) : Path p (t ++ [(o, s)]) (k (S.exec o s).1) := by
  generalize hq : Prog.act o k = q at h
  induction h with
  | nil p => subst hq; exact .cons (.nil _)
  | cons h ih => exact .cons (ih hq)

/-- **A finished path of `p >>= f`** is a finished path of `p` followed by one of `f`. -/
theorem bind_inv {p : Prog S α} {f : α → Prog S β} {t : Steps S} {b : β}
    (h : Path (p >>= f) t (.ret b)) :
    ∃ a t₁ t₂, t = t₁ ++ t₂ ∧ Path p t₁ (.ret a) ∧ Path (f a) t₂ (.ret b) := by
  induction p generalizing t with
  | ret a => exact ⟨a, [], t, rfl, .nil _, h⟩
  | act o k ih =>
    obtain ⟨s, t', rfl, hk⟩ := act_ret_inv h
    obtain ⟨a, t₁, t₂, rfl, h₁, h₂⟩ := ih _ hk
    exact ⟨a, (o, s) :: t₁, t₂, rfl, .cons h₁, h₂⟩

/-- A program that only packs the value of `p` takes the steps of `p`. -/
theorem of_pack {p : Prog S α} {g : α → β} {t : Steps S} {q : Prog S β}
    (h : Path (p >>= fun a => .ret (g a)) t q) :
    ∃ p', q = (p' >>= fun a => .ret (g a)) ∧ Path p t p' := by
  induction p generalizing t with
  | ret a =>
    obtain ⟨rfl, rfl⟩ := h.ret_inv
    exact ⟨.ret a, rfl, .nil _⟩
  | act o k ih =>
    obtain ⟨rfl, rfl⟩ | ⟨s, t', rfl, hk⟩ := h.act_inv
    · exact ⟨.act o k, rfl, .nil _⟩
    · obtain ⟨p', hq, hp⟩ := ih _ hk
      exact ⟨p', hq, .cons hp⟩

theorem within {Q : α → Prop} {n : ℕ} {p q : Prog S α} {t : Steps S} (h : Path p t q)
    (hp : p.Within Q n) : q.Within Q (n - t.length) := by
  induction h generalizing n with
  | nil p => exact hp
  | cons h ih =>
    cases n with
    | zero => exact hp.elim
    | succ n => simpa [Nat.add_sub_add_right] using ih (hp _)

/-- **Local states along a path.** Each program on the path is that of a local state, and `Move` says
how an operation changes it; what every move keeps holds at the end. -/
theorem locals {L : Type} (prog : L → Prog S α) {Move : σ → L → S.Op → L → Prop}
    (hmove : ∀ l o k s, prog l = .act o k → ∃ l', k (S.exec o s).1 = prog l' ∧ Move s l o l')
    {P : Steps S → L → Prop}
    (hs : ∀ t l o s l', P t l → Move s l o l' → P (t ++ [(o, s)]) l')
    {l : L} {past t : Steps S} {q : Prog S α} (h₀ : P past l) (h : Path (prog l) t q) :
    ∃ l', q = prog l' ∧ P (past ++ t) l' := by
  generalize hp : prog l = p at h
  induction h generalizing l past with
  | nil p =>
    rw [List.append_nil]
    exact ⟨l, hp.symm, h₀⟩
  | @cons o k s t q h ih =>
    obtain ⟨l', hk, hm⟩ := hmove l o k s hp
    obtain ⟨l'', hq, hP⟩ := ih (hs past l o s l' h₀ hm) hk.symm
    exact ⟨l'', hq, by rwa [List.append_cons]⟩

end Path

/-- The steps of a program that runs alone. -/
def Prog.steps : Prog S α → σ → Steps S
  | .ret _, _ => []
  | .act o k, s => (o, s) :: (k (S.exec o s).1).steps (S.exec o s).2

theorem Prog.path_steps (p : Prog S α) (s : σ) : Path p (p.steps s) (.ret (p.run s).1) := by
  induction p generalizing s with
  | ret a => exact .nil _
  | act o k ih => exact .cons (ih _ _)

theorem Prog.steps_bind (p : Prog S α) (f : α → Prog S β) (s : σ) :
    (p >>= f).steps s = p.steps s ++ (f (p.run s).1).steps (p.run s).2 := by
  induction p generalizing s with
  | ret a => rfl
  | act o k ih => exact congrArg ((o, s) :: ·) (ih _ _)

/-! ## Embedding a signature -/

/-- The operations of `S` are operations of `T` on a part of the state of `T`, and leave the rest of
it alone. -/
structure Embed (S : Sig σ) (T : Sig τ) where
  view : τ → σ
  put : τ → σ → τ
  op : S.Op → T.Op
  ans : ∀ o, T.Res (op o) → S.Res o
  ans_exec : ∀ o t, ans o (T.exec (op o) t).1 = (S.exec o (view t)).1
  exec_put : ∀ o t, (T.exec (op o) t).2 = put t (S.exec o (view t)).2
  view_put : ∀ t s, view (put t s) = s
  put_view : ∀ t, put t (view t) = t
  put_put : ∀ t s s', put (put t s) s' = put t s'

/-- A program over `S` as a program over `T`. -/
def Prog.lift (E : Embed S T) : Prog S α → Prog T α
  | .ret a => .ret a
  | .act o k => .act (E.op o) fun r => (k (E.ans o r)).lift E

/-- **A lifted program** answers as on its part of the state, and changes that part only. -/
theorem Prog.run_lift (E : Embed S T) (p : Prog S α) (t : τ) :
    (p.lift E).run t = ((p.run (E.view t)).1, E.put t (p.run (E.view t)).2) := by
  induction p generalizing t with
  | ret a => rw [lift, run_ret, run_ret, E.put_view]
  | act o k ih =>
    rw [lift, run_act, ih, E.ans_exec, E.exec_put, E.view_put, E.put_put, run_act]

theorem Prog.Within.lift {E : Embed S T} {Q : α → Prop} {n : ℕ} {p : Prog S α} (h : p.Within Q n) :
    (p.lift E).Within Q n := by
  induction p generalizing n with
  | ret a => exact (within_ret Q n a).mpr ((within_ret Q n a).mp h)
  | act o k ih =>
    cases n with
    | zero => exact h.elim
    | succ n => exact fun r => ih _ (h _)

/-- A path of a lifted program is the lift of a path. -/
theorem Path.of_lift {E : Embed S T} {p : Prog S α} {t : Steps T} {q : Prog T α}
    (h : Path (p.lift E) t q) :
    ∃ p' t', q = p'.lift E ∧ Path p t' p' ∧
      List.Forall₂ (fun x y => x.1 = E.op y.1 ∧ E.view x.2 = y.2) t t' := by
  induction p generalizing t with
  | ret a =>
    obtain ⟨rfl, rfl⟩ := h.ret_inv
    exact ⟨.ret a, [], rfl, .nil _, .nil⟩
  | act o k ih =>
    obtain ⟨rfl, rfl⟩ | ⟨s, t, rfl, hk⟩ := h.act_inv
    · exact ⟨.act o k, [], rfl, .nil _, .nil⟩
    · rw [E.ans_exec] at hk
      obtain ⟨p', t', hq, hp, ht⟩ := ih _ hk
      exact ⟨p', (o, E.view s) :: t', hq, .cons hp, .cons ⟨rfl, rfl⟩ ht⟩

end Atomic
