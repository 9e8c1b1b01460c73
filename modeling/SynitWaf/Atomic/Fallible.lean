import Mathlib.Order.Defs.Unbundled
import SynitWaf.Atomic.Order

/-!
# Programs that may fail

A program that returns a value or stops with an error, and loops over lists. `p.Ends s E Q` says how
such a program ends when it runs alone from `s`: with an error in a state in `E`, or with a value and
a state in `Q`. Most failures of a transaction have the same `E`, so that its rules pass `E` along
and a proof speaks about the state reached so far only.

* `Fallible`, `ofExcept`, `Fallible.Ends` and its rules **`Ends.bind`**, `Ends.ofExcept`, `Ends.lift`;
* `Fallible.Keeps R`: both ends are related to the start by `R`; **`Keeps.bind`**,
  `Keeps.bind_ends`;
* `Prog.each`: one program for each element of a list.
-/

namespace Atomic

variable {σ τ : Type} {S : Sig σ} {T : Sig τ} {ε α β : Type}

/-! ## Loops -/

namespace Prog

/-- `for _, a := range l { f(a) }`. -/
def each (f : α → Prog S Unit) : List α → Prog S Unit
  | [] => ret ()
  | a :: l => f a >>= fun _ => each f l

/-- The final state of a loop is a fold. -/
theorem run_each (f : α → Prog S Unit) (l : List α) (s : σ) :
    ((each f l).run s).2 = l.foldl (fun s a => ((f a).run s).2) s := by
  induction l generalizing s with
  | nil => rfl
  | cons a l ih => rw [each, run_bind, ih, List.foldl_cons]

theorem Avoids.each {B : S.Op → Prop} {f : α → Prog S Unit} {l : List α}
    (h : ∀ a ∈ l, (f a).Avoids B) : (each f l).Avoids B := by
  induction l with
  | nil => exact avoids_ret ()
  | cons a l ih =>
    exact (h a List.mem_cons_self).bind fun _ => ih fun b hb => h b (List.mem_cons_of_mem _ hb)

theorem Performs.each {A : S.Op → Prop} {f : α → Prog S Unit} {l : List α} {a : α} (ha : a ∈ l)
    (h : (f a).Performs A) : (each f l).Performs A := by
  induction l with
  | nil => cases ha
  | cons b l ih =>
    rcases List.mem_cons.mp ha with rfl | ha
    · exact h.bind _
    · exact Performs.of_bind fun _ => ih ha

/-- A lifted program performs lifted operations only. -/
theorem Avoids.lift {B : T.Op → Prop} {E : Embed S T} (h : ∀ o, ¬ B (E.op o)) (p : Prog S α) :
    (p.lift E).Avoids B := by
  induction p with
  | ret a => exact avoids_ret a
  | act o k ih => exact (avoids_act _ _).mpr fun s => ⟨h o, ih _⟩

/-- What the allowed operations keep, a program run alone keeps. -/
theorem Avoids.run {B : S.Op → Prop} {I : σ → Prop} {p : Prog S α} (hp : p.Avoids B)
    (keep : ∀ o s, ¬ B o → I s → I (S.exec o s).2) {s : σ} (hs : I s) : I (p.run s).2 := by
  induction p generalizing s with
  | ret a => exact hs
  | act o k ih =>
    have hstep := (avoids_act o k).mp hp s
    exact ih _ hstep.2 (keep o s hstep.1 hs)

end Prog

/-! ## Failure -/

/-- A program that returns a value or an error. -/
abbrev Fallible (S : Sig σ) (ε α : Type) := ExceptT ε (Prog S) α

namespace Fallible

/-- The outcome of a step that does not touch the state. -/
def ofExcept (r : Except ε α) : Fallible S ε α := ExceptT.mk (.ret r)

/-- Run from `s`, the program fails in a state in `E`, or returns as `Q` says. -/
def Ends (p : Fallible S ε α) (s : σ) (E : σ → Prop) (Q : α → σ → Prop) : Prop :=
  match Prog.run p.run s with
  | (.error _, s') => E s'
  | (.ok a, s') => Q a s'

namespace Ends

variable {s : σ} {E : σ → Prop} {Q : α → σ → Prop} {R : β → σ → Prop}

theorem pure {a : α} (h : Q a s) : (Pure.pure a : Fallible S ε α).Ends s E Q := h

theorem throw {e : ε} (h : E s) : (MonadExcept.throw e : Fallible S ε α).Ends s E Q := h

theorem ofExcept {r : Except ε α} (hE : E s) (hQ : ∀ a, r = .ok a → Q a s) :
    (Fallible.ofExcept r : Fallible S ε α).Ends s E Q := by
  cases r with
  | error e => exact hE
  | ok a => exact hQ a rfl

theorem lift {p : Prog S α} (h : Q (p.run s).1 (p.run s).2) :
    (liftM p : Fallible S ε α).Ends s E Q := by
  have hrun : Prog.run (ExceptT.run (liftM p : Fallible S ε α)) s =
      (.ok (p.run s).1, (p.run s).2) := Prog.run_bind p _ s
  rw [Ends, hrun]
  exact h

/-- **One step after the other.** -/
theorem bind {p : Fallible S ε α} {f : α → Fallible S ε β} (hp : p.Ends s E Q)
    (hf : ∀ a s', Q a s' → (f a).Ends s' E R) : (p >>= f).Ends s E R := by
  have hrun : Prog.run (p >>= f).run s =
      Prog.run (ExceptT.bindCont f (Prog.run p.run s).1) (Prog.run p.run s).2 := Prog.run_bind _ _ s
  unfold Ends at hp ⊢
  rw [hrun]
  generalize Prog.run p.run s = out at hp
  obtain ⟨_ | a, s'⟩ := out
  · exact hp
  · exact hf a s' hp

theorem mono {p : Fallible S ε α} {E' : σ → Prop} {Q' : α → σ → Prop} (h : p.Ends s E Q)
    (hE : ∀ s', E s' → E' s') (hQ : ∀ a s', Q a s' → Q' a s') : p.Ends s E' Q' := by
  unfold Ends at h ⊢
  generalize Prog.run p.run s = out at h
  obtain ⟨_ | a, s'⟩ := out
  · exact hE s' h
  · exact hQ a s' h

/-- A program that cannot fail returns. -/
theorem returns {p : Fallible S ε α} (h : p.Ends s E Q) (hE : ∀ s', ¬ E s') :
    ∃ a s', Prog.run p.run s = (.ok a, s') ∧ Q a s' := by
  unfold Ends at h
  generalize Prog.run p.run s = out at h
  obtain ⟨_ | a, s'⟩ := out
  · exact absurd h (hE s')
  · exact ⟨a, s', rfl, h⟩

end Ends

/-- Run from `s`, the program ends in a state related to `s` by `R`, whether it fails or not. -/
def Keeps (R : σ → σ → Prop) (p : Fallible S ε α) (s : σ) (Q : α → σ → Prop) : Prop :=
  p.Ends s (R s) fun a s' => R s s' ∧ Q a s'

/-- **One step after the other**, for a transitive relation. -/
theorem Keeps.bind {R : σ → σ → Prop} [IsTrans σ R] {s : σ} {Q : α → σ → Prop} {P : β → σ → Prop}
    {p : Fallible S ε α} {f : α → Fallible S ε β} (hp : p.Keeps R s Q)
    (hf : ∀ a s', R s s' → Q a s' → (f a).Keeps R s' P) : (p >>= f).Keeps R s P := by
  refine Ends.bind hp fun a s' ⟨hR, hQ⟩ => ?_
  refine Ends.mono (hf a s' hR hQ) (fun s'' h => ?_) fun b s'' h => ?_
  · exact trans_of R hR h
  · exact ⟨trans_of R hR h.1, h.2⟩

/-- A step that keeps `R`, in a program that ends otherwise. -/
theorem Keeps.bind_ends {R : σ → σ → Prop} [IsTrans σ R] {s₀ s : σ} {Q : α → σ → Prop}
    {P : β → σ → Prop} {p : Fallible S ε α} {f : α → Fallible S ε β} (h₀ : R s₀ s)
    (hp : p.Keeps R s Q) (hf : ∀ a s', R s₀ s' → R s s' → Q a s' → (f a).Ends s' (R s₀) P) :
    (p >>= f).Ends s (R s₀) P := by
  have hp' : p.Ends s (R s₀) fun a s' => R s s' ∧ Q a s' :=
    Ends.mono hp (fun _ h => trans_of R h₀ h) fun _ _ h => h
  exact Ends.bind hp' fun a s' h => hf a s' (trans_of R h₀ h.1) h.1 h.2

end Fallible

end Atomic
