import Mathlib.Data.List.Chain
import Mathlib.Data.Nat.Notation

/-!
# Covering a text by overlapping spans

Spans of positions that follow each other through the positions below `n`.

* `Span`, `Follows k`: the next span starts later, and at least `k` positions before the end of the
  one before;
* `Covers n k spans`;
* **`Covers.length_le`**: there are no more spans than positions;
* **`Covers.contains`**: a stretch of at most `k` positions lies in one span.
-/

namespace Cover

/-- The positions from `start` up to, but not including, `stop`. -/
structure Span where
  start : ℕ
  stop : ℕ
  deriving DecidableEq

/-- `t` starts behind the start of `s`, and `k` positions or more before its end. -/
def Follows (k : ℕ) (s t : Span) : Prop := s.start < t.start ∧ t.start + k ≤ s.stop

/-- The spans lead from position `a` to position `n`. -/
structure Covers (n k a : ℕ) (spans : List Span) : Prop where
  first : ∃ s, spans.head? = some s ∧ s.start = a
  follow : spans.IsChain (Follows k)
  last : ∃ s, spans.getLast? = some s ∧ s.stop = n

section

variable {n k a : ℕ} {s : Span} {spans : List Span}

theorem Covers.single (a n k : ℕ) : Covers n k a [⟨a, n⟩] :=
  ⟨⟨_, rfl, rfl⟩, .singleton _, ⟨_, rfl, rfl⟩⟩

theorem Covers.cons {b : ℕ} (h : Covers n k b spans) (hs : s.start < b) (hb : b + k ≤ s.stop) :
    Covers n k s.start (s :: spans) := by
  obtain ⟨⟨t, ht, rfl⟩, hf, hl⟩ := h
  obtain ⟨rest, rfl⟩ : ∃ rest, spans = t :: rest := by
    cases spans with
    | nil => cases ht
    | cons u rest => exact ⟨rest, by cases ht; rfl⟩
  refine ⟨⟨s, rfl, rfl⟩, .cons_cons ⟨hs, hb⟩ hf, ?_⟩
  rwa [List.getLast?_cons_cons]

/-- The spans behind the first one cover what is left. -/
theorem Covers.tail {t : Span} (h : Covers n k a (s :: t :: spans)) :
    s.start = a ∧ Follows k s t ∧ Covers n k t.start (t :: spans) := by
  obtain ⟨⟨u, hu, ha⟩, hf, hl⟩ := h
  cases hu
  rw [List.isChain_cons_cons] at hf
  rw [List.getLast?_cons_cons] at hl
  exact ⟨ha, hf.1, ⟨t, rfl, rfl⟩, hf.2, hl⟩

theorem Covers.mono {k' : ℕ} (h : Covers n k a spans) (hk : k' ≤ k) : Covers n k' a spans :=
  ⟨h.first, h.follow.imp fun _ _ hst => ⟨hst.1, by have := hst.2; omega⟩, h.last⟩

/-- **No more spans than positions.** -/
theorem Covers.length_le (h : Covers n k a spans) (hne : ∀ s ∈ spans, s.start < n) :
    spans.length ≤ n - a := by
  induction spans generalizing a with
  | nil => simp
  | cons s rest ih =>
    have hs := hne s (by simp)
    cases rest with
    | nil =>
      obtain ⟨⟨u, hu, ha⟩, -, -⟩ := h
      cases hu
      simp only [List.length_cons, List.length_nil]
      omega
    | cons t rest =>
      obtain ⟨ha, hst, ht⟩ := h.tail
      have hlen := ih ht fun u hu => hne u (List.mem_cons_of_mem _ hu)
      have hlt := hst.1
      have htn := hne t (by simp)
      rw [List.length_cons]
      omega

/-- **A short stretch lies in one span.** -/
theorem Covers.contains (h : Covers n k a spans) {i len : ℕ} (hi : a ≤ i) (hlen : len ≤ k)
    (hn : i + len ≤ n) : ∃ s ∈ spans, s.start ≤ i ∧ i + len ≤ s.stop := by
  induction spans generalizing a with
  | nil => obtain ⟨s, hs, -⟩ := h.first; cases hs
  | cons s rest ih =>
    cases rest with
    | nil =>
      obtain ⟨⟨u, hu, ha⟩, -, ⟨v, hv, hstop⟩⟩ := h
      cases hu
      rw [List.getLast?_singleton, Option.some_inj] at hv
      subst hv
      exact ⟨s, by simp, by omega, by omega⟩
    | cons t rest =>
      obtain ⟨ha, hst, ht⟩ := h.tail
      -- the stretch ends in the first span, or it starts in one behind it
      by_cases hit : i < t.start
      · have hov := hst.2
        exact ⟨s, by simp, by omega, by omega⟩
      · obtain ⟨u, hu, hin⟩ := ih ht (by omega)
        exact ⟨u, List.mem_cons_of_mem _ hu, hin⟩

end

end Cover
