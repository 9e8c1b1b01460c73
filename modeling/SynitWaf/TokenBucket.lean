import Mathlib.Algebra.Order.Ring.Defs
import Mathlib.Data.List.Induction
import Mathlib.Tactic.Linarith
import Mathlib.Tactic.Ring

/-!
# Token buckets

A bucket holds at most `burst` tokens, gains `rate` tokens in every unit of time and gives one away
for every request that it grants. Times and tokens are elements of an ordered ring.

* `Policy`, `Bucket`, `Bucket.level`, `Bucket.take`;
* `answers`, `bucketAfter`: requests at some times, one after the other;
* **`granted_le`**: the requests granted within an interval are at most the burst and what flows in
  during the interval;
* **`take_eq_of_refilled`**: a bucket that had time to fill is as good as a new one.
-/

namespace TokenBucket

/-- The rate and the capacity of a bucket. -/
structure Policy (K : Type) where
  rate : K
  burst : K

/-- The tokens of a bucket after the last request that it granted, and the time of that request. -/
structure Bucket (K : Type) where
  tokens : K
  last : Option K
  deriving DecidableEq

variable {K : Type} [CommRing K] [LinearOrder K]

/-- A new bucket is full. -/
def full (p : Policy K) : Bucket K := ⟨p.burst, none⟩

/-- The tokens at time `t`. -/
def Bucket.level (p : Policy K) (b : Bucket K) (t : K) : K :=
  match b.last with
  | none => min p.burst b.tokens
  | some l => min p.burst (b.tokens + p.rate * (t - l))

/-- A request at time `t`: is it granted? -/
def Bucket.take (p : Policy K) (b : Bucket K) (t : K) : Bool × Bucket K :=
  if 1 ≤ b.level p t then (true, ⟨b.level p t - 1, some t⟩) else (false, b)

/-- Requests at some times, with the answers. -/
def answers (p : Policy K) : Bucket K → List K → List (K × Bool)
  | _, [] => []
  | b, t :: ts => (t, (b.take p t).1) :: answers p (b.take p t).2 ts

/-- The bucket after requests at some times. -/
def bucketAfter (p : Policy K) (b : Bucket K) (ts : List K) : Bucket K :=
  ts.foldl (fun b t => (b.take p t).2) b

/-- Was the request granted, at a time from `a` to `c`? -/
def grantedWithin (a c : K) (x : K × Bool) : Bool := x.2 && (a ≤ x.1 && x.1 ≤ c)

/-- The bucket at time `t`: it has no debts, and its last request was not later. -/
structure Bucket.Valid (b : Bucket K) (t : K) : Prop where
  tokens_nonneg : 0 ≤ b.tokens
  last_le : ∀ l, b.last = some l → l ≤ t

theorem answers_append (p : Policy K) (b : Bucket K) (ts : List K) (t : K) :
    answers p b (ts ++ [t]) = answers p b ts ++ [(t, ((bucketAfter p b ts).take p t).1)] := by
  induction ts generalizing b with
  | nil => rfl
  | cons t' ts ih =>
    rw [List.cons_append, answers, answers, ih, List.cons_append]
    rfl

theorem bucketAfter_append (p : Policy K) (b : Bucket K) (ts : List K) (t : K) :
    bucketAfter p b (ts ++ [t]) = ((bucketAfter p b ts).take p t).2 := by
  rw [bucketAfter, List.foldl_append]
  rfl

theorem level_full (p : Policy K) (t : K) : (full p).level p t = p.burst := min_self _

theorem level_le_burst (p : Policy K) (b : Bucket K) (t : K) : b.level p t ≤ p.burst := by
  unfold Bucket.level
  split <;> exact min_le_left _ _

theorem take_of_le {p : Policy K} {b : Bucket K} {t : K} (h : 1 ≤ b.level p t) :
    b.take p t = (true, ⟨b.level p t - 1, some t⟩) :=
  if_pos h

theorem take_of_not_le {p : Policy K} {b : Bucket K} {t : K} (h : ¬ 1 ≤ b.level p t) :
    b.take p t = (false, b) :=
  if_neg h

theorem mem_answers {p : Policy K} {b : Bucket K} {ts : List K} {x : K × Bool}
    (h : x ∈ answers p b ts) : x.1 ∈ ts := by
  induction ts generalizing b with
  | nil => cases h
  | cons t ts ih =>
    rcases List.mem_cons.mp h with rfl | h
    · exact List.mem_cons_self
    · exact List.mem_cons_of_mem _ (ih h)

variable {p : Policy K} {b : Bucket K} {t u : K}

theorem Bucket.Valid.full (hb : 0 ≤ p.burst) (t : K) : (full p).Valid t :=
  ⟨hb, fun l hl => by cases hl⟩

theorem Bucket.Valid.mono (h : b.Valid t) (htu : t ≤ u) : b.Valid u :=
  ⟨h.tokens_nonneg, fun l hl => le_trans (h.last_le l hl) htu⟩

variable [IsStrictOrderedRing K]

/-- A request keeps the bucket valid. -/
theorem Bucket.Valid.take (h : b.Valid t) (htu : t ≤ u) : (b.take p u).2.Valid u := by
  by_cases hl : 1 ≤ b.level p u
  · rw [take_of_le hl]
    exact ⟨sub_nonneg.mpr hl, fun l hl => by cases hl; exact le_refl _⟩
  · rw [take_of_not_le hl]
    exact h.mono htu

theorem level_nonneg (hb : 0 ≤ p.burst) (hr : 0 ≤ p.rate) (h : b.Valid t) : 0 ≤ b.level p t := by
  unfold Bucket.level
  split
  · exact le_min hb h.tokens_nonneg
  next l hl =>
    have helapsed : 0 ≤ t - l := sub_nonneg.mpr (h.last_le l hl)
    exact le_min hb (add_nonneg h.tokens_nonneg (mul_nonneg hr helapsed))

/-- After some requests the bucket has no debts, and it is new or has granted one by then. -/
theorem bucketAfter_full (hb : 1 ≤ p.burst) {ts : List K} (hsorted : ts.Pairwise (· ≤ ·)) :
    0 ≤ (bucketAfter p (full p) ts).tokens ∧ ∀ t, ts.getLast? = some t →
      ∃ u, (bucketAfter p (full p) ts).last = some u ∧ u ≤ t := by
  have hpos : 0 ≤ p.burst := le_trans zero_le_one hb
  induction ts using List.reverseRecOn with
  | nil => exact ⟨hpos, fun t ht => by cases ht⟩
  | append_singleton ts t ih =>
    obtain ⟨hts, -, hle⟩ := List.pairwise_append.mp hsorted
    obtain ⟨htokens, hlast⟩ := ih hts
    rw [bucketAfter_append, List.getLast?_concat]
    by_cases hl : 1 ≤ (bucketAfter p (full p) ts).level p t
    · rw [take_of_le hl]
      exact ⟨sub_nonneg.mpr hl, fun t' ht' => by cases ht'; exact ⟨t, rfl, le_refl t⟩⟩
    · rw [take_of_not_le hl]
      refine ⟨htokens, fun t' ht' => ?_⟩
      cases ht'
      cases hend : ts.getLast? with
      | none =>
        -- a new bucket grants the first request
        rw [List.getLast?_eq_none_iff] at hend
        subst hend
        rw [bucketAfter, List.foldl_nil, level_full] at hl
        exact absurd hb hl
      | some s =>
        obtain ⟨u, hu, hus⟩ := hlast s hend
        exact ⟨u, hu, le_trans hus (hle s (List.mem_of_getLast? hend) t (by simp))⟩

/-- What flows in from `t` to `u` bounds the growth of the level. -/
theorem level_le_add (hr : 0 ≤ p.rate) (htu : t ≤ u) :
    b.level p u ≤ b.level p t + p.rate * (u - t) := by
  have hflow : 0 ≤ p.rate * (u - t) := mul_nonneg hr (sub_nonneg.mpr htu)
  unfold Bucket.level
  split
  · exact le_add_of_nonneg_right hflow
  next l _ =>
    rw [← min_add_add_right]
    refine min_le_min (le_add_of_nonneg_right hflow) (le_of_eq ?_)
    ring

/-- The level behind a request that was granted. -/
theorem level_take (h : 1 ≤ b.level p t) : (b.take p t).2.level p t = b.level p t - 1 := by
  have hle : b.level p t - 1 ≤ p.burst :=
    le_trans (sub_le_self _ zero_le_one) (level_le_burst p b t)
  have hlevel : (⟨b.level p t - 1, some t⟩ : Bucket K).level p t =
      min p.burst (b.level p t - 1 + p.rate * (t - t)) := rfl
  rw [take_of_le h, hlevel, sub_self, mul_zero, add_zero, min_eq_right hle]

/-- Requests from time `t` on: those granted until `c` use up the level at `t` and the inflow. -/
theorem granted_le_level (hb : 0 ≤ p.burst) (hr : 0 ≤ p.rate) {a c : K} {ts : List K}
    (h : b.Valid t) (hsorted : (t :: ts).Pairwise (· ≤ ·)) (htc : t ≤ c) :
    ((answers p b ts).countP (grantedWithin a c) : K) ≤ b.level p t + p.rate * (c - t) := by
  have hzero : ∀ {b : Bucket K} {t : K}, b.Valid t → t ≤ c →
      ((0 : ℕ) : K) ≤ b.level p t + p.rate * (c - t) := by
    intro b t hv htc
    rw [Nat.cast_zero]
    exact add_nonneg (level_nonneg hb hr hv) (mul_nonneg hr (sub_nonneg.mpr htc))
  induction ts generalizing b t with
  | nil => exact hzero h htc
  | cons s ts ih =>
    obtain ⟨hts, hrest⟩ := List.pairwise_cons.mp hsorted
    have hst : t ≤ s := hts s (by simp)
    by_cases hsc : s ≤ c
    · have hgrow : b.level p s + p.rate * (c - s) ≤ b.level p t + p.rate * (c - t) := by
        have hle := level_le_add (b := b) hr hst
        calc b.level p s + p.rate * (c - s)
            ≤ b.level p t + p.rate * (s - t) + p.rate * (c - s) := by gcongr
          _ = b.level p t + p.rate * (c - t) := by ring
      refine le_trans ?_ hgrow
      have hnext := ih (h.take (p := p) hst) hrest hsc
      rw [answers, List.countP_cons]
      by_cases hl : 1 ≤ b.level p s
      · -- a request that is granted costs one token
        rw [level_take hl] at hnext
        have hone : ((if grantedWithin a c (s, (b.take p s).1) then 1 else 0 : ℕ) : K) ≤ 1 := by
          split <;> simp
        rw [Nat.cast_add]
        linarith
      · rw [take_of_not_le hl] at hnext ⊢
        exact hnext
    · -- nothing from here on is within the interval
      have hnone : (answers p b (s :: ts)).countP (grantedWithin a c) = 0 := by
        rw [List.countP_eq_zero]
        intro x hx hwithin
        have hsx : s ≤ x.1 := by
          rcases List.mem_cons.mp (mem_answers hx) with hxs | hxs
          · exact le_of_eq hxs.symm
          · exact (List.pairwise_cons.mp hrest).1 _ hxs
        simp only [grantedWithin, Bool.and_eq_true, decide_eq_true_eq] at hwithin
        exact hsc (le_trans hsx hwithin.2.2)
      rw [hnone]
      exact hzero h htc

/-- **The bound of a token bucket.** Of the requests at times from `a` to `c`, no more are granted
than the burst and what flows in from `a` to `c`. -/
theorem granted_le (hb : 0 ≤ p.burst) (hr : 0 ≤ p.rate) {a c : K} (hac : a ≤ c) {ts : List K}
    (h : b.Valid a) (hsorted : ts.Pairwise (· ≤ ·)) :
    ((answers p b ts).countP (grantedWithin a c) : K) ≤ p.burst + p.rate * (c - a) := by
  induction ts generalizing b with
  | nil =>
    rw [answers, List.countP_nil, Nat.cast_zero]
    exact add_nonneg hb (mul_nonneg hr (sub_nonneg.mpr hac))
  | cons t ts ih =>
    by_cases hta : a ≤ t
    · -- all the requests that are left come at `a` or later
      have hlater : (a :: t :: ts).Pairwise (· ≤ ·) := by
        refine List.pairwise_cons.mpr ⟨fun s hs => ?_, hsorted⟩
        rcases List.mem_cons.mp hs with rfl | hs
        · exact hta
        · exact le_trans hta ((List.pairwise_cons.mp hsorted).1 s hs)
      have hcount := granted_le_level hb hr (a := a) h hlater hac
      have hle := level_le_burst p b a
      linarith
    · have hbefore : grantedWithin a c (t, (b.take p t).1) = false := by
        simp [grantedWithin, hta]
      rw [answers, List.countP_cons, hbefore, if_neg (by simp), Nat.add_zero]
      have hvalid : (b.take p t).2.Valid a := by
        have hle : t ≤ a := le_of_not_ge hta
        by_cases hl : 1 ≤ b.level p t
        · rw [take_of_le hl]
          exact ⟨sub_nonneg.mpr hl, fun l hl => by cases hl; exact hle⟩
        · rw [take_of_not_le hl]
          exact h
      exact ih hvalid (List.pairwise_cons.mp hsorted).2

/-- **A bucket that had time to fill** answers like a new one. -/
theorem take_eq_of_refilled (hb : 1 ≤ p.burst) (h : 0 ≤ b.tokens) (hlast : b.last = some u)
    (hfill : p.burst ≤ p.rate * (t - u)) : b.take p t = (full p).take p t := by
  have hlevel : b.level p t = p.burst := by
    unfold Bucket.level
    rw [hlast]
    exact min_eq_left (le_trans hfill (le_add_of_nonneg_left h))
  have hnew := level_full p t
  rw [take_of_le (by rw [hlevel]; exact hb), take_of_le (by rw [hnew]; exact hb), hlevel, hnew]

end TokenBucket
