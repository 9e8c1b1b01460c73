import Mathlib.Data.List.Chain
import Mathlib.Data.List.Rotate
import SynitWaf.Upstream.Select

/-!
# Sequential round-robin selection

A call of `selectUpstream` that runs alone draws consecutive tickets and returns the first upstream
that is healthy and not in cooldown, in the cyclic order behind the counter.

* `tickets`: the tickets of the next rounds; `visited`: the upstreams a call looks at;
* `UpstreamHeap.cleared`: expired deadlines are set to zero, nothing else changes;
* `selectLoop_round`, `selectLoop_run`: one round, and the whole loop;
* **`selectUpstream_sequential`**: the returned upstream, the changes, and fairness over `n` calls;
* `selectUpstream_before_epoch`: a deadline before the epoch is no deadline.
-/

namespace SynitWaf

open Atomic

/-- The tickets of the next rounds, from the value of the counter. -/
def tickets : ℕ → ℕ → List ℕ
  | 0, _ => []
  | k + 1, c => nextTicket c :: tickets k (nextTicket c)

/-- The upstreams up to the first one that is available. -/
def visited (now : ℤ) (h : UpstreamHeap) : List UpstreamServer → List UpstreamServer
  | [] => []
  | u :: us => if Available now u h then [u] else u :: visited now h us

/-- The deadlines of the given upstreams that the clock has reached are zero. -/
def UpstreamHeap.cleared (h : UpstreamHeap) (now : ℤ) (us : List UpstreamServer) : UpstreamHeap :=
  { h with up := fun a =>
      if (∃ u ∈ us, u.id = a) ∧ 0 < (h.up a).deadUntil ∧ (h.up a).deadUntil ≤ now then
        { h.up a with deadUntil := 0 }
      else h.up a }

/-- The counter of a tenant is set. -/
def UpstreamHeap.setCounter (h : UpstreamHeap) (ts : ℕ) (c : ℕ) : UpstreamHeap :=
  { h with counter := Function.update h.counter ts c }

section Heap

theorem setCounter_setCounter (h : UpstreamHeap) (ts c c' : ℕ) :
    (h.setCounter ts c).setCounter ts c' = h.setCounter ts c' := by
  simp [UpstreamHeap.setCounter]

variable {h : UpstreamHeap} {now : ℤ} {u v : UpstreamServer} {us : List UpstreamServer}

theorem cleared_nil (h : UpstreamHeap) (now : ℤ) : h.cleared now [] = h := by
  simp [UpstreamHeap.cleared]

theorem cleared_cons (h : UpstreamHeap) (now : ℤ) (u : UpstreamServer) (us : List UpstreamServer) :
    (h.cleared now [u]).cleared now us = h.cleared now (u :: us) := by
  unfold UpstreamHeap.cleared
  congr 1
  funext a
  by_cases hu : u.id = a
  · by_cases hd : 0 < (h.up a).deadUntil ∧ (h.up a).deadUntil ≤ now
    · simp [hu, hd]
    · simp [hu, hd]
  · simp [hu]

theorem cleared_of_running (hd : ¬ (0 < (h.up u.id).deadUntil ∧ (h.up u.id).deadUntil ≤ now)) :
    h.cleared now [u] = h := by
  unfold UpstreamHeap.cleared
  congr 1
  funext a
  refine if_neg ?_
  rintro ⟨⟨v, hv, rfl⟩, hexpired⟩
  rw [List.mem_singleton.mp hv] at hexpired
  exact hd hexpired

theorem cleared_of_expired (hd : 0 < (h.up u.id).deadUntil ∧ (h.up u.id).deadUntil ≤ now) :
    h.cleared now [u] = h.setUp u.id { h.up u.id with deadUntil := 0 } := by
  unfold UpstreamHeap.cleared UpstreamHeap.setUp
  congr 1
  funext a
  by_cases ha : a = u.id
  · subst ha
    simp [hd]
  · have ha' : ¬ u.id = a := fun h => ha h.symm
    simp [ha, ha', Function.update_of_ne]

/-- Clearing does not change who is available. -/
theorem available_cleared : Available now v (h.cleared now us) ↔ Available now v h := by
  unfold Available UpstreamHeap.cleared
  dsimp only
  split
  next hc =>
    obtain ⟨-, -, hd⟩ := hc
    simp [hd]
  next => rfl

theorem visited_congr {h' : UpstreamHeap} (hh : ∀ v, Available now v h ↔ Available now v h')
    (vs : List UpstreamServer) : visited now h vs = visited now h' vs := by
  induction vs with
  | nil => rfl
  | cons v vs ih => simp only [visited, hh, ih]

end Heap

section Loop

variable {ts : TenantState} {hn : 0 < ts.upstreams.length} {now : ℤ}

theorem returnIfHealthy_run (u : UpstreamServer) (rest : Prog upstreamSig (Option UpstreamServer))
    (h : UpstreamHeap) : (returnIfHealthy u rest).run h =
      if (h.up u.id).isHealthy then (some u, h) else rest.run h := by
  change (if (h.up u.id).isHealthy then Prog.ret (some u) else rest).run h = _
  split <;> rfl

/-- **One round**: the upstream under the next ticket is cleared if its deadline is over, and returned
if it is available. -/
theorem selectLoop_round (k : ℕ) (h : UpstreamHeap) {c : ℕ} {u : UpstreamServer} {h' : UpstreamHeap}
    (hc : nextTicket (h.counter ts.id) = c) (hu : ts.at hn c = u)
    (hh' : (h.cleared now [u]).setCounter ts.id c = h') :
    (selectLoop ts hn now (k + 1)).run h =
      if Available now u h then (some u, h') else (selectLoop ts hn now k).run h' := by
  subst hc hu hh'
  generalize hu : ts.at hn (nextTicket (h.counter ts.id)) = u
  generalize hc : nextTicket (h.counter ts.id) = c at hu ⊢
  have hrun : (selectLoop ts hn now (k + 1)).run h =
      (if 0 < (h.up u.id).deadUntil then
        if now < (h.up u.id).deadUntil then selectLoop ts hn now k
        else .act (.storeDeadUntil u.id 0) fun _ => returnIfHealthy u (selectLoop ts hn now k)
      else returnIfHealthy u (selectLoop ts hn now k)).run (h.setCounter ts.id c) := by
    rw [← hu, ← hc]
    rfl
  rw [hrun]
  by_cases hd : 0 < (h.up u.id).deadUntil
  · by_cases hnow : now < (h.up u.id).deadUntil
    · have hout : ¬ Available now u h := fun ha => ha.2.elim (not_le_of_gt hd) (not_le_of_gt hnow)
      rw [if_pos hd, if_pos hnow, if_neg hout, cleared_of_running (by omega)]
    · rw [if_pos hd, if_neg hnow, cleared_of_expired ⟨hd, not_lt.mp hnow⟩]
      change (returnIfHealthy u _).run
        ((h.setUp u.id { h.up u.id with deadUntil := 0 }).setCounter ts.id c) = _
      rw [returnIfHealthy_run]
      have hhealthy : ((h.setUp u.id { h.up u.id with deadUntil := 0 }).setCounter ts.id c).up u.id =
          { h.up u.id with deadUntil := 0 } := Function.update_self ..
      have havailable : Available now u h ↔ (h.up u.id).isHealthy = true :=
        and_iff_left (.inr (not_lt.mp hnow))
      simp only [hhealthy, havailable]
  · rw [if_neg hd, cleared_of_running fun hexpired => hd hexpired.1, returnIfHealthy_run]
    have havailable : Available now u h ↔ (h.up u.id).isHealthy = true :=
      and_iff_left (.inl (not_lt.mp hd))
    simp only [havailable]
    rfl

/-- The upstreams of the next rounds. -/
def rounds (ts : TenantState) (hn : 0 < ts.upstreams.length) (k c : ℕ) : List UpstreamServer :=
  (tickets k c).map (ts.at hn)

/-- **The loop** returns the first available upstream and clears expired deadlines on its way. -/
theorem selectLoop_run (k : ℕ) (h : UpstreamHeap) :
    (selectLoop ts hn now k).run h =
      ((rounds ts hn k (h.counter ts.id)).find? fun u => Available now u h,
        (h.cleared now (visited now h (rounds ts hn k (h.counter ts.id)))).setCounter ts.id
          (nextTicket^[(visited now h (rounds ts hn k (h.counter ts.id))).length]
            (h.counter ts.id))) := by
  induction k generalizing h with
  | zero =>
    change (none, h) = (none, (h.cleared now []).setCounter ts.id (h.counter ts.id))
    rw [cleared_nil, UpstreamHeap.setCounter, Function.update_eq_self]
  | succ k ih =>
    generalize hc : nextTicket (h.counter ts.id) = c
    generalize hu : ts.at hn c = u
    have hrounds : rounds ts hn (k + 1) (h.counter ts.id) = u :: rounds ts hn k c := by
      rw [rounds, tickets, hc, List.map_cons, hu, rounds]
    rw [selectLoop_round k h hc hu rfl, hrounds, List.find?_cons, visited]
    by_cases ha : Available now u h
    · simp [ha, hc]
    · have hcounter : ((h.cleared now [u]).setCounter ts.id c).counter ts.id = c :=
        Function.update_self ..
      have hsame : ∀ v, Available now v ((h.cleared now [u]).setCounter ts.id c) ↔
          Available now v h := fun v => available_cleared
      rw [if_neg ha, if_neg ha, ih, hcounter, visited_congr hsame, List.length_cons,
        Function.iterate_succ_apply, hc]
      simp only [hsame, ha, decide_false]
      refine congrArg (Prod.mk _) ?_
      rw [← cleared_cons h now u (visited now h (rounds ts hn k c))]
      exact setCounter_setCounter ((h.cleared now [u]).cleared now (visited now h (rounds ts hn k c)))
        ts.id c _

end Loop

/-! ## Without wrap-around -/

theorem nextTicket_of_lt {c : ℕ} (h : c + 1 < 2 ^ 64) : nextTicket c = c + 1 :=
  Nat.mod_eq_of_lt h

theorem tickets_eq_range {k c : ℕ} (h : c + k < 2 ^ 64) :
    tickets k c = List.range' (c + 1) k := by
  induction k generalizing c with
  | zero => rfl
  | succ k ih =>
    rw [tickets, nextTicket_of_lt (by omega), ih (by omega), List.range'_succ]

theorem iterate_nextTicket {k c : ℕ} (h : c + k < 2 ^ 64) : nextTicket^[k] c = c + k := by
  induction k with
  | zero => rfl
  | succ k ih => rw [Function.iterate_succ_apply', ih (by omega), nextTicket_of_lt (by omega)]; omega

/-- One round for every upstream visits them in cyclic order. -/
theorem rounds_eq_rotate {ts : TenantState} {hn : 0 < ts.upstreams.length} {c : ℕ}
    (h : c + ts.upstreams.length < 2 ^ 64) :
    rounds ts hn ts.upstreams.length c = ts.upstreams.rotate (c + 1) := by
  rw [rounds, tickets_eq_range h]
  apply List.ext_getElem
  · simp
  · intro i hi hi'
    simp only [List.getElem_map, List.getElem_range', List.getElem_rotate, TenantState.at,
      List.get_eq_getElem]
    congr 2
    omega

theorem length_visited_le (now : ℤ) (h : UpstreamHeap) (us : List UpstreamServer) :
    (visited now h us).length ≤ us.length := by
  induction us with
  | nil => exact Nat.le_refl 0
  | cons u us ih =>
    unfold visited
    split
    · simp
    · simpa using ih

/-! ## The call -/

/-- What one call at `now` from the heap `h` should return and change. -/
structure SelectsFirst (ts : TenantState) (now : ℤ) (h : UpstreamHeap)
    (r : Option UpstreamServer × UpstreamHeap) : Prop where
  first : r.1 = (ts.upstreams.rotate (h.counter ts.id + 1)).find? fun u => Available now u h
  none_iff : r.1 = none ↔ ∀ u ∈ ts.upstreams, ¬ Available now u h
  counter : r.2.counter = Function.update h.counter ts.id
    (h.counter ts.id + (visited now h (ts.upstreams.rotate (h.counter ts.id + 1))).length)
  up : r.2.up = (h.cleared now (visited now h (ts.upstreams.rotate (h.counter ts.id + 1)))).up

theorem selectUpstream_first {ts : TenantState} {now : ℤ} {h : UpstreamHeap}
    (hn : 0 < ts.upstreams.length) (hc : h.counter ts.id + ts.upstreams.length < 2 ^ 64) :
    SelectsFirst ts now h ((selectUpstream ts now).run h) := by
  have hlen := length_visited_le now h (ts.upstreams.rotate (h.counter ts.id + 1))
  rw [List.length_rotate] at hlen
  rw [selectUpstream, dif_pos hn, selectLoop_run, rounds_eq_rotate hc,
    iterate_nextTicket (by omega)]
  refine ⟨rfl, ?_, rfl, rfl⟩
  simp [List.find?_eq_none]

/-! ## Consecutive calls -/

/-- A call: its clock and the heap it starts from. -/
abbrev SelectCall := ℤ × UpstreamHeap

/-- What the call returns, and the heap it leaves. -/
def SelectCall.outcome (ts : TenantState) (x : SelectCall) : Option UpstreamServer × UpstreamHeap :=
  (selectUpstream ts x.1).run x.2

/-- Calls one after the other: each finds the counter as the one before left it. Health and deadlines
may change in between. -/
def Consecutive (ts : TenantState) (calls : List SelectCall) : Prop :=
  calls.IsChain fun x y => y.2.counter ts.id = (x.outcome ts).2.counter ts.id

theorem at_mem (ts : TenantState) (hn : 0 < ts.upstreams.length) (c : ℕ) :
    ts.at hn c ∈ ts.upstreams := List.get_mem _ _

/-- With all upstreams available, the first round returns. -/
theorem outcome_of_available {ts : TenantState} (hn : 0 < ts.upstreams.length) {x : SelectCall}
    (hx : ∀ u ∈ ts.upstreams, Available x.1 u x.2) :
    (x.outcome ts).1 = some (ts.at hn (nextTicket (x.2.counter ts.id))) ∧
      (x.outcome ts).2.counter ts.id = nextTicket (x.2.counter ts.id) := by
  obtain ⟨n, hlen⟩ : ∃ n, ts.upstreams.length = n + 1 := ⟨ts.upstreams.length - 1, by omega⟩
  rw [SelectCall.outcome, selectUpstream, dif_pos hn, hlen, selectLoop_round n x.2 rfl rfl rfl,
    if_pos (hx _ (at_mem ts hn _))]
  exact ⟨rfl, Function.update_self ..⟩

theorem outcomes_of_available {ts : TenantState} (hn : 0 < ts.upstreams.length)
    {calls : List SelectCall} (hcalls : Consecutive ts calls)
    (havailable : ∀ x ∈ calls, ∀ u ∈ ts.upstreams, Available x.1 u x.2)
    {c : ℕ} (hc : ∀ x ∈ calls.head?, x.2.counter ts.id = c) :
    calls.map (fun x => (x.outcome ts).1) = (rounds ts hn calls.length c).map some := by
  induction calls generalizing c with
  | nil => rfl
  | cons x calls ih =>
    obtain ⟨hfirst, hcounter⟩ := outcome_of_available hn (havailable x List.mem_cons_self)
    have hx : x.2.counter ts.id = c := hc x rfl
    rw [hx] at hfirst hcounter
    have hnext : ∀ y ∈ calls.head?, y.2.counter ts.id = nextTicket c := by
      intro y hy
      rw [(List.isChain_cons.mp hcalls).1 y hy, hcounter]
    rw [List.map_cons, hfirst, ih (List.isChain_cons.mp hcalls).2
      (fun y hy => havailable y (List.mem_cons_of_mem _ hy)) hnext]
    rfl

/-- **Sequential selection.** A call returns the first upstream, in the cyclic order behind the
counter, that is healthy and has no deadline ahead of it; it returns `nil` if there is none. It moves
the counter and clears the expired deadlines it has come across. If all upstreams are available, as
many calls as there are upstreams return each of them once. -/
theorem selectUpstream_sequential (ts : TenantState) (hn : 1 ≤ ts.upstreams.length) :
    (∀ now h, h.counter ts.id + ts.upstreams.length < 2 ^ 64 →
      SelectsFirst ts now h ((selectUpstream ts now).run h)) ∧
    ∀ (x : SelectCall) (calls : List SelectCall), calls.length + 1 = ts.upstreams.length →
      x.2.counter ts.id + ts.upstreams.length < 2 ^ 64 → Consecutive ts (x :: calls) →
      (∀ y ∈ x :: calls, ∀ u ∈ ts.upstreams, Available y.1 u y.2) →
      ((x :: calls).map fun y => (y.outcome ts).1).Perm (ts.upstreams.map some) := by
  refine ⟨fun now h hc => selectUpstream_first hn hc, fun x calls hlen hc hcalls havailable => ?_⟩
  have hhead : ∀ y ∈ (x :: calls).head?, y.2.counter ts.id = x.2.counter ts.id := by
    intro y hy
    obtain rfl := Option.some.inj hy
    rfl
  rw [outcomes_of_available hn hcalls havailable hhead, List.length_cons, hlen, rounds_eq_rotate hc]
  exact (List.rotate_perm _ _).map some

/-- The two upstreams of a tenant, both healthy, in two calls. -/
theorem selectUpstream_sequential_pair :
    ([((100 : ℤ), (⟨fun _ => 0, fun _ => ⟨true, 0, 0⟩⟩ : UpstreamHeap)),
      (101, ⟨fun _ => 1, fun _ => ⟨true, 0, 0⟩⟩)].map fun y => (SelectCall.outcome pair y).1).Perm
        (pair.upstreams.map some) := by
  refine (selectUpstream_sequential pair (by decide)).2 _ _ rfl (by decide) ?_ (by decide)
  exact List.isChain_pair.mpr (by decide)

/-- **Before the epoch.** A deadline one second before the epoch lies ahead of the clock, and the
upstream is returned. -/
theorem selectUpstream_before_epoch :
    ((selectUpstream ⟨0, [⟨0, []⟩]⟩ (-5)).run ⟨fun _ => 0, fun _ => ⟨true, 0, -1⟩⟩).1 =
      some ⟨0, []⟩ ∧ ¬ ((-1 : ℤ) = 0 ∨ (-1 : ℤ) ≤ -5) := by
  decide

end SynitWaf
