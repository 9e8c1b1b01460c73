import Mathlib.Data.Finset.Card
import Mathlib.Data.List.Nodup
import SynitWaf.Upstream.Model

/-!
# Concurrent round-robin selection

Each round of `selectUpstream` draws a ticket from a counter that all calls on the tenant share.
Draws of other calls fall in between, so that the rounds of one call need not visit every
upstream.

* `probes ts t`: the indices a call with steps `t` has drawn;
* `selectLoop_none`: a call that returns `nil` drew one index per round and found every one of
  them in cooldown or unhealthy;
* **`selectUpstream_isSome_of_fresh`**: a call that never draws an index twice finds an upstream
  that is healthy and not in cooldown throughout;
* `selectUpstream_misses_healthy`: two overlapping calls of which one misses the only healthy
  upstream.
-/

namespace SynitWaf

open Atomic

/-- The upstream is healthy and its circuit is closed. -/
def Eligible (u : UpstreamServer) (h : UpstreamHeap) : Prop :=
  (h.up u.id).isHealthy = true ∧ (h.up u.id).deadUntil = 0

instance (u : UpstreamServer) (h : UpstreamHeap) : Decidable (Eligible u h) :=
  inferInstanceAs (Decidable (_ ∧ _))

/-- The upstream is healthy and not in cooldown for a call whose clock reads `now`. -/
def Available (now : ℤ) (u : UpstreamServer) (h : UpstreamHeap) : Prop :=
  (h.up u.id).isHealthy = true ∧ ((h.up u.id).deadUntil ≤ 0 ∨ (h.up u.id).deadUntil ≤ now)

instance (now : ℤ) (u : UpstreamServer) (h : UpstreamHeap) : Decidable (Available now u h) :=
  inferInstanceAs (Decidable (_ ∧ _))

theorem Eligible.available {u : UpstreamServer} {h : UpstreamHeap} (he : Eligible u h) (now : ℤ) :
    Available now u h :=
  ⟨he.1, .inl (le_of_eq he.2)⟩

/-- The index one step draws, from the state before it. -/
def drawn (ts : TenantState) (x : UpstreamOp × UpstreamHeap) : Option ℕ :=
  if x.1 = .counterAdd ts.id then some (nextTicket (x.2.counter ts.id) % ts.upstreams.length)
  else none

/-- The indices drawn along the steps of one call. -/
def probes (ts : TenantState) (t : Steps upstreamSig) : List ℕ :=
  t.filterMap (drawn ts)

variable {ts : TenantState} {hn : 0 < ts.upstreams.length} {now : ℤ}

theorem probes_lt (hn : 0 < ts.upstreams.length) {t : Steps upstreamSig} {j : ℕ}
    (h : j ∈ probes ts t) : j < ts.upstreams.length := by
  obtain ⟨x, -, hx⟩ := List.mem_filterMap.mp h
  unfold drawn at hx
  split at hx
  · cases hx; exact Nat.mod_lt _ hn
  · cases hx

theorem returnIfHealthy_inv {u : UpstreamServer} {rest : Prog upstreamSig (Option UpstreamServer)}
    {t : Steps upstreamSig} {r : Option UpstreamServer}
    (h : Path (returnIfHealthy u rest) t (.ret r)) :
    ∃ s t', t = (.loadIsHealthy u.id, s) :: t' ∧
      ((r = some u ∧ t' = []) ∨ (Path rest t' (.ret r) ∧ ¬ Available now u s)) := by
  obtain ⟨s, t', rfl, hk⟩ := h.act_ret_inv
  refine ⟨s, t', rfl, ?_⟩
  split at hk
  next hh =>
    obtain ⟨rfl, hr⟩ := hk.ret_inv
    cases hr
    exact .inl ⟨rfl, rfl⟩
  next hh => exact .inr ⟨hk, fun he => hh he.1⟩

/-- **What one round can do.** A finished round draws a ticket and then returns the upstream, or
goes on with the remaining rounds having seen a state in which the upstream is not available. -/
theorem selectLoop_succ_inv {k : ℕ} {t : Steps upstreamSig}
    {r : Option UpstreamServer} (h : Path (selectLoop ts hn now (k + 1)) t (.ret r)) :
    ∃ s t₁ t₂, t = (.counterAdd ts.id, s) :: t₁ ++ t₂ ∧ probes ts t₁ = [] ∧
      ((r = some (ts.at hn (nextTicket (s.counter ts.id))) ∧ t₂ = []) ∨
        (Path (selectLoop ts hn now k) t₂ (.ret r) ∧
          ∃ x ∈ t₁, ¬ Available now (ts.at hn (nextTicket (s.counter ts.id))) x.2)) := by
  obtain ⟨s, t', rfl, h₁⟩ := h.act_ret_inv
  obtain ⟨s₁, t, rfl, h₂⟩ := h₁.act_ret_inv
  refine ⟨s, ?_⟩
  let u := ts.at hn (nextTicket (s.counter ts.id))
  split at h₂
  next hd =>
    split at h₂
    next hc =>
      have hdead : ¬ Available now u s₁ := fun ha => ha.2.elim (not_le_of_gt hd) (not_le_of_gt hc)
      exact ⟨[(.loadDeadUntil u.id, s₁)], t, rfl, rfl,
        .inr ⟨h₂, _, List.mem_singleton_self _, hdead⟩⟩
    next hc =>
      obtain ⟨s₂, t₂, rfl, h₃⟩ := h₂.act_ret_inv
      obtain ⟨s₃, t₃, rfl, h₄⟩ := returnIfHealthy_inv h₃
      refine ⟨[(.loadDeadUntil u.id, s₁), (.storeDeadUntil u.id 0, s₂), (.loadIsHealthy u.id, s₃)],
        t₃, rfl, rfl, h₄.imp id fun ⟨hrest, hne⟩ => ⟨hrest, (.loadIsHealthy u.id, s₃), by simp, hne⟩⟩
  next hd =>
    obtain ⟨s₃, t₃, rfl, h₄⟩ := returnIfHealthy_inv h₂
    exact ⟨[(.loadDeadUntil u.id, s₁), (.loadIsHealthy u.id, s₃)], t₃, rfl, rfl,
      h₄.imp id fun ⟨hrest, hne⟩ => ⟨hrest, (.loadIsHealthy u.id, s₃), by simp, hne⟩⟩

/-- A call that returns `nil` drew an index in every round, and saw each drawn upstream in a state
in which it is not available. -/
theorem selectLoop_none {k : ℕ} {t : Steps upstreamSig}
    (h : Path (selectLoop ts hn now k) t (.ret none)) :
    (probes ts t).length = k ∧
      ∀ j ∈ probes ts t, ∃ x ∈ t, ¬ Available now (ts.at hn j) x.2 := by
  induction k generalizing t with
  | zero =>
    obtain ⟨rfl, -⟩ := h.ret_inv
    exact ⟨rfl, by simp [probes]⟩
  | succ k ih =>
    obtain ⟨s, t₁, t₂, rfl, hp, ⟨hr, -⟩ | ⟨hrest, x, hx, hne⟩⟩ := selectLoop_succ_inv h
    · cases hr
    · obtain ⟨hlen, hj⟩ := ih hrest
      have hcons : probes ts ((.counterAdd ts.id, s) :: t₁ ++ t₂) =
          (nextTicket (s.counter ts.id) % ts.upstreams.length) :: probes ts t₂ := by
        rw [probes, List.filterMap_append, ← probes, ← probes, probes, List.filterMap_cons,
          ← probes, hp]
        simp [drawn]
      rw [hcons]
      refine ⟨by simp [hlen], fun j hmem => ?_⟩
      rcases List.mem_cons.mp hmem with rfl | hmem
      · refine ⟨x, by simp [hx], ?_⟩
        rwa [show ts.at hn (nextTicket (s.counter ts.id) % ts.upstreams.length) =
          ts.at hn (nextTicket (s.counter ts.id)) by simp [TenantState.at]]
      · obtain ⟨y, hy, hye⟩ := hj j hmem
        exact ⟨y, by simp [hy], hye⟩

/-- As many distinct indices as there are upstreams are all the indices. -/
theorem mem_probes_of_nodup (hn : 0 < ts.upstreams.length) {t : Steps upstreamSig}
    (hd : (probes ts t).Nodup) (hlen : (probes ts t).length = ts.upstreams.length) {j : ℕ}
    (hj : j < ts.upstreams.length) : j ∈ probes ts t := by
  have hsub : (probes ts t).toFinset ⊆ Finset.range ts.upstreams.length := by
    intro x hx
    exact Finset.mem_range.mpr (probes_lt hn (List.mem_toFinset.mp hx))
  have hall := Finset.eq_of_subset_of_card_le hsub
    (by rw [Finset.card_range, List.toFinset_card_of_nodup hd, hlen])
  rw [← List.mem_toFinset, hall]
  exact Finset.mem_range.mpr hj

/-- A finished call whose draws are all distinct returns an upstream, if one was available in every
state the call saw. -/
theorem selectUpstream_path_ne_none {t : Steps upstreamSig}
    {r : Option UpstreamServer} {u : UpstreamServer} (h : Path (selectUpstream ts now) t (.ret r))
    (hu : u ∈ ts.upstreams) (he : ∀ x ∈ t, Available now u x.2) (hd : (probes ts t).Nodup) :
    r ≠ none := by
  rintro rfl
  have hn : 0 < ts.upstreams.length := List.length_pos_of_mem hu
  rw [selectUpstream, dif_pos hn] at h
  obtain ⟨hlen, hj⟩ := selectLoop_none h
  obtain ⟨j, rfl⟩ := List.get_of_mem hu
  obtain ⟨x, hx, hne⟩ := hj j (mem_probes_of_nodup hn hd hlen j.2)
  refine hne ?_
  have hat : ts.at hn j = ts.upstreams.get j := by
    simp [TenantState.at, Nat.mod_eq_of_lt j.2]
  rw [hat]
  exact he x hx

/-- A call takes at most four steps a round. -/
theorem selectLoop_within (k : ℕ) : (selectLoop ts hn now k).Within (fun _ => True) (4 * k) := by
  induction k with
  | zero => trivial
  | succ k ih =>
    have hp : ∀ u m, 4 * k ≤ m →
        (returnIfHealthy u (selectLoop ts hn now k)).Within (fun _ => True) (m + 1) := by
      intro u m hm b
      cases b with
      | true => cases m <;> trivial
      | false => exact ih.le hm
    rw [show 4 * (k + 1) = 4 * k + 2 + 1 + 1 by omega]
    intro counter deadUntil
    dsimp only
    split
    · split
      · exact ih.le (by omega)
      · exact fun _ => hp _ _ (by omega)
    · exact hp _ _ (by omega)

theorem selectUpstream_within (ts : TenantState) (now : ℤ) :
    (selectUpstream ts now).Within (fun _ => True) (4 * ts.upstreams.length) := by
  unfold selectUpstream
  split
  · exact selectLoop_within _
  · cases ts.upstreams.length <;> trivial

section Pool

variable {ι : Type} [DecidableEq ι] (calls : ι → Prog upstreamSig (Option UpstreamServer))
  (heap : UpstreamHeap) (sched : List ι)

/-- **Selection under any interleaving.** The pool may hold further calls and any other programs
on the same heap. Let `u` be eligible in every state of the run. A call none of whose draws hits
an index it drew before returns an upstream once it has been scheduled often enough, and never
returns `nil`. -/
theorem selectUpstream_isSome_of_fresh (ts : TenantState) (u : UpstreamServer)
    (hu : u ∈ ts.upstreams)
    (steady : ∀ x ∈ ((Pool.start calls heap).runs sched).trace, Eligible u x.2.2)
    (i : ι) (now : ℤ) (hi : calls i = selectUpstream ts now)
    (fresh : (probes ts (own i ((Pool.start calls heap).runs sched).trace)).Nodup) :
    (∀ r, (((Pool.start calls heap).runs sched).threads i).result? = some r → r ≠ none) ∧
      (4 * ts.upstreams.length ≤ sched.count i →
        ∃ v, (((Pool.start calls heap).runs sched).threads i).result? = some (some v)) := by
  have key : ∀ r, (((Pool.start calls heap).runs sched).threads i).result? = some r →
      r ≠ none := by
    intro r hr
    have hp := path_own calls heap sched i
    rw [Prog.result?_eq_some.mp hr, hi] at hp
    exact selectUpstream_path_ne_none hp hu
      (fun x hx => (steady (i, x) (mem_own.mp hx)).available now) fresh
  refine ⟨key, fun hc => ?_⟩
  have hret : ∃ r, ((Pool.start calls heap).runs sched).threads i = .ret r :=
    returns_of_within (fun _ _ => rfl) (hi ▸ selectUpstream_within ts now) hc
  obtain ⟨r, hr⟩ := hret
  have hr' := Prog.result?_eq_some.mpr hr
  obtain ⟨v, rfl⟩ := Option.ne_none_iff_exists'.mp (key r hr')
  exact ⟨v, hr'⟩

end Pool

/-! ## Two calls, one healthy upstream -/

/-- Two upstreams, the first one healthy. -/
def pair : TenantState := ⟨0, [⟨0, []⟩, ⟨1, []⟩]⟩

/-- The heap in which only the first upstream of `pair` passes its health check. -/
def pairHeap : UpstreamHeap := ⟨fun _ => 0, fun u => ⟨u == 0, 0, 0⟩⟩

/-- Two calls of `selectUpstream` at the same second. -/
def pairCalls : Fin 2 → Prog upstreamSig (Option UpstreamServer) := fun _ => selectUpstream pair 100

theorem selectUpstream_isSome_of_fresh_pair :
    ∃ v, (((Pool.start pairCalls pairHeap).runs [1, 0, 1, 0, 1, 0, 0, 0, 0, 0, 0]).threads 0).result? =
      some (some v) :=
  (selectUpstream_isSome_of_fresh pairCalls pairHeap [1, 0, 1, 0, 1, 0, 0, 0, 0, 0, 0] pair ⟨0, []⟩
    (by decide) (by decide) 0 100 rfl (by decide)).2 (by decide)

/-- **A healthy upstream is missed.** The first call draws index 1, the second call draws index 0
in between, and the first call draws index 1 again. -/
theorem selectUpstream_misses_healthy :
    (∀ x ∈ ((Pool.start pairCalls pairHeap).runs [0, 0, 0, 1, 0, 0, 0]).trace,
      Eligible ⟨0, []⟩ x.2.2) ∧
    (((Pool.start pairCalls pairHeap).runs [0, 0, 0, 1, 0, 0, 0]).threads 0).result? =
      some none := by
  decide

end SynitWaf
