import SynitWaf.Upstream.Model

/-!
# The circuit breaker under concurrent calls

`recordUpstreamFailure` opens the circuit by storing a deadline; `selectUpstream` closes it by a
load of the deadline followed by an unconditional store of zero. A deadline stored between the
load and the store is lost.

* `UpstreamCall`: the two kinds of calls; `Observed`: the last step of a call was a load of `d`;
* `KeepsOpenings`: a stored deadline stays until a later failure replaces it or a selection that
  observed it clears it;
* `ClearsObserved`: every clearing store still finds the deadline its call observed, or zero;
* `selectUpstream_clears`: a clearing store directly follows a load of an expired deadline;
* **`keepsOpenings_iff_clearsObserved`**: a run keeps every opening exactly when all its clearing
  stores find what their calls observed;
* `lost_opening`: a run that loses an opening.
-/

namespace SynitWaf

open Atomic

/-- A call on the atomics of upstreams. -/
inductive UpstreamCall where
  | select (ts : TenantState) (now : ℤ)
  | fail (u : UpstreamServer) (threshold cooldown clock : ℤ)

/-- The program of a call. -/
def UpstreamCall.prog : UpstreamCall → Prog upstreamSig (Option UpstreamServer)
  | .select ts now => selectUpstream ts now
  | .fail u threshold cooldown clock => do
    recordUpstreamFailure u threshold cooldown clock
    return none

/-- The deadline of the upstream at address `u`. -/
def UpstreamHeap.deadline (h : UpstreamHeap) (u : ℕ) : ℤ := (h.up u).deadUntil

theorem deadline_exec (o : UpstreamOp) (h : UpstreamHeap) (u : ℕ) :
    (o.exec h).2.deadline u = h.deadline u ∨ ∃ v, o = .storeDeadUntil u v := by
  cases o with
  | counterAdd ts => exact .inl rfl
  | loadDeadUntil w => exact .inl rfl
  | loadIsHealthy w => exact .inl rfl
  | storeDeadUntil w v =>
    by_cases hw : w = u
    · exact .inr ⟨v, by rw [hw]⟩
    · exact .inl (by simp [UpstreamOp.exec, UpstreamHeap.deadline, UpstreamHeap.setUp,
        Function.update_of_ne (Ne.symm hw)])
  | storeIsHealthy w v | failuresAdd w =>
    refine .inl ?_
    by_cases hw : w = u
    · subst hw
      simp [UpstreamOp.exec, UpstreamHeap.deadline, UpstreamHeap.setUp]
    · simp [UpstreamOp.exec, UpstreamHeap.deadline, UpstreamHeap.setUp,
        Function.update_of_ne (Ne.symm hw)]

@[simp] theorem deadline_exec_store (u : ℕ) (v : ℤ) (h : UpstreamHeap) :
    ((UpstreamOp.storeDeadUntil u v).exec h).2.deadline u = v := by
  simp [UpstreamOp.exec, UpstreamHeap.deadline, UpstreamHeap.setUp]

/-! ## The stores of one call -/

/-- Along `t`, entered after the step `prev`, every store of a deadline stores zero and directly
follows a load of a deadline that the clock reading `now` has reached. -/
def ClearsExpired (now : ℤ) : Option (UpstreamOp × UpstreamHeap) →
    Steps upstreamSig → Prop
  | _, [] => True
  | prev, x :: t =>
    (∀ u v, x.1 = .storeDeadUntil u v →
      v = 0 ∧ ∃ s, prev = some (.loadDeadUntil u, s) ∧ s.deadline u ≤ now) ∧
    ClearsExpired now (some x) t

theorem returnIfHealthy_clears {u : UpstreamServer}
    {rest q : Prog upstreamSig (Option UpstreamServer)} {now : ℤ}
    (hr : ∀ {t prev}, Path rest t q → ClearsExpired now prev t)
    {t : Steps upstreamSig} {prev : Option (UpstreamOp × UpstreamHeap)}
    (h : Path (returnIfHealthy u rest) t q) : ClearsExpired now prev t := by
  obtain ⟨rfl, -⟩ | ⟨s, t, rfl, hk⟩ := h.act_inv
  · trivial
  · refine ⟨by simp, ?_⟩
    split at hk
    · obtain ⟨rfl, -⟩ := hk.ret_inv
      trivial
    · exact hr hk

theorem selectLoop_clears {ts : TenantState} {hn : 0 < ts.upstreams.length} {now : ℤ} {k : ℕ}
    {t : Steps upstreamSig} {q : Prog upstreamSig (Option UpstreamServer)}
    {prev : Option (UpstreamOp × UpstreamHeap)} (h : Path (selectLoop ts hn now k) t q) :
    ClearsExpired now prev t := by
  induction k generalizing t prev with
  | zero =>
    obtain ⟨rfl, -⟩ := h.ret_inv
    trivial
  | succ k ih =>
    obtain ⟨rfl, -⟩ | ⟨s, t₁, rfl, h₁⟩ := h.act_inv
    · trivial
    refine ⟨by simp, ?_⟩
    obtain ⟨rfl, -⟩ | ⟨s₁, t₂, rfl, h₂⟩ := h₁.act_inv
    · trivial
    refine ⟨by simp, ?_⟩
    split at h₂
    next hd =>
      split at h₂
      next hc => exact ih h₂
      next hc =>
        obtain ⟨rfl, -⟩ | ⟨s₂, t₃, rfl, h₃⟩ := h₂.act_inv
        · trivial
        refine ⟨fun u v huv => ?_, returnIfHealthy_clears ih h₃⟩
        obtain ⟨rfl, rfl⟩ := UpstreamOp.storeDeadUntil.inj huv
        exact ⟨rfl, s₁, rfl, not_lt.mp hc⟩
    next hd => exact returnIfHealthy_clears ih h₂

theorem ClearsExpired.split {now : ℤ} {prev : Option (UpstreamOp × UpstreamHeap)}
    {a b : Steps upstreamSig} {u : ℕ} {v : ℤ} {s : UpstreamHeap}
    (h : ClearsExpired now prev (a ++ (.storeDeadUntil u v, s) :: b)) :
    v = 0 ∧ ∃ s', (prev.toList ++ a).getLast? = some (.loadDeadUntil u, s') ∧
      s'.deadline u ≤ now := by
  induction a generalizing prev with
  | nil =>
    obtain ⟨rfl, s', rfl, hs⟩ := h.1 u v rfl
    exact ⟨rfl, s', rfl, hs⟩
  | cons x a ih =>
    obtain ⟨hv, s', hl, hs⟩ := ih h.2
    refine ⟨hv, s', ?_, hs⟩
    rw [← hl]
    simp [List.getLast?_cons]

/-- **A clearing store** of a selection directly follows its load of an expired deadline. -/
theorem selectUpstream_clears {ts : TenantState} {now : ℤ}
    {a b : Steps upstreamSig} {q : Prog upstreamSig (Option UpstreamServer)}
    {u : ℕ} {v : ℤ} {s : UpstreamHeap}
    (h : Path (selectUpstream ts now) (a ++ (.storeDeadUntil u v, s) :: b) q) :
    v = 0 ∧ ∃ s', a.getLast? = some (.loadDeadUntil u, s') ∧ s'.deadline u ≤ now := by
  unfold selectUpstream at h
  split at h
  · have hc : ClearsExpired now none _ := selectLoop_clears h
    simpa using hc.split
  · exact absurd h.ret_inv.1 (by simp)

/-! ## Runs -/

section Runs

variable {ι : Type} [DecidableEq ι] (calls : ι → UpstreamCall) (heap : UpstreamHeap)
  (sched : List ι)

/-- The trace of a run of the calls. -/
def callTrace : Trace upstreamSig ι :=
  ((Pool.start (fun i => (calls i).prog) heap).runs sched).trace

/-- The last step of call `j` in `t` was a load of the deadline `d` of `u`. -/
def Observed (j : ι) (t : Trace upstreamSig ι) (u : ℕ) (d : ℤ) : Prop :=
  ∃ s, (own j t).getLast? = some (.loadDeadUntil u, s) ∧ s.deadline u = d

/-- A step that may end the deadline `d` of `u` after the steps `t`: a later failure, or a clearing
store of a selection that observed `d` and whose clock has reached `d`. -/
def Ends (t : Trace upstreamSig ι) (u : ℕ) (d : ℤ)
    (e : ι × UpstreamOp × UpstreamHeap) : Prop :=
  (∃ v, e.2.1 = .storeDeadUntil u v) ∧
    match calls e.1 with
    | .fail _ _ _ _ => True
    | .select _ now => Observed e.1 t u d ∧ d ≤ now

/-- **No lost opening.** A deadline that a failure stores is in place after any further steps, unless
one of them may end it. -/
def KeepsOpenings : Prop :=
  ∀ (t₁ t₂ t₃ : Trace upstreamSig ι) i w th cd cl u d s, calls i = .fail w th cd cl →
    callTrace calls heap sched = t₁ ++ (i, .storeDeadUntil u d, s) :: t₂ ++ t₃ →
    (replay (S := upstreamSig) heap (t₁ ++ (i, .storeDeadUntil u d, s) :: t₂)).deadline u ≠ d →
    ∃ m e m', t₂ = m ++ e :: m' ∧ Ends calls (t₁ ++ (i, .storeDeadUntil u d, s) :: m) u d e

/-- Every clearing store of a selection finds the deadline it observed, or zero. -/
def ClearsObserved : Prop :=
  ∀ t₁ t₂ j ts now u v s, calls j = .select ts now →
    callTrace calls heap sched = t₁ ++ (j, .storeDeadUntil u v, s) :: t₂ →
    s.deadline u = 0 ∨ Observed j t₁ u (s.deadline u)

omit [DecidableEq ι] in
theorem deadline_replay_store (h : UpstreamHeap) (t : Trace upstreamSig ι) (i : ι) (u : ℕ) (d : ℤ)
    (s : UpstreamHeap) : (replay (S := upstreamSig) h (t ++ [(i, .storeDeadUntil u d, s)])).deadline u
      = d := by
  rw [replay_append]
  exact deadline_exec_store u d _

omit [DecidableEq ι] in
/-- If the deadline is no longer `d`, some step stored another value while it was still `d`. -/
theorem first_change {u : ℕ} {d : ℤ} {t : Trace upstreamSig ι} {h : UpstreamHeap}
    (h₀ : h.deadline u = d) (h₁ : (replay h t).deadline u ≠ d) :
    ∃ m j v s m', t = m ++ (j, .storeDeadUntil u v, s) :: m' ∧
      (replay h m).deadline u = d ∧ v ≠ d := by
  induction t generalizing h with
  | nil => exact absurd h₀ h₁
  | cons e t ih =>
    obtain ⟨j, o, s⟩ := e
    by_cases hd : (upstreamSig.exec o h).2.deadline u = d
    · obtain ⟨m, j', v, s', m', rfl, hm, hv⟩ := ih hd h₁
      exact ⟨(j, o, s) :: m, j', v, s', m', rfl, hm, hv⟩
    · obtain hk | ⟨v, rfl⟩ := deadline_exec o h u
      · exact absurd (hk.trans h₀) hd
      · exact ⟨[], j, v, s, t, rfl, h₀, by simpa using hd⟩

omit [DecidableEq ι] in
/-- If the deadline changed, the last store to it stored the current value. -/
theorem last_store {u : ℕ} {t : Trace upstreamSig ι} {h : UpstreamHeap}
    (hne : (replay h t).deadline u ≠ h.deadline u) :
    ∃ m j s m', t = m ++ (j, .storeDeadUntil u ((replay h t).deadline u), s) :: m' ∧
      ∀ e ∈ m', ∀ v, e.2.1 ≠ .storeDeadUntil u v := by
  induction t using List.reverseRecOn with
  | nil => exact absurd rfl hne
  | append_singleton t e ih =>
    obtain ⟨j, o, s⟩ := e
    have hr : (replay h (t ++ [(j, o, s)])).deadline u =
        (upstreamSig.exec o (replay h t)).2.deadline u := by
      rw [replay_append]; rfl
    by_cases ho : ∃ v, o = .storeDeadUntil u v
    · obtain ⟨v, rfl⟩ := ho
      rw [hr, deadline_exec_store]
      exact ⟨t, j, s, [], rfl, by simp⟩
    · have hk := (deadline_exec o (replay h t) u).resolve_right ho
      rw [hr, hk] at hne ⊢
      obtain ⟨m, j', s', m', ht, hm⟩ := ih hne
      refine ⟨m, j', s', m' ++ [(j, o, s)], ?_, ?_⟩
      · conv_lhs => rw [ht]
        simp
      · intro e he v hv
        rcases List.mem_append.mp he with he | he
        · exact hm e he v hv
        · rw [List.mem_singleton.mp he] at hv
          exact ho ⟨v, hv⟩

variable {calls heap sched}

theorem callTrace_chained : Chained heap (callTrace calls heap sched) :=
  (chained_runs _ heap sched).1

theorem callTrace_state {t₁ t₂ : Trace upstreamSig ι} {e : ι × UpstreamOp × UpstreamHeap}
    (ht : callTrace calls heap sched = t₁ ++ e :: t₂) : e.2.2 = replay heap t₁ :=
  state_of_split (ht ▸ callTrace_chained)

/-- The store of a selection, with the load before it. -/
theorem select_store {j : ι} {ts : TenantState} {now : ℤ} (hj : calls j = .select ts now)
    {t₁ t₂ : Trace upstreamSig ι} {u : ℕ} {v : ℤ} {s : UpstreamHeap}
    (ht : callTrace calls heap sched = t₁ ++ (j, .storeDeadUntil u v, s) :: t₂) :
    v = 0 ∧ ∃ s', (own j t₁).getLast? = some (.loadDeadUntil u, s') ∧
      s'.deadline u ≤ now := by
  have hp := path_own (fun i => (calls i).prog) heap sched j
  rw [show ((Pool.start (fun i => (calls i).prog) heap).runs sched).trace = _ from ht, hj,
    own_append, own_cons_self] at hp
  exact selectUpstream_clears hp

theorem keepsOpenings_of_clearsObserved (h : ClearsObserved calls heap sched) :
    KeepsOpenings calls heap sched := by
  intro t₁ t₂ t₃ i w th cd cl u d s hi ht hne
  have hsplit : t₁ ++ (i, .storeDeadUntil u d, s) :: t₂ =
      t₁ ++ [(i, UpstreamOp.storeDeadUntil u d, s)] ++ t₂ := by simp
  rw [hsplit, replay_append] at hne
  obtain ⟨m, j, v, s', m', rfl, hm, hv⟩ := first_change (deadline_replay_store ..) hne
  refine ⟨m, _, m', rfl, ⟨v, rfl⟩, ?_⟩
  have ht' : callTrace calls heap sched =
      (t₁ ++ (i, .storeDeadUntil u d, s) :: m) ++ (j, .storeDeadUntil u v, s') :: (m' ++ t₃) := by
    rw [ht]; simp
  -- the state the store finds still holds `d`
  have hs' : s'.deadline u = d := by
    rw [show s' = _ from callTrace_state ht']
    rw [← replay_append, List.append_assoc, List.singleton_append] at hm
    exact hm
  cases hc : calls j with
  | fail => trivial
  | select ts now =>
    obtain ⟨rfl, s₁, hl, hnow⟩ := select_store hc ht'
    obtain h0 | hobs := h _ _ j ts now u 0 s' hc ht'
    · exact absurd (h0.symm.trans hs') hv
    · rw [hs'] at hobs
      obtain ⟨s₂, hl₂, hd⟩ := hobs
      rw [hl] at hl₂
      obtain ⟨-, rfl⟩ := Prod.mk.inj (Option.some.inj hl₂)
      exact ⟨⟨s₁, hl, hd⟩, hd ▸ hnow⟩

theorem clearsObserved_of_keepsOpenings (h : KeepsOpenings calls heap sched) :
    ClearsObserved calls heap sched := by
  intro t₁ t₂ j ts now u v s hj ht
  by_contra hcon
  obtain ⟨hne0, hnobs⟩ := not_or.mp hcon
  obtain ⟨rfl, s', hl, -⟩ := select_store hj ht
  obtain ⟨a, ha⟩ := List.getLast?_eq_some_iff.mp hl
  obtain ⟨p, q, rfl, -, hq⟩ := own_split (b := []) ha
  have hs : s = _ := callTrace_state ht
  have hs' : s' = replay heap p := by
    rw [List.append_assoc] at ht
    exact callTrace_state ht
  -- the deadline changed between the load and the store
  have hload : s = replay s' q := by
    rw [hs, replay_append, replay_cons, ← hs']; rfl
  have hchg : (replay s' q).deadline u ≠ s'.deadline u := by
    rw [← hload]
    exact fun he => hnobs ⟨s', hl, he.symm⟩
  obtain ⟨m, i, s'', m', hqm, hm'⟩ := last_store hchg
  rw [← hload] at hqm
  have ht' : callTrace calls heap sched =
      (p ++ (j, .loadDeadUntil u, s') :: m) ++ (i, .storeDeadUntil u (s.deadline u), s'') ::
        (m' ++ [(j, .storeDeadUntil u 0, s)]) ++ t₂ := by
    rw [ht, hqm]; simp
  cases hi : calls i with
  | select ts' now' =>
    rw [List.append_assoc] at ht'
    exact hne0 (select_store hi ht').1
  | fail w th cd cl =>
    obtain ⟨n, e, n', hn, ⟨v, hev⟩, hends⟩ := h _ _ _ i w th cd cl u _ s'' hi ht' (by
      rw [← List.cons_append, ← List.append_assoc, deadline_replay_store]
      exact Ne.symm hne0)
    -- the only store after the last one is the clearing store itself
    obtain ⟨rfl, rfl⟩ : n = m' ∧ e = (j, .storeDeadUntil u 0, s) := by
      rcases List.eq_nil_or_concat n' with rfl | ⟨n'', x, rfl⟩
      · obtain ⟨h1, h2⟩ := List.append_inj' hn.symm rfl
        exact ⟨h1, List.singleton_inj.mp h2⟩
      · refine absurd hev (hm' e ?_ v)
        rw [List.concat_eq_append, ← List.cons_append, ← List.append_assoc] at hn
        obtain ⟨h1, -⟩ := List.append_inj' hn rfl
        rw [h1]; simp
    simp only [hj] at hends
    refine hnobs ?_
    rw [hqm]
    simpa using hends.1

/-- **When a run keeps every opening.** No deadline that `recordUpstreamFailure` stores is lost
exactly if every clearing store finds the deadline its own call observed, or zero. -/
theorem keepsOpenings_iff_clearsObserved (calls : ι → UpstreamCall) (heap : UpstreamHeap)
    (sched : List ι) : KeepsOpenings calls heap sched ↔ ClearsObserved calls heap sched :=
  ⟨clearsObserved_of_keepsOpenings, keepsOpenings_of_clearsObserved⟩

end Runs

/-! ## A lost opening -/

/-- A selection at second 100 and a failure at the same second, with cooldown thirty seconds. -/
def raceCalls : Fin 2 → UpstreamCall
  | 0 => .select ⟨0, [⟨0, []⟩]⟩ 100
  | 1 => .fail ⟨0, []⟩ 1 0 (100 * Go.second)

/-- The circuit of the upstream was open until second 50. -/
def raceHeap : UpstreamHeap := ⟨fun _ => 0, fun _ => ⟨true, 0, 50⟩⟩

/-- **An opening is lost.** The selection loads the expired deadline 50, the failure stores 130, and
the selection clears the deadline it never saw. -/
theorem lost_opening : ¬ KeepsOpenings raceCalls raceHeap [0, 0, 1, 1, 0] := by
  intro h
  obtain h0 | ⟨s, hs, hd⟩ := clearsObserved_of_keepsOpenings h _ [] 0 _ _ 0 0 _ rfl rfl
  · exact absurd h0 (by decide)
  · obtain ⟨-, rfl⟩ := Prod.mk.inj (Option.some.inj hs)
    exact absurd hd (by decide)

end SynitWaf
