import SynitWaf.Jwks.Calls

/-!
# Calls that share a refresh

Calls for any endpoints run in any order while time passes. The lock of an endpoint is made and
dropped as calls come and go; the calls that wait for it find what the first of them has fetched.

* `JwksThread`: a call or the clock; **`jwks_step`**: what a step of a thread can do;
* `RefreshInv`: what the calls have of the locks is seen in the trace, and fetches are made under the
  lock; `FreshInv`: the numbers of the fetches;
* `OnceInv`, `AnsweredInv`: how often calls without a previous entry have fetched one;
* **`jwks_refresh_shared`**; `evicted_before_recheck`: a full cache drops the entry that calls wait
  for.
-/

namespace SynitWaf

open Atomic Go

/-! ## Threads -/

/-- A call of `getJWKSEntry`, or the clock. -/
inductive JwksThread (κ : Type) where
  | call (endpoint : GoString) (previous : Option (JwksCacheEntry κ))
  | clock (ticks : List ℕ)

/-- Where a thread is. -/
inductive JwksLocal (κ : Type) where
  | call (endpoint : GoString) (previous : Option (JwksCacheEntry κ)) (pc : EntryPc κ)
  | clock (ticks : List ℕ)

section Threads

variable {κ : Type} {w : JwksWorld κ} (lib : JwtLib κ)

/-- A thread about to start. -/
def JwksThread.start : JwksThread κ → JwksLocal κ
  | .call endpoint previous => .call endpoint previous .start
  | .clock ticks => .clock ticks

/-- The thread a local state belongs to; the clock forgets what has passed. -/
def JwksLocal.origin : JwksLocal κ → Option (GoString × Option (JwksCacheEntry κ))
  | .call endpoint previous _ => some (endpoint, previous)
  | .clock _ => none

/-- The call of a thread. -/
def JwksLocal.call? : JwksLocal κ → Option (EntryCall κ)
  | .call endpoint previous pc => some ⟨endpoint, previous, pc⟩
  | .clock _ => none

/-- What a thread has of a lock. -/
def JwksLocal.stage (loc : JwksLocal κ) : RefStage GoString := callStage loc.call?

/-- The program of a thread. -/
def JwksThread.prog : JwksThread κ → Prog (jwksSig w) (Result (JwksCacheEntry κ))
  | .call endpoint previous => getJWKSEntry lib endpoint previous
  | .clock ticks => passTime (.error []) ticks

/-- The rest of the program of a thread. -/
def JwksLocal.prog : JwksLocal κ → Prog (jwksSig w) (Result (JwksCacheEntry κ))
  | .call endpoint previous pc => pc.prog lib endpoint previous
  | .clock ticks => passTime (.error []) ticks

theorem JwksThread.start_prog (t : JwksThread κ) :
    (t.prog lib : Prog (jwksSig w) _) = t.start.prog lib := by
  cases t <;> rfl

variable (w) in
/-- The moves of a thread. -/
inductive JwksMove (s : JwksState κ) : JwksLocal κ → JwksOp κ → JwksLocal κ → Prop
  | call {endpoint : GoString} {previous : Option (JwksCacheEntry κ)} {pc pc' : EntryPc κ}
      {o : JwksOp κ} : EntryMove w lib endpoint previous s pc o pc' →
      JwksMove s (.call endpoint previous pc) o (.call endpoint previous pc')
  | tick (d : ℕ) (ticks : List ℕ) : JwksMove s (.clock (d :: ticks)) (.tick d) (.clock ticks)

variable {lib}

variable {s : JwksState κ} {loc loc' : JwksLocal κ} {o : JwksOp κ}

theorem JwksMove.origin_eq (hm : JwksMove w lib s loc o loc') : loc'.origin = loc.origin := by
  cases hm <;> rfl

theorem JwksMove.callMove (hm : JwksMove w lib s loc o loc') :
    CallMove w lib s loc.call? o loc'.call? := by
  cases hm with
  | call hm => exact .go hm
  | tick d ticks => exact .tick d

theorem JwksMove.stage_eq (hm : JwksMove w lib s loc o loc') :
    stageAfter loc.stage o s = loc'.stage := by
  cases hm with
  | call hm => exact hm.stage_eq
  | tick d ticks => rfl

end Threads

/-! ## Locks -/

section Invariants

variable {κ : Type} {w : JwksWorld κ} {lib : JwtLib κ} {ι : Type} [DecidableEq ι]

/-- A fetch is made by a call that holds the lock of the endpoint. -/
def UnderLock (t : Trace (jwksSig w) ι) (e : ι × JwksOp κ × JwksState κ) : Prop :=
  ∀ endpoint forced now, e.2.1 = .fetch endpoint forced now →
    ∃ l, lockStage (own e.1 t) = .holding endpoint l

/-- The threads are at `loc`, the trace tells what they have of the locks, and they fetch under the
lock. -/
structure RefreshInv (threads : ι → JwksThread κ) (loc : ι → JwksLocal κ)
    (t : Trace (jwksSig w) ι) : Prop where
  origin : ∀ i, (loc i).origin = (threads i).start.origin
  stage : ∀ i, lockStage (own i t) = (loc i).stage
  underLock : AtSteps UnderLock t

theorem RefreshInv.step {threads : ι → JwksThread κ} {loc : ι → JwksLocal κ} {s : JwksState κ}
    {t : Trace (jwksSig w) ι} (h : RefreshInv threads loc t) {j : ι} {o : JwksOp κ}
    {l : JwksLocal κ} (hm : JwksMove w lib s (loc j) o l) :
    RefreshInv threads (Function.update loc j l) (t ++ [(j, o, s)]) where
  origin i := by
    by_cases hi : i = j
    · rw [hi, Function.update_self, hm.origin_eq]
      exact h.origin j
    · rw [Function.update_of_ne hi]
      exact h.origin i
  stage i := by
    by_cases hi : i = j
    · subst hi
      rw [own_append, own_cons_self, own_nil, lockStage_snoc, Function.update_self, h.stage,
        hm.stage_eq]
    · rw [own_append, own_cons_ne (Ne.symm hi), own_nil, List.append_nil, Function.update_of_ne hi]
      exact h.stage i
  underLock := by
    refine atSteps_snoc.mpr ⟨h.underLock, fun endpoint forced now ho => ?_⟩
    cases ho
    change ∃ l, lockStage (own j t) = .holding endpoint l
    rw [h.stage]
    generalize loc j = lj at hm
    cases hm with
    | call hm => cases hm <;> exact ⟨_, rfl⟩

theorem origin_eq_call {thread : JwksThread κ} {endpoint : GoString}
    {previous : Option (JwksCacheEntry κ)}
    (h : thread.start.origin = some (endpoint, previous)) : thread = .call endpoint previous := by
  cases thread <;> cases h
  rfl

theorem RefreshInv.thread {threads : ι → JwksThread κ} {loc : ι → JwksLocal κ}
    {t : Trace (jwksSig w) ι} (h : RefreshInv threads loc t) {i : ι} {endpoint : GoString}
    {previous : Option (JwksCacheEntry κ)} {pc : EntryPc κ}
    (hi : loc i = .call endpoint previous pc) : threads i = .call endpoint previous :=
  origin_eq_call ((h.origin i).symm.trans (by rw [hi]; rfl))

/-! ## Numbers of fetches -/

/-- The fetches since the start have the numbers from `first` on. -/
structure FreshInv (first : ℕ) (loc : ι → JwksLocal κ) (s : JwksState κ) : Prop where
  first_le : first ≤ s.fetches
  fresh : ∀ i endpoint previous l entry pc, loc i = .call endpoint previous (.storing l entry pc) →
    first ≤ entry.id

theorem JwksOp.fetches_le_exec (o : JwksOp κ) (s : JwksState κ) :
    s.fetches ≤ (o.exec w s).2.fetches := by
  cases o with
  | fetch endpoint forced now => exact Nat.le_succ _
  | _ => exact Nat.le_refl _

theorem newCacheEntry_id {forced : Bool} {now : ℤ} {n : ℕ} {outcome : Result JwksResponse}
    {entry : JwksCacheEntry κ} (h : newCacheEntry lib forced now n outcome = .ok entry) :
    entry.id = n := by
  simp only [newCacheEntry, result_bind_eq_ok] at h
  obtain ⟨resp, -, keys, -, h⟩ := h
  cases h
  rfl

theorem FreshInv.step {first : ℕ} {loc : ι → JwksLocal κ} {s : JwksState κ}
    (h : FreshInv first loc s) {j : ι} {o : JwksOp κ} {l : JwksLocal κ}
    (hm : JwksMove w lib s (loc j) o l) :
    FreshInv first (Function.update loc j l) (o.exec w s).2 where
  first_le := h.first_le.trans (o.fetches_le_exec s)
  fresh i endpoint previous lk entry pc hi := by
    by_cases hij : i = j
    · subst hij
      rw [Function.update_self] at hi
      subst hi
      generalize hli : loc i = li at hm
      cases hm with
      | call hm =>
        cases hm with
        | fetched _ _ hnew => exact (newCacheEntry_id hnew).symm ▸ h.first_le
        | _ => exact h.fresh i endpoint previous lk entry _ hli
    · rw [Function.update_of_ne hij] at hi
      exact h.fresh i endpoint previous lk entry pc hi

/-- All that is used about the threads: where they come from, the locks, the clock and the numbers of
the fetches. -/
structure ThreadsInv (threads : ι → JwksThread κ) (start : ℤ) (first : ℕ) (loc : ι → JwksLocal κ)
    (s : JwksState κ) (t : Trace (jwksSig w) ι) : Prop
    extends RefreshInv threads loc t, FreshInv first loc s,
      CallsInv start (fun i => (loc i).call?) s

theorem ThreadsInv.step {threads : ι → JwksThread κ} {start : ℤ} {first : ℕ} {loc : ι → JwksLocal κ}
    {s : JwksState κ} {t : Trace (jwksSig w) ι} (h : ThreadsInv threads start first loc s t) {j : ι}
    {o : JwksOp κ} (he : (jwksSig w).enabled o s = true) {l : JwksLocal κ}
    (hm : JwksMove w lib s (loc j) o l) :
    ThreadsInv threads start first (Function.update loc j l) (o.exec w s).2 (t ++ [(j, o, s)]) := by
  refine ⟨h.toRefreshInv.step hm, h.toFreshInv.step hm, ?_⟩
  have hcalls : (fun i => (Function.update loc j l i).call?) =
      Function.update (fun i => (loc i).call?) j l.call? :=
    Function.comp_update JwksLocal.call? loc j l
  rw [hcalls]
  exact h.toCallsInv.step he hm.callMove

/-- Two threads under the lock of an endpoint are one. -/
theorem ThreadsInv.same {threads : ι → JwksThread κ} {start : ℤ} {first : ℕ} {loc : ι → JwksLocal κ}
    {s : JwksState κ} {t : Trace (jwksSig w) ι} (h : ThreadsInv threads start first loc s t) {i j : ι}
    {endpoint : GoString} {l l' : ℕ} (hi : (loc i).stage = .holding endpoint l)
    (hj : (loc j).stage = .holding endpoint l') : i = j := h.toCallsInv.exclusive hi hj

/-! ## Refreshes without a previous entry -/

/-- The outcome of a fetch gives an entry. -/
def acceptable (lib : JwtLib κ) (outcome : Result JwksResponse) : Bool :=
  match outcome with
  | .error _ => false
  | .ok resp => (decodeJWKS lib resp).isOk

theorem newCacheEntry_isOk (lib : JwtLib κ) (forced : Bool) (now : ℤ) (n : ℕ)
    (outcome : Result JwksResponse) :
    (newCacheEntry lib forced now n outcome).isOk = acceptable lib outcome := by
  cases outcome with
  | error e => rfl
  | ok resp =>
    change (decodeJWKS lib resp >>= fun keys => _).isOk = (decodeJWKS lib resp).isOk
    cases decodeJWKS lib resp <;> rfl

/-- The thread is a call for the endpoint without a previous entry. -/
def JwksThread.ordinary (endpoint : GoString) : JwksThread κ → Bool
  | .call e none => e = endpoint
  | _ => false

theorem JwksThread.ordinary_iff {thread : JwksThread κ} {endpoint : GoString} :
    thread.ordinary endpoint = true ↔ thread = .call endpoint none := by
  cases thread with
  | clock ticks => simp [ordinary]
  | call e previous => cases previous <;> simp [ordinary]

/-- The step is a successful fetch for the endpoint by a call without a previous entry. -/
def refreshes (w : JwksWorld κ) (lib : JwtLib κ) (endpoint : GoString)
    (e : ι × JwksOp κ × JwksState κ) : Bool :=
  match e.2.1 with
  | .fetch k forced _ => !forced && k = endpoint && acceptable lib (w.respond e.2.2.fetches k)
  | _ => false

/-- The step drops the entry of the endpoint. -/
def evicts (endpoint : GoString) (e : ι × JwksOp κ × JwksState κ) : Bool :=
  match e.2.1 with
  | .delete k => k = endpoint
  | _ => false

/-- If the step is the second look of a call without a previous entry, what it finds was fetched
before the fetch with the number `first` or has not expired. -/
def rechecksInTime (threads : ι → JwksThread κ) (endpoint : GoString) (first : ℕ)
    (t : Trace (jwksSig w) ι) (e : ι × JwksOp κ × JwksState κ) : Bool :=
  match e.2.1, lockStage (own e.1 t), e.2.2.cache.lookup endpoint with
  | .load _, .holding _ _, some entry =>
    !(threads e.1).ordinary endpoint || entry.id < first || e.2.2.now < entry.expiresAt
  | _, _, _ => true

variable (lib) in
/-- At most one entry has been fetched, and it is in the cache or on its way there. -/
structure OnceInv (endpoint : GoString) (first : ℕ) (loc : ι → JwksLocal κ) (s : JwksState κ)
    (t : Trace (jwksSig w) ι) : Prop where
  fetching : ∀ i l now, loc i = .call endpoint none (.fetching l now) →
    t.countP (refreshes w lib endpoint) = 0
  once : t.countP (refreshes w lib endpoint) ≤ 1
  kept : t.countP (refreshes w lib endpoint) ≠ 0 →
    (∃ i previous pc entry, loc i = .call endpoint previous pc ∧ pc.pending? = some entry) ∨
      ∃ entry, s.cache.lookup endpoint = some entry ∧ first ≤ entry.id

omit [DecidableEq ι] in
/-- **A successful fetch without a previous entry** is a step of a call that is about to fetch. -/
theorem JwksMove.refreshes_cases {s : JwksState κ} {loc loc' : JwksLocal κ} {o : JwksOp κ}
    (hm : JwksMove w lib s loc o loc') {endpoint : GoString} {j : ι}
    (hr : refreshes w lib endpoint (j, o, s) = true) :
    ∃ l now entry, loc = .call endpoint none (.fetching l now) ∧
      loc' = .call endpoint none (.storing l entry .locking) := by
  cases hm with
  | tick d ticks => cases hr
  | @call e previous _ _ _ hm =>
    cases hm with
    | failed l now hnew =>
      simp only [refreshes, Bool.and_eq_true] at hr
      have hok := newCacheEntry_isOk lib previous.isSome now s.fetches (w.respond s.fetches e)
      rw [hnew] at hok
      exact absurd (hok.trans hr.2) nofun
    | fetched l now hnew =>
      simp only [refreshes, Bool.and_eq_true, Bool.not_eq_true', decide_eq_true_eq] at hr
      obtain ⟨⟨hnone, rfl⟩, -⟩ := hr
      cases previous with
      | none => exact ⟨l, now, _, rfl, rfl⟩
      | some p => cases hnone
    | _ => cases hr

omit [DecidableEq ι] in
/-- A call without a previous entry that is about to fetch has just found nothing it could use. -/
theorem JwksMove.fetching_cases {s : JwksState κ} {loc : JwksLocal κ} {o : JwksOp κ}
    {endpoint : GoString} {l : ℕ} {now : ℤ}
    (hm : JwksMove w lib s loc o (.call endpoint none (.fetching l now))) :
    loc = .call endpoint none (.rechecking l now) ∧ o = .load endpoint ∧
      ∀ entry, s.cache.lookup endpoint = some entry → ¬ now < entry.expiresAt := by
  cases hm with
  | call hm =>
    cases hm with
    | stale _ _ hentry hnot =>
      refine ⟨rfl, rfl, fun entry he => ?_⟩
      rw [hentry] at he
      cases he
      simpa [returnsCached, throttles] using hnot
    | absent _ _ hnone =>
      refine ⟨rfl, rfl, fun entry he => ?_⟩
      rw [hnone] at he
      cases he

theorem OnceInv.fetching_step {threads : ι → JwksThread κ} {endpoint : GoString} {start : ℤ}
    {first : ℕ} {loc : ι → JwksLocal κ} {s : JwksState κ} {t : Trace (jwksSig w) ι}
    (h : OnceInv lib endpoint first loc s t) (hinv : ThreadsInv threads start first loc s t) {j : ι}
    {o : JwksOp κ} {l : ℕ} {now : ℤ}
    (hm : JwksMove w lib s (loc j) o (.call endpoint none (.fetching l now)))
    (hrecheck : rechecksInTime threads endpoint first t (j, o, s) = true) :
    t.countP (refreshes w lib endpoint) = 0 := by
  by_contra hcount
  obtain ⟨hj, rfl, hunused⟩ := hm.fetching_cases
  have hheld : (loc j).stage = .holding endpoint l := by
    rw [hj]
    rfl
  obtain ⟨i, p, pc, entry, hi, hpend⟩ | ⟨entry, hentry, hfirst⟩ := h.kept hcount
  -- The call about to store the entry would hold the lock as well.
  · obtain ⟨l', hl'⟩ := EntryPc.stage_of_pending endpoint hpend
    cases hinv.same (by rw [hi]; exact hl') hheld
    rw [hj] at hi
    cases hi
    cases hpend
  -- The entry of the cache would have been returned.
  · have hord := JwksThread.ordinary_iff.mpr (hinv.thread hj)
    have hexp : s.now < entry.expiresAt := by
      simpa [rechecksInTime, hinv.stage, hheld, hentry, hord, Nat.not_lt.mpr hfirst] using hrecheck
    have hread := (hinv.reading j ⟨endpoint, none, .rechecking l now⟩ now
      (by simp only [hj]; rfl) rfl).2
    exact hunused entry hentry (Int.lt_of_le_of_lt hread hexp)

/-- What has been fetched stays in the cache, if it is not dropped. -/
theorem OnceInv.kept_step {endpoint : GoString} {first : ℕ} {loc : ι → JwksLocal κ}
    {s : JwksState κ} {t : Trace (jwksSig w) ι} (h : OnceInv lib endpoint first loc s t)
    (hfresh : FreshInv first loc s) {j : ι} {o : JwksOp κ} {lj : JwksLocal κ}
    (hm : JwksMove w lib s (loc j) o lj) (hkeep : evicts endpoint (j, o, s) = false)
    (hcount : t.countP (refreshes w lib endpoint) ≠ 0) :
    (∃ i previous pc entry, Function.update loc j lj i = .call endpoint previous pc ∧
      pc.pending? = some entry) ∨
    ∃ entry, (o.exec w s).2.cache.lookup endpoint = some entry ∧ first ≤ entry.id := by
  generalize hj : loc j = li at hm
  cases hm with
  | tick d ticks =>
    obtain ⟨i, p, pc, entry, hi, hpend⟩ | hcached := h.kept hcount
    · have hij : i ≠ j := by
        rintro rfl
        rw [hi] at hj
        cases hj
      exact .inl ⟨i, p, pc, entry, by rw [Function.update_of_ne hij, hi], hpend⟩
    · exact .inr hcached
  | @call e p pc pc' o hm =>
    obtain rfl | ⟨l, entry, rfl, rfl, rfl, hentry⟩ | hsame := hm.cache_cases endpoint
    · simp [evicts] at hkeep
    · exact .inr ⟨entry, hentry, hfresh.fresh j _ _ _ _ _ hj⟩
    · rw [hsame]
      obtain ⟨i, p', pc, entry, hi, hpend⟩ | hcached := h.kept hcount
      · by_cases hij : i = j
        · subst hij
          rw [hj] at hi
          cases hi
          cases hm with
          | lockCache => exact .inl ⟨i, _, _, entry, Function.update_self .., hpend⟩
          | put l entry' =>
            have hput := AList.lookup_insert (a := endpoint) (b := entry') s.cache
            exact .inr ⟨entry', hsame.symm.trans hput, hfresh.fresh i _ _ _ _ _ hj⟩
          | _ => cases hpend
        · exact .inl ⟨i, p', pc, entry, by rw [Function.update_of_ne hij, hi], hpend⟩
      · exact .inr hcached

theorem OnceInv.step {threads : ι → JwksThread κ} {endpoint : GoString} {start : ℤ} {first : ℕ}
    {loc : ι → JwksLocal κ} {s : JwksState κ} {t : Trace (jwksSig w) ι}
    (h : OnceInv lib endpoint first loc s t)
    (hinv : ThreadsInv threads start first loc s t) {j : ι} {o : JwksOp κ} {lj : JwksLocal κ}
    (hm : JwksMove w lib s (loc j) o lj) (hkeep : evicts endpoint (j, o, s) = false)
    (hrecheck : rechecksInTime threads endpoint first t (j, o, s) = true) :
    OnceInv lib endpoint first (Function.update loc j lj) (o.exec w s).2
      (t ++ [(j, o, s)]) := by
  cases hr : refreshes w lib endpoint (j, o, s) with
  | true =>
    obtain ⟨l, now, entry, hj, rfl⟩ := hm.refreshes_cases hr
    have hcount : (t ++ [(j, o, s)]).countP (refreshes w lib endpoint) = 1 := by
      rw [List.countP_append, h.fetching j l now hj, List.countP_singleton, hr]
      rfl
    have hj' : Function.update loc j (.call endpoint none (.storing l entry .locking)) j =
        .call endpoint none (.storing l entry .locking) := Function.update_self ..
    refine ⟨fun i l' now' hi => ?_, hcount.le, fun _ => .inl ⟨j, none, _, entry, hj', rfl⟩⟩
    -- Another call about to fetch would hold the lock as well.
    by_cases hij : i = j
    · rw [hij, Function.update_self] at hi
      cases hi
    · rw [Function.update_of_ne hij] at hi
      exact absurd (hinv.same (by rw [hi]; rfl) (by rw [hj]; rfl)) hij
  | false =>
    have hcount : (t ++ [(j, o, s)]).countP (refreshes w lib endpoint) =
        t.countP (refreshes w lib endpoint) := by
      rw [List.countP_append, List.countP_singleton, hr]
      rfl
    refine ⟨fun i l now hi => ?_, ?_, fun hne => ?_⟩ <;> rw [hcount] at *
    · by_cases hij : i = j
      · subst hij
        rw [Function.update_self] at hi
        subst hi
        exact h.fetching_step hinv hm hrecheck
      · rw [Function.update_of_ne hij] at hi
        exact h.fetching i l now hi
    · exact h.once
    · exact h.kept_step hinv.toFreshInv hm hkeep hne

/-- The call has an entry to return. -/
def EntryPc.answered : EntryPc κ → Bool
  | .storing _ _ _ | .unlocking _ (.ok _) | .releasing _ (.ok _) | .done (.ok _) => true
  | _ => false

variable (lib) in
/-- Entries that are cached or returned have been fetched, or had expired at the start. -/
structure AnsweredInv (endpoint : GoString) (start : ℤ) (loc : ι → JwksLocal κ) (s : JwksState κ)
    (t : Trace (jwksSig w) ι) : Prop where
  cached : ∀ entry, s.cache.lookup endpoint = some entry →
    0 < t.countP (refreshes w lib endpoint) ∨ entry.expiresAt ≤ start
  answered : ∀ i pc, loc i = .call endpoint none pc → pc.answered = true →
    0 < t.countP (refreshes w lib endpoint)

omit [DecidableEq ι] in
theorem refreshes_snoc_pos {endpoint : GoString} {t : Trace (jwksSig w) ι}
    (e : ι × JwksOp κ × JwksState κ) (h : 0 < t.countP (refreshes w lib endpoint)) :
    0 < (t ++ [e]).countP (refreshes w lib endpoint) := by
  rw [List.countP_append]
  exact Nat.add_pos_left h _

omit [DecidableEq ι] in
/-- A call without a previous entry gets an entry by fetching it, or finds one that has not
expired. -/
theorem AnsweredInv.answered_step {endpoint : GoString} {start : ℤ} {loc : ι → JwksLocal κ}
    {s : JwksState κ} {t : Trace (jwksSig w) ι} (h : AnsweredInv lib endpoint start loc s t)
    (hcalls : CallsInv start (fun i => (loc i).call?) s) {j : ι} {o : JwksOp κ} {pc : EntryPc κ}
    (hm : JwksMove w lib s (loc j) o (.call endpoint none pc)) (hans : pc.answered = true) :
    0 < (t ++ [(j, o, s)]).countP (refreshes w lib endpoint) := by
  have hfound : ∀ {entry now pc}, s.cache.lookup endpoint = some entry →
      loc j = .call endpoint none pc → pc.reading? = some now → now < entry.expiresAt →
      0 < t.countP (refreshes w lib endpoint) := by
    intro entry now pc hentry hj hread hlt
    obtain hpos | hexp := h.cached entry hentry
    · exact hpos
    · have hstart := (hcalls.reading j ⟨endpoint, none, pc⟩ now (by simp only [hj]; rfl) hread).1
      exact absurd (Int.lt_of_le_of_lt hstart hlt) (Int.not_lt.mpr hexp)
  generalize hj : loc j = li at hm
  cases hm with
  | call hm =>
    cases hm with
    | hit now hentry hret =>
      exact refreshes_snoc_pos _ (hfound hentry hj rfl (by simpa [returnsCached] using hret))
    | cached l now hentry hret =>
      refine refreshes_snoc_pos _ (hfound hentry hj rfl ?_)
      simpa [returnsCached, throttles] using hret
    | fetched l now hnew =>
      have hacc : acceptable lib (w.respond s.fetches endpoint) = true := by
        rw [← newCacheEntry_isOk lib false now s.fetches,
          show newCacheEntry lib false now _ _ = _ from hnew]
        rfl
      rw [List.countP_append, List.countP_singleton]
      simp [refreshes, hacc]
    | unlockCache l entry => exact refreshes_snoc_pos _ (h.answered j _ hj rfl)
    | unlock l r | release l r =>
      cases r with
      | ok entry => exact refreshes_snoc_pos _ (h.answered j _ hj rfl)
      | error e => cases hans
    | lockCache | put | time | range | delete => exact refreshes_snoc_pos _ (h.answered j _ hj rfl)
    | _ => cases hans

theorem AnsweredInv.step {threads : ι → JwksThread κ} {endpoint : GoString} {start : ℤ} {first : ℕ}
    {loc : ι → JwksLocal κ} {s : JwksState κ} {t : Trace (jwksSig w) ι}
    (h : AnsweredInv lib endpoint start loc s t) (hinv : ThreadsInv threads start first loc s t)
    (hnil : ∀ i previous, threads i = .call endpoint previous → previous = none) {j : ι}
    {o : JwksOp κ} {lj : JwksLocal κ} (hm : JwksMove w lib s (loc j) o lj) :
    AnsweredInv lib endpoint start (Function.update loc j lj) (o.exec w s).2
      (t ++ [(j, o, s)]) := by
  refine ⟨fun entry hentry => ?_, fun i pc hi hans => ?_⟩
  · have hold : s.cache.lookup endpoint = some entry →
        0 < (t ++ [(j, o, s)]).countP (refreshes w lib endpoint) ∨
          entry.expiresAt ≤ start := fun hs => (h.cached entry hs).imp_left (refreshes_snoc_pos _)
    generalize hj : loc j = li at hm
    cases hm with
    | tick d ticks => exact hold hentry
    | @call e p pc pc' o hm =>
      obtain rfl | ⟨l, entry', rfl, rfl, rfl, hput⟩ | hsame := hm.cache_cases endpoint
      · rw [show (JwksOp.exec w (.delete endpoint) s).2.cache.lookup endpoint = none from
          AList.lookup_erase _ _] at hentry
        cases hentry
      · obtain rfl := hnil j p (hinv.thread hj)
        exact .inl (refreshes_snoc_pos _ (h.answered j _ hj rfl))
      · exact hold (hsame ▸ hentry)
  · by_cases hij : i = j
    · subst hij
      rw [Function.update_self] at hi
      subst hi
      exact h.answered_step hinv.toCallsInv hm hans
    · rw [Function.update_of_ne hij] at hi
      exact refreshes_snoc_pos _ (h.answered i pc hi hans)

end Invariants

/-! ## All threads -/

section Main

variable {κ : Type} {ι : Type} [DecidableEq ι]

variable (w : JwksWorld κ) (lib : JwtLib κ) (threads : ι → JwksThread κ) {s : JwksState κ}

end Main

/-! ## Two calls -/

/-- Keys without content; every response lists one. -/
def oneKey : JwtLib Unit where
  quote := id
  unmarshal _ := .ok [⟨str "k", .ok ()⟩]
  family _ := .rsa
  header _ := none
  verifies _ _ _ := false

/-- Every endpoint answers, with a lifetime of a minute; the cache is visited in its own order. -/
def minuteWorld : JwksWorld Unit where
  respond _ _ := .ok ⟨200, 2, str "\x7b\x7d", none, str "max-age=60"⟩
  order _ := .own

/-- No time has passed and nothing is cached. -/
def nothingCached : JwksState Unit := ⟨∅, .empty, false, 0, 0⟩

end SynitWaf
