import SynitWaf.Jwks.Calls

/-!
# Forced refreshes

A token with an unknown `kid` makes `validateJWT` ask for a new entry, at most once in
`minJWKSForcedRefreshDelay`. The time of the last forced refresh is kept in the entry it has fetched,
so that it is lost when nothing is fetched, or when another entry takes its place.

* `TokenThread`: a token or the clock; **`token_step`**: what a step of a thread can do;
* `forcedTimes`: the times of the forced fetches of a run;
* `Guards`, `ThrottleInv`: the last of them is guarded by an entry, or lies far enough back;
* **`forced_refreshes_apart`**; `forced_refresh_repeated`: two forced fetches in one second.
-/

namespace SynitWaf

open Atomic Go

/-! ## Threads -/

/-- A call of `validateJWT`, or the clock. -/
inductive TokenThread where
  | validate (cfg : JWTValidationConfig) (token : GoString)
  | clock (ticks : List ℕ)

/-- Which entry a thread asks for: any, or another one than `entry`, where it has not found the
key. -/
inductive TokenStage (κ : Type) where
  | first
  | second (header : TokenHeader) (kid : GoString) (entry : JwksCacheEntry κ)

section Threads

variable {κ : Type} {w : JwksWorld κ} (lib : JwtLib κ)

/-- The entry that is not good enough. -/
def TokenStage.previous : TokenStage κ → Option (JwksCacheEntry κ)
  | .first => none
  | .second _ _ entry => some entry

/-- What a call has returned. -/
def EntryPc.result? : EntryPc κ → Option (Result (JwksCacheEntry κ))
  | .done r => some r
  | _ => none

/-- Where a thread is. -/
inductive TokenLocal (κ : Type) where
  | call (cfg : JWTValidationConfig) (token : GoString) (stage : TokenStage κ) (pc : EntryPc κ)
      (running : pc.result? = none)
  | returned (r : JwtResult)
  | clock (ticks : List ℕ)

/-- A thread about to start. -/
def TokenThread.start : TokenThread → TokenLocal κ
  | .validate cfg token => .call cfg token .first .start rfl
  | .clock ticks => .clock ticks

/-- The call of a thread. -/
def TokenLocal.call? : TokenLocal κ → Option (EntryCall κ)
  | .call cfg _ stage pc _ => some ⟨cfg.jwksEndpoint, stage.previous, pc⟩
  | _ => none

/-- Where a thread is after a call. -/
def TokenStage.next (cfg : JWTValidationConfig) (token : GoString) :
    TokenStage κ → Result (JwksCacheEntry κ) → TokenLocal κ
  | .second header kid _, r => .returned (afterRefresh lib cfg token header kid r)
  | .first, .error _ => .returned .unavailable
  | .first, .ok entry =>
    match lib.header token with
    | none => .returned .invalid
    | some header =>
      match header.kid with
      | none => .returned .invalid
      | some kid =>
        match entry.keys.lookup kid with
        | some key => .returned (verifyKey lib cfg token header key)
        | none => .call cfg token (.second header kid entry) .start rfl

/-- The rest of the program after a call. -/
def TokenStage.rest (cfg : JWTValidationConfig) (token : GoString) :
    TokenStage κ → Result (JwksCacheEntry κ) → Prog (jwksSig w) JwtResult
  | .first => afterEntry lib cfg token
  | .second header kid _ => fun r => .ret (afterRefresh lib cfg token header kid r)

/-- The rest of the program of a thread. -/
def TokenLocal.prog : TokenLocal κ → Prog (jwksSig w) JwtResult
  | .call cfg token stage pc _ =>
    pc.prog lib cfg.jwksEndpoint stage.previous >>= stage.rest lib cfg token
  | .returned r => .ret r
  | .clock ticks => passTime .invalid ticks

/-- The program of a thread. -/
def TokenThread.prog : TokenThread → Prog (jwksSig w) JwtResult
  | .validate cfg token => verifyToken lib cfg token
  | .clock ticks => passTime .invalid ticks

theorem TokenThread.start_prog (t : TokenThread) :
    (t.prog lib : Prog (jwksSig w) JwtResult) = (t.start : TokenLocal κ).prog lib := by
  cases t <;> rfl

theorem TokenStage.rest_eq (cfg : JWTValidationConfig) (token : GoString) (stage : TokenStage κ)
    (r : Result (JwksCacheEntry κ)) :
    (stage.rest lib cfg token r : Prog (jwksSig w) JwtResult) =
      (stage.next lib cfg token r).prog lib := by
  cases stage with
  | second header kid entry => rfl
  | first =>
    cases r with
    | error e => rfl
    | ok entry =>
      simp only [rest, next, afterEntry]
      cases lib.header token with
      | none => rfl
      | some header =>
        dsimp only
        cases header.kid with
        | none => rfl
        | some kid =>
          dsimp only
          cases entry.keys.lookup kid <;> rfl

/-- Where a thread is after a step of its call. -/
def settle (cfg : JWTValidationConfig) (token : GoString) (stage : TokenStage κ) (pc : EntryPc κ) :
    TokenLocal κ :=
  match h : pc.result? with
  | some r => stage.next lib cfg token r
  | none => .call cfg token stage pc h

theorem EntryPc.result?_eq_some {pc : EntryPc κ} {r : Result (JwksCacheEntry κ)}
    (h : pc.result? = some r) : pc = .done r := by
  cases pc <;> cases h
  rfl

theorem settle_prog (cfg : JWTValidationConfig) (token : GoString) (stage : TokenStage κ)
    (pc : EntryPc κ) : ((settle lib cfg token stage pc).prog lib : Prog (jwksSig w) JwtResult) =
      pc.prog lib cfg.jwksEndpoint stage.previous >>= stage.rest lib cfg token := by
  unfold settle
  split
  next r h =>
    rw [EntryPc.result?_eq_some h]
    exact (stage.rest_eq lib cfg token r).symm
  next => rfl

variable (w) in
/-- The moves of a thread. -/
inductive TokenMove (s : JwksState κ) : TokenLocal κ → JwksOp κ → TokenLocal κ → Prop
  | call {cfg : JWTValidationConfig} {token : GoString} {stage : TokenStage κ} {pc pc' : EntryPc κ}
      {o : JwksOp κ} (running : pc.result? = none) :
      EntryMove w lib cfg.jwksEndpoint stage.previous s pc o pc' →
      TokenMove s (.call cfg token stage pc running) o (settle lib cfg token stage pc')
  | tick (d : ℕ) (ticks : List ℕ) : TokenMove s (.clock (d :: ticks)) (.tick d) (.clock ticks)

/-- **What a step of a thread can do.** -/
theorem token_step {loc : TokenLocal κ} {o : JwksOp κ}
    {k : (jwksSig w).Res o → Prog (jwksSig w) JwtResult}
    (h : loc.prog lib = Prog.act (S := jwksSig w) o k) (s : JwksState κ) :
    ∃ loc', k (o.exec w s).1 = loc'.prog lib ∧ TokenMove w lib s loc o loc' := by
  cases loc with
  | returned r => cases h
  | clock ticks =>
    cases ticks with
    | nil => cases h
    | cons d ticks =>
      cases h
      exact ⟨.clock ticks, rfl, .tick d ticks⟩
  | call cfg token stage pc running =>
    cases hp : (pc.prog lib cfg.jwksEndpoint stage.previous : Prog (jwksSig w) _) with
    | ret r =>
      rw [EntryPc.of_prog_eq_ret hp] at running
      cases running
    | act o' k' =>
      simp only [TokenLocal.prog, hp, Prog.act_bind] at h
      cases h
      obtain ⟨pc', hk, hm⟩ := entry_step lib cfg.jwksEndpoint stage.previous hp s
      refine ⟨settle lib cfg token stage pc', ?_, .call running hm⟩
      rw [settle_prog]
      exact congrArg (· >>= stage.rest lib cfg token) hk

variable {lib}

theorem TokenStage.next_call? (cfg : JWTValidationConfig) (token : GoString) (stage : TokenStage κ)
    (r : Result (JwksCacheEntry κ)) : (stage.next lib cfg token r).call? = none ∨
      ∃ q, (stage.next lib cfg token r).call? = some ⟨cfg.jwksEndpoint, q, .start⟩ := by
  cases stage with
  | second header kid entry => exact .inl rfl
  | first =>
    cases r with
    | error e => exact .inl rfl
    | ok entry =>
      simp only [next]
      split
      next => exact .inl rfl
      next header _ =>
        split
        next => exact .inl rfl
        next kid _ =>
          split
          next => exact .inl rfl
          next => exact .inr ⟨_, rfl⟩

theorem TokenMove.callMove {s : JwksState κ} {loc loc' : TokenLocal κ} {o : JwksOp κ}
    (hm : TokenMove w lib s loc o loc') : CallMove w lib s loc.call? o loc'.call? := by
  cases hm with
  | tick d ticks => exact .tick d
  | @call cfg token stage pc pc' _ running hm =>
    unfold settle
    split
    next r h =>
      rw [EntryPc.result?_eq_some h] at hm
      obtain hnone | ⟨q, hq⟩ := stage.next_call? cfg token r
      · rw [hnone]
        exact .stop hm
      · rw [hq]
        exact .again q hm
    next => exact .go hm

end Threads

/-! ## Forced fetches -/

section Throttle

variable {κ : Type} {w : JwksWorld κ} {lib : JwtLib κ} {ι : Type}

/-- The time of a forced fetch. -/
def forcedTime? (e : ι × JwksOp κ × JwksState κ) : Option ℤ :=
  match e.2.1 with
  | .fetch _ true now => some now
  | _ => none

/-- The times of the forced fetches, as their calls have read them. -/
def forcedTimes (t : Trace (jwksSig w) ι) : List ℤ := t.filterMap forcedTime?

/-- The outcome of a fetch gives an entry that lives for at least `minJWKSForcedRefreshDelay`. -/
def longLived (lib : JwtLib κ) (outcome : Result JwksResponse) : Bool :=
  match outcome with
  | .error _ => false
  | .ok resp => (decodeJWKS lib resp).isOk && minJWKSForcedRefreshDelay ≤ cacheTTL resp.cacheControl

/-- If the step is a forced fetch, it gives such an entry. -/
def forcedLongLived (w : JwksWorld κ) (lib : JwtLib κ) (e : ι × JwksOp κ × JwksState κ) : Bool :=
  match e.2.1 with
  | .fetch endpoint true _ => longLived lib (w.respond e.2.2.fetches endpoint)
  | _ => true

/-- The entry keeps calls from a forced fetch until `minJWKSForcedRefreshDelay` after `time`. -/
def Guards (time : ℤ) (entry : JwksCacheEntry κ) : Prop :=
  entry.lastForcedRefresh = some time ∧ time + minJWKSForcedRefreshDelay ≤ entry.expiresAt

theorem guards_newCacheEntry (now : ℤ) (n : ℕ) {outcome : Result JwksResponse}
    (hl : longLived lib outcome = true) :
    ∃ entry, newCacheEntry lib true now n outcome = .ok entry ∧ Guards now entry := by
  cases outcome with
  | error e => cases hl
  | ok resp =>
    obtain ⟨hok, hlife⟩ := Bool.and_eq_true_iff.mp hl
    cases hd : decodeJWKS lib resp with
    | error e =>
      rw [hd] at hok
      cases hok
    | ok keys =>
      refine ⟨⟨n, keys, now + cacheTTL resp.cacheControl, some now⟩, ?_, rfl, ?_⟩
      · change (decodeJWKS lib resp >>= fun keys => _) = _
        rw [hd]
        rfl
      · exact Int.add_le_add_left (of_decide_eq_true hlife) now

/-- An entry that guards a time is only passed by when the time is over. -/
theorem Guards.passed {time now : ℤ} {previous : Option (JwksCacheEntry κ)}
    {entry : JwksCacheEntry κ} (h : Guards time entry)
    (hp : (returnsCached now previous entry || throttles now previous entry) = false) :
    time + minJWKSForcedRefreshDelay ≤ now := by
  obtain ⟨hret, hthr⟩ := Bool.or_eq_false_iff.mp hp
  cases previous with
  | none =>
    have hexp : ¬ now < entry.expiresAt := by simpa [returnsCached] using hret
    exact h.2.trans (Int.not_lt.mp hexp)
  | some p =>
    have hlate : ¬ now - time < minJWKSForcedRefreshDelay := by
      simpa [throttles, h.1] using hthr
    omega

/-- What a call knows about the times of forced fetches. -/
def PcKnows (endpoint : GoString) (s : JwksState κ) (times : List ℤ) : EntryPc κ → Prop
  | .rechecking _ now => ∀ time ∈ times,
      (∃ entry, s.cache.lookup endpoint = some entry ∧ Guards time entry) ∨
        time + minJWKSForcedRefreshDelay ≤ now
  | .fetching _ now => ∀ time ∈ times, time + minJWKSForcedRefreshDelay ≤ now
  | .storing _ entry .locking | .storing _ entry .putting => ∀ time ∈ times,
      Guards time entry ∨ time + minJWKSForcedRefreshDelay ≤ s.now
  | .storing _ _ (.deleting endpoints) => endpoint ∉ endpoints
  | _ => True

/-- A time is guarded by an entry that is cached or about to be stored, or is over. -/
inductive Guarded (endpoint : GoString) (calls : ι → Option (EntryCall κ)) (s : JwksState κ)
    (time : ℤ) : Prop
  | pending {i : ι} {c : EntryCall κ} {entry : JwksCacheEntry κ} : calls i = some c →
      c.pc.pending? = some entry → Guards time entry → Guarded endpoint calls s time
  | cached {entry : JwksCacheEntry κ} : s.cache.lookup endpoint = some entry →
      Guards time entry → Guarded endpoint calls s time
  | elapsed : time + minJWKSForcedRefreshDelay ≤ s.now → Guarded endpoint calls s time

/-- All calls are for one endpoint; the forced fetches are apart, and each of them is guarded. -/
structure ThrottleInv (endpoint : GoString) (calls : ι → Option (EntryCall κ)) (s : JwksState κ)
    (times : List ℤ) : Prop where
  one : ∀ i c, calls i = some c → c.endpoint = endpoint
  apart : times.Pairwise fun a b => a + minJWKSForcedRefreshDelay ≤ b
  guarded : ∀ time ∈ times, Guarded endpoint calls s time
  knows : ∀ i c, calls i = some c → PcKnows endpoint s times c.pc

/-! ### Steps that leave the entry alone -/

theorem PcKnows.mono {endpoint : GoString} {s s' : JwksState κ} {times : List ℤ} {pc : EntryPc κ}
    (h : PcKnows endpoint s times pc)
    (hlookup : s'.cache.lookup endpoint = s.cache.lookup endpoint) (hnow : s.now ≤ s'.now) :
    PcKnows endpoint s' times pc := by
  cases pc with
  | rechecking l now =>
    intro time ht
    rw [hlookup]
    exact h time ht
  | storing l entry pc =>
    cases pc with
    | locking | putting => exact fun time ht => (h time ht).imp_right fun hle => hle.trans hnow
    | _ => exact h
  | _ => exact h

theorem pcKnows_of_not_holding {endpoint : GoString} (s : JwksState κ) (times : List ℤ)
    {pc : EntryPc κ} (hpc : ∀ l, pc.stage endpoint ≠ .holding endpoint l) :
    PcKnows endpoint s times pc := by
  cases pc with
  | rechecking l | fetching l | storing l => exact absurd rfl (hpc l)
  | _ => trivial

/-- The sweep spares the endpoint. -/
structure JwksSweep.Spares (endpoint : GoString) (sweep : JwksSweep) : Prop where
  deleted : endpoint ∉ sweep.deleted
  oldest : sweep.oldestEndpoint = endpoint → endpoint = []

theorem JwksSweep.Spares.visit {endpoint : GoString} {sweep : JwksSweep} (h : sweep.Spares endpoint)
    (now : ℤ) (item : GoString × JwksCacheEntry κ) :
    (sweep.visit now endpoint item).Spares endpoint := by
  dsimp only [JwksSweep.visit]
  split_ifs with hexp hold
  · exact ⟨by simp [h.deleted, Ne.symm hexp.1], h.oldest⟩
  · exact ⟨h.deleted, fun he => absurd he hold.1⟩
  · exact ⟨h.deleted, h.oldest⟩

/-- The sweep after an entry has been stored spares its endpoint. -/
theorem notMem_sweptEndpoints (now : ℤ) (endpoint : GoString)
    (cached : List (GoString × JwksCacheEntry κ)) :
    endpoint ∉ sweptEndpoints now endpoint cached := by
  have hspares : (cached.foldl (JwksSweep.visit now endpoint) ⟨0, [], 0, []⟩).Spares endpoint :=
    List.foldlRecOn cached _ ⟨by simp, Eq.symm⟩ fun sweep h item _ => h.visit now item
  dsimp only [sweptEndpoints]
  split_ifs with hfull
  · simp only [List.mem_append, List.mem_singleton, not_or]
    exact ⟨hspares.deleted, fun h => hfull.2 (h ▸ hspares.oldest h.symm)⟩
  · exact hspares.deleted

variable [DecidableEq ι]

theorem ThrottleInv.one_update {endpoint : GoString} {calls : ι → Option (EntryCall κ)}
    {s : JwksState κ} {times : List ℤ} (h : ThrottleInv endpoint calls s times) {j : ι}
    {c' : Option (EntryCall κ)} (hone : ∀ c, c' = some c → c.endpoint = endpoint) (i : ι)
    (c : EntryCall κ) (hi : Function.update calls j c' i = some c) : c.endpoint = endpoint := by
  by_cases hij : i = j
  · rw [hij, Function.update_self] at hi
    exact hone c hi
  · rw [Function.update_of_ne hij] at hi
    exact h.one i c hi

/-- **A step that leaves the entry alone and is no forced fetch.** -/
theorem ThrottleInv.quiet {endpoint : GoString} {calls : ι → Option (EntryCall κ)}
    {s s' : JwksState κ} {times : List ℤ} (h : ThrottleInv endpoint calls s times)
    (hlookup : s'.cache.lookup endpoint = s.cache.lookup endpoint) (hnow : s.now ≤ s'.now) {j : ι}
    {c' : Option (EntryCall κ)} (hone : ∀ c, c' = some c → c.endpoint = endpoint)
    (hknows : ∀ c, c' = some c → PcKnows endpoint s' times c.pc)
    (hpend : ∀ c entry, calls j = some c → c.pc.pending? = some entry →
      ∃ c₁, c' = some c₁ ∧ c₁.pc.pending? = some entry) :
    ThrottleInv endpoint (Function.update calls j c') s' times where
  one := h.one_update hone
  apart := h.apart
  guarded time ht := by
    cases h.guarded time ht with
    | elapsed hle => exact .elapsed (hle.trans hnow)
    | cached hentry hg => exact .cached (hlookup.trans hentry) hg
    | @pending i c entry hi hentry hg =>
      by_cases hij : i = j
      · subst hij
        obtain ⟨c₁, rfl, hc₁⟩ := hpend c entry hi hentry
        exact .pending (i := i) (Function.update_self ..) hc₁ hg
      · exact .pending (i := i) (by rw [Function.update_of_ne hij]; exact hi) hentry hg
  knows i c hi := by
    by_cases hij : i = j
    · rw [hij, Function.update_self] at hi
      exact hknows c hi
    · rw [Function.update_of_ne hij] at hi
      exact (h.knows i c hi).mono hlookup hnow

/-! ### All steps -/

section Step

variable {endpoint : GoString} {calls : ι → Option (EntryCall κ)} {s : JwksState κ} {times : List ℤ}
  {start : ℤ} {j : ι} {p : Option (JwksCacheEntry κ)}

omit [DecidableEq ι] in
/-- At most one call is under the lock. -/
theorem ThrottleInv.same (h : ThrottleInv endpoint calls s times) (hcalls : CallsInv start calls s)
    {pc : EntryPc κ} {l l' : ℕ} (hj : calls j = some ⟨endpoint, p, pc⟩)
    (hpc : pc.stage endpoint = .holding endpoint l) {i : ι} {c : EntryCall κ} (hi : calls i = some c)
    (hc : c.pc.stage endpoint = .holding endpoint l') : i = j := by
  have hholds : callStage (calls i) = .holding endpoint l' := by
    rw [hi]
    simpa only [callStage, h.one i c hi] using hc
  exact hcalls.exclusive hholds (by rw [hj]; exact hpc)

omit [DecidableEq ι] in
/-- Beside a call under the lock, the other calls need not know anything. -/
theorem ThrottleInv.others (h : ThrottleInv endpoint calls s times) (hcalls : CallsInv start calls s)
    {pc : EntryPc κ} {l : ℕ} (hj : calls j = some ⟨endpoint, p, pc⟩)
    (hpc : pc.stage endpoint = .holding endpoint l) {i : ι} (hij : i ≠ j) {c : EntryCall κ}
    (hi : calls i = some c) (s' : JwksState κ) (times' : List ℤ) :
    PcKnows endpoint s' times' c.pc :=
  pcKnows_of_not_holding s' times' fun _ hc => hij (h.same hcalls hj hpc hi hc)

/-- **A forced fetch**: the times before it are over, and its entry guards its own time. -/
theorem ThrottleInv.forced (h : ThrottleInv endpoint calls s times) (hcalls : CallsInv start calls s)
    {l : ℕ} {now : ℤ} (hj : calls j = some ⟨endpoint, p, .fetching l now⟩)
    {entry : JwksCacheEntry κ} (hg : Guards now entry) {s' : JwksState κ} (hnow : s'.now = s.now) :
    ThrottleInv endpoint (Function.update calls j (some ⟨endpoint, p, .storing l entry .locking⟩)) s'
      (times ++ [now]) := by
  have hfetching : ∀ time ∈ times, time + minJWKSForcedRefreshDelay ≤ now := h.knows j _ hj
  have hread := (hcalls.reading j _ now hj rfl).2
  refine ⟨h.one_update fun c hc => by cases hc; rfl, ?_, fun time ht => ?_, fun i c hi => ?_⟩
  · rw [List.pairwise_append]
    refine ⟨h.apart, List.pairwise_singleton _ _, fun time ht time' ht' => ?_⟩
    rw [List.mem_singleton.mp ht']
    exact hfetching time ht
  · obtain ht | ht := List.mem_append.mp ht
    · exact .elapsed (((hfetching time ht).trans hread).trans (Int.le_of_eq hnow.symm))
    · rw [List.mem_singleton.mp ht]
      exact .pending (i := j) (Function.update_self ..) rfl hg
  · by_cases hij : i = j
    · rw [hij, Function.update_self] at hi
      cases hi
      intro time ht
      obtain ht | ht := List.mem_append.mp ht
      · exact .inr (((hfetching time ht).trans hread).trans (Int.le_of_eq hnow.symm))
      · rw [List.mem_singleton.mp ht]
        exact .inl hg
    · rw [Function.update_of_ne hij] at hi
      exact h.others hcalls hj rfl hij hi _ _

/-- **The entry is stored**: it guards what it has to guard, and all other times are over. -/
theorem ThrottleInv.put (h : ThrottleInv endpoint calls s times) (hcalls : CallsInv start calls s)
    {l : ℕ} {entry : JwksCacheEntry κ} (hj : calls j = some ⟨endpoint, p, .storing l entry .putting⟩)
    {s' : JwksState κ} (hcache : s'.cache.lookup endpoint = some entry) (hnow : s'.now = s.now) :
    ThrottleInv endpoint (Function.update calls j (some ⟨endpoint, p, .storing l entry .timing⟩)) s'
      times := by
  have hstoring : ∀ time ∈ times, Guards time entry ∨ time + minJWKSForcedRefreshDelay ≤ s.now :=
    h.knows j _ hj
  refine ⟨h.one_update fun c hc => by cases hc; rfl, h.apart, fun time ht => ?_, fun i c hi => ?_⟩
  · obtain hg | hle := hstoring time ht
    · exact .cached hcache hg
    · exact .elapsed (hle.trans (Int.le_of_eq hnow.symm))
  · by_cases hij : i = j
    · rw [hij, Function.update_self] at hi
      cases hi
      trivial
    · rw [Function.update_of_ne hij] at hi
      exact h.others hcalls hj rfl hij hi _ _

/-- A step of a call. -/
theorem ThrottleInv.go (h : ThrottleInv endpoint calls s times) (hcalls : CallsInv start calls s)
    {pc pc' : EntryPc κ} {o : JwksOp κ} (hj : calls j = some ⟨endpoint, p, pc⟩)
    (hm : EntryMove w lib endpoint p s pc o pc') (hlong : forcedLongLived w lib (j, o, s) = true) :
    ThrottleInv endpoint (Function.update calls j (some ⟨endpoint, p, pc'⟩)) (o.exec w s).2
      (times ++ (forcedTime? (j, o, s)).toList) := by
  have hknows : PcKnows endpoint s times pc := h.knows j _ hj
  have hquiet : (o.exec w s).2.cache.lookup endpoint = s.cache.lookup endpoint →
      forcedTime? (j, o, s) = none → PcKnows endpoint (o.exec w s).2 times pc' →
      (∀ entry, pc.pending? = some entry → pc'.pending? = some entry) →
      ThrottleInv endpoint (Function.update calls j (some ⟨endpoint, p, pc'⟩)) (o.exec w s).2
        (times ++ (forcedTime? (j, o, s)).toList) := by
    intro hlookup hforced hknows' hpend
    rw [hforced, Option.toList_none, List.append_nil]
    refine h.quiet hlookup (o.now_le_exec s) (fun c hc => by cases hc; rfl)
      (fun c hc => by cases hc; exact hknows') fun c entry hc hentry => ?_
    rw [hj] at hc
    cases hc
    exact ⟨_, rfl, hpend entry hentry⟩
  cases hm with
  | enter l =>
    refine hquiet rfl rfl (fun time ht => ?_) nofun
    cases h.guarded time ht with
    | elapsed hle => exact .inr hle
    | cached hentry hg => exact .inl ⟨_, hentry, hg⟩
    | @pending i c entry hi hentry hg =>
      -- The call about to store it would be under the lock as well.
      obtain ⟨l', hl'⟩ := EntryPc.stage_of_pending endpoint hentry
      cases h.same hcalls hj rfl hi hl'
      rw [hj] at hi
      cases hi
      cases hentry
  | stale l now hentry hpass =>
    refine hquiet rfl rfl (fun time ht => ?_) nofun
    obtain ⟨entry', hentry', hg⟩ | hle := hknows time ht
    · rw [hentry] at hentry'
      cases hentry'
      exact hg.passed hpass
    · exact hle
  | absent l now hnone =>
    refine hquiet rfl rfl (fun time ht => ?_) nofun
    obtain ⟨entry', hentry', hg⟩ | hle := hknows time ht
    · rw [hnone] at hentry'
      cases hentry'
    · exact hle
  | failed l now hnew =>
    cases p with
    | none => exact hquiet rfl rfl trivial nofun
    | some previous =>
      obtain ⟨entry, hok, -⟩ := guards_newCacheEntry now s.fetches hlong
      exact absurd (hnew.symm.trans hok) nofun
  | fetched l now hnew =>
    cases p with
    | none =>
      have hread := (hcalls.reading j _ now hj rfl).2
      exact hquiet rfl rfl (fun time ht => .inr ((hknows time ht).trans hread)) nofun
    | some previous =>
      obtain ⟨entry, hok, hg⟩ := guards_newCacheEntry now s.fetches hlong
      cases hnew.symm.trans hok
      exact h.forced hcalls hj hg rfl
  | lockCache l entry => exact hquiet rfl rfl hknows fun _ he => he
  | put l entry =>
    rw [show forcedTime? (j, JwksOp.store endpoint entry, s) = none from rfl, Option.toList_none,
      List.append_nil]
    exact h.put hcalls hj (AList.lookup_insert _) rfl
  | range l entry now => exact hquiet rfl rfl (notMem_sweptEndpoints _ _ _) nofun
  | delete l entry e endpoints =>
    have hne : endpoint ∉ e :: endpoints := hknows
    rw [List.mem_cons, not_or] at hne
    exact hquiet (AList.lookup_erase_ne hne.1) rfl hne.2 nofun
  | _ => exact hquiet rfl rfl trivial nofun

/-- The last step of a call. -/
theorem ThrottleInv.last (h : ThrottleInv endpoint calls s times) {pc : EntryPc κ} {o : JwksOp κ}
    {r : Result (JwksCacheEntry κ)} (hj : calls j = some ⟨endpoint, p, pc⟩)
    (hm : EntryMove w lib endpoint p s pc o (.done r)) {c' : Option (EntryCall κ)}
    (hc' : ∀ c, c' = some c → c.endpoint = endpoint ∧ c.pc = .start) :
    ThrottleInv endpoint (Function.update calls j c') (o.exec w s).2
      (times ++ (forcedTime? (j, o, s)).toList) := by
  have hquiet : (o.exec w s).2.cache = s.cache ∧ forcedTime? (j, o, s) = none ∧
      pc.pending? = none := by
    cases hm <;> exact ⟨rfl, rfl, rfl⟩
  obtain ⟨hcache, hforced, hpend⟩ := hquiet
  rw [hforced, Option.toList_none, List.append_nil]
  refine h.quiet (by rw [hcache]) (o.now_le_exec s) (fun c hc => (hc' c hc).1) (fun c hc => ?_)
    fun c entry hc hentry => ?_
  · rw [(hc' c hc).2]
    trivial
  · rw [hj] at hc
    cases hc
    rw [hpend] at hentry
    cases hentry

/-- **The moves of the threads keep the forced fetches apart.** -/
theorem ThrottleInv.step (h : ThrottleInv endpoint calls s times) (hcalls : CallsInv start calls s)
    {o : JwksOp κ} {c' : Option (EntryCall κ)} (hm : CallMove w lib s (calls j) o c')
    (hlong : forcedLongLived w lib (j, o, s) = true) :
    ThrottleInv endpoint (Function.update calls j c') (o.exec w s).2
      (times ++ (forcedTime? (j, o, s)).toList) := by
  generalize hj : calls j = cj at hm
  cases hm with
  | go hm =>
    obtain rfl := h.one j _ hj
    exact h.go hcalls hj hm hlong
  | again q hm =>
    obtain rfl := h.one j _ hj
    exact h.last hj hm fun c hc => by cases hc; exact ⟨rfl, rfl⟩
  | stop hm =>
    obtain rfl := h.one j _ hj
    exact h.last hj hm fun c hc => by cases hc
  | tick d =>
    rw [show forcedTime? (j, (.tick d : JwksOp κ), s) = none from rfl, Option.toList_none,
      List.append_nil]
    have hnow : s.now ≤ (JwksOp.exec w (.tick d) s).2.now := JwksOp.now_le_exec _ s
    refine h.quiet ?_ hnow (fun c hc => ?_) (fun c hc => ?_) fun c entry hc => ?_
    · rfl
    · cases hc
    · cases hc
    · rw [hj] at hc
      cases hc

end Step

end Throttle

/-! ## All tokens -/

section Main

variable {κ : Type} {ι : Type} [DecidableEq ι]

/-- The tokens and the clock, in the order of a schedule. -/
def validateAll (w : JwksWorld κ) (lib : JwtLib κ) (threads : ι → TokenThread) (s : JwksState κ)
    (sched : List ι) : Pool (jwksSig w) ι JwtResult :=
  (Pool.start (fun i => (threads i).prog lib) s).runs sched

/-- **Forced refreshes are throttled.** Tokens are validated against one endpoint in any order while
time passes. If every forced fetch gives an entry that lives for at least
`minJWKSForcedRefreshDelay`, any two of them are that far apart. -/
theorem forced_refreshes_apart (w : JwksWorld κ) (lib : JwtLib κ) (threads : ι → TokenThread)
    (s : JwksState κ) (hs : ∀ endpoint, s.locks.locks endpoint = none) (sched : List ι)
    (endpoint : GoString)
    (hone : ∀ i cfg token, threads i = .validate cfg token → cfg.jwksEndpoint = endpoint)
    (hlong : ∀ e ∈ (validateAll w lib threads s sched).trace, forcedLongLived w lib e = true) :
    (forcedTimes (validateAll w lib threads s sched).trace).Pairwise fun a b =>
      a + minJWKSForcedRefreshDelay ≤ b := by
  have hstart : (fun i => (threads i).prog lib) =
      (TokenLocal.prog lib : TokenLocal κ → Prog (jwksSig w) _) ∘ fun i => (threads i).start :=
    funext fun i => (threads i).start_prog lib
  have hfirst : ∀ i c, ((threads i).start : TokenLocal κ).call? = some c →
      c.endpoint = endpoint ∧ c.pc = .start := by
    intro i c hc
    cases ht : threads i with
    | clock ticks =>
      rw [ht] at hc
      cases hc
    | validate cfg token =>
      rw [ht] at hc
      cases hc
      exact ⟨hone i cfg token ht, rfl⟩
  have hcalls₀ : CallsInv s.now (fun i => ((threads i).start : TokenLocal κ).call?) s :=
    callsInv_start hs fun i c hc => (hfirst i c hc).2
  have hinv₀ : ThrottleInv endpoint (fun i => ((threads i).start : TokenLocal κ).call?) s [] := by
    refine ⟨fun i c hc => (hfirst i c hc).1, .nil, nofun, fun i c hc => ?_⟩
    rw [(hfirst i c hc).2]
    trivial
  have hrun := Pool.runs_locals (TokenLocal.prog lib) (fun _ _ _ s h => token_step lib h s)
    (P := fun loc s' (t : Trace (jwksSig w) ι) => CallsInv s.now (fun i => (loc i).call?) s' ∧
      ((∀ e ∈ t, forcedLongLived w lib e = true) →
        ThrottleInv endpoint (fun i => (loc i).call?) s' (forcedTimes t)))
    ⟨hcalls₀, fun _ => hinv₀⟩ ?_ sched
  · rw [← hstart] at hrun
    obtain ⟨loc, -, -, hinv⟩ := hrun
    exact (hinv hlong).apart
  · rintro loc s' t j o l ⟨hcalls, hinv⟩ he hm
    have hupdate : (fun i => (Function.update loc j l i).call?) =
        Function.update (fun i => (loc i).call?) j l.call? :=
      Function.comp_update TokenLocal.call? loc j l
    rw [hupdate]
    refine ⟨hcalls.step he hm.callMove, fun hlong => ?_⟩
    have hold := hinv fun e he => hlong e (List.mem_append_left _ he)
    have htimes : forcedTimes (t ++ [(j, o, s')]) =
        forcedTimes t ++ (forcedTime? (j, o, s')).toList := by
      rw [forcedTimes, List.filterMap_append]
      cases h : forcedTime? (j, o, s') <;> simp [h, forcedTimes]
    rw [htimes]
    exact hold.step hcalls hm.callMove (hlong _ (by simp))

end Main

/-! ## Tokens with an unknown key -/

/-- Every response lists the key `k`, and every token names the key `x`. -/
def unknownKid : JwtLib Unit where
  quote := id
  unmarshal _ := .ok [⟨str "k", .ok ()⟩]
  family _ := .rsa
  header _ := some ⟨some .rsa, some (str "x")⟩
  verifies _ _ _ := false

/-- Every fetch has the same outcome. -/
def constantWorld (outcome : Result JwksResponse) : JwksWorld Unit where
  respond _ _ := outcome
  order _ := .own

/-- A response with a lifetime of a quarter of an hour. -/
def plainResponse : JwksResponse := ⟨200, 2, str "\x7b\x7d", none, []⟩

/-- An entry that is good for an hour. -/
def hourEntry : JwksCacheEntry Unit :=
  ⟨0, (∅ : GoMap Unit).insert (str "k") (), 3600 * second, none⟩

/-- It has been fetched before. -/
def hourCached : JwksState Unit :=
  ⟨(∅ : GoMap (JwksCacheEntry Unit)).insert (str "https://a/jwks") hourEntry, .empty, false, 1, 0⟩

/-- Three tokens; a second passes, and then 29 more. -/
def unknownTokens (i : Fin 4) : TokenThread :=
  if i = 3 then .clock [1000000000, 29000000000]
  else .validate ⟨true, str "https://a/jwks", str "issuer", str "audience"⟩ (str "token")

/-- One token after the other, at 0, 1 and 30 seconds. -/
def oneByOne : List (Fin 4) :=
  List.replicate 32 0 ++ [3] ++ List.replicate 32 1 ++ [3] ++ List.replicate 32 2

theorem forced_refreshes_apart_third :
    let run := validateAll (constantWorld (.ok plainResponse)) unknownKid unknownTokens hourCached
      oneByOne
    forcedTimes run.trace = [0, 30 * second] ∧
      (forcedTimes run.trace).Pairwise fun a b => a + minJWKSForcedRefreshDelay ≤ b := by
  intro run
  have heval : forcedTimes run.trace = [0, 30 * second] ∧
      (run.trace.all fun e => forcedLongLived (constantWorld (.ok plainResponse)) unknownKid e) =
        true := by
    decide +kernel
  refine ⟨heval.1, forced_refreshes_apart (constantWorld (.ok plainResponse)) unknownKid unknownTokens
    hourCached (fun _ => rfl) oneByOne (str "https://a/jwks") (fun i cfg token h => ?_) fun e he => ?_⟩
  · unfold unknownTokens at h
    split at h
    next => cases h
    next =>
      cases h
      rfl
  · exact List.all_eq_true.mp heval.2 e he

/-- **Forced fetches a second apart**: the first one fails; or its entry lives for a second, and the
next token has it replaced before it asks for another one. -/
theorem forced_refresh_repeated :
    forcedTimes (validateAll (constantWorld (.error (str "connection refused"))) unknownKid
      unknownTokens hourCached oneByOne).trace = [0, 1 * second, 30 * second] ∧
    forcedTimes (validateAll (constantWorld (.ok { plainResponse with
        cacheControl := str "max-age=1" })) unknownKid unknownTokens hourCached oneByOne).trace =
      [0, 1 * second, 30 * second] ∧
    ¬ [0, 1 * second, 30 * second].Pairwise fun a b => a + minJWKSForcedRefreshDelay ≤ b := by
  decide +kernel

end SynitWaf
