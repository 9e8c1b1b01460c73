import SynitWaf.Atomic.Mutex
import SynitWaf.Atomic.Pool
import SynitWaf.Serve.Checks

/-!
# One bucket per client

Requests look for the bucket of their client without a lock, and again with it before they make a
new one. The cache of the buckets drops nothing here.

* `RateCall`: a call; `LimitPc`: where it is; **`limit_step`**: what its steps can do;
* `LockInv`: at most one call holds the lock;
* `BucketInv`: all decisions for a key are made by the bucket in the cache;
* **`one_bucket_per_client`**.
-/

namespace SynitWaf

open Atomic Go

/-- A call of `allowRateLimitedRequest` without a coordinator. -/
structure RateCall where
  tenant : GoString
  clientIP : GoString
  policy : RateLimitPolicy

/-- The key of the bucket of a call. -/
def RateCall.key (c : RateCall) : GoString := bucketKey c.tenant c.clientIP

/-! ## One call -/

/-- Where a call is. -/
inductive LimitPc where
  /-- Before it looks for the bucket. -/
  | fresh
  /-- It has found the bucket. -/
  | deciding (limiter : RateLimiter)
  /-- Before the lock. -/
  | waiting
  /-- With the lock, before it looks again. -/
  | locked
  /-- With the lock and the bucket. -/
  | hit (limiter : RateLimiter)
  /-- With the lock, before it makes a bucket. -/
  | miss
  /-- With the lock and the decision. -/
  | leaving (ok : Bool)
  | done (ok : Bool)

/-- The call holds the lock. -/
def LimitPc.holds : LimitPc → Bool
  | .locked | .hit _ | .miss | .leaving _ => true
  | _ => false

/-- The bucket that is going to decide. -/
def LimitPc.limiter? : LimitPc → Option RateLimiter
  | .deciding limiter | .hit limiter => some limiter
  | _ => none

/-- The decision. -/
def LimitPc.decision? : LimitPc → Option Bool
  | .leaving ok | .done ok => some ok
  | _ => none

section Call

variable {oracle : LimiterOracle}

/-- The rest of the program. -/
def LimitPc.prog (key : GoString) (policy : RateLimitPolicy) : LimitPc → Prog (limiterSig oracle) Bool
  | .fresh => allowLocal key policy
  | .deciding limiter => .act (.allow limiter) fun (ok : Bool) => .ret ok
  | .waiting => allowLocked key policy
  | .locked => .act (.get key) fun (entry : Option RateLimiter) =>
    match usable policy entry with
    | some limiter => .act (.allow limiter) fun (ok : Bool) => .act .unlock fun _ => .ret ok
    | none => .act (.add key policy) fun (limiter : RateLimiter) =>
      .act (.allow limiter) fun (ok : Bool) => .act .unlock fun _ => .ret ok
  | .hit limiter => .act (.allow limiter) fun (ok : Bool) => .act .unlock fun _ => .ret ok
  | .miss => .act (.add key policy) fun (limiter : RateLimiter) =>
      .act (.allow limiter) fun (ok : Bool) => .act .unlock fun _ => .ret ok
  | .leaving ok => .act .unlock fun _ => .ret ok
  | .done ok => .ret ok

variable (oracle) in
/-- The moves of a call, with the operation they perform. -/
inductive LimitMove (key : GoString) (policy : RateLimitPolicy) (s : LimiterState) :
    LimitPc → LimiterOp → LimitPc → Prop
  | found {l : RateLimiter} : usable policy (s.limiters key) = some l →
      LimitMove key policy s .fresh (.get key) (.deciding l)
  | absent : usable policy (s.limiters key) = none →
      LimitMove key policy s .fresh (.get key) .waiting
  | decide (l : RateLimiter) :
      LimitMove key policy s (.deciding l) (.allow l) (.done (oracle.allow s.calls l))
  | lock : LimitMove key policy s .waiting .lock .locked
  | foundLocked {l : RateLimiter} : usable policy (s.limiters key) = some l →
      LimitMove key policy s .locked (.get key) (.hit l)
  | absentLocked : usable policy (s.limiters key) = none →
      LimitMove key policy s .locked (.get key) .miss
  | add : LimitMove key policy s .miss (.add key policy) (.hit ⟨s.made, policy⟩)
  | decideLocked (l : RateLimiter) :
      LimitMove key policy s (.hit l) (.allow l) (.leaving (oracle.allow s.calls l))
  | unlock (ok : Bool) : LimitMove key policy s (.leaving ok) .unlock (.done ok)

/-- **What a step of a call can do.** -/
theorem limit_step {key : GoString} {policy : RateLimitPolicy} {pc : LimitPc} {o : LimiterOp}
    {k : (limiterSig oracle).Res o → Prog (limiterSig oracle) Bool}
    (h : pc.prog key policy = Prog.act (S := limiterSig oracle) o k) (s : LimiterState) :
    ∃ pc', k (o.exec oracle s).1 = pc'.prog key policy ∧ LimitMove oracle key policy s pc o pc' := by
  cases pc with
  | fresh =>
    cases h
    simp only [LimiterOp.exec]
    cases hu : usable policy (s.limiters key) with
    | some l => exact ⟨.deciding l, rfl, .found hu⟩
    | none => exact ⟨.waiting, rfl, .absent hu⟩
  | deciding l =>
    cases h
    exact ⟨_, rfl, .decide l⟩
  | waiting =>
    cases h
    exact ⟨.locked, rfl, .lock⟩
  | locked =>
    cases h
    simp only [LimiterOp.exec]
    cases hu : usable policy (s.limiters key) with
    | some l => exact ⟨.hit l, rfl, .foundLocked hu⟩
    | none => exact ⟨.miss, rfl, .absentLocked hu⟩
  | hit l =>
    cases h
    exact ⟨_, rfl, .decideLocked l⟩
  | miss =>
    cases h
    exact ⟨_, rfl, .add⟩
  | leaving ok =>
    cases h
    exact ⟨_, rfl, .unlock ok⟩
  | done ok => cases h

theorem LimitPc.of_prog_eq_ret {key : GoString} {policy : RateLimitPolicy} {pc : LimitPc} {ok : Bool}
    (h : pc.prog key policy = Prog.ret (S := limiterSig oracle) ok) : pc = .done ok := by
  cases pc <;> cases h
  rfl

end Call

/-! ## Threads -/

/-- A call, or the cache dropping keys. -/
inductive RateThread where
  | call (x : RateCall)
  | drop (keys : List GoString)

/-- Where a thread is. -/
inductive RateLocal where
  | call (x : RateCall) (pc : LimitPc)
  | drop (keys : List GoString)

/-- A thread about to start; without a limit there is nothing to do. -/
def RateThread.start : RateThread → RateLocal
  | .call x => .call x (if x.policy.requestsPerMinute ≤ 0 then .done true else .fresh)
  | .drop keys => .drop keys

/-- The call of a thread. -/
def RateThread.call? : RateThread → Option RateCall
  | .call x => some x
  | .drop _ => none

/-- The call of a thread on its way. -/
def RateLocal.call? : RateLocal → Option RateCall
  | .call x _ => some x
  | .drop _ => none

/-- The thread holds the lock. -/
def RateLocal.holds : RateLocal → Bool
  | .call _ pc => pc.holds
  | .drop _ => false

theorem RateThread.start_call? (t : RateThread) : t.start.call? = t.call? := by
  cases t <;> rfl

theorem RateThread.start_holds (t : RateThread) : t.start.holds = false := by
  cases t with
  | call x =>
    simp only [start, RateLocal.holds]
    split <;> rfl
  | drop keys => rfl

section Threads

variable {oracle : LimiterOracle}

/-- The cache drops `keys`. -/
def dropBuckets : List GoString → Prog (limiterSig oracle) Bool
  | [] => .ret false
  | key :: keys => .act (.evict key) fun _ => dropBuckets keys

/-- The program of a thread. -/
def RateThread.prog : RateThread → Prog (limiterSig oracle) Bool
  | .call x => allowRateLimitedRequest none x.tenant x.clientIP x.policy
  | .drop keys => dropBuckets keys

/-- The rest of the program of a thread. -/
def RateLocal.prog : RateLocal → Prog (limiterSig oracle) Bool
  | .call x pc => pc.prog x.key x.policy
  | .drop keys => dropBuckets keys

theorem RateThread.start_prog (t : RateThread) :
    (t.prog : Prog (limiterSig oracle) Bool) = t.start.prog := by
  cases t with
  | call x =>
    simp only [prog, start, allowRateLimitedRequest, RateLocal.prog]
    split <;> rfl
  | drop keys => rfl

variable (oracle) in
/-- The moves of a thread. -/
inductive RateMove (s : LimiterState) : RateLocal → LimiterOp → RateLocal → Prop
  | call {x : RateCall} {pc pc' : LimitPc} {o : LimiterOp} :
      LimitMove oracle x.key x.policy s pc o pc' → RateMove s (.call x pc) o (.call x pc')
  | evict (key : GoString) (keys : List GoString) :
      RateMove s (.drop (key :: keys)) (.evict key) (.drop keys)

theorem rate_step {loc : RateLocal} {o : LimiterOp}
    {k : (limiterSig oracle).Res o → Prog (limiterSig oracle) Bool}
    (h : loc.prog = Prog.act (S := limiterSig oracle) o k) (s : LimiterState) :
    ∃ loc', k (o.exec oracle s).1 = loc'.prog ∧ RateMove oracle s loc o loc' := by
  cases loc with
  | call x pc =>
    obtain ⟨pc', hk, hm⟩ := limit_step h s
    exact ⟨.call x pc', hk, .call hm⟩
  | drop keys =>
    cases keys with
    | nil => cases h
    | cons key keys =>
      cases h
      exact ⟨.drop keys, rfl, .evict key keys⟩

theorem RateMove.call?_eq {s : LimiterState} {loc loc' : RateLocal} {o : LimiterOp}
    (h : RateMove oracle s loc o loc') : loc'.call? = loc.call? := by
  cases h <;> rfl

/-- The lock changes hands only by `lock` and `unlock`. -/
theorem RateMove.lock_cases {s : LimiterState} {loc loc' : RateLocal} {o : LimiterOp}
    (h : RateMove oracle s loc o loc') :
    (o = .lock ∧ loc'.holds = true) ∨ (o = .unlock ∧ loc.holds = true ∧ loc'.holds = false) ∨
      (loc'.holds = loc.holds ∧ (o.exec oracle s).2.locked = s.locked) := by
  cases h with
  | evict key keys => exact .inr (.inr ⟨rfl, rfl⟩)
  | call h =>
    cases h with
    | lock => exact .inl ⟨rfl, rfl⟩
    | unlock => exact .inr (.inl ⟨rfl, rfl, rfl⟩)
    | _ => exact .inr (.inr ⟨rfl, rfl⟩)

end Threads

/-! ## All threads -/

section Invariants

variable {oracle : LimiterOracle} {ι : Type} [DecidableEq ι]

/-- The threads are at `loc`, and at most one of them holds the lock. -/
structure LockInv (threads : ι → RateThread) (loc : ι → RateLocal) (s : LimiterState) : Prop where
  origin : ∀ i, (loc i).call? = (threads i).call?
  lock : Exclusive (RateLocal.holds ∘ loc) s.locked

omit [DecidableEq ι] in
theorem lockInv_start (threads : ι → RateThread) {s : LimiterState} (hs : s.locked = false) :
    LockInv threads (fun i => (threads i).start) s where
  origin i := (threads i).start_call?
  lock := by
    rw [hs]
    exact .start fun i => (threads i).start_holds

theorem LockInv.step {threads : ι → RateThread} {loc : ι → RateLocal} {s : LimiterState}
    (h : LockInv threads loc s) {j : ι} {o : LimiterOp}
    (he : (limiterSig oracle).enabled o s = true) {l : RateLocal}
    (hm : RateMove oracle s (loc j) o l) :
    LockInv threads (Function.update loc j l) (o.exec oracle s).2 where
  origin i := by
    by_cases hi : i = j
    · rw [hi, Function.update_self, hm.call?_eq]
      exact h.origin j
    · rw [Function.update_of_ne hi]
      exact h.origin i
  lock := by
    rw [Function.comp_update]
    obtain ⟨rfl, hl⟩ | ⟨rfl, hj, hl⟩ | ⟨hl, hlocked⟩ := hm.lock_cases
    · have hfree : s.locked = false := by simpa using he
      rw [hl]
      exact (hfree ▸ h.lock).take j
    · rw [hl]
      exact h.lock.release hj
    · rw [hlocked]
      exact h.lock.keep hl

/-- What the threads know about the bucket of a key: it is about to decide or has decided for one of
its calls, or has been made. -/
inductive KnownBucket (key : GoString) (loc : ι → RateLocal) (t : Trace (limiterSig oracle) ι) :
    RateLimiter → Prop
  | found {i : ι} {x : RateCall} {pc : LimitPc} {l : RateLimiter} :
      loc i = .call x pc → x.key = key → pc.limiter? = some l → KnownBucket key loc t l
  | decided {i : ι} {x : RateCall} {l : RateLimiter} {s : LimiterState} :
      (i, .allow l, s) ∈ t → (loc i).call? = some x → x.key = key → KnownBucket key loc t l
  | made {i : ι} {policy : RateLimitPolicy} {s : LimiterState} :
      (i, .add key policy, s) ∈ t → KnownBucket key loc t ⟨s.made, policy⟩

/-- The step makes a bucket for the key. -/
def makesBucket (key : GoString) (e : ι × LimiterOp × LimiterState) : Bool :=
  match e.2.1 with
  | .add k _ => k = key
  | _ => false

/-- The step drops the bucket of the key. -/
def dropsBucket (key : GoString) (e : ι × LimiterOp × LimiterState) : Bool :=
  match e.2.1 with
  | .evict k => k = key
  | _ => false

/-- All that is known about the bucket of a key is in the cache; decisions are those of buckets. -/
structure BucketInv (key : GoString) (policy : RateLimitPolicy) (loc : ι → RateLocal)
    (s : LimiterState) (t : Trace (limiterSig oracle) ι) : Prop where
  known : ∀ l, KnownBucket key loc t l → usable policy (s.limiters key) = some l
  missing : ∀ i x, loc i = .call x .miss → x.key = key → usable policy (s.limiters key) = none
  once : t.countP (makesBucket key) ≤ 1
  answered : ∀ i x pc ok, loc i = .call x pc → pc.decision? = some ok →
    (x.policy.requestsPerMinute ≤ 0 ∧ ok = true) ∨
      ∃ l s, (i, .allow l, s) ∈ t ∧ ok = oracle.allow s.calls l

omit [DecidableEq ι] in
theorem bucketInv_start (key : GoString) (policy : RateLimitPolicy) (threads : ι → RateThread)
    (s : LimiterState) :
    BucketInv key policy (fun i => (threads i).start) s ([] : Trace (limiterSig oracle) ι) := by
  have hstart : ∀ i x pc, (threads i).start = .call x pc →
      (x.policy.requestsPerMinute ≤ 0 ∧ pc = .done true) ∨ pc = .fresh := by
    intro i x pc h
    cases hi : threads i with
    | call y =>
      simp only [hi, RateThread.start, RateLocal.call.injEq] at h
      obtain ⟨rfl, rfl⟩ := h
      split
      next hle => exact .inl ⟨hle, rfl⟩
      next => exact .inr rfl
    | drop keys =>
      rw [hi] at h
      cases h
  refine ⟨fun l hl => ?_, fun i x h => ?_, Nat.zero_le 1, fun i x pc ok h hok => ?_⟩
  · cases hl with
    | found h _ hpc => obtain ⟨-, rfl⟩ | rfl := hstart _ _ _ h <;> cases hpc
    | decided h => cases h
    | made h => cases h
  · obtain ⟨-, h⟩ | h := hstart i x _ h <;> cases h
  · obtain ⟨hle, rfl⟩ | rfl := hstart i x pc h
    · cases hok
      exact .inl ⟨hle, rfl⟩
    · cases hok

/-- The bucket of a key changes only when the cache drops it or a call makes it. -/
theorem RateMove.bucket_cases {s : LimiterState} {loc loc' : RateLocal} {o : LimiterOp}
    (h : RateMove oracle s loc o loc') (key : GoString) :
    o = .evict key ∨ (∃ x, loc = .call x .miss ∧ x.key = key ∧ o = .add key x.policy ∧
      loc' = .call x (.hit ⟨s.made, x.policy⟩)) ∨
      ((o.exec oracle s).2.limiters key = s.limiters key ∧ ∀ policy, o ≠ .add key policy) := by
  cases h with
  | evict k keys =>
    by_cases hk : key = k
    · exact .inl (by rw [hk])
    · exact .inr (.inr ⟨Function.update_of_ne hk _ _, nofun⟩)
  | @call x _ _ _ h =>
    cases h with
    | add =>
      by_cases hk : key = x.key
      · subst hk
        exact .inr (.inl ⟨x, rfl, rfl, rfl, rfl⟩)
      · refine .inr (.inr ⟨Function.update_of_ne hk _ _, fun policy h => hk ?_⟩)
        cases h
        rfl
    | _ => exact .inr (.inr ⟨rfl, nofun⟩)

theorem usable_made (policy : RateLimitPolicy) (n : ℕ) :
    usable policy (some ⟨n, policy⟩) = some ⟨n, policy⟩ := by
  simp [usable]

/-- A call learns of a bucket by finding it in the cache or by making it. -/
theorem LimitMove.learns {key : GoString} {policy : RateLimitPolicy} {s : LimiterState}
    {pc pc' : LimitPc} {o : LimiterOp} (h : LimitMove oracle key policy s pc o pc') {b : RateLimiter}
    (hb : pc'.limiter? = some b) : usable policy ((o.exec oracle s).2.limiters key) = some b := by
  cases h with
  | found hu | foundLocked hu =>
    cases hb
    exact hu
  | add =>
    cases hb
    simpa [LimiterOp.exec] using usable_made policy s.made
  | _ => cases hb

theorem KnownBucket.step {key : GoString} {loc : ι → RateLocal} {s : LimiterState}
    {t : Trace (limiterSig oracle) ι} {j : ι} {o : LimiterOp} {l : RateLocal}
    (hm : RateMove oracle s (loc j) o l) {b : RateLimiter}
    (h : KnownBucket key (Function.update loc j l) (t ++ [(j, o, s)]) b) :
    KnownBucket key loc t b ∨ ∃ x, (loc j).call? = some x ∧ x.key = key ∧
      usable x.policy ((o.exec oracle s).2.limiters key) = some b := by
  cases h with
  | @found i x pc _ hi hx hpc =>
    by_cases hij : i = j
    · subst hij
      rw [Function.update_self] at hi
      subst hi
      generalize loc i = li at hm
      cases hm with
      | call hm => exact .inr ⟨x, rfl, hx, hx ▸ hm.learns hpc⟩
    · rw [Function.update_of_ne hij] at hi
      exact .inl (.found hi hx hpc)
  | @decided i x _ s' hmem hi hx =>
    have hcall : (loc i).call? = some x := by
      by_cases hij : i = j
      · subst hij
        rwa [Function.update_self, hm.call?_eq] at hi
      · rwa [Function.update_of_ne hij] at hi
    obtain hmem | hmem := List.mem_append.mp hmem
    · exact .inl (.decided hmem hcall hx)
    · cases List.mem_singleton.mp hmem
      refine .inl ?_
      generalize hli : loc j = li at hm hcall
      cases hm with
      | call hm =>
        cases hcall
        cases hm with
        | decide | decideLocked => exact .found hli hx rfl
  | @made i policy s' hmem =>
    obtain hmem | hmem := List.mem_append.mp hmem
    · exact .inl (.made hmem)
    · cases List.mem_singleton.mp hmem
      generalize loc j = li at hm
      cases hm with
      | @call x _ _ _ hm =>
        generalize hk : x.key = k at hm
        cases hm with
        | add => exact .inr ⟨x, rfl, hk, by simpa [LimiterOp.exec] using usable_made _ _⟩

/-- A decision is that of a bucket, made in a step of the call. -/
theorem BucketInv.answered_step {key : GoString} {policy : RateLimitPolicy} {loc : ι → RateLocal}
    {s : LimiterState} {t : Trace (limiterSig oracle) ι} (h : BucketInv key policy loc s t) {j : ι}
    {o : LimiterOp} {l : RateLocal} (hm : RateMove oracle s (loc j) o l) {i : ι} {x : RateCall}
    {pc : LimitPc} {ok : Bool} (hi : Function.update loc j l i = .call x pc)
    (hok : pc.decision? = some ok) : (x.policy.requestsPerMinute ≤ 0 ∧ ok = true) ∨
      ∃ b s', (i, .allow b, s') ∈ t ++ [(j, o, s)] ∧ ok = oracle.allow s'.calls b := by
  have hold : ∀ {pc'}, loc i = .call x pc' → pc'.decision? = some ok →
      (x.policy.requestsPerMinute ≤ 0 ∧ ok = true) ∨
        ∃ b s', (i, .allow b, s') ∈ t ++ [(j, o, s)] ∧ ok = oracle.allow s'.calls b := by
    intro pc' hi hok
    obtain h | ⟨b, s', hmem, hb⟩ := h.answered i x pc' ok hi hok
    · exact .inl h
    · exact .inr ⟨b, s', List.mem_append_left _ hmem, hb⟩
  by_cases hij : i = j
  · subst hij
    rw [Function.update_self] at hi
    subst hi
    generalize hli : loc i = li at hm
    cases hm with
    | call hm =>
      cases hm with
      | decide b | decideLocked b =>
        cases hok
        exact .inr ⟨b, s, by simp, rfl⟩
      | unlock ok' => exact hold hli hok
      | _ => cases hok
  · rw [Function.update_of_ne hij] at hi
    exact hold hi hok

section BucketStep

variable {threads : ι → RateThread} {key : GoString} {policy : RateLimitPolicy}
  {loc : ι → RateLocal} {s : LimiterState} {t : Trace (limiterSig oracle) ι} {j : ι} {o : LimiterOp}
  {l : RateLocal}

/-- A bucket that is known behind a step was known before, or is the one of the cache. -/
theorem KnownBucket.of_step {b : RateLimiter}
    (h : KnownBucket key (Function.update loc j l) (t ++ [(j, o, s)]) b)
    (hm : RateMove oracle s (loc j) o l)
    (hsame : ∀ x, (loc j).call? = some x → x.key = key → x.policy = policy) :
    KnownBucket key loc t b ∨ usable policy ((o.exec oracle s).2.limiters key) = some b := by
  obtain h | ⟨x, hj, hx, hb⟩ := h.step hm
  · exact .inl h
  · exact .inr (hsame x hj hx ▸ hb)

omit [DecidableEq ι] in
theorem makesBucket_eq_zero (hnone : ∀ b, ¬ KnownBucket key loc t b) :
    t.countP (makesBucket key) = 0 := by
  rw [List.countP_eq_zero]
  rintro ⟨i, o', s'⟩ hmem hmakes
  cases o' with
  | add k p =>
    have hk : k = key := by simpa [makesBucket] using hmakes
    exact hnone _ (.made (hk ▸ hmem))
  | _ => cases hmakes

/-- A new bucket: the cache had none, so nothing was known and none had been made. -/
theorem BucketInv.add (h : BucketInv key policy loc s t) (hlock : LockInv threads loc s)
    {x : RateCall} {b : RateLimiter} (hj : loc j = .call x .miss) (hx : x.key = key)
    (hm : RateMove oracle s (loc j) o (.call x (.hit b)))
    (hsame : ∀ x, (loc j).call? = some x → x.key = key → x.policy = policy) :
    BucketInv key policy (Function.update loc j (.call x (.hit b))) (o.exec oracle s).2
      (t ++ [(j, o, s)]) := by
  have hnone : ∀ b, ¬ KnownBucket key loc t b := by
    intro b hb
    have hmiss := h.missing j x hj hx
    rw [h.known b hb] at hmiss
    cases hmiss
  refine ⟨fun b hb => (hb.of_step hm hsame).resolve_left (hnone b), fun i y hi _ => ?_, ?_,
    fun i y pc ok hi hok => h.answered_step hm hi hok⟩
  · by_cases hij : i = j
    · subst hij
      rw [Function.update_self] at hi
      cases hi
    · rw [Function.update_of_ne hij] at hi
      refine absurd (hlock.lock.unique i j ?_ ?_) hij
      · simp only [Function.comp_apply, hi, RateLocal.holds, LimitPc.holds]
      · simp only [Function.comp_apply, hj, RateLocal.holds, LimitPc.holds]
  · rw [List.countP_append, makesBucket_eq_zero hnone, Nat.zero_add]
    exact List.countP_le_length

/-- A step that leaves the bucket of the key as it is. -/
theorem BucketInv.keep (h : BucketInv key policy loc s t) (hm : RateMove oracle s (loc j) o l)
    (hsame : ∀ x, (loc j).call? = some x → x.key = key → x.policy = policy)
    (hbucket : (o.exec oracle s).2.limiters key = s.limiters key)
    (hadd : ∀ policy, o ≠ .add key policy) :
    BucketInv key policy (Function.update loc j l) (o.exec oracle s).2 (t ++ [(j, o, s)]) := by
  refine ⟨fun b hb => ?_, fun i y hi hy => ?_, ?_,
    fun i y pc ok hi hok => h.answered_step hm hi hok⟩
  · obtain hb | hb := hb.of_step hm hsame
    · rw [hbucket]
      exact h.known b hb
    · exact hb
  · rw [hbucket]
    by_cases hij : i = j
    · subst hij
      rw [Function.update_self] at hi
      subst hi
      generalize hli : loc i = li at hm hsame
      cases hm with
      | call hm =>
        cases hm with
        | absentLocked hu => rwa [hsame y rfl hy, hy] at hu
    · rw [Function.update_of_ne hij] at hi
      exact h.missing i y hi hy
  · have hmakes : makesBucket key (j, o, s) = false := by
      cases o with
      | add k p =>
        have hk : k ≠ key := fun hk => hadd p (hk ▸ rfl)
        simpa [makesBucket] using hk
      | _ => rfl
    rw [List.countP_append, List.countP_singleton, hmakes]
    exact h.once

theorem BucketInv.step (h : BucketInv key policy loc s t) (hlock : LockInv threads loc s)
    (hm : RateMove oracle s (loc j) o l) (hkeep : o ≠ .evict key)
    (hsame : ∀ x, (loc j).call? = some x → x.key = key → x.policy = policy) :
    BucketInv key policy (Function.update loc j l) (o.exec oracle s).2 (t ++ [(j, o, s)]) := by
  obtain hev | ⟨x, hj, hx, rfl, rfl⟩ | ⟨hbucket, hadd⟩ := hm.bucket_cases key
  · exact absurd hev hkeep
  · exact h.add hlock hj hx hm hsame
  · exact h.keep hm hsame hbucket hadd

end BucketStep

variable (oracle) in
/-- A thread with the lock can go on. -/
theorem RateLocal.prog_of_holds {loc : RateLocal} (h : loc.holds = true) :
    ∃ o k, loc.prog = Prog.act (S := limiterSig oracle) o k ∧
      ∀ s, (limiterSig oracle).enabled o s = true := by
  cases loc with
  | drop keys => cases h
  | call x pc =>
    cases pc with
    | locked | hit | miss | leaving => exact ⟨_, _, rfl, fun _ => rfl⟩
    | _ => cases h

end Invariants

/-! ## One bucket -/

section Main

variable {ι : Type} [DecidableEq ι]

/-- The calls and the cache, in the order of a schedule. -/
def limitAll (oracle : LimiterOracle) (threads : ι → RateThread) (s : LimiterState) (sched : List ι) :
    Pool (limiterSig oracle) ι Bool :=
  (Pool.start (fun i => (threads i).prog) s).runs sched

theorem limitAll_inv (oracle : LimiterOracle) (threads : ι → RateThread) {s : LimiterState}
    (hs : s.locked = false) (sched : List ι) (key : GoString) (policy : RateLimitPolicy)
    (hsame : ∀ i x, threads i = .call x → x.key = key → x.policy = policy) :
    ∃ loc, (∀ i, (limitAll oracle threads s sched).threads i = (loc i).prog) ∧
      LockInv threads loc (limitAll oracle threads s sched).mem ∧
      ((∀ e ∈ (limitAll oracle threads s sched).trace, dropsBucket key e = false) →
        BucketInv key policy loc (limitAll oracle threads s sched).mem
          (limitAll oracle threads s sched).trace) := by
  have hstart : (fun i => (threads i).prog) =
      (RateLocal.prog : RateLocal → Prog (limiterSig oracle) Bool) ∘ fun i => (threads i).start :=
    funext fun i => (threads i).start_prog
  rw [limitAll, hstart]
  refine Pool.runs_locals RateLocal.prog (fun _ _ _ s h => rate_step h s)
    (P := fun loc s t => LockInv threads loc s ∧
      ((∀ e ∈ t, dropsBucket key e = false) → BucketInv key policy loc s t))
    ⟨lockInv_start threads hs, fun _ => bucketInv_start key policy threads s⟩ ?_ sched
  rintro loc s t j o l ⟨hlock, hbucket⟩ he hm
  refine ⟨hlock.step he hm, fun hkept => ?_⟩
  have hold := hbucket fun e hmem => hkept e (List.mem_append_left _ hmem)
  refine hold.step hlock hm ?_ fun x hx hkey => ?_
  · rintro rfl
    simpa [dropsBucket] using hkept (j, .evict key, s) (by simp)
  · rw [hlock.origin j] at hx
    cases ht : threads j with
    | call y =>
      rw [ht] at hx
      cases hx
      exact hsame j x ht hkey
    | drop keys =>
      rw [ht] at hx
      cases hx

omit [DecidableEq ι] in
theorem LockInv.call {threads : ι → RateThread} {loc : ι → RateLocal} {s : LimiterState}
    (h : LockInv threads loc s) {i : ι} {x : RateCall} (hi : threads i = .call x) :
    ∃ pc, loc i = .call x pc := by
  have horigin := h.origin i
  rw [hi] at horigin
  cases hloc : loc i with
  | call y pc =>
    rw [hloc] at horigin
    cases horigin
    exact ⟨pc, rfl⟩
  | drop keys =>
    rw [hloc] at horigin
    cases horigin

/-- **One bucket per client.** Calls without a coordinator run in any order, among calls for other
clients and evictions of their buckets. If the calls for a key have one policy and the cache does not
drop the key, at most one bucket is made for the key, and one bucket decides all its calls: a call
that has returned has the answer of that bucket, unless its policy has no limit. The calls do not
block each other for ever: while one has not returned, some thread can take a step. -/
theorem one_bucket_per_client (oracle : LimiterOracle) (threads : ι → RateThread) (s : LimiterState)
    (hs : s.locked = false) (sched : List ι) (tenant clientIP : GoString) (policy : RateLimitPolicy)
    (hsame : ∀ i x, threads i = .call x → x.key = bucketKey tenant clientIP → x.policy = policy)
    (hkept : ∀ e ∈ (limitAll oracle threads s sched).trace,
      dropsBucket (bucketKey tenant clientIP) e = false) :
    let run := limitAll oracle threads s sched
    let key := bucketKey tenant clientIP
    run.trace.countP (makesBucket key) ≤ 1 ∧
    (∃ bucket : RateLimiter,
      (∀ i p s', (i, .add key p, s') ∈ run.trace → bucket = ⟨s'.made, p⟩) ∧
      ∀ i x, threads i = .call x → x.key = key →
        (∀ b s', (i, .allow b, s') ∈ run.trace → b = bucket) ∧
        ∀ ok, run.threads i = .ret ok → (policy.requestsPerMinute ≤ 0 ∧ ok = true) ∨
          ∃ s', (i, .allow bucket, s') ∈ run.trace ∧ ok = oracle.allow s'.calls bucket) ∧
    ∀ i, (∀ ok, run.threads i ≠ .ret ok) →
      ∃ j o k, run.threads j = .act o k ∧ (limiterSig oracle).enabled o run.mem = true := by
  intro run key
  obtain ⟨loc, hprog, hlock, hbucket⟩ := limitAll_inv oracle threads hs sched key policy hsame
  have hinv := hbucket hkept
  refine ⟨hinv.once, ?_, fun i hi => ?_⟩
  -- The bucket of the cache, or any bucket while nothing is known of one.
  · let bucket := (usable policy (run.mem.limiters key)).getD ⟨0, policy⟩
    have honly : ∀ b, KnownBucket key loc run.trace b → b = bucket := by
      intro b hb
      change b = (usable policy (run.mem.limiters key)).getD ⟨0, policy⟩
      rw [hinv.known b hb]
      rfl
    refine ⟨bucket, fun i p s' hmem => (honly _ (.made hmem)).symm, fun i x hi hx => ?_⟩
    obtain ⟨pc, hloc⟩ := hlock.call hi
    have hdecided : ∀ b s', (i, .allow b, s') ∈ run.trace → b = bucket := fun b s' hmem =>
      honly b (.decided hmem (by rw [hloc]; rfl) hx)
    refine ⟨hdecided, fun ok hret => ?_⟩
    have hpc : pc = .done ok := by
      have hp := (hprog i).symm.trans hret
      rw [hloc] at hp
      exact LimitPc.of_prog_eq_ret hp
    obtain h | ⟨b, s', hmem, hok⟩ := hinv.answered i x pc ok hloc (by rw [hpc]; rfl)
    · exact .inl (hsame i x hi hx ▸ h)
    · exact .inr ⟨s', hdecided b s' hmem ▸ hmem, hdecided b s' hmem ▸ hok⟩
  · cases hp : run.threads i with
    | ret ok => exact absurd hp (hi ok)
    | act o k =>
      by_cases he : (limiterSig oracle).enabled o run.mem = true
      · exact ⟨i, o, k, hp, he⟩
      -- Only a taken lock blocks, and its holder can go on.
      · have hlocked : run.mem.locked = true := by
          cases o with
          | lock => simpa using he
          | _ => exact absurd rfl he
        obtain ⟨j, hj⟩ := hlock.lock.locked_iff.mp hlocked
        obtain ⟨o', k', hprog', henabled⟩ := RateLocal.prog_of_holds oracle hj
        exact ⟨j, o', k', (hprog j).trans hprog', henabled _⟩

/-- Two first requests of one client. -/
def firstRequests (_ : Fin 2) : RateThread :=
  .call ⟨str "a", str "10.0.0.1", ⟨60, 1⟩⟩

/-- A bucket that lets one request through. -/
def oneToken : LimiterOracle where
  allow n _ := n = 0
  remote _ _ _ _ := none

/-- Both requests look for a bucket before one is made. -/
def bothMiss : List (Fin 2) := [0, 1, 0, 0, 0, 0, 0, 1, 1, 1, 1]

theorem one_bucket_per_client_race :
    let run := limitAll oneToken firstRequests ⟨fun _ => none, false, 0, 0⟩ bothMiss
    run.threads 0 = .ret true ∧ run.threads 1 = .ret false ∧
      run.trace.countP (makesBucket (str "a:10.0.0.1")) ≤ 1 := by
  intro run
  have h0 : (run.threads 0).result? = some true := by decide +kernel
  have h1 : (run.threads 1).result? = some false := by decide +kernel
  have hkey : bucketKey (str "a") (str "10.0.0.1") = str "a:10.0.0.1" := by decide +kernel
  have hkept : ∀ e ∈ run.trace, dropsBucket (bucketKey (str "a") (str "10.0.0.1")) e = false := by
    decide +kernel
  have hmain := one_bucket_per_client oneToken firstRequests ⟨fun _ => none, false, 0, 0⟩ rfl bothMiss
    (str "a") (str "10.0.0.1") ⟨60, 1⟩ (fun i x hx _ => by cases hx; rfl) hkept
  exact ⟨Prog.result?_eq_some.mp h0, Prog.result?_eq_some.mp h1, hkey ▸ hmain.1⟩

end Main

end SynitWaf
