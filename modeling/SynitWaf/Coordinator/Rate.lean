import Mathlib.Algebra.Order.Field.Rat
import SynitWaf.Coordinator.Limits

/-!
# The rate of the coordinator

With limiters that are token buckets, the calls that present one policy for one key are answered
like the requests to one bucket, as long as a limiter is not replaced before its bucket had time to
fill. A limiter is replaced when the table has lost it, or when the key is presented with another
policy in between.

* `presents`, `lastOn`, `lastPresented`: the calls for a key, and those with one policy;
* `Refilled`: the condition on the times of the calls;
* `Tracked`: the entry of the key, and the bucket of the policy;
* **`presented_le`**: the bound for the calls with one policy;
* **`allowed_le`**: the bound for a key with one policy;
* **`allowed_le_two`**: the bound for a key with two policies.
-/

namespace SynitWaf

open Go TokenBucket

/-- A policy with a finite rate, in requests per second. -/
structure LimitPolicy where
  limit : ℚ
  burst : ℤ
  deriving DecidableEq

/-- The bucket of a policy. -/
def LimitPolicy.bucket (p : LimitPolicy) : Policy ℚ := ⟨p.limit, p.burst⟩

/-! ## Calls for a key -/

section Calls

variable (settings : LimitSettings) (key : GoString) (p : LimitPolicy)

/-- The arguments of a call that passes the checks. -/
def acceptedArgs (call : LimitCall) : Option CheckLimitArgs := (validateCall settings call).toOption

/-- Is it a successful call for the key? -/
def onKey (call : LimitCall) : Bool := (acceptedArgs settings call).any fun args => args.key = key

/-- Is it a successful call for the key with the policy? -/
def presents (call : LimitCall) : Bool :=
  (acceptedArgs settings call).any fun args =>
    args.key = key && (args.limit = .finite p.limit && args.burst = p.burst)

/-- The last call for the key. -/
def lastOn (calls : List LimitCall) : Option LimitCall := (calls.filter (onKey settings key)).getLast?

/-- The last call for the key with the policy. -/
def lastPresented (calls : List LimitCall) : Option LimitCall :=
  (calls.filter (presents settings key p)).getLast?

/-- The times of the calls for the key with the policy. -/
def presentedTimes (calls : List LimitCall) : List ℚ :=
  (calls.filter (presents settings key p)).map fun call => seconds call.now

/-- A policy is presented again right behind itself and within the time to live, or when its bucket
had time to fill. -/
def Refilled (calls : List LimitCall) : Prop :=
  ∀ before call, before ++ [call] <+: calls → presents settings key p call = true →
    ∀ last, lastPresented settings key p before = some last →
      (lastOn settings key before = some last ∧ call.now - last.now ≤ settings.entryTTL) ∨
        (p.burst : ℚ) ≤ p.limit * seconds (call.now - last.now)

/-- The call needs room for its key, and there is none. -/
def Evicts {L : Type} (t : LimitTable L) (call : LimitCall) : Prop :=
  ∃ args, validateCall settings call = .ok args ∧ args.key ∉ (cleanup settings call t).limiters ∧
    settings.maxEntries ≤ GoMap.len (cleanup settings call t).limiters

/-- No call of the run evicts an entry. -/
def NoEviction (rate : RatePackage) (calls : List LimitCall) : Prop :=
  ∀ before call, before ++ [call] <+: calls →
    ¬ Evicts settings (runLimits rate settings before) call

/-- The calls of a run with their answers. -/
def limitAnswers (rate : RatePackage) :
    LimitTable rate.Limiter → List LimitCall → List (LimitCall × Result Bool)
  | _, [] => []
  | t, call :: calls =>
    (call, (checkLimit rate settings t call).1) ::
      limitAnswers rate (checkLimit rate settings t call).2 calls

/-- Is the answer that the call is allowed? -/
def isAllowed : Result Bool → Bool
  | .ok allowed => allowed
  | .error _ => false

/-- Was the call selected and allowed, at a time from `a` to `a + w`? -/
def allowedWithin (select : LimitCall → Bool) (a w : ℚ) (x : LimitCall × Result Bool) : Bool :=
  select x.1 && grantedWithin a (a + w) (seconds x.1.now, isAllowed x.2)

end Calls

section

variable {settings : LimitSettings} {key : GoString} {p : LimitPolicy} {call : LimitCall}

theorem onKey_iff :
    onKey settings key call = true ↔
      ∃ args, validateCall settings call = .ok args ∧ args.key = key := by
  unfold onKey acceptedArgs
  cases validateCall settings call with
  | error e => simp [Except.toOption]
  | ok args => simp [Except.toOption]

theorem presents_iff :
    presents settings key p call = true ↔ ∃ args, validateCall settings call = .ok args ∧
      args.key = key ∧ args.limit = .finite p.limit ∧ args.burst = p.burst := by
  unfold presents acceptedArgs
  cases validateCall settings call with
  | error e => simp [Except.toOption]
  | ok args => simp [Except.toOption]

theorem onKey_of_presents (h : presents settings key p call = true) :
    onKey settings key call = true := by
  obtain ⟨args, hv, hkey, -⟩ := presents_iff.mp h
  exact onKey_iff.mpr ⟨args, hv, hkey⟩

theorem lastOn_append (calls : List LimitCall) (call : LimitCall) :
    lastOn settings key (calls ++ [call]) =
      if onKey settings key call then some call else lastOn settings key calls := by
  unfold lastOn
  rw [List.filter_append]
  cases h : onKey settings key call <;> simp [h]

theorem presentedTimes_append (calls : List LimitCall) (call : LimitCall) :
    presentedTimes settings key p (calls ++ [call]) =
      presentedTimes settings key p calls ++
        if presents settings key p call then [seconds call.now] else [] := by
  unfold presentedTimes
  rw [List.filter_append, List.map_append]
  cases h : presents settings key p call <;> simp [h]

theorem presents_of_lastPresented {calls : List LimitCall} {last : LimitCall}
    (h : lastPresented settings key p calls = some last) : presents settings key p last = true :=
  (List.mem_filter.mp (List.mem_of_getLast? h)).2

theorem onKey_of_lastOn {calls : List LimitCall} {last : LimitCall}
    (h : lastOn settings key calls = some last) : onKey settings key last = true :=
  (List.mem_filter.mp (List.mem_of_getLast? h)).2

theorem limitAnswers_append (rate : RatePackage) (t : LimitTable rate.Limiter)
    (calls : List LimitCall) (call : LimitCall) :
    limitAnswers settings rate t (calls ++ [call]) = limitAnswers settings rate t calls ++
      [(call, (checkLimit rate settings
        (calls.foldl (fun t call => (checkLimit rate settings t call).2) t) call).1)] := by
  induction calls generalizing t with
  | nil => rfl
  | cons c calls ih =>
    rw [List.cons_append, limitAnswers, limitAnswers, ih, List.cons_append]
    rfl

theorem seconds_sub (a b : ℤ) : seconds (a - b) = seconds a - seconds b := by
  unfold seconds
  rw [Int.cast_sub, sub_div]

variable (settings key p) in
theorem presentedTimes_sorted {calls : List LimitCall}
    (hsorted : calls.Pairwise fun a b => a.now ≤ b.now) :
    (presentedTimes settings key p calls).Pairwise (· ≤ ·) := by
  unfold presentedTimes
  rw [List.pairwise_map]
  refine (hsorted.filter _).imp fun {a b} hab => ?_
  unfold seconds
  have hcast : (a.now : ℚ) ≤ b.now := Int.cast_le.mpr hab
  linarith

end

/-! ## The entry of the key -/

section Track

variable (settings : LimitSettings) (key : GoString) (p : LimitPolicy)

/-- The bucket that has seen all the calls with the policy. -/
def policyBucket (calls : List LimitCall) : Bucket ℚ :=
  bucketAfter p.bucket (full p.bucket) (presentedTimes settings key p calls)

/-- The table after some calls: the entry of the key is that of its last call, and holds the bucket
of the policy if that call presented it; without an entry the last call was long ago. -/
structure Tracked (calls : List LimitCall) (t : LimitTable exactRate.Limiter) : Prop where
  entry : ∀ e, t.limiters.lookup key = some e → ∃ last args,
    lastOn settings key calls = some last ∧ validateCall settings last = .ok args ∧
      e.limit = args.limit ∧ e.burst = args.burst ∧ e.lastSeen = last.now ∧
      (presents settings key p last = true →
        e.limiter = ⟨.finite p.limit, p.burst, policyBucket settings key p calls⟩)
  gone : t.limiters.lookup key = none → ∀ last, lastOn settings key calls = some last →
    ∀ now, (∀ c ∈ calls, c.now ≤ now) → settings.entryTTL < now - last.now

variable {settings key p} {calls : List LimitCall} {call : LimitCall} {args : CheckLimitArgs}
  {t : LimitTable exactRate.Limiter}

theorem Tracked.empty : Tracked settings key p [] (.empty _) where
  entry e he := by
    rw [LimitTable.empty, AList.lookup_empty] at he
    cases he
  gone _ last hlast := by cases hlast

/-- A call that is not for the key changes nothing but the time. -/
theorem Tracked.skip (h : Tracked settings key p calls t) (hkey : onKey settings key call = false)
    {t' : LimitTable exactRate.Limiter}
    (hsome : ∀ e, t'.limiters.lookup key = some e → t.limiters.lookup key = some e)
    (hnone : t'.limiters.lookup key = none → ∀ e, t.limiters.lookup key = some e →
      settings.entryTTL < call.now - e.lastSeen) :
    Tracked settings key p (calls ++ [call]) t' := by
  have hon : lastOn settings key (calls ++ [call]) = lastOn settings key calls := by
    rw [lastOn_append, hkey, if_neg (by simp)]
  have hpresents : presents settings key p call = false := by
    cases hp : presents settings key p call with
    | false => rfl
    | true => rw [onKey_of_presents hp] at hkey; cases hkey
  have htimes : presentedTimes settings key p (calls ++ [call]) =
      presentedTimes settings key p calls := by
    rw [presentedTimes_append, hpresents, if_neg (by simp), List.append_nil]
  constructor
  · intro e he
    rw [hon, policyBucket, htimes]
    exact h.entry e (hsome e he)
  · intro hgone last hlast now hnow
    rw [hon] at hlast
    have hcalls : ∀ c ∈ calls, c.now ≤ now := fun c hc => hnow c (List.mem_append_left _ hc)
    cases hk : t.limiters.lookup key with
    | none => exact h.gone hk last hlast now hcalls
    | some e =>
      obtain ⟨last', args, hlast', -, -, -, hseen, -⟩ := h.entry e hk
      rw [hlast] at hlast'
      cases hlast'
      have hidle := hnone hgone e hk
      have hle := hnow call (by simp)
      omega

variable (settings key p calls call) in
/-- What `Refilled` asks of a call that presents the policy behind the calls before it. -/
def RefilledAt : Prop :=
  ∀ last, lastPresented settings key p calls = some last →
    (lastOn settings key calls = some last ∧ call.now - last.now ≤ settings.entryTTL) ∨
      (p.burst : ℚ) ≤ p.limit * seconds (call.now - last.now)

/-- A limiter is new only if the bucket of the policy would be full. -/
theorem Tracked.renew (h : Tracked settings key p calls t) (hl : 0 < p.limit) (hb : 1 ≤ p.burst)
    (hsorted : (calls ++ [call]).Pairwise fun a b => a.now ≤ b.now)
    (hargs : args.limit = .finite p.limit ∧ args.burst = p.burst)
    (hrefilled : RefilledAt settings key p calls call)
    (hnew : ∀ e, (cleanup settings call t).limiters.lookup key = some e →
      e.hasPolicy args = false) :
    (policyBucket settings key p calls).take p.bucket (seconds call.now) =
      (full p.bucket).take p.bucket (seconds call.now) := by
  obtain ⟨hcalls, -, hlater⟩ := List.pairwise_append.mp hsorted
  have hburst : 1 ≤ p.bucket.burst := by
    have hcast : ((1 : ℤ) : ℚ) ≤ p.burst := Int.cast_le.mpr hb
    rwa [Int.cast_one] at hcast
  cases hlast : lastPresented settings key p calls with
  | none =>
    have htimes : presentedTimes settings key p calls = [] := by
      rw [presentedTimes, List.getLast?_eq_none_iff.mp hlast]
      rfl
    rw [policyBucket, htimes]
    rfl
  | some last =>
    rcases hrefilled last hlast with ⟨hon, hgap⟩ | hfill
    · -- the limiter of the last call is still there
      exfalso
      cases hk : t.limiters.lookup key with
      | none =>
        have hidle := h.gone hk last hon call.now fun c hc => hlater c hc call (by simp)
        omega
      | some e =>
        obtain ⟨last', args', hon', hv, hlimit, hburst', hseen, -⟩ := h.entry e hk
        rw [hon] at hon'
        cases hon'
        have hfresh : e.stale settings call.now = false := by
          rw [CoordinatorLimiter.stale, decide_eq_false_iff_not]
          omega
        have hkept := hnew e (lookup_cleanup.mpr ⟨hk, fun _ => hfresh⟩)
        obtain ⟨args'', hv', -, hlimit', hburst''⟩ :=
          presents_iff.mp (presents_of_lastPresented hlast)
        rw [hv] at hv'
        cases hv'
        rw [CoordinatorLimiter.hasPolicy, hlimit, hburst', hlimit', hburst'', hargs.1, hargs.2]
          at hkept
        simp at hkept
    · obtain ⟨htokens, hgranted⟩ := bucketAfter_full hburst (presentedTimes_sorted settings key p hcalls)
      have htime : (presentedTimes settings key p calls).getLast? = some (seconds last.now) := by
        rw [presentedTimes, List.getLast?_map, show (calls.filter _).getLast? = _ from hlast]
        rfl
      obtain ⟨u, hu, hle⟩ := hgranted _ htime
      refine take_eq_of_refilled hburst htokens hu (le_trans hfill ?_)
      rw [seconds_sub]
      exact mul_le_mul_of_nonneg_left (sub_le_sub_left hle _) (le_of_lt hl)

/-- The limiter of a call with the policy answers like the bucket of the policy. -/
theorem Tracked.allow (h : Tracked settings key p calls t) (hl : 0 < p.limit) (hb : 1 ≤ p.burst)
    (hsorted : (calls ++ [call]).Pairwise fun a b => a.now ≤ b.now) (hkey : args.key = key)
    (hargs : args.limit = .finite p.limit ∧ args.burst = p.burst)
    (hrefilled : RefilledAt settings key p calls call) :
    exactRate.allow
        (entryFor exactRate settings call args (cleanup settings call t).limiters).1.limiter call.now =
      (((policyBucket settings key p calls).take p.bucket (seconds call.now)).1,
        ⟨.finite p.limit, p.burst,
          ((policyBucket settings key p calls).take p.bucket (seconds call.now)).2⟩) := by
  have hnew : (∀ e, (cleanup settings call t).limiters.lookup key = some e →
      e.hasPolicy args = false) → exactRate.allow (newEntry exactRate call.now args).limiter call.now =
      (((policyBucket settings key p calls).take p.bucket (seconds call.now)).1,
        ⟨.finite p.limit, p.burst,
          ((policyBucket settings key p calls).take p.bucket (seconds call.now)).2⟩) := by
    intro hno
    rw [h.renew hl hb hsorted hargs hrefilled hno]
    unfold newEntry
    rw [hargs.1, hargs.2]
    rfl
  unfold entryFor
  rw [hkey]
  cases hk : (cleanup settings call t).limiters.lookup key with
  | none => exact hnew fun e he => by rw [hk] at he; cases he
  | some e =>
    dsimp only
    by_cases hpolicy : e.hasPolicy args = true
    · rw [if_pos hpolicy]
      obtain ⟨last, args', hon, hv, hlimit, hburst, -, hlimiter⟩ := h.entry e (lookup_cleanup.mp hk).1
      rw [CoordinatorLimiter.hasPolicy, Bool.and_eq_true, decide_eq_true_eq] at hpolicy
      -- the call before presented the policy too
      obtain ⟨args'', hv', hkey'⟩ := onKey_iff.mp (onKey_of_lastOn hon)
      rw [hv] at hv'
      cases hv'
      have hlast : presents settings key p last = true := by
        refine presents_iff.mpr ⟨args', hv, hkey', ?_, ?_⟩
        · rw [← hlimit, Float64.eq_of_same hpolicy.1, hargs.1]
        · rw [← hburst, hpolicy.2, hargs.2]
      dsimp only
      rw [hlimiter hlast]
      rfl
    · rw [if_neg hpolicy]
      refine hnew fun e' he' => ?_
      rw [hk] at he'
      cases he'
      exact Bool.eq_false_iff.mpr hpolicy

theorem entryFor_of_not_evicts (hv : validateCall settings call = .ok args)
    (hroom : ¬ Evicts settings t call) :
    (entryFor exactRate settings call args (cleanup settings call t).limiters).2 =
      (cleanup settings call t).limiters := by
  rcases entryFor_table exactRate settings call args (cleanup settings call t).limiters with
    ⟨heq, -⟩ | ⟨hnew, hfull, -⟩
  · exact heq
  · exact absurd ⟨args, hv, hnew, hfull⟩ hroom

theorem onKey_eq_false (hv : validateCall settings call = .ok args) (hkey : args.key ≠ key) :
    onKey settings key call = false := by
  refine Bool.eq_false_iff.mpr fun hon => ?_
  obtain ⟨args', hv', hkey'⟩ := onKey_iff.mp hon
  rw [hv] at hv'
  cases hv'
  exact hkey hkey'

theorem onKey_error {e : GoString} (hv : validateCall settings call = .error e) :
    onKey settings key call = false := by
  simp [onKey, acceptedArgs, hv, Except.toOption]

theorem presented_policy (hv : validateCall settings call = .ok args)
    (hp : presents settings key p call = true) :
    args.limit = .finite p.limit ∧ args.burst = p.burst := by
  obtain ⟨args', hv', -, hargs⟩ := presents_iff.mp hp
  rw [hv] at hv'
  cases hv'
  exact hargs

/-- A call on another key, which may remove the entry of the key if it has not been used for long. -/
theorem Tracked.other (h : Tracked settings key p calls t)
    (hv : validateCall settings call = .ok args) (hroom : ¬ Evicts settings t call)
    (hkey : args.key ≠ key) :
    Tracked settings key p (calls ++ [call]) (checkLimit exactRate settings t call).2 := by
  rw [checkLimit_ok exactRate hv, entryFor_of_not_evicts hv hroom]
  refine h.skip (onKey_eq_false hv hkey) (fun e he => ?_) fun hnone e he => ?_
  · rw [AList.lookup_insert_ne hkey.symm] at he
    exact (lookup_cleanup.mp he).1
  · rw [AList.lookup_insert_ne hkey.symm] at hnone
    exact stale_of_cleanup he hnone

/-- A call on the key leaves its own entry behind. -/
theorem Tracked.own (h : Tracked settings key p calls t) (hl : 0 < p.limit) (hb : 1 ≤ p.burst)
    (hsorted : (calls ++ [call]).Pairwise fun a b => a.now ≤ b.now)
    (hv : validateCall settings call = .ok args) (hroom : ¬ Evicts settings t call)
    (hrefilled : presents settings key p call = true → RefilledAt settings key p calls call)
    (hkey : args.key = key) :
    Tracked settings key p (calls ++ [call]) (checkLimit exactRate settings t call).2 := by
  have hon : onKey settings key call = true := onKey_iff.mpr ⟨args, hv, hkey⟩
  rw [checkLimit_ok exactRate hv, entryFor_of_not_evicts hv hroom]
  refine ⟨fun e he => ?_, fun hgone => ?_⟩
  · rw [hkey, AList.lookup_insert] at he
    cases he
    obtain ⟨hlimit, hburst, hseen⟩ :=
      entryFor_policy exactRate settings call args (cleanup settings call t).limiters
    refine ⟨call, args, ?_, hv, hlimit, hburst, hseen, fun hp => ?_⟩
    · rw [lastOn_append, if_pos hon]
    · have hbucket : policyBucket settings key p (calls ++ [call]) =
          ((policyBucket settings key p calls).take p.bucket (seconds call.now)).2 := by
        rw [policyBucket, presentedTimes_append, if_pos hp, bucketAfter_append]
        rfl
      rw [hbucket]
      exact congrArg Prod.snd
        (h.allow hl hb hsorted hkey (presented_policy hv hp) (hrefilled hp))
  · rw [hkey, AList.lookup_insert] at hgone
    cases hgone

/-- **One call.** The table goes on to track the key, and a call with the policy is answered by the
bucket of the policy. -/
theorem Tracked.step (h : Tracked settings key p calls t) (hl : 0 < p.limit) (hb : 1 ≤ p.burst)
    (hsorted : (calls ++ [call]).Pairwise fun a b => a.now ≤ b.now)
    (hroom : ¬ Evicts settings t call)
    (hrefilled : presents settings key p call = true → RefilledAt settings key p calls call) :
    Tracked settings key p (calls ++ [call]) (checkLimit exactRate settings t call).2 ∧
      (presents settings key p call = true → isAllowed (checkLimit exactRate settings t call).1 =
        ((policyBucket settings key p calls).take p.bucket (seconds call.now)).1) := by
  cases hv : validateCall settings call with
  | error e =>
    rw [checkLimit_error exactRate hv]
    refine ⟨h.skip (onKey_error hv) (fun _ he => he) fun hnone e he => ?_, fun hp => ?_⟩
    · rw [hnone] at he
      cases he
    · exact absurd (onKey_of_presents hp) (Bool.eq_false_iff.mp (onKey_error hv))
  | ok args =>
    by_cases hkey : args.key = key
    · refine ⟨h.own hl hb hsorted hv hroom hrefilled hkey, fun hp => ?_⟩
      rw [checkLimit_ok exactRate hv]
      exact congrArg Prod.fst
        (h.allow hl hb hsorted hkey (presented_policy hv hp) (hrefilled hp))
    · refine ⟨h.other hv hroom hkey, fun hp => ?_⟩
      exact absurd (onKey_of_presents hp) (Bool.eq_false_iff.mp (onKey_eq_false hv hkey))

/-! ## Runs -/

/-- **A run.** The calls with the policy are answered like requests to one bucket. -/
theorem tracked_run (hl : 0 < p.limit) (hb : 1 ≤ p.burst)
    (hsorted : calls.Pairwise fun a b => a.now ≤ b.now)
    (hroom : NoEviction settings exactRate calls) (hrefilled : Refilled settings key p calls) :
    Tracked settings key p calls (runLimits exactRate settings calls) ∧
      ((limitAnswers settings exactRate (.empty _) calls).filter
          fun x => presents settings key p x.1).map (fun x => (seconds x.1.now, isAllowed x.2)) =
        answers p.bucket (full p.bucket) (presentedTimes settings key p calls) := by
  induction calls using List.reverseRecOn with
  | nil => exact ⟨.empty, rfl⟩
  | append_singleton calls call ih =>
    have hpre : ∀ {l : List LimitCall}, l <+: calls → l <+: calls ++ [call] := fun hp =>
      hp.trans (List.prefix_append _ _)
    obtain ⟨htrack, hanswers⟩ := ih (List.pairwise_append.mp hsorted).1
      (fun before c hc => hroom before c (hpre hc))
      (fun before c hc => hrefilled before c (hpre hc))
    obtain ⟨hstep, hanswer⟩ := htrack.step hl hb hsorted (hroom calls call (List.prefix_refl _))
      (hrefilled calls call (List.prefix_refl _))
    refine ⟨by rw [runLimits_append]; exact hstep, ?_⟩
    rw [limitAnswers_append, List.filter_append, List.map_append, hanswers, presentedTimes_append]
    cases hp : presents settings key p call with
    | false => simp [hp]
    | true =>
      rw [if_pos rfl, answers_append, List.filter_singleton, hp]
      exact congrArg (fun b => _ ++ [(seconds call.now, b)]) (hanswer hp)

/-- **The bound for a policy.** -/
theorem presented_le (hl : 0 < p.limit) (hb : 1 ≤ p.burst)
    (hsorted : calls.Pairwise fun a b => a.now ≤ b.now)
    (hroom : NoEviction settings exactRate calls) (hrefilled : Refilled settings key p calls)
    (a : ℚ) {w : ℚ} (hw : 0 ≤ w) :
    ((limitAnswers settings exactRate (.empty _) calls).countP
      (allowedWithin (presents settings key p) a w) : ℚ) ≤ p.burst + p.limit * w := by
  have hburst : 0 ≤ p.bucket.burst := by
    have hcast : ((0 : ℤ) : ℚ) ≤ p.burst := Int.cast_le.mpr (by omega)
    rwa [Int.cast_zero] at hcast
  have hcount : (limitAnswers settings exactRate (.empty _) calls).countP
      (allowedWithin (presents settings key p) a w) =
        (answers p.bucket (full p.bucket) (presentedTimes settings key p calls)).countP
          (grantedWithin a (a + w)) := by
    rw [← (tracked_run hl hb hsorted hroom hrefilled).2, List.countP_map, List.countP_filter]
    refine List.countP_congr fun x _ => ?_
    simp only [allowedWithin, Function.comp_apply, Bool.and_comm]
  have hle := granted_le (p := p.bucket) hburst (le_of_lt hl) (le_add_of_nonneg_right hw)
    (Bucket.Valid.full hburst a) (presentedTimes_sorted settings key p hsorted)
  rw [hcount]
  rwa [add_sub_cancel_left] at hle

theorem mem_limitAnswers {rate : RatePackage} {t : LimitTable rate.Limiter}
    {x : LimitCall × Result Bool} (h : x ∈ limitAnswers settings rate t calls) : x.1 ∈ calls := by
  induction calls generalizing t with
  | nil => cases h
  | cons call calls ih =>
    rcases List.mem_cons.mp h with rfl | h
    · exact List.mem_cons_self
    · exact List.mem_cons_of_mem _ (ih h)

theorem countP_mono {l : List (LimitCall × Result Bool)} {f g : LimitCall → Bool}
    (h : ∀ x ∈ l, f x.1 = true → g x.1 = true) (a w : ℚ) :
    l.countP (allowedWithin f a w) ≤ l.countP (allowedWithin g a w) := by
  refine List.countP_mono_left fun x hx hf => ?_
  rw [allowedWithin, Bool.and_eq_true] at hf ⊢
  exact ⟨h x hx hf.1, hf.2⟩

theorem countP_or_le (l : List (LimitCall × Result Bool)) (f g : LimitCall → Bool) (a w : ℚ) :
    l.countP (allowedWithin (fun c => f c || g c) a w) ≤
      l.countP (allowedWithin f a w) + l.countP (allowedWithin g a w) := by
  induction l with
  | nil => exact Nat.le_refl _
  | cons x l ih =>
    simp only [List.countP_cons, allowedWithin, Bool.and_eq_true, Bool.or_eq_true] at ih ⊢
    grind

/-! ## One policy -/

/-- The keys of the table were presented. -/
theorem mem_runLimits {rate : RatePackage} {k : GoString}
    (h : k ∈ (runLimits rate settings calls).limiters) : ∃ c ∈ calls, onKey settings k c = true := by
  induction calls using List.reverseRecOn with
  | nil => exact absurd h (AList.notMem_empty k)
  | append_singleton calls call ih =>
    rw [runLimits_append] at h
    have hold : k ∈ (runLimits rate settings calls).limiters →
        ∃ c ∈ calls ++ [call], onKey settings k c = true := by
      intro hk
      obtain ⟨c, hc, hon⟩ := ih hk
      exact ⟨c, List.mem_append_left _ hc, hon⟩
    cases hv : validateCall settings call with
    | error e =>
      rw [checkLimit_error rate hv] at h
      exact hold h
    | ok args =>
      obtain ⟨e, he⟩ := exists_lookup h
      rcases lookup_checkLimit rate hv he with ⟨hkey, -⟩ | ⟨-, hk⟩
      · exact ⟨call, by simp, onKey_iff.mpr ⟨args, hv, hkey.symm⟩⟩
      · exact hold (mem_of_lookup (lookup_cleanup.mp hk).1)

/-- With few keys there is always room. -/
theorem noEviction_of_keys {rate : RatePackage} (keys : List GoString)
    (hlen : keys.length < settings.maxEntries)
    (hkeys : ∀ c ∈ calls, ∀ args, validateCall settings c = .ok args → args.key ∈ keys) :
    NoEviction settings rate calls := by
  rintro before call hpre ⟨args, -, -, hfull⟩
  have hsub : ((cleanup settings call (runLimits rate settings before)).limiters).keys ⊆ keys := by
    intro k hk
    obtain ⟨e, he⟩ := exists_lookup hk
    obtain ⟨c, hc, hon⟩ := mem_runLimits (mem_of_lookup (lookup_cleanup.mp he).1)
    obtain ⟨args', hv, rfl⟩ := onKey_iff.mp hon
    exact hkeys c (hpre.subset (List.mem_append_left _ hc)) args' hv
  have hle := (List.subperm_of_subset (AList.keys_nodup _) hsub).length_le
  unfold GoMap.len at hfull
  omega

end Track

/-- **The bound for one policy.** A key is always presented with one policy, among calls for few
other keys. If between two calls for the key that are further apart than the time to live the bucket
had time to fill, the calls allowed within an interval are at most the burst and what flows in. -/
theorem allowed_le (settings : LimitSettings) (key : GoString) (p : LimitPolicy)
    (hl : 0 < p.limit) (hb : 1 ≤ p.burst) (calls : List LimitCall)
    (hsorted : calls.Pairwise fun a b => a.now ≤ b.now)
    (hpolicy : ∀ c ∈ calls, onKey settings key c = true → presents settings key p c = true)
    (others : List GoString) (hothers : others.length < settings.maxEntries - 1)
    (hkeys : ∀ c ∈ calls, ∀ args, validateCall settings c = .ok args →
      args.key = key ∨ args.key ∈ others)
    (hgaps : ∀ before c, before ++ [c] <+: calls → onKey settings key c = true →
      ∀ last, lastOn settings key before = some last → c.now - last.now ≤ settings.entryTTL ∨
        (p.burst : ℚ) ≤ p.limit * seconds (c.now - last.now))
    (a w : ℚ) (hw : 0 ≤ w) :
    ((limitAnswers settings exactRate (.empty _) calls).countP
      (allowedWithin (onKey settings key) a w) : ℚ) ≤ p.burst + p.limit * w := by
  have hroom : NoEviction settings exactRate calls := by
    refine noEviction_of_keys (key :: others) ?_ fun c hc args hv => ?_
    · rw [List.length_cons]
      push_cast
      omega
    · rcases hkeys c hc args hv with hkey | hkey
      · exact hkey ▸ List.mem_cons_self
      · exact List.mem_cons_of_mem _ hkey
  -- with one policy, the last call for the key is the last one with the policy
  have hlast : ∀ before, (∀ c ∈ before, c ∈ calls) →
      lastOn settings key before = lastPresented settings key p before := by
    intro before hsub
    have hfilter : before.filter (onKey settings key) = before.filter (presents settings key p) := by
      refine List.filter_congr fun c hc => ?_
      rw [Bool.eq_iff_iff]
      exact ⟨hpolicy c (hsub c hc), onKey_of_presents⟩
    rw [lastOn, lastPresented, hfilter]
  have hrefilled : Refilled settings key p calls := by
    intro before call hpre hp last hl'
    have hon : lastOn settings key before = some last := by
      rw [hlast before fun c hc => hpre.subset (List.mem_append_left _ hc)]
      exact hl'
    exact (hgaps before call hpre (onKey_of_presents hp) last hon).imp (fun h => ⟨hon, h⟩) id
  have hle := presented_le hl hb hsorted hroom hrefilled a hw
  have hmono : (limitAnswers settings exactRate (.empty _) calls).countP
      (allowedWithin (onKey settings key) a w) ≤ (limitAnswers settings exactRate (.empty _)
        calls).countP (allowedWithin (presents settings key p) a w) :=
    countP_mono (fun x hx => hpolicy x.1 (mem_limitAnswers hx)) a w
  exact le_trans (Nat.cast_le.mpr hmono) hle

/-- The settings of a new coordinator. -/
def defaultLimits : LimitSettings := ⟨str "s", 10000, 600 * second⟩

/-- One request in a thousand seconds. -/
def slowPolicy : LimitPolicy := ⟨1 / 1000, 1⟩

/-- Calls with a policy for one key, at some times in seconds. -/
def callsAt (p : LimitPolicy) (times : List ℤ) : List LimitCall :=
  times.map fun t => smallCall (t * second) (str "k") p.limit p.burst

theorem key_of_callsAt {settings : LimitSettings} {p : LimitPolicy} {times : List ℤ} {c : LimitCall}
    (hc : c ∈ callsAt p times) {args : CheckLimitArgs} (hv : validateCall settings c = .ok args) :
    args.key = str "k" := by
  obtain ⟨t, -, rfl⟩ := List.mem_map.mp hc
  have hargs := (validateCall_eq_ok.mp hv).args_eq
  cases hargs
  rfl

theorem snoc_prefix_cons {α : Type} {before l : List α} {c x : α} :
    before ++ [c] <+: x :: l ↔
      (before = [] ∧ c = x) ∨ ∃ rest, before = x :: rest ∧ rest ++ [c] <+: l := by
  cases before with
  | nil => simp [List.cons_prefix_cons]
  | cons b before => simp [List.cons_prefix_cons, eq_comm, and_comm]

theorem allowed_le_steady :
    ((limitAnswers defaultLimits exactRate (.empty _) (callsAt slowPolicy [0, 5])).countP
      (allowedWithin (onKey defaultLimits (str "k")) 0 5) : ℚ) ≤ 1 + 1 / 1000 * 5 :=
  allowed_le defaultLimits (str "k") slowPolicy (by decide +kernel) (by decide)
    (callsAt slowPolicy [0, 5]) (by simp [callsAt, smallCall, second]) (by decide +kernel)
    [] (by decide) (fun _ hc _ hv => .inl (key_of_callsAt hc hv))
    (by
      intro before c hpre _ last hlast
      refine .inl ?_
      rcases snoc_prefix_cons.mp hpre with ⟨rfl, -⟩ | ⟨rest, rfl, hrest⟩
      · cases hlast
      · rcases snoc_prefix_cons.mp hrest with ⟨rfl, rfl⟩ | ⟨rest, rfl, hnil⟩
        · cases List.mem_singleton.mp (List.mem_filter.mp (List.mem_of_getLast? hlast)).1
          decide
        · simp at hnil)
    0 5 (by decide +kernel)

/-- The sweep forgets a bucket that needs longer than the time to live to fill. -/
theorem allowed_gt_idle :
    ((callsAt slowPolicy [0, 601]).Pairwise fun a b => a.now ≤ b.now) ∧
      (∀ c ∈ callsAt slowPolicy [0, 601],
        presents defaultLimits (str "k") slowPolicy c = true) ∧
      slowPolicy.burst + slowPolicy.limit * 601 <
        ((limitAnswers defaultLimits exactRate (.empty _) (callsAt slowPolicy [0, 601])).countP
          (allowedWithin (onKey defaultLimits (str "k")) 0 601) : ℚ) := by
  refine ⟨by simp [callsAt, smallCall, second], by decide +kernel, by decide +kernel⟩

/-! ## Two policies -/

/-- A policy is presented again right behind itself, or when its bucket had time to fill. -/
def SettledSwitch (settings : LimitSettings) (key : GoString) (p : LimitPolicy)
    (calls : List LimitCall) : Prop :=
  ∀ before c, before ++ [c] <+: calls → presents settings key p c = true →
    ∀ last, lastPresented settings key p before = some last →
      lastOn settings key before = some last ∨
        (p.burst : ℚ) ≤ p.limit * seconds (c.now - last.now)

/-- **The bound for two policies.** A key is presented with one of two policies, without long gaps
and without evictions. If a policy comes back only when its bucket had time to fill, the calls
allowed within an interval are at most those of both policies. -/
theorem allowed_le_two (settings : LimitSettings) (key : GoString) (p q : LimitPolicy)
    (hp : 0 < p.limit ∧ 1 ≤ p.burst) (hq : 0 < q.limit ∧ 1 ≤ q.burst) (calls : List LimitCall)
    (hsorted : calls.Pairwise fun a b => a.now ≤ b.now)
    (hpolicies : ∀ c ∈ calls, onKey settings key c = true →
      presents settings key p c = true ∨ presents settings key q c = true)
    (hgaps : ∀ before c, before ++ [c] <+: calls → onKey settings key c = true →
      ∀ last, lastOn settings key before = some last → c.now - last.now < settings.entryTTL)
    (hroom : NoEviction settings exactRate calls)
    (hsettled : SettledSwitch settings key p calls ∧ SettledSwitch settings key q calls)
    (a w : ℚ) (hw : 0 ≤ w) :
    ((limitAnswers settings exactRate (.empty _) calls).countP
      (allowedWithin (onKey settings key) a w) : ℚ) ≤
        (p.burst + p.limit * w) + (q.burst + q.limit * w) := by
  have hrefilled : ∀ r, SettledSwitch settings key r calls → Refilled settings key r calls := by
    intro r hr before call hpre hpres last hlast
    rcases hr before call hpre hpres last hlast with hon | hfill
    · have hgap := hgaps before call hpre (onKey_of_presents hpres) last hon
      exact .inl ⟨hon, by omega⟩
    · exact .inr hfill
  have hple := presented_le hp.1 hp.2 hsorted hroom (hrefilled p hsettled.1) a hw
  have hqle := presented_le hq.1 hq.2 hsorted hroom (hrefilled q hsettled.2) a hw
  have hsplit := Nat.le_trans
    (countP_mono (l := limitAnswers settings exactRate (.empty _) calls)
      (g := fun c => presents settings key p c || presents settings key q c)
      (fun x hx hon => by
        rw [Bool.or_eq_true]
        exact hpolicies x.1 (mem_limitAnswers hx) hon) a w)
    (countP_or_le _ (presents settings key p) (presents settings key q) a w)
  have hcast : ((limitAnswers settings exactRate (.empty _) calls).countP
      (allowedWithin (onKey settings key) a w) : ℚ) ≤ _ := Nat.cast_le.mpr hsplit
  rw [Nat.cast_add] at hcast
  linarith

/-- One request in a second. -/
def fastPolicy : LimitPolicy := ⟨1, 1⟩

/-- Two nodes ask in turn, one before the change of policy and one behind it. -/
def rollingCalls : List LimitCall :=
  callsAt slowPolicy [0] ++ callsAt fastPolicy [0] ++ callsAt slowPolicy [0]

theorem noEviction_rolling : NoEviction defaultLimits exactRate rollingCalls := by
  refine noEviction_of_keys [str "k"] (by decide) fun c hc args hv => ?_
  rw [List.mem_singleton]
  rcases List.mem_append.mp hc with hc | hc
  · rcases List.mem_append.mp hc with hc | hc <;> exact key_of_callsAt hc hv
  · exact key_of_callsAt hc hv

/-- The limiter is new after every change of policy. -/
theorem allowed_gt_two_rolling :
    (rollingCalls.Pairwise fun a b => a.now ≤ b.now) ∧
      (∀ c ∈ rollingCalls, c.now = 0 ∧ (presents defaultLimits (str "k") slowPolicy c = true ∨
        presents defaultLimits (str "k") fastPolicy c = true)) ∧
      NoEviction defaultLimits exactRate rollingCalls ∧
      (slowPolicy.burst + slowPolicy.limit * 0) + (fastPolicy.burst + fastPolicy.limit * 0) <
        ((limitAnswers defaultLimits exactRate (.empty _) rollingCalls).countP
          (allowedWithin (onKey defaultLimits (str "k")) 0 0) : ℚ) := by
  refine ⟨by simp [rollingCalls, callsAt, smallCall, second], by decide +kernel,
    noEviction_rolling, by decide +kernel⟩

/-- One change of policy. -/
def switchedCalls : List LimitCall := callsAt slowPolicy [0] ++ callsAt fastPolicy [0]

theorem allowed_le_two_switched :
    ((limitAnswers defaultLimits exactRate (.empty _) switchedCalls).countP
      (allowedWithin (onKey defaultLimits (str "k")) 0 0) : ℚ) ≤
        (1 + 1 / 1000 * 0) + (1 + 1 * 0) :=
  allowed_le_two defaultLimits (str "k") slowPolicy fastPolicy (by decide +kernel)
    (by decide +kernel) switchedCalls (by simp [switchedCalls, callsAt, smallCall])
    (by decide +kernel)
    (by
      intro before c hpre _ last hlast
      have hzero : ∀ c ∈ switchedCalls, c.now = 0 := by decide
      have hbefore := hpre.subset
        (List.mem_append_left _ (List.mem_filter.mp (List.mem_of_getLast? hlast)).1)
      rw [hzero c (hpre.subset (by simp)), hzero last hbefore]
      decide)
    (fun before c h => noEviction_rolling before c (h.trans (List.prefix_append _ _)))
    (by
      -- neither policy comes back
      constructor
      · intro before c hpre hpres last hlast
        rcases snoc_prefix_cons.mp hpre with ⟨rfl, -⟩ | ⟨rest, rfl, hrest⟩
        · cases hlast
        · rcases snoc_prefix_cons.mp hrest with ⟨rfl, rfl⟩ | ⟨rest, rfl, hnil⟩
          · exact absurd hpres (by decide +kernel)
          · simp at hnil
      · intro before c hpre hpres last hlast
        rcases snoc_prefix_cons.mp hpre with ⟨rfl, -⟩ | ⟨rest, rfl, hrest⟩
        · cases hlast
        · rcases snoc_prefix_cons.mp hrest with ⟨rfl, rfl⟩ | ⟨rest, rfl, hnil⟩
          · have hmem := List.mem_filter.mp (List.mem_of_getLast? hlast)
            cases List.mem_singleton.mp hmem.1
            exact absurd hmem.2 (by decide +kernel)
          · simp at hnil)
    0 0 (by decide)

end SynitWaf
