import SynitWaf.Config.Types
import SynitWaf.Upstream.Cooldown

/-!
# Counting consecutive failures

A request through an upstream ends in `ModifyResponse`, in `ErrorHandler`, or first in one and then
in the other: a response whose body cannot be read for masking is counted by its status and handed to
the error handler, which counts it again.

* `MaskingOutcome`, `RequestOutcome`: how a request can end; `modifyResponse`, `errorHandler`;
* `RequestOutcome.Failed`, `failedSuffix`: the failed requests at the end of a sequence;
* `Accounted`: the counter is their number, and at the threshold the circuit opens;
* `CountsOnce`: the request is counted as one, given the number of failed requests before it;
* `counter_exec_iff`: one request; **`accounted_iff`**: all requests of a sequence;
* `read_error_counts_twice`: a failure that counts as two, and two failures that count as one.
-/

namespace SynitWaf

open Go

/-- What `applyResponseMasking` comes to; nothing to mask is a success. -/
inductive MaskingOutcome where
  | passes
  | inspectionError
  | readError (cancelled : Bool)
  deriving DecidableEq

/-- How a request ends. An error is a cancellation if the context of the request is done or the error
says so. -/
inductive RequestOutcome where
  | transportError (cancelled : Bool)
  | response (status : ℤ) (masking : MaskingOutcome)
  deriving DecidableEq

/-- A completed request, with the instants at which its response and its error are handled. -/
structure CompletedRequest where
  clock : ℤ
  errorClock : ℤ
  outcome : RequestOutcome
  deriving DecidableEq

section Handlers

variable (breaker : CircuitBreakerConfig) (u : UpstreamServer)

/-- The circuit breaker of `ModifyResponse`. -/
def modifyResponse (status clock : ℤ) (h : UpstreamHeap) : UpstreamHeap :=
  if breaker.enabled then
    if status ∈ breaker.failureStatusCodes then
      ((recordUpstreamFailure u breaker.threshold breaker.cooldown clock).run h).2
    else recordUpstreamSuccess u h
  else recordUpstreamSuccess u h

/-- The circuit breaker of `ErrorHandler`. -/
def errorHandler (cancelled inspection : Bool) (clock : ℤ) (h : UpstreamHeap) : UpstreamHeap :=
  if breaker.enabled && !cancelled && !inspection then
    ((recordUpstreamFailure u breaker.threshold breaker.cooldown clock).run h).2
  else h

/-- One request through the upstream. The proxy hands an error of `ModifyResponse` to
`ErrorHandler`. -/
def CompletedRequest.exec (h : UpstreamHeap) (r : CompletedRequest) : UpstreamHeap :=
  match r.outcome with
  | .transportError cancelled => errorHandler breaker u cancelled false r.errorClock h
  | .response status masking =>
    let h := modifyResponse breaker u status r.clock h
    match masking with
    | .passes => h
    | .inspectionError => errorHandler breaker u false true r.errorClock h
    | .readError cancelled => errorHandler breaker u cancelled false r.errorClock h

/-- The heap behind a sequence of requests. -/
def runRequests (h : UpstreamHeap) (rs : List CompletedRequest) : UpstreamHeap :=
  rs.foldl (CompletedRequest.exec breaker u) h

end Handlers

/-! ## What should be counted -/

/-- The status is a failure, or the request ended in `ErrorHandler` with an error that is neither a
cancellation nor an inspection error. -/
def RequestOutcome.Failed (codes : List ℤ) : RequestOutcome → Prop
  | .transportError cancelled => cancelled = false
  | .response status masking => status ∈ codes ∨ masking = .readError false

instance (codes : List ℤ) : DecidablePred (RequestOutcome.Failed codes)
  | .transportError cancelled => inferInstanceAs (Decidable (cancelled = false))
  | .response status masking =>
    inferInstanceAs (Decidable (status ∈ codes ∨ masking = .readError false))

/-- The length of the longest suffix of failed requests. -/
def failedSuffix (codes : List ℤ) (rs : List CompletedRequest) : ℕ :=
  (rs.reverse.takeWhile fun r => r.outcome.Failed codes).length

/-- The counter is the number of failed requests at the end of the sequence, and as soon as there are
`threshold` of them, the last one has opened the circuit. -/
structure Accounted (breaker : CircuitBreakerConfig) (u : UpstreamServer) (h : UpstreamHeap)
    (rs : List CompletedRequest) : Prop where
  counter : ((runRequests breaker u h rs).up u.id).consecutiveFailures =
    failedSuffix breaker.failureStatusCodes rs
  opens : ∀ pre r, rs = pre ++ [r] → r.outcome.Failed breaker.failureStatusCodes →
    breaker.threshold ≤ failedSuffix breaker.failureStatusCodes rs →
    ∃ clock ∈ [r.clock, r.errorClock], ((runRequests breaker u h rs).up u.id).deadUntil =
      unix (clock + effectiveCooldown breaker.cooldown)

/-- Behind `n` failed requests, the request changes the counter by what it is. -/
def CountsOnce (codes : List ℤ) (n : ℕ) : RequestOutcome → Prop
  | .transportError cancelled => if cancelled then n = 0 else n + 1 < 2 ^ 31
  | .response status masking =>
    if status ∈ codes then masking ≠ .readError false ∧ n + 1 < 2 ^ 31
    else masking = .readError false → n = 0

instance (codes : List ℤ) (n : ℕ) : DecidablePred (CountsOnce codes n)
  | .transportError cancelled =>
    inferInstanceAs (Decidable (if cancelled then n = 0 else n + 1 < 2 ^ 31))
  | .response status masking =>
    inferInstanceAs (Decidable (if status ∈ codes then masking ≠ .readError false ∧ n + 1 < 2 ^ 31
      else masking = .readError false → n = 0))

theorem failedSuffix_snoc (codes : List ℤ) (rs : List CompletedRequest) (r : CompletedRequest) :
    failedSuffix codes (rs ++ [r]) =
      if r.outcome.Failed codes then failedSuffix codes rs + 1 else 0 := by
  unfold failedSuffix
  rw [List.reverse_append, List.reverse_singleton, List.singleton_append, List.takeWhile_cons]
  by_cases h : r.outcome.Failed codes
  · simp [h]
  · simp [h]

theorem runRequests_snoc (breaker : CircuitBreakerConfig) (u : UpstreamServer) (h : UpstreamHeap)
    (rs : List CompletedRequest) (r : CompletedRequest) :
    runRequests breaker u h (rs ++ [r]) = r.exec breaker u (runRequests breaker u h rs) :=
  List.foldl_concat ..

/-! ## One request -/

section Step

variable {breaker : CircuitBreakerConfig} {u : UpstreamServer} {h : UpstreamHeap}
  {codes : List ℤ}

/-- The counter behind a request, from the counter before it. -/
def counterAfter (codes : List ℤ) (f : ℤ) : RequestOutcome → ℤ
  | .transportError cancelled => if cancelled then f else nextFailures f
  | .response status masking =>
    if masking = .readError false then
      nextFailures (if status ∈ codes then nextFailures f else 0)
    else if status ∈ codes then nextFailures f else 0

theorem counter_record (h : UpstreamHeap) (threshold cooldown clock : ℤ) :
    (((recordUpstreamFailure u threshold cooldown clock).run h).2.up u.id).consecutiveFailures =
      nextFailures (h.up u.id).consecutiveFailures := by
  rw [recordUpstreamFailure_run, UpstreamHeap.setUp_self]

theorem counter_modifyResponse (henabled : breaker.enabled = true) (status clock : ℤ) :
    ((modifyResponse breaker u status clock h).up u.id).consecutiveFailures =
      if status ∈ breaker.failureStatusCodes then nextFailures (h.up u.id).consecutiveFailures
      else 0 := by
  rw [modifyResponse, if_pos henabled]
  split
  · exact counter_record ..
  · rw [recordUpstreamSuccess, UpstreamHeap.setUp_self]

theorem errorHandler_counted (henabled : breaker.enabled = true) (clock : ℤ) :
    errorHandler breaker u false false clock h =
      ((recordUpstreamFailure u breaker.threshold breaker.cooldown clock).run h).2 := by
  rw [errorHandler, henabled]
  rfl

theorem errorHandler_cancelled (inspection : Bool) (clock : ℤ) :
    errorHandler breaker u true inspection clock h = h := by
  simp [errorHandler]

theorem errorHandler_inspection (cancelled : Bool) (clock : ℤ) :
    errorHandler breaker u cancelled true clock h = h := by
  simp [errorHandler]

theorem counter_exec (henabled : breaker.enabled = true) (r : CompletedRequest) :
    ((r.exec breaker u h).up u.id).consecutiveFailures =
      counterAfter breaker.failureStatusCodes (h.up u.id).consecutiveFailures r.outcome := by
  obtain ⟨clock, errorClock, outcome⟩ := r
  unfold CompletedRequest.exec
  cases outcome with
  | transportError cancelled =>
    cases cancelled with
    | false =>
      dsimp only
      rw [errorHandler_counted henabled, counter_record]
      rfl
    | true =>
      dsimp only
      rw [errorHandler_cancelled]
      rfl
  | response status masking =>
    have hresponse := counter_modifyResponse (u := u) (h := h) henabled status clock
    cases masking with
    | passes => exact hresponse
    | inspectionError =>
      dsimp only
      rw [errorHandler_inspection]
      exact hresponse
    | readError cancelled =>
      cases cancelled with
      | false =>
        dsimp only
        rw [errorHandler_counted henabled, counter_record, hresponse]
        rfl
      | true =>
        dsimp only
        rw [errorHandler_cancelled]
        exact hresponse

theorem nextFailures_eq_succ {n : ℕ} : nextFailures n = n + 1 ↔ n + 1 < 2 ^ 31 := by
  constructor
  · intro heq
    have := nextFailures_lt n
    omega
  · intro hlt
    exact Int.bmod_eq_of_le (by omega) (by omega)

theorem nextFailures_twice_ne {n : ℕ} : nextFailures (nextFailures n) ≠ n + 1 := by
  intro heq
  unfold nextFailures at heq
  rw [Int.bmod_add_bmod] at heq
  have hmod := congrArg (· % ((2 ^ 32 : ℕ) : ℤ)) heq
  rw [Int.bmod_emod] at hmod
  omega

/-- **One request** keeps the counter right exactly if it counts as what it is. -/
theorem counterAfter_iff {n : ℕ} {o : RequestOutcome} :
    counterAfter codes n o = ((if o.Failed codes then n + 1 else 0 : ℕ) : ℤ) ↔
      CountsOnce codes n o := by
  cases o with
  | transportError cancelled =>
    cases cancelled with
    | false =>
      simp only [counterAfter, RequestOutcome.Failed, CountsOnce, Bool.false_eq_true, if_false, if_true,
        Nat.cast_add, Nat.cast_one]
      exact nextFailures_eq_succ
    | true => exact Int.natCast_eq_zero
  | response status masking =>
    by_cases hmasking : masking = .readError false
    · by_cases hstatus : status ∈ codes
      · simp only [counterAfter, RequestOutcome.Failed, CountsOnce, hmasking, hstatus, if_true,
          true_or, Nat.cast_add, Nat.cast_one, ne_eq, not_true, false_and, iff_false]
        exact nextFailures_twice_ne
      · have hone : nextFailures 0 = 1 := by decide
        simp [counterAfter, RequestOutcome.Failed, CountsOnce, hmasking, hstatus, hone]
    · by_cases hstatus : status ∈ codes
      · simp only [counterAfter, RequestOutcome.Failed, CountsOnce, hmasking, hstatus, if_true,
          if_false, true_or, Nat.cast_add, Nat.cast_one, ne_eq, not_false_eq_true, true_and]
        exact nextFailures_eq_succ
      · simp [counterAfter, RequestOutcome.Failed, CountsOnce, hmasking, hstatus]

theorem deadUntil_record {threshold cooldown clock : ℤ}
    (hcount : threshold ≤ nextFailures (h.up u.id).consecutiveFailures) :
    (((recordUpstreamFailure u threshold cooldown clock).run h).2.up u.id).deadUntil =
      unix (clock + effectiveCooldown cooldown) := by
  rw [recordUpstreamFailure_run, UpstreamHeap.setUp_self, if_pos hcount]

/-- A failed request that counts as one opens the circuit at the threshold. -/
theorem exec_opens (henabled : breaker.enabled = true) {n : ℕ}
    (hn : (h.up u.id).consecutiveFailures = n) {r : CompletedRequest}
    (honce : CountsOnce breaker.failureStatusCodes n r.outcome)
    (hfailed : r.outcome.Failed breaker.failureStatusCodes) (hthreshold : breaker.threshold ≤ n + 1) :
    ∃ clock ∈ [r.clock, r.errorClock], ((r.exec breaker u h).up u.id).deadUntil =
      unix (clock + effectiveCooldown breaker.cooldown) := by
  obtain ⟨clock, errorClock, outcome⟩ := r
  unfold CompletedRequest.exec
  cases outcome with
  | transportError cancelled =>
    obtain rfl : cancelled = false := hfailed
    have hcount : breaker.threshold ≤ nextFailures (h.up u.id).consecutiveFailures := by
      rw [hn, nextFailures_eq_succ.mpr honce]
      exact hthreshold
    refine ⟨errorClock, by simp, ?_⟩
    dsimp only
    rw [errorHandler_counted henabled]
    exact deadUntil_record hcount
  | response status masking =>
    by_cases hstatus : status ∈ breaker.failureStatusCodes
    · simp only [CountsOnce, hstatus, if_true] at honce
      have hcount : breaker.threshold ≤ nextFailures (h.up u.id).consecutiveFailures := by
        rw [hn, nextFailures_eq_succ.mpr honce.2]
        exact hthreshold
      have hresponse : modifyResponse breaker u status clock h =
          ((recordUpstreamFailure u breaker.threshold breaker.cooldown clock).run h).2 := by
        rw [modifyResponse, if_pos henabled, if_pos hstatus]
      refine ⟨clock, by simp, ?_⟩
      -- the error handler does not count the request again
      cases masking with
      | passes =>
        dsimp only
        rw [hresponse, deadUntil_record hcount]
      | inspectionError =>
        dsimp only
        rw [errorHandler_inspection, hresponse, deadUntil_record hcount]
      | readError cancelled =>
        cases cancelled with
        | false => exact absurd rfl honce.1
        | true =>
          dsimp only
          rw [errorHandler_cancelled, hresponse, deadUntil_record hcount]
    · obtain rfl : masking = .readError false := hfailed.resolve_left hstatus
      simp only [CountsOnce, hstatus, if_false, true_implies] at honce
      have hzero : ((modifyResponse breaker u status clock h).up u.id).consecutiveFailures = 0 := by
        rw [counter_modifyResponse henabled, if_neg hstatus]
      refine ⟨errorClock, by simp, ?_⟩
      dsimp only
      rw [errorHandler_counted henabled]
      refine deadUntil_record ?_
      rw [hzero, show nextFailures 0 = 1 by decide]
      omega

end Step

/-! ## Sequences -/

section Sequence

variable {breaker : CircuitBreakerConfig} {u : UpstreamServer} {h : UpstreamHeap}

/-- **Failure accounting.** From a fresh counter, it is right behind every request of a sequence
exactly if every request counts as one: no body that breaks off behind a failure status; a body that
breaks off behind another status, or a cancelled request, only if the request before it did not fail;
and fewer than `2 ^ 31` failures in a row. -/
theorem accounted_iff (henabled : breaker.enabled = true)
    (hfresh : (h.up u.id).consecutiveFailures = 0) (rs : List CompletedRequest) :
    (∀ pre, pre <+: rs → Accounted breaker u h pre) ↔
      ∀ pre r post, rs = pre ++ r :: post →
        CountsOnce breaker.failureStatusCodes (failedSuffix breaker.failureStatusCodes pre)
          r.outcome := by
  -- one request behind a prefix with a right counter
  have hstep : ∀ pre r, Accounted breaker u h pre →
      (((runRequests breaker u h (pre ++ [r])).up u.id).consecutiveFailures =
          failedSuffix breaker.failureStatusCodes (pre ++ [r]) ↔
        CountsOnce breaker.failureStatusCodes (failedSuffix breaker.failureStatusCodes pre)
          r.outcome) := by
    intro pre r hpre
    rw [runRequests_snoc, counter_exec henabled, hpre.counter, failedSuffix_snoc]
    exact counterAfter_iff
  constructor
  · rintro hall pre r post rfl
    have hpre := hall pre (List.prefix_append _ _)
    have hnext := hall (pre ++ [r]) (by simp)
    exact (hstep pre r hpre).mp hnext.counter
  · intro hall pre hprefix
    induction pre using List.reverseRecOn with
    | nil => exact ⟨hfresh, fun pre r hnil => by simp at hnil⟩
    | append_singleton pre r ih =>
      have hpre := ih ((List.prefix_append pre [r]).trans hprefix)
      obtain ⟨post, hpost⟩ := hprefix
      have honce := hall pre r post (by simpa using hpost.symm)
      refine ⟨(hstep pre r hpre).mpr honce, fun pre' r' hsplit hfailed hthreshold => ?_⟩
      obtain ⟨rfl, hr⟩ := List.append_inj' hsplit rfl
      obtain rfl := List.singleton_inj.mp hr
      rw [failedSuffix_snoc, if_pos hfailed] at hthreshold
      rw [runRequests_snoc]
      exact exec_opens henabled hpre.counter honce hfailed (by omega)

end Sequence

/-- Two failures open the circuit; 503 is a failure. -/
def pairBreaker : CircuitBreakerConfig := ⟨true, 2, 0, [503]⟩

/-- A fresh heap. -/
def freshHeap : UpstreamHeap := ⟨fun _ => 0, fun _ => ⟨true, 0, 0⟩⟩

/-- A failure status and a transport error behind it open the circuit. -/
theorem accounted_iff_pair :
    Accounted pairBreaker ⟨0, []⟩ freshHeap
      [⟨0, 0, .response 503 .passes⟩, ⟨1, 1, .transportError false⟩] := by
  refine (accounted_iff rfl rfl _).mpr ?_ _ List.prefix_rfl
  intro pre r post hsplit
  rcases pre with _ | ⟨first, _ | ⟨second, pre⟩⟩
  · obtain ⟨rfl, -⟩ := List.cons.inj hsplit
    decide
  · obtain ⟨rfl, hrest⟩ := List.cons.inj hsplit
    obtain ⟨rfl, -⟩ := List.cons.inj hrest
    decide
  · simp at hsplit

/-- **Counted twice, and not at all.** A 503 whose body breaks off counts as two failures; two
responses with status 200 whose bodies break off count as one; a cancelled request leaves the failure
before it in the counter. -/
theorem read_error_counts_twice :
    ((runRequests pairBreaker ⟨0, []⟩ freshHeap
      [⟨0, 0, .response 503 (.readError false)⟩]).up 0).consecutiveFailures = 2 ∧
    failedSuffix pairBreaker.failureStatusCodes [⟨0, 0, .response 503 (.readError false)⟩] = 1 ∧
    ((runRequests pairBreaker ⟨0, []⟩ freshHeap [⟨0, 0, .response 200 (.readError false)⟩,
      ⟨1, 1, .response 200 (.readError false)⟩]).up 0).consecutiveFailures = 1 ∧
    failedSuffix pairBreaker.failureStatusCodes [⟨0, 0, .response 200 (.readError false)⟩,
      ⟨1, 1, .response 200 (.readError false)⟩] = 2 ∧
    ((runRequests pairBreaker ⟨0, []⟩ freshHeap [⟨0, 0, .transportError false⟩,
      ⟨1, 1, .transportError true⟩]).up 0).consecutiveFailures = 1 ∧
    failedSuffix pairBreaker.failureStatusCodes [⟨0, 0, .transportError false⟩,
      ⟨1, 1, .transportError true⟩] = 0 := by
  decide

end SynitWaf
