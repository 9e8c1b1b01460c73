import SynitWaf.Receiver.Store

/-!
# The throttle of failed authentications

A request of a blocked client is answered with 429. The check comes first, under a lock of its own,
and a failure is recorded under the lock again, when the token has been compared.

* `handleLogs_path`: where the check and the record stand in a request; `throttle_step`: what a step
  of a run is to the throttle;
* `guesses`: the failing requests that have passed the check; `failureWindow`: the window they are in;
* `ThrottleInv`: what the throttle knows of them;
* `Throttled`, `ChecksAlone`; **`throttled_of_alone`**: if no request is checked between the check
  and the record of another one, the failures of a window are bounded;
* `concurrent_guesses`: otherwise they are not.
-/

namespace SynitWaf

open Atomic Go

/-! ## Requests -/

section Call

variable (lib : ReceiverLib) (lr : LogReceiver) (c : LogCall)

/-- The client of a request. -/
def LogCall.clientIP : GoString := remoteIP c.request

/-- The authentication of the request fails: it has no token, or one that is compared in vain. -/
def LogCall.unauthorized : Bool :=
  !hasPrefix (c.request.header.get (str "Authorization")) (str "Bearer ") || c.tenantID lib lr = []

/-- The answer to a blocked client. -/
def tooManyRequests : LogReply := .error 429 (str "Too Many Requests")

/-- The operation is the check of this client. -/
def ReceiverOp.checks (ip : GoString) : ReceiverOp → Bool
  | .blocked client _ => client = ip
  | _ => false

/-- The operation records a failure of this client. -/
def ReceiverOp.records (ip : GoString) : ReceiverOp → Bool
  | .recordFailure client _ => client = ip
  | _ => false

/-- The operation is none on the throttle. -/
def ReceiverOp.Unthrottled (o : ReceiverOp) : Prop := ∀ ip, o.checks ip = false ∧ o.records ip = false

variable {lib lr c}

/-- What a request has done after its check. -/
def LogCall.AfterCheck (lib : ReceiverLib) (lr : LogReceiver) (c : LogCall) (s : ReceiverState)
    (t : Steps (receiverSig lib.evictOrder)) (q : Prog (receiverSig lib.evictOrder) LogReply) : Prop :=
  if (blocked s.authFailures c.clientIP c.now).1 then t = [] ∧ q = .ret tooManyRequests
  else if c.unauthorized lib lr then t = [] ∨ ∃ s', t = [(.recordFailure c.clientIP c.now, s')]
  else ∀ e ∈ t, e.1.Unthrottled

theorem LogCall.AfterCheck.checks_eq_false {s : ReceiverState}
    {t : Steps (receiverSig lib.evictOrder)} {q : Prog (receiverSig lib.evictOrder) LogReply}
    (h : c.AfterCheck lib lr s t q) : ∀ e ∈ t, ∀ ip, e.1.checks ip = false := by
  unfold LogCall.AfterCheck at h
  split at h
  · rw [h.1]
    exact nofun
  split at h
  · obtain rfl | ⟨s', rfl⟩ := h
    · exact nofun
    · intro e he ip
      rw [List.mem_singleton.mp he]
      rfl
  · exact fun e he ip => (h e he ip).1

theorem readLogs_unthrottled (tenantID mediaType : GoString) :
    (readLogs lib lr c tenantID mediaType).Ensures (fun _ => True)
      (fun (o : ReceiverOp) _ => o.Unthrottled) (fun _ => True) := by
  intro s _
  refine ⟨fun _ => ⟨rfl, rfl⟩, ?_⟩
  dsimp only
  split
  · trivial
  split
  · trivial
  · trivial
  split <;> trivial

theorem unthrottled_path {order : KeyOrder} {t : Steps (receiverSig order)}
    {p q : Prog (receiverSig order) LogReply} (h : Path p t q)
    (hp : p.Ensures (fun _ => True) (fun (o : ReceiverOp) _ => o.Unthrottled) (fun _ => True)) :
    ∀ e ∈ t, e.1.Unthrottled := (hp.path h fun _ _ => trivial).2

theorem record_path {order : KeyOrder} {ip : GoString} {now : ℤ} {t : Steps (receiverSig order)}
    {q : Prog (receiverSig order) LogReply} {reply : LogReply}
    (h : Path (Prog.act (S := receiverSig order) (.recordFailure ip now) fun _ => .ret reply) t q) :
    t = [] ∨ ∃ s, t = [(.recordFailure ip now, s)] := by
  obtain ⟨rfl, -⟩ | ⟨s, t, rfl, hk⟩ := h.act_inv
  · exact .inl rfl
  · obtain ⟨rfl, -⟩ := hk.ret_inv
    exact .inr ⟨s, rfl⟩

/-- **The check comes first**, and a request that is not authorized goes on to record its failure. -/
theorem handleLogs_path {t : Steps (receiverSig lib.evictOrder)}
    {q : Prog (receiverSig lib.evictOrder) LogReply} (h : Path (handleLogs lib lr c) t q) :
    t = [] ∨ ∃ s t', t = (.blocked c.clientIP c.now, s) :: t' ∧ c.AfterCheck lib lr s t' q := by
  unfold handleLogs acceptLogs at h
  split at h
  · exact .inl h.ret_inv.1
  obtain ⟨rfl, -⟩ | ⟨s, t', rfl, hk⟩ := h.act_inv
  · exact .inl rfl
  refine .inr ⟨s, t', rfl, ?_⟩
  unfold LogCall.AfterCheck
  change Path ((if (blocked s.authFailures c.clientIP c.now).1 then _ else _) >>= _) t' q at hk
  split
  next hb =>
    rw [if_pos hb] at hk
    exact hk.ret_inv
  next hb =>
    rw [if_neg hb] at hk
    split
    next hu =>
      -- both kinds of failure are recorded in the same way
      simp only [LogCall.unauthorized, Bool.or_eq_true, decide_eq_true_eq] at hu
      split at hk
      · exact record_path hk
      next hbearer =>
      rw [if_pos (hu.resolve_left hbearer)] at hk
      exact record_path hk
    next hu =>
      simp only [LogCall.unauthorized, Bool.or_eq_true, decide_eq_true_eq, not_or] at hu
      rw [if_neg hu.1, if_neg hu.2] at hk
      refine unthrottled_path hk ?_
      refine Prog.Triple.bind (Q := fun _ => True) ?_ fun res _ => ?_
      · split
        · trivial
        split
        · trivial
        split
        · trivial
        · exact readLogs_unthrottled _ _
      · cases res with
        | error reply => trivial
        | ok accepted => exact fun _ _ => ⟨fun _ => ⟨rfl, rfl⟩, trivial⟩

end Call

/-! ## The throttle -/

/-- The window of a client after a further failure. -/
def extendWindow : Option AuthFailures → ℤ → AuthFailures
  | some w, now => if w.expired now then ⟨now, 1⟩ else { w with count := w.count + 1 }
  | none, now => ⟨now, 1⟩

/-- The window that failures at these times end in, with their number in it. -/
def failureWindow (times : List ℤ) : Option AuthFailures :=
  times.foldl (fun w now => some (extendWindow w now)) none

theorem failureWindow_snoc (times : List ℤ) (now : ℤ) :
    failureWindow (times ++ [now]) = some (extendWindow (failureWindow times) now) := by
  simp [failureWindow]

/-- A window that has not ended. -/
def live (now : ℤ) (w : Option AuthFailures) : Option AuthFailures := w.filter fun w => !w.expired now

theorem live_eq_some {now : ℤ} {x : Option AuthFailures} {w : AuthFailures} :
    live now x = some w ↔ x = some w ∧ w.expired now = false := by
  simp [live, Option.filter_eq_some_iff]

theorem live_live {now later : ℤ} (h : now ≤ later) (x : Option AuthFailures) :
    live later (live now x) = live later x := by
  ext w
  simp only [live_eq_some, and_assoc]
  refine and_congr_right fun _ => and_iff_right_of_imp fun hw => ?_
  simp only [AuthFailures.expired, decide_eq_false_iff_not] at hw ⊢
  omega

theorem extendWindow_live (now : ℤ) (x : Option AuthFailures) :
    extendWindow (live now x) now = extendWindow x now := by
  cases x with
  | none => rfl
  | some w => cases hw : w.expired now <;> simp [live, extendWindow, hw, Option.filter]

section Limiter

variable {order : KeyOrder} {clients : GoMap AuthFailures} {ip other : GoString} {now : ℤ}

theorem blocked_iff : (blocked clients ip now).1 = true ↔
    ∃ w, live now (clients.lookup ip) = some w ∧ maxAuthFailures ≤ w.count := by
  unfold blocked
  cases clients.lookup ip with
  | none => simp [live]
  | some w => cases hw : w.expired now <;> simp [live, hw, Option.filter]

theorem blocked_lookup :
    (blocked clients ip now).2.lookup ip = live now (clients.lookup ip) := by
  unfold blocked
  cases hip : clients.lookup ip with
  | none => simpa [live] using hip
  | some w => cases hw : w.expired now <;> simp [live, hw, hip, Option.filter]

theorem blocked_lookup_ne (h : other ≠ ip) :
    (blocked clients ip now).2.lookup other = clients.lookup other := by
  unfold blocked
  cases clients.lookup ip with
  | none => rfl
  | some w => cases hw : w.expired now <;> simp [hw, AList.lookup_erase_ne h]

theorem mem_keys_of_blocked {k : GoString} (h : k ∈ (blocked clients ip now).2.keys) :
    k ∈ clients.keys := by
  unfold blocked at h
  split at h
  · exact h
  split at h
  · exact (AList.mem_erase.mp h).2
  · exact h

/-- A failure of a client that is not blocked is within the bound. -/
theorem extendWindow_count_le {x : Option AuthFailures}
    (h : ¬ ∃ w, live now x = some w ∧ maxAuthFailures ≤ w.count) :
    (extendWindow x now).count ≤ maxAuthFailures := by
  rw [← extendWindow_live]
  cases hw : live now x with
  | none =>
    change (1 : ℤ) ≤ 10
    decide
  | some w =>
    have hlt : ¬ maxAuthFailures ≤ w.count := fun hle => h ⟨w, hw, hle⟩
    simp only [extendWindow, (live_eq_some.mp hw).2, Bool.false_eq_true, if_false]
    omega

theorem lookup_extendWindow {x y : Option AuthFailures} (h : live now x = live now y) :
    extendWindow x now = extendWindow y now := by
  rw [← extendWindow_live, h, extendWindow_live]

/-- While there is room for the client, a failure extends its window and leaves the others alone. -/
theorem recordFailure_eq
    (h : clients.lookup ip = none → GoMap.len clients < maxAuthFailureClients) :
    recordFailure order clients ip now =
      clients.insert ip (extendWindow (clients.lookup ip) now) := by
  unfold recordFailure
  cases hip : clients.lookup ip with
  | none => simp [extendWindow, Nat.not_le.mpr (h hip)]
  | some w => cases hw : w.expired now <;> simp [extendWindow, hw]

theorem len_lt_of_known {known : List GoString} (hknown : ∀ k ∈ clients.keys, k ∈ known)
    (hip : ip ∈ known) (hnew : clients.lookup ip = none) : GoMap.len clients < known.length := by
  have hnodup : (ip :: clients.keys).Nodup :=
    List.nodup_cons.mpr ⟨AList.lookup_eq_none.mp hnew, clients.keys_nodup⟩
  have hsub : ip :: clients.keys ⊆ known := List.cons_subset.mpr ⟨hip, hknown⟩
  exact (List.subperm_of_subset hnodup hsub).length_le

end Limiter

/-! ## Runs -/

section Runs

variable {ι : Type} (lib : ReceiverLib) (lr : LogReceiver) (calls : ι → LogCall) (ip : GoString)

/-- The step is the check of a request of the client that passes it and fails. -/
def isGuess (e : ι × ReceiverOp × ReceiverState) : Bool :=
  e.2.1.checks ip && !(blocked e.2.2.authFailures ip (calls e.1).now).1 &&
    (calls e.1).unauthorized lib lr

/-- The times of the requests of the client that have passed the check and fail. -/
def guesses (t : Trace (receiverSig lib.evictOrder) ι) : List ℤ :=
  (t.filter (isGuess lib lr calls ip)).map fun e => (calls e.1).now

/-- The times of the failures that are recorded. -/
def recorded (t : Trace (receiverSig lib.evictOrder) ι) : List ℤ :=
  (t.filter fun e => e.2.1.records ip).map fun e => (calls e.1).now

/-- **What a step is to the throttle**: a check, which is the first step of its request, the record of
a failure behind it, or nothing. -/
theorem throttle_step [DecidableEq ι] {sched : List ι} {t : Trace (receiverSig lib.evictOrder) ι} {j : ι}
    {o : ReceiverOp} {s : ReceiverState}
    (h : (receive lib lr calls sched).trace = t ++ [(j, o, s)]) :
    (own j t = [] ∧ o = .blocked (calls j).clientIP (calls j).now) ∨
    (∃ s₀, own j t = [(.blocked (calls j).clientIP (calls j).now, s₀)] ∧
      (blocked s₀.authFailures (calls j).clientIP (calls j).now).1 = false ∧
      (calls j).unauthorized lib lr = true ∧
      o = .recordFailure (calls j).clientIP (calls j).now) ∨
    o.Unthrottled := by
  have hpath := path_own (fun i => handleLogs lib lr (calls i)) .start sched j
  change Path _ (own j (receive lib lr calls sched).trace) _ at hpath
  rw [h, own_append, own_cons_self, own_nil] at hpath
  obtain hnil | ⟨s₀, t', ht', hafter⟩ := handleLogs_path hpath
  · simp at hnil
  cases hown : own j t with
  | nil =>
    rw [hown] at ht'
    cases ht'
    exact .inl ⟨rfl, rfl⟩
  | cons e₀ rest =>
    rw [hown, List.cons_append, List.cons_eq_cons] at ht'
    obtain ⟨rfl, rfl⟩ := ht'
    unfold LogCall.AfterCheck at hafter
    split at hafter
    · simp at hafter
    next hb =>
    split at hafter
    next hu =>
      obtain hnil | ⟨s', hs'⟩ := hafter
      · simp at hnil
      · obtain ⟨rfl, hlast⟩ := List.append_inj' (show rest ++ [(o, s)] = [] ++ [_] from hs') rfl
        cases hlast
        exact .inr (.inl ⟨s₀, rfl, by simpa using hb, hu, rfl⟩)
    next => exact .inr (.inr (hafter (o, s) (by simp)))

/-- What the throttle knows: all failures but that of the request `pending`, which has passed the check
and will be the next one to record its failure. -/
structure LimiterInv (others : List GoString) (t : Trace (receiverSig lib.evictOrder) ι)
    (s : ReceiverState) (pending : Option ι) : Prop where
  known : ∀ k ∈ s.authFailures.keys, k ∈ ip :: others
  times : guesses lib lr calls ip t =
    recorded lib calls ip t ++ (pending.map fun j => (calls j).now).toList
  settled : ∀ x ∈ t, isGuess lib lr calls ip x = true →
    (∃ y ∈ t, y.1 = x.1 ∧ y.2.1.records ip = true) ∨ pending = some x.1
  unsettled : ∀ j, pending = some j →
    (∃ x ∈ t, x.1 = j ∧ isGuess lib lr calls ip x = true) ∧
    (∀ y ∈ t, y.1 = j → y.2.1.records ip = false) ∧
    ∀ x ∈ t, x.2.1.checks ip = true → (calls x.1).now ≤ (calls j).now
  entry : ∀ now, (∀ x ∈ t, x.2.1.checks ip = true → (calls x.1).now ≤ now) →
    live now (s.authFailures.lookup ip) = live now (failureWindow (recorded lib calls ip t))
  bounded : ∀ w, failureWindow (guesses lib lr calls ip t) = some w → w.count ≤ maxAuthFailures

/-- A request of the client is checked when the failures of all requests before it are recorded, and
its clock is not behind theirs. -/
def ChecksAlone (t : Trace (receiverSig lib.evictOrder) ι)
    (e : ι × ReceiverOp × ReceiverState) : Prop :=
  e.2.1.checks ip = true → ∀ x ∈ t,
    (x.2.1.checks ip = true → (calls x.1).now ≤ (calls e.1).now) ∧
    (isGuess lib lr calls ip x = true → ∃ y ∈ t, y.1 = x.1 ∧ y.2.1.records ip = true)

instance [DecidableEq ι] (t : Trace (receiverSig lib.evictOrder) ι)
    (e : ι × ReceiverOp × ReceiverState) : Decidable (ChecksAlone lib lr calls ip t e) :=
  inferInstanceAs (Decidable (e.2.1.checks ip = true → ∀ x ∈ t,
    (x.2.1.checks ip = true → (calls x.1).now ≤ (calls e.1).now) ∧
    (isGuess lib lr calls ip x = true → ∃ y ∈ t, y.1 = x.1 ∧ y.2.1.records ip = true)))

variable {lib lr calls ip} {others : List GoString} {t : Trace (receiverSig lib.evictOrder) ι}
  {s : ReceiverState} {pending : Option ι} {j : ι} {o : ReceiverOp}

theorem isGuess_checks {e : ι × ReceiverOp × ReceiverState} (h : isGuess lib lr calls ip e = true) :
    e.2.1.checks ip = true := by
  simp only [isGuess, Bool.and_eq_true] at h
  exact h.1.1

theorem guesses_snoc (e : ι × ReceiverOp × ReceiverState) :
    guesses lib lr calls ip (t ++ [e]) =
      guesses lib lr calls ip t ++ if isGuess lib lr calls ip e then [(calls e.1).now] else [] := by
  cases he : isGuess lib lr calls ip e <;> simp [guesses, he]

theorem recorded_snoc (e : ι × ReceiverOp × ReceiverState) :
    recorded lib calls ip (t ++ [e]) =
      recorded lib calls ip t ++ if e.2.1.records ip then [(calls e.1).now] else [] := by
  cases he : e.2.1.records ip <;> simp [recorded, he]

/-- Other steps change nothing for the client. -/
theorem LimiterInv.other (h : LimiterInv lib lr calls ip others t s pending)
    (hcheck : o.checks ip = false) (hrecord : o.records ip = false) {s' : ReceiverState}
    (hknown : ∀ k ∈ s'.authFailures.keys, k ∈ ip :: others)
    (hlookup : s'.authFailures.lookup ip = s.authFailures.lookup ip) :
    LimiterInv lib lr calls ip others (t ++ [(j, o, s)]) s' pending := by
  have hguess : isGuess lib lr calls ip (j, o, s) = false := by simp [isGuess, hcheck]
  have hg : guesses lib lr calls ip (t ++ [(j, o, s)]) = guesses lib lr calls ip t := by
    simp [guesses_snoc, hguess]
  have hr : recorded lib calls ip (t ++ [(j, o, s)]) = recorded lib calls ip t := by
    simp [recorded_snoc, hrecord]
  refine ⟨hknown, by rw [hg, hr]; exact h.times, ?_, ?_, ?_, by rw [hg]; exact h.bounded⟩
  · intro x hx hxg
    rcases List.mem_append.mp hx with hx | hx
    · refine (h.settled x hx hxg).imp_left ?_
      rintro ⟨y, hy, hyx⟩
      exact ⟨y, List.mem_append_left _ hy, hyx⟩
    · rw [List.mem_singleton.mp hx, hguess] at hxg
      cases hxg
  · intro i hi
    obtain ⟨⟨x, hx, hxi⟩, hnone, hle⟩ := h.unsettled i hi
    refine ⟨⟨x, List.mem_append_left _ hx, hxi⟩, ?_, ?_⟩
    · intro y hy hyi
      rcases List.mem_append.mp hy with hy | hy
      · exact hnone y hy hyi
      · rw [List.mem_singleton.mp hy]
        exact hrecord
    · intro x hx hxc
      rcases List.mem_append.mp hx with hx | hx
      · exact hle x hx hxc
      · rw [List.mem_singleton.mp hx, hcheck] at hxc
        cases hxc
  · intro now hnow
    rw [hlookup, hr]
    exact h.entry now fun x hx => hnow x (List.mem_append_left _ hx)

/-- When a request is checked, no failure is pending. -/
theorem LimiterInv.pending_eq_none (h : LimiterInv lib lr calls ip others t s pending)
    (halone : ∀ x ∈ t, isGuess lib lr calls ip x = true →
      ∃ y ∈ t, y.1 = x.1 ∧ y.2.1.records ip = true) : pending = none := by
  cases hp : pending with
  | none => rfl
  | some i =>
    obtain ⟨⟨x, hx, rfl, hxg⟩, hnone, -⟩ := h.unsettled i hp
    obtain ⟨y, hy, hyx, hyr⟩ := halone x hx hxg
    rw [hnone y hy hyx] at hyr
    cases hyr

/-- What the check answers, by the failures so far. -/
theorem LimiterInv.blocked_iff_window (h : LimiterInv lib lr calls ip others t s none)
    (hle : ∀ x ∈ t, x.2.1.checks ip = true → (calls x.1).now ≤ (calls j).now) :
    (blocked s.authFailures ip (calls j).now).1 = true ↔
      ∃ w, live (calls j).now (failureWindow (guesses lib lr calls ip t)) = some w ∧
        maxAuthFailures ≤ w.count := by
  have htimes : guesses lib lr calls ip t = recorded lib calls ip t := by simpa using h.times
  rw [blocked_iff, h.entry _ hle, htimes]

/-- **A check** that passes leaves room for one more failure. -/
theorem LimiterInv.check (h : LimiterInv lib lr calls ip others t s pending)
    (halone : ChecksAlone lib lr calls ip t (j, .blocked ip (calls j).now, s))
    (hown : ∀ y ∈ t, y.1 ≠ j) :
    ∃ pending', LimiterInv lib lr calls ip others (t ++ [(j, .blocked ip (calls j).now, s)])
      { s with authFailures := (blocked s.authFailures ip (calls j).now).2 } pending' := by
  have hcheck : (ReceiverOp.blocked ip (calls j).now).checks ip = true := by simp [ReceiverOp.checks]
  have hle := fun x hx => (halone hcheck x hx).1
  obtain rfl := h.pending_eq_none fun x hx => (halone hcheck x hx).2
  have htimes : guesses lib lr calls ip t = recorded lib calls ip t := by simpa using h.times
  set e : ι × ReceiverOp × ReceiverState := (j, .blocked ip (calls j).now, s)
  have hr : recorded lib calls ip (t ++ [e]) = recorded lib calls ip t := by
    simp [recorded_snoc, e, ReceiverOp.records]
  have hmem : ∀ x ∈ t ++ [e], x ∈ t ∨ x = e := fun x hx => by simpa using hx
  refine ⟨if isGuess lib lr calls ip e then some j else none, ?_, ?_, ?_, ?_, ?_, ?_⟩
  · exact fun k hk => h.known k (mem_keys_of_blocked hk)
  · rw [guesses_snoc, hr, htimes]
    split <;> rfl
  · intro x hx hxg
    obtain hx | rfl := hmem x hx
    · obtain ⟨y, hy, hyx⟩ := (halone hcheck x hx).2 hxg
      exact .inl ⟨y, List.mem_append_left _ hy, hyx⟩
    · rw [if_pos hxg]
      exact .inr rfl
  · intro i hi
    split at hi
    next hguess =>
      cases hi
      refine ⟨⟨e, by simp, rfl, hguess⟩, fun y hy hyj => ?_, fun x hx hxc => ?_⟩
      · obtain hy | rfl := hmem y hy
        · exact absurd hyj (hown y hy)
        · rfl
      · obtain hx | rfl := hmem x hx
        · exact hle x hx hxc
        · exact le_rfl
    next => cases hi
  · intro now hnow
    have hnow_le : (calls j).now ≤ now := hnow e (by simp) hcheck
    rw [hr, ← h.entry now fun x hx => hnow x (List.mem_append_left _ hx)]
    exact (congrArg (live now) blocked_lookup).trans (live_live hnow_le _)
  · intro w hw
    rw [guesses_snoc] at hw
    split at hw
    next hguess =>
      have hpass : (blocked s.authFailures ip (calls j).now).1 = false := by
        simp only [isGuess, Bool.and_eq_true, Bool.not_eq_true'] at hguess
        exact hguess.1.2
      rw [failureWindow_snoc] at hw
      cases hw
      refine extendWindow_count_le ?_
      rw [← h.blocked_iff_window hle, hpass]
      exact Bool.false_ne_true
    next =>
      rw [List.append_nil] at hw
      exact h.bounded w hw

theorem LimiterInv.room {k : GoString} (h : LimiterInv lib lr calls ip others t s pending)
    (hlen : others.length < maxAuthFailureClients) (hk : k ∈ ip :: others)
    (hnew : s.authFailures.lookup k = none) :
    GoMap.len s.authFailures < maxAuthFailureClients := by
  have hlt := len_lt_of_known h.known hk hnew
  rw [List.length_cons] at hlt
  omega

theorem LimiterInv.known_insert {k : GoString} (h : LimiterInv lib lr calls ip others t s pending)
    (hk : k ∈ ip :: others) (w : AuthFailures) :
    ∀ k' ∈ (s.authFailures.insert k w).keys, k' ∈ ip :: others := by
  intro k' hk'
  obtain rfl | hk' := (AList.mem_insert _).mp (AList.mem_keys.mpr hk')
  · exact hk
  · exact h.known k' hk'

/-- **A record** settles the failure that is pending. -/
theorem LimiterInv.record (h : LimiterInv lib lr calls ip others t s pending)
    (hlen : others.length < maxAuthFailureClients) {order : KeyOrder}
    {x : ι × ReceiverOp × ReceiverState} (hx : x ∈ t) (hxg : isGuess lib lr calls ip x = true)
    (hxn : ∀ y ∈ t, y.1 = x.1 → y.2.1.records ip = false) :
    LimiterInv lib lr calls ip others (t ++ [(x.1, .recordFailure ip (calls x.1).now, s)])
      { s with authFailures := recordFailure order s.authFailures ip (calls x.1).now } none := by
  have hpending : pending = some x.1 := by
    refine (h.settled x hx hxg).resolve_left ?_
    rintro ⟨y, hy, hyx, hyr⟩
    rw [hxn y hy hyx] at hyr
    cases hyr
  obtain ⟨-, -, hle⟩ := h.unsettled x.1 hpending
  set e : ι × ReceiverOp × ReceiverState := (x.1, .recordFailure ip (calls x.1).now, s)
  have he : e.2.1.records ip = true := by simp [e, ReceiverOp.records]
  have hg : guesses lib lr calls ip (t ++ [e]) = guesses lib lr calls ip t := by
    simp [guesses_snoc, isGuess, e, ReceiverOp.checks]
  have hr : recorded lib calls ip (t ++ [e]) = recorded lib calls ip t ++ [(calls x.1).now] := by
    rw [recorded_snoc, if_pos he]
  have heq := @recordFailure_eq order s.authFailures ip (calls x.1).now
    (h.room hlen List.mem_cons_self)
  refine ⟨?_, ?_, ?_, nofun, ?_, by rw [hg]; exact h.bounded⟩
  · rw [heq]
    exact h.known_insert List.mem_cons_self _
  · rw [hg, hr, h.times, hpending]
    simp
  · intro z hz hzg
    rcases List.mem_append.mp hz with hz | hz
    · obtain ⟨y, hy, hyz⟩ | hz := h.settled z hz hzg
      · exact .inl ⟨y, List.mem_append_left _ hy, hyz⟩
      · rw [hpending] at hz
        exact .inl ⟨e, by simp, Option.some.inj hz, he⟩
    · rw [List.mem_singleton.mp hz] at hzg
      exact absurd (isGuess_checks hzg) (by simp [e, ReceiverOp.checks])
  · intro now _
    rw [hr, failureWindow_snoc, heq, AList.lookup_insert, lookup_extendWindow (h.entry _ hle)]

theorem ReceiverOp.Unthrottled.authFailures {o : ReceiverOp} (h : o.Unthrottled) (order : KeyOrder)
    (s : ReceiverState) : (o.exec order s).2.authFailures = s.authFailures := by
  cases o with
  | blocked client now => simpa [ReceiverOp.checks] using (h client).1
  | recordFailure client now => simpa [ReceiverOp.records] using (h client).2
  | _ => rfl

section

variable [DecidableEq ι] {sched : List ι} (hlen : others.length < maxAuthFailureClients)
  (hothers : ∀ i, (calls i).clientIP ≠ ip → (calls i).unauthorized lib lr = true →
    (calls i).clientIP ∈ others)

include hlen hothers

/-- **What the throttle knows after a step.** -/
theorem LimiterInv.step {t : Trace (receiverSig lib.evictOrder) ι}
    (h : LimiterInv lib lr calls ip others t s pending)
    (htrace : (receive lib lr calls sched).trace = t ++ [(j, o, s)])
    (halone : ChecksAlone lib lr calls ip t (j, o, s)) :
    ∃ pending', LimiterInv lib lr calls ip others (t ++ [(j, o, s)]) (o.exec lib.evictOrder s).2
      pending' := by
  obtain ⟨hown, rfl⟩ | ⟨s₀, hown, hpass, hfails, rfl⟩ | ho := throttle_step lib lr calls htrace
  · by_cases hip : (calls j).clientIP = ip
    · subst hip
      refine h.check halone fun y hy hyj => ?_
      have hmem : y.2 ∈ own j t := mem_own.mpr (hyj ▸ hy)
      rw [hown] at hmem
      cases hmem
    · refine ⟨pending, h.other (by simpa [ReceiverOp.checks] using hip) rfl
        (fun k hk => h.known k (mem_keys_of_blocked hk)) (blocked_lookup_ne (Ne.symm hip))⟩
  · by_cases hip : (calls j).clientIP = ip
    · subst hip
      have hx : (j, .blocked (calls j).clientIP (calls j).now, s₀) ∈ t :=
        mem_own.mp (hown ▸ List.mem_singleton_self _)
      refine ⟨none, h.record hlen hx ?_ fun y hy (hyj : y.1 = j) => ?_⟩
      · simp [isGuess, ReceiverOp.checks, hpass, hfails]
      · have hmem : y.2 ∈ own j t := mem_own.mpr (hyj ▸ hy)
        rw [hown, List.mem_singleton] at hmem
        rw [hmem]
        rfl
    · have hk : (calls j).clientIP ∈ ip :: others := List.mem_cons_of_mem _ (hothers j hip hfails)
      have heq := @recordFailure_eq lib.evictOrder s.authFailures _ (calls j).now (h.room hlen hk)
      refine ⟨pending, h.other rfl (by simpa [ReceiverOp.records] using hip) ?_ ?_⟩
      · exact fun k hk' => h.known_insert hk _ k ((congrArg (k ∈ AList.keys ·) heq).mp hk')
      · exact (congrArg (AList.lookup ip) heq).trans (AList.lookup_insert_ne (Ne.symm hip))
  · have heq := ho.authFailures lib.evictOrder s
    refine ⟨pending, h.other (ho ip).1 (ho ip).2 ?_ (congrArg (AList.lookup ip) heq)⟩
    rw [heq]
    exact h.known

/-- **What the throttle knows in a run.** -/
theorem limiterInv_run
    (halone : AtSteps (ChecksAlone lib lr calls ip) (receive lib lr calls sched).trace) :
    ∃ pending, LimiterInv lib lr calls ip others (receive lib lr calls sched).trace
      (receive lib lr calls sched).mem pending := by
  induction sched using List.reverseRecOn with
  | nil => exact ⟨none, nofun, rfl, nofun, nofun, fun _ _ => rfl, nofun⟩
  | append_singleton sched j ih =>
    have hrun : receive lib lr calls (sched ++ [j]) = (receive lib lr calls sched).step j := by
      simp [receive, Pool.runs]
    obtain hstep | ⟨o, k, -, -, hstep⟩ := (receive lib lr calls sched).step_cases j
    · rw [hrun, hstep] at halone ⊢
      exact ih halone
    · have htrace : (receive lib lr calls (sched ++ [j])).trace =
          (receive lib lr calls sched).trace ++ [(j, o, (receive lib lr calls sched).mem)] := by
        rw [hrun, hstep]
      rw [htrace, atSteps_snoc] at halone
      obtain ⟨pending, h⟩ := ih halone.1
      obtain ⟨pending', h'⟩ := h.step hlen hothers htrace halone.2
      refine ⟨pending', ?_⟩
      rw [htrace, hrun, hstep]
      exact h'

end

/-! ## The bound -/

variable (lib lr calls ip)

/-- In every window of the client at most `maxAuthFailures` requests pass the check and fail, and after
that many every further request of the window is answered with 429. -/
def Throttled [DecidableEq ι] (sched : List ι) : Prop :=
  (∀ t₁ t₂, (receive lib lr calls sched).trace = t₁ ++ t₂ →
    ∀ w, failureWindow (guesses lib lr calls ip t₁) = some w → w.count ≤ maxAuthFailures) ∧
  ∀ t₁ i s t₂, (receive lib lr calls sched).trace =
      t₁ ++ (i, .blocked ip (calls i).now, s) :: t₂ →
    ∀ w, failureWindow (guesses lib lr calls ip t₁) = some w → w.expired (calls i).now = false →
      maxAuthFailures ≤ w.count → (receive lib lr calls sched).threads i = .ret tooManyRequests

variable {lib lr calls ip}

/-- A request whose check finds the client blocked is answered with 429. -/
theorem threads_of_blocked [DecidableEq ι] {sched : List ι}
    {t₁ t₂ : Trace (receiverSig lib.evictOrder) ι} {i : ι}
    (htrace : (receive lib lr calls sched).trace = t₁ ++ (i, .blocked ip (calls i).now, s) :: t₂)
    (hb : (blocked s.authFailures ip (calls i).now).1 = true) :
    (receive lib lr calls sched).threads i = .ret tooManyRequests := by
  have hpath := path_own (fun i => handleLogs lib lr (calls i)) .start sched i
  change Path _ (own i (receive lib lr calls sched).trace) _ at hpath
  rw [htrace, own_append, own_cons_self] at hpath
  obtain hnil | ⟨s₀, t', ht', hafter⟩ := handleLogs_path hpath
  · simp at hnil
  cases hown : own i t₁ with
  | nil =>
    rw [hown, List.nil_append] at ht'
    cases ht'
    unfold LogCall.AfterCheck at hafter
    rw [if_pos hb] at hafter
    exact hafter.2
  | cons e₀ rest =>
    rw [hown, List.cons_append, List.cons_eq_cons] at ht'
    have hmem : (ReceiverOp.blocked ip (calls i).now, s) ∈ t' := by simp [← ht'.2]
    have hno := hafter.checks_eq_false _ hmem ip
    simp [ReceiverOp.checks] at hno

end Runs

/-- **The throttle holds** in every run in which the requests of the client are checked one at a time,
each when the failures of those before it are recorded, and not too many other clients fail. -/
theorem throttled_of_alone {ι : Type} [DecidableEq ι] (lib : ReceiverLib) (lr : LogReceiver)
    (calls : ι → LogCall) (sched : List ι) (ip : GoString) (others : List GoString)
    (hlen : others.length < maxAuthFailureClients)
    (hothers : ∀ i, (calls i).clientIP ≠ ip → (calls i).unauthorized lib lr = true →
      (calls i).clientIP ∈ others)
    (halone : AtSteps (ChecksAlone lib lr calls ip) (receive lib lr calls sched).trace) :
    Throttled lib lr calls ip sched := by
  refine ⟨fun t₁ t₂ htrace w hw => ?_, fun t₁ i s t₂ htrace w hw hlive hfull => ?_⟩
  · rw [htrace] at halone
    obtain ⟨sched', ht₁⟩ : ∃ sched', (receive lib lr calls sched').trace = t₁ := by
      cases t₂ with
      | nil => exact ⟨sched, by simpa using htrace⟩
      | cons e t₂ =>
        obtain ⟨sched', ht₁, -⟩ := Pool.runs_split rfl htrace
        exact ⟨sched', ht₁⟩
    subst ht₁
    obtain ⟨pending, h⟩ := limiterInv_run hlen hothers halone.of_append
    exact h.bounded w hw
  · rw [htrace] at halone
    obtain ⟨sched', ht₁, hs⟩ := Pool.runs_split rfl htrace
    change (receive lib lr calls sched').trace = t₁ at ht₁
    change (receive lib lr calls sched').mem = s at hs
    subst ht₁ hs
    obtain ⟨pending, h⟩ := limiterInv_run hlen hothers halone.of_append
    have hstep := halone.split (by simp [ReceiverOp.checks])
    obtain rfl := h.pending_eq_none fun x hx => (hstep x hx).2
    refine threads_of_blocked htrace ?_
    rw [h.blocked_iff_window fun x hx => (hstep x hx).1]
    exact ⟨w, live_eq_some.mpr ⟨hw, hlive⟩, hfull⟩

/-! ## Guesses -/

/-- A request with a wrong token. -/
def guessCall : LogCall :=
  { tinyCall "1" .clean with
    request.header := fun name => if name = str "Authorization" then [str "Bearer guess"] else [] }

/-- Requests one after the other. -/
def inTurn (n : ℕ) : List (Fin n) := (List.finRange n).flatMap fun i => [i, i]

/-- Requests that are all checked before the first failure is recorded. -/
def allAtOnce (n : ℕ) : List (Fin n) := List.finRange n ++ List.finRange n

theorem throttled_of_alone_one_by_one :
    Throttled tinyLib tinyReceiver (fun _ : Fin 12 => guessCall) guessCall.clientIP (inTurn 12) := by
  refine throttled_of_alone _ _ _ _ _ [] (by decide) (fun _ h => absurd rfl h) ?_
  decide +kernel

/-- **Concurrent guesses** get past the throttle: eleven tokens of one client are compared in vain
within one window. -/
theorem concurrent_guesses :
    (∀ i, (receive tinyLib tinyReceiver (fun _ : Fin 11 => guessCall) (allAtOnce 11)).threads i =
      .ret (.error 403 (str "Forbidden"))) ∧
    ¬ Throttled tinyLib tinyReceiver (fun _ : Fin 11 => guessCall) guessCall.clientIP
      (allAtOnce 11) := by
  have hrun : (∀ i, ((receive tinyLib tinyReceiver (fun _ : Fin 11 => guessCall)
        (allAtOnce 11)).threads i).result? = some (.error 403 (str "Forbidden"))) ∧
      failureWindow (guesses tinyLib tinyReceiver (fun _ : Fin 11 => guessCall) guessCall.clientIP
        (receive tinyLib tinyReceiver (fun _ : Fin 11 => guessCall) (allAtOnce 11)).trace) =
          some ⟨0, 11⟩ := by
    decide +kernel
  refine ⟨fun i => Prog.result?_eq_some.mp (hrun.1 i), fun h => ?_⟩
  have hle : (11 : ℤ) ≤ maxAuthFailures := h.1 _ [] (List.append_nil _).symm _ hrun.2
  exact absurd hle (by decide)

end SynitWaf
