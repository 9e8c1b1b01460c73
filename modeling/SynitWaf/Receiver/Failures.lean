import Mathlib.Data.Finset.Card
import SynitWaf.Receiver.Throttle

/-!
# The clients that the throttle tracks

The throttle keeps one entry for every client whose authentication failed, and removes entries in
three places: a check deletes the entry of its client if the window has ended, a failure restarts the
window, and a failure of a new client makes room in a map that is full.

* `ThrottleCall`, `throttleRun`: calls of `blocked` and `recordFailure`, one after the other;
* `len_evict_lt`, `len_throttleRun_le`: the map is bounded;
* `WindowStart`, `failuresIn`: the windows of a list of failures, `failureWindow_spec`: the last one;
* `FailuresInv`, `FailuresInv.step`: what the map knows of the failures while it has room;
* **`throttleRun_exact`**.
-/

namespace SynitWaf

open Go

/-! ## Runs -/

/-- A call of the throttle; `order` is the one in which `evict` visits the clients in this call. -/
inductive ThrottleCall where
  | blocked (ip : GoString) (now : ℤ)
  | recordFailure (ip : GoString) (now : ℤ) (order : KeyOrder)

/-- The time of a call. -/
def ThrottleCall.now : ThrottleCall → ℤ
  | .blocked _ now => now
  | .recordFailure _ now _ => now

/-- The clients after a call. -/
def ThrottleCall.exec (clients : GoMap AuthFailures) : ThrottleCall → GoMap AuthFailures
  | .blocked ip now => (SynitWaf.blocked clients ip now).2
  | .recordFailure ip now order => SynitWaf.recordFailure order clients ip now

/-- The clients after some calls of a new throttle. -/
def throttleRun (calls : List ThrottleCall) : GoMap AuthFailures :=
  calls.foldl ThrottleCall.exec ∅

/-- The failure that a call records. -/
def ThrottleCall.failure : ThrottleCall → Option (GoString × ℤ)
  | .blocked _ _ => none
  | .recordFailure ip now _ => some (ip, now)

/-- The clients that fail. -/
def failedClients (calls : List ThrottleCall) : Finset GoString :=
  ((calls.filterMap ThrottleCall.failure).map Prod.fst).toFinset

/-- The times at which a client fails. -/
def failureTimes (ip : GoString) (calls : List ThrottleCall) : List ℤ :=
  ((calls.filterMap ThrottleCall.failure).filter fun f => f.1 = ip).map Prod.snd

theorem throttleRun_snoc (calls : List ThrottleCall) (c : ThrottleCall) :
    throttleRun (calls ++ [c]) = c.exec (throttleRun calls) := by
  simp [throttleRun]

/-! ## The bound -/

section Bound

variable {order : KeyOrder} {clients : GoMap AuthFailures} {ip : GoString} {now : ℤ}

variable (order now) in
/-- **A full map** has room for a client after `evict`. -/
theorem len_evict_lt (h : GoMap.len clients ≤ maxAuthFailureClients) :
    GoMap.len (evict order clients now) < maxAuthFailureClients := by
  unfold evict
  set live := (clients.keys.filter fun ip => (clients.lookup ip).any (·.expired now)).foldl
    (fun m ip => AList.erase ip m) clients
  have hlive : GoMap.len live ≤ GoMap.len clients :=
    len_le_of_subset fun key hkey => (mem_foldl_erase.mp hkey).2
  dsimp only
  split
  next hroom => exact hroom
  next hfull =>
    have hperm := order.perm live.keys
    split
    next hnil =>
      have hempty : GoMap.len live = 0 := by
        rw [hnil] at hperm
        exact hperm.length_eq.symm
      rw [hempty] at hfull
      exact absurd (by decide) hfull
    next ip rest hvisit =>
      have hmem : ip ∈ live := hperm.mem_iff.mp (hvisit ▸ List.mem_cons_self)
      have hlt := len_erase_lt hmem
      omega

theorem len_recordFailure_le (h : GoMap.len clients ≤ maxAuthFailureClients) :
    GoMap.len (recordFailure order clients ip now) ≤ maxAuthFailureClients := by
  unfold recordFailure
  cases hip : clients.lookup ip with
  | some entry =>
    have hinsert := fun w => (len_insert_of_mem w (mem_of_lookup hip)).trans h
    dsimp only
    split <;> exact hinsert _
  | none =>
    have hinsert := fun m : GoMap AuthFailures => len_insert_le (m := m) ip ⟨now, 1⟩
    dsimp only
    split
    next hfull =>
      have hroom := len_evict_lt order now h
      exact (hinsert _).trans hroom
    next hroom => exact (hinsert _).trans (Nat.not_le.mp hroom)

/-- **The map is bounded** in every run. -/
theorem len_throttleRun_le (calls : List ThrottleCall) :
    GoMap.len (throttleRun calls) ≤ maxAuthFailureClients := by
  induction calls using List.reverseRecOn with
  | nil => exact Nat.zero_le _
  | append_singleton calls c ih =>
    rw [throttleRun_snoc]
    cases c with
    | blocked ip now => exact (len_le_of_subset fun _ hk => mem_keys_of_blocked hk).trans ih
    | recordFailure ip now order => exact len_recordFailure_le ih

end Bound

/-! ## Windows -/

/-- The times at which the windows of these failures start: the first failure, and the first one when
the window before has ended. -/
inductive WindowStart (times : List ℤ) : ℤ → Prop
  | first {start : ℤ} : start ∈ times → (∀ x ∈ times, start ≤ x) → WindowStart times start
  | next {previous start : ℤ} : WindowStart times previous → start ∈ times →
      previous + authFailureWindow ≤ start →
      (∀ x ∈ times, previous + authFailureWindow ≤ x → start ≤ x) → WindowStart times start

/-- The failures in the window that starts at this time. -/
def failuresIn (times : List ℤ) (start : ℤ) : ℕ :=
  times.countP fun x => start ≤ x ∧ x < start + authFailureWindow

section Windows

variable {times : List ℤ} {now start : ℤ}

theorem WindowStart.mem (h : WindowStart times start) : start ∈ times := by
  cases h <;> assumption

theorem WindowStart.snoc (h : WindowStart times start) (hle : ∀ x ∈ times, x ≤ now) :
    WindowStart (times ++ [now]) start := by
  have hlater : ∀ {p : ℤ → Prop} {s : ℤ}, s ∈ times → (∀ x ∈ times, p x → s ≤ x) →
      ∀ x ∈ times ++ [now], p x → s ≤ x := by
    intro p s hs hp x hx hpx
    rcases List.mem_append.mp hx with hx | hx
    · exact hp x hx hpx
    · rw [List.mem_singleton.mp hx]
      exact hle s hs
  induction h with
  | first hs hfirst =>
    refine .first (List.mem_append_left _ hs) fun x hx => ?_
    exact hlater (p := fun _ => True) hs (fun x hx _ => hfirst x hx) x hx trivial
  | next _ hs hend hfirst ih =>
    exact .next ih (List.mem_append_left _ hs) hend (hlater hs hfirst)

/-- A further failure starts a window at most at its own time. -/
theorem WindowStart.of_snoc (hle : ∀ x ∈ times, x ≤ now) (h : WindowStart (times ++ [now]) start) :
    WindowStart times start ∨ start = now ∧ (times = [] ∨ ∃ previous, WindowStart times previous ∧
      previous + authFailureWindow ≤ now ∧
        ∀ x ∈ times, previous + authFailureWindow ≤ x → now ≤ x) := by
  have hwindow : 0 < authFailureWindow := by decide
  induction h with
  | first hs hfirst =>
    have hfirst' := fun x hx => hfirst x (List.mem_append_left _ hx)
    rcases List.mem_append.mp hs with hs | hs
    · exact .inl (.first hs hfirst')
    obtain rfl := List.mem_singleton.mp hs
    cases htimes : times with
    | nil => exact .inr ⟨rfl, .inl rfl⟩
    | cons x rest =>
      -- an earlier failure at the same time
      have hx : x ∈ times := htimes ▸ List.mem_cons_self
      have heq := le_antisymm (hfirst' x hx) (hle x hx)
      rw [← htimes]
      exact .inl (.first (heq ▸ hx) hfirst')
  | @next previous s _ hs hend hfirst ih =>
    have hfirst' := fun x hx => hfirst x (List.mem_append_left _ hx)
    obtain hprevious | ⟨rfl, -⟩ := ih
    · rcases List.mem_append.mp hs with hs | hs
      · exact .inl (.next hprevious hs hend hfirst')
      · obtain rfl := List.mem_singleton.mp hs
        exact .inr ⟨rfl, .inr ⟨previous, hprevious, hend, hfirst'⟩⟩
    · rcases List.mem_append.mp hs with hs | hs
      · have := hle s hs
        omega
      · have := List.mem_singleton.mp hs
        omega

theorem failuresIn_snoc : failuresIn (times ++ [now]) start =
    failuresIn times start + if start ≤ now ∧ now < start + authFailureWindow then 1 else 0 := by
  simp [failuresIn, List.countP_append, List.countP_singleton]

/-- The last window of some failures: all other windows end before it, and it is not over at the last
failure. -/
structure LastWindow (times : List ℤ) (w : AuthFailures) : Prop where
  starts : WindowStart times w.windowStart
  count : w.count = failuresIn times w.windowStart
  within : ∀ x ∈ times, x < w.windowStart + authFailureWindow
  last : ∀ s, WindowStart times s → s = w.windowStart ∨ s + authFailureWindow ≤ w.windowStart

theorem LastWindow.restart {w : AuthFailures} (h : LastWindow times w) (hle : ∀ x ∈ times, x ≤ now)
    (hend : w.windowStart + authFailureWindow ≤ now) : LastWindow (times ++ [now]) ⟨now, 1⟩ := by
  have hwindow : 0 < authFailureWindow := by decide
  have hbefore : ∀ x ∈ times, x < now := fun x hx => lt_of_lt_of_le (h.within x hx) hend
  refine ⟨?_, ?_, fun x hx => ?_, fun s hs => ?_⟩
  · refine .next (h.starts.snoc hle) (by simp) hend fun x hx hx' => ?_
    rcases List.mem_append.mp hx with hx | hx
    · have := h.within x hx
      omega
    · exact (List.mem_singleton.mp hx).ge
  · have hnone : failuresIn times now = 0 := by
      refine List.countP_eq_zero.mpr fun x hx => ?_
      have := hbefore x hx
      simp
      omega
    rw [failuresIn_snoc, hnone]
    simp [hwindow]
  · rcases List.mem_append.mp hx with hx | hx
    · have := hbefore x hx
      dsimp only
      omega
    · rw [List.mem_singleton.mp hx]
      exact lt_add_of_pos_right _ hwindow
  · obtain hs | ⟨rfl, -⟩ := hs.of_snoc hle
    · right
      have := h.last s hs
      dsimp only
      omega
    · exact .inl rfl

theorem LastWindow.extend {w : AuthFailures} (h : LastWindow times w) (hle : ∀ x ∈ times, x ≤ now)
    (hlive : now < w.windowStart + authFailureWindow) :
    LastWindow (times ++ [now]) { w with count := w.count + 1 } := by
  have hwindow : 0 < authFailureWindow := by decide
  have hstart := hle _ h.starts.mem
  refine ⟨h.starts.snoc hle, ?_, fun x hx => ?_, fun s hs => ?_⟩
  · rw [failuresIn_snoc, if_pos ⟨hstart, hlive⟩, Nat.cast_add, ← h.count]
    rfl
  · rcases List.mem_append.mp hx with hx | hx
    · exact h.within x hx
    · rw [List.mem_singleton.mp hx]
      exact hlive
  · obtain hs | ⟨rfl, rfl | ⟨previous, hprevious, hend, hfirst⟩⟩ := hs.of_snoc hle
    · exact h.last s hs
    · cases h.starts.mem
    · -- a window that starts now starts with an earlier failure at the same time
      left
      obtain rfl | hbefore := h.last previous hprevious
      · omega
      · exact le_antisymm (hfirst _ h.starts.mem hbefore) hstart

/-- **The window of the source** is the last one. -/
theorem failureWindow_spec (h : times.Pairwise (· ≤ ·)) :
    match failureWindow times with
    | none => times = []
    | some w => LastWindow times w := by
  induction times using List.reverseRecOn with
  | nil => rfl
  | append_singleton times now ih =>
    obtain ⟨hsorted, -, hle⟩ := List.pairwise_append.mp h
    have hle : ∀ x ∈ times, x ≤ now := fun x hx => hle x hx now (List.mem_singleton_self _)
    have ih := ih hsorted
    rw [failureWindow_snoc]
    cases hw : failureWindow times with
    | none =>
      rw [hw] at ih
      obtain rfl : times = [] := ih
      have hwindow : 0 < authFailureWindow := by decide
      refine ⟨.first ?_ ?_, ?_, ?_, fun s hs => .inl (List.mem_singleton.mp hs.mem)⟩
      · simp [extendWindow]
      · simp [extendWindow]
      · simp [extendWindow, failuresIn, hwindow]
      · simpa [extendWindow] using hwindow
    | some w =>
      rw [hw] at ih
      have ih : LastWindow times w := ih
      simp only [extendWindow, AuthFailures.expired, decide_eq_true_eq]
      split
      · exact ih.restart hle (by omega)
      · exact ih.extend hle (by omega)

end Windows

/-! ## What the map knows -/

/-- The entries are those of clients that have failed, and as long as they count they are the windows
of the failures. -/
structure FailuresInv (calls : List ThrottleCall) (clients : GoMap AuthFailures) : Prop where
  known : ∀ ip ∈ clients.keys, ip ∈ failedClients calls
  entry : ∀ ip now, (∀ c ∈ calls, c.now ≤ now) →
    live now (clients.lookup ip) = live now (failureWindow (failureTimes ip calls))

section Step

variable {calls : List ThrottleCall} {clients : GoMap AuthFailures} {c : ThrottleCall}

theorem failureTimes_snoc (ip : GoString) :
    failureTimes ip (calls ++ [c]) = failureTimes ip calls ++
      ((c.failure.toList.filter fun f => f.1 = ip).map Prod.snd) := by
  cases hc : c.failure <;> simp [failureTimes, List.filterMap_append, hc]

theorem failedClients_snoc :
    failedClients (calls ++ [c]) = failedClients calls ∪ (c.failure.toList.map Prod.fst).toFinset := by
  cases hc : c.failure <;> simp [failedClients, List.filterMap_append, hc]

theorem failedClients_subset : failedClients calls ⊆ failedClients (calls ++ [c]) := by
  rw [failedClients_snoc]
  exact Finset.subset_union_left

/-- What a call leaves as it is, it still knows. -/
theorem FailuresInv.entry_other (h : FailuresInv calls clients) {ip : GoString} {now : ℤ}
    (hc : ∀ f ∈ c.failure, f.1 ≠ ip) (hnow : ∀ c' ∈ calls ++ [c], c'.now ≤ now) :
    live now (clients.lookup ip) = live now (failureWindow (failureTimes ip (calls ++ [c]))) := by
  have htimes : failureTimes ip (calls ++ [c]) = failureTimes ip calls := by
    rw [failureTimes_snoc]
    cases hf : c.failure with
    | none => exact List.append_nil _
    | some f => simp [hc f hf]
  rw [htimes]
  exact h.entry ip now fun c' hc' => hnow c' (List.mem_append_left _ hc')

theorem FailuresInv.blocked (h : FailuresInv calls clients) (ip : GoString) (time : ℤ) :
    FailuresInv (calls ++ [.blocked ip time]) (SynitWaf.blocked clients ip time).2 := by
  refine ⟨fun k hk => failedClients_subset (h.known k (mem_keys_of_blocked hk)), fun k now hnow => ?_⟩
  rw [← h.entry_other (c := .blocked ip time) nofun hnow]
  by_cases hk : k = ip
  · subst hk
    have htime : time ≤ now := hnow (.blocked k time) (by simp)
    exact (congrArg (live now) blocked_lookup).trans (live_live htime _)
  · exact congrArg (live now) (blocked_lookup_ne hk)

/-- A failure is entered without eviction, if few clients have failed. -/
theorem FailuresInv.recordFailure (h : FailuresInv calls clients) {ip : GoString} {time : ℤ}
    {order : KeyOrder} (hle : ∀ c' ∈ calls, c'.now ≤ time)
    (hfew : (failedClients (calls ++ [.recordFailure ip time order])).card <
      maxAuthFailureClients) :
    FailuresInv (calls ++ [.recordFailure ip time order])
      (SynitWaf.recordFailure order clients ip time) := by
  have hip : ip ∈ failedClients (calls ++ [.recordFailure ip time order]) := by
    simp [failedClients_snoc, ThrottleCall.failure]
  have hinsert : SynitWaf.recordFailure order clients ip time =
      clients.insert ip (extendWindow (clients.lookup ip) time) := by
    refine recordFailure_eq fun hnew => lt_trans ?_ hfew
    rw [← Finset.length_toList]
    exact len_lt_of_known
      (fun k hk => Finset.mem_toList.mpr (failedClients_subset (h.known k hk)))
      (Finset.mem_toList.mpr hip) hnew
  rw [hinsert]
  refine ⟨fun k hk => ?_, fun k now hnow => ?_⟩
  · rcases (AList.mem_insert _).mp (AList.mem_keys.mpr hk) with rfl | hk
    · exact hip
    · exact failedClients_subset (h.known k hk)
  · by_cases hk : k = ip
    · subst hk
      have htimes : failureTimes k (calls ++ [.recordFailure k time order]) =
          failureTimes k calls ++ [time] := by
        simp [failureTimes_snoc, ThrottleCall.failure]
      rw [htimes, failureWindow_snoc, AList.lookup_insert,
        lookup_extendWindow (h.entry k time hle)]
    · rw [AList.lookup_insert_ne hk]
      refine h.entry_other ?_ hnow
      rintro _ ⟨⟩
      exact Ne.symm hk

/-- **A call** keeps what the map knows, unless too many clients have failed. -/
theorem FailuresInv.step (h : FailuresInv calls clients) (hle : ∀ c' ∈ calls, c'.now ≤ c.now)
    (hfew : (failedClients (calls ++ [c])).card < maxAuthFailureClients) :
    FailuresInv (calls ++ [c]) (c.exec clients) := by
  cases c with
  | blocked ip time => exact h.blocked ip time
  | recordFailure ip time order => exact h.recordFailure hle hfew

/-- **What the map knows in a run.** -/
theorem failuresInv_run (hsorted : calls.Pairwise fun c c' => c.now ≤ c'.now)
    (hfew : (failedClients calls).card < maxAuthFailureClients) :
    FailuresInv calls (throttleRun calls) := by
  induction calls using List.reverseRecOn with
  | nil => exact ⟨nofun, fun _ _ _ => rfl⟩
  | append_singleton calls c ih =>
    obtain ⟨hcalls, -, hle⟩ := List.pairwise_append.mp hsorted
    rw [throttleRun_snoc]
    exact (ih hcalls (lt_of_le_of_lt (Finset.card_le_card failedClients_subset) hfew)).step
      (fun c' hc' => hle c' hc' c (List.mem_singleton_self _)) hfew

end Step

theorem failureTimes_sorted {calls : List ThrottleCall} (ip : GoString)
    (h : calls.Pairwise fun c c' => c.now ≤ c'.now) : (failureTimes ip calls).Pairwise (· ≤ ·) := by
  have hfailures : (calls.filterMap ThrottleCall.failure).Pairwise fun f f' => f.2 ≤ f'.2 := by
    refine List.pairwise_filterMap.mpr (h.imp fun {c c'} hle f hf f' hf' => ?_)
    cases c <;> cases c' <;> cases hf <;> cases hf'
    exact hle
  exact List.pairwise_map.mpr (hfailures.filter _)

theorem failureTimes_le {calls : List ThrottleCall} {ip : GoString} {t : ℤ}
    (h : ∀ c ∈ calls, c.now ≤ t) : ∀ x ∈ failureTimes ip calls, x ≤ t := by
  intro x hx
  simp only [failureTimes, List.mem_map, List.mem_filter, List.mem_filterMap] at hx
  obtain ⟨f, ⟨⟨c, hc, hf⟩, -⟩, rfl⟩ := hx
  cases c <;> cases hf
  exact h _ hc

/-- **The throttle** after calls at times in order: it never tracks more than `maxAuthFailureClients`
clients, and while fewer have failed, a client is blocked exactly if it has failed `maxAuthFailures`
times in a window that has not ended. -/
theorem throttleRun_exact (calls : List ThrottleCall)
    (hsorted : calls.Pairwise fun c c' => c.now ≤ c'.now) :
    GoMap.len (throttleRun calls) ≤ maxAuthFailureClients ∧
      ((failedClients calls).card < maxAuthFailureClients → ∀ ip t, (∀ c ∈ calls, c.now ≤ t) →
        ((blocked (throttleRun calls) ip t).1 = true ↔
          ∃ start, WindowStart (failureTimes ip calls) start ∧ t < start + authFailureWindow ∧
            maxAuthFailures ≤ failuresIn (failureTimes ip calls) start)) := by
  refine ⟨len_throttleRun_le calls, fun hfew ip t ht => ?_⟩
  rw [blocked_iff, (failuresInv_run hsorted hfew).entry ip t ht]
  have hspec := failureWindow_spec (failureTimes_sorted ip hsorted)
  simp only [live_eq_some, AuthFailures.expired, decide_eq_false_iff_not]
  cases hw : failureWindow (failureTimes ip calls) with
  | none =>
    rw [hw] at hspec
    have hnil : failureTimes ip calls = [] := hspec
    refine iff_of_false ?_ ?_
    · rintro ⟨w, ⟨hnone, -⟩, -⟩
      cases hnone
    rintro ⟨start, hstart, -⟩
    rw [hnil] at hstart
    cases hstart.mem
  | some w =>
    rw [hw] at hspec
    have hlast : LastWindow (failureTimes ip calls) w := hspec
    constructor
    · rintro ⟨_, ⟨⟨⟩, hlive⟩, hfull⟩
      exact ⟨w.windowStart, hlast.starts, by omega, hlast.count ▸ hfull⟩
    · rintro ⟨start, hstart, hlive, hfull⟩
      -- a window before the last one has ended
      have hle := failureTimes_le ht _ hlast.starts.mem
      obtain rfl : start = w.windowStart := by
        refine (hlast.last start hstart).resolve_right fun hend => ?_
        omega
      exact ⟨w, ⟨rfl, by omega⟩, hlast.count.symm ▸ hfull⟩

/-- Ten failures of one client in ten seconds, with a check between them. -/
def tenFailures : List ThrottleCall :=
  (List.range 10).map (fun i => .recordFailure (str "192.0.2.1") (i * second) insertionOrder) ++
    [.blocked (str "192.0.2.1") (10 * second)]

theorem throttleRun_exact_ten_failures :
    GoMap.len (throttleRun tenFailures) ≤ maxAuthFailureClients ∧
      (blocked (throttleRun tenFailures) (str "192.0.2.1") (59 * second)).1 = true ∧
      (blocked (throttleRun tenFailures) (str "192.0.2.1") (60 * second)).1 ≠ true := by
  obtain ⟨hsorted, hfew, hnow⟩ : (tenFailures.Pairwise fun c c' => c.now ≤ c'.now) ∧
      (failedClients tenFailures).card < maxAuthFailureClients ∧
      ∀ c ∈ tenFailures, c.now ≤ 59 * second := by decide +kernel
  obtain ⟨hmem, hfirst, hfull, hlast⟩ : (0 : ℤ) ∈ failureTimes (str "192.0.2.1") tenFailures ∧
      (∀ x ∈ failureTimes (str "192.0.2.1") tenFailures, 0 ≤ x) ∧
      maxAuthFailures ≤ failuresIn (failureTimes (str "192.0.2.1") tenFailures) 0 ∧
      ∀ x ∈ failureTimes (str "192.0.2.1") tenFailures, x < authFailureWindow := by decide +kernel
  obtain ⟨hbound, hexact⟩ := throttleRun_exact tenFailures hsorted
  refine ⟨hbound, (hexact hfew _ _ hnow).mpr ⟨0, .first hmem hfirst, by decide, hfull⟩, fun h => ?_⟩
  obtain ⟨start, hstart, hlive, -⟩ := (hexact hfew _ _ fun c hc => (hnow c hc).trans (by decide)).mp h
  -- the window of the first failure is the only one
  have hwindow : authFailureWindow = 60 * second := by decide
  cases hstart with
  | first _ hle =>
    have hzero := hle 0 hmem
    omega
  | next hprevious hs hend _ =>
    have hbefore := hfirst _ hprevious.mem
    have hafter := hlast start hs
    omega

end SynitWaf
