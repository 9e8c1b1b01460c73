import SynitWaf.Upstream.Sequential

/-!
# The cooldown of the circuit breaker

`recordUpstreamFailure` stores the end of the cooldown in whole Unix seconds, and `selectUpstream`
compares it with a clock in whole seconds. Both are rounded down, so that an upstream comes back up to
one second before its cooldown is over.

* `BreakerEvent`, `runBreaker`: failures, successes and selections at their instants;
* `CooldownKept`: a failure at `t` that opens the circuit keeps the upstream out until `t + cooldown`;
* `InCooldown`: the deadline is not earlier than `d`; `exec_inCooldown`, `runBreaker_inCooldown`;
* **`cooldownKept_iff`**: the cooldown is kept exactly if it ends at a whole second;
* `cooldown_cut_short`: a cooldown of one second that lasts half a second.
-/

namespace SynitWaf

open Go

/-- What happens to the upstreams of a tenant. -/
inductive BreakerEvent where
  | failure (u : UpstreamServer)
  | success (u : UpstreamServer)
  | select (ts : TenantState)

/-- `consecutiveFailures.Store(0)`. -/
def recordUpstreamSuccess (u : UpstreamServer) (h : UpstreamHeap) : UpstreamHeap :=
  h.setUp u.id { h.up u.id with consecutiveFailures := 0 }

section Events

variable (threshold cooldown : ℤ)

/-- The heap behind an event at the instant `clock`. -/
def BreakerEvent.exec (clock : ℤ) (h : UpstreamHeap) : BreakerEvent → UpstreamHeap
  | .failure u => ((recordUpstreamFailure u threshold cooldown clock).run h).2
  | .success u => recordUpstreamSuccess u h
  | .select ts => ((selectUpstream ts (unix clock)).run h).2

/-- The heap behind a sequence of events. -/
def runBreaker (h : UpstreamHeap) (events : List (ℤ × BreakerEvent)) : UpstreamHeap :=
  events.foldl (fun h e => e.2.exec threshold cooldown e.1 h) h

/-- If a failure at `t` brings the count to the threshold, no selection before `t + cooldown` returns
the upstream, whatever happens in between. -/
def CooldownKept (t : ℤ) : Prop :=
  ∀ (h : UpstreamHeap) (u : UpstreamServer) (events : List (ℤ × BreakerEvent)) (ts : TenantState)
    (t' : ℤ), threshold ≤ nextFailures (h.up u.id).consecutiveFailures →
    (t :: (events.map Prod.fst ++ [t'])).Pairwise (· ≤ ·) → t' < t + effectiveCooldown cooldown →
    ∀ v, ((selectUpstream ts (unix t')).run (runBreaker threshold cooldown
      (BreakerEvent.exec threshold cooldown t h (.failure u)) events)).1 = some v → v.id ≠ u.id

end Events

/-! ## Selections -/

theorem selectUpstream_up (ts : TenantState) (now : ℤ) (h : UpstreamHeap) :
    ∃ us, ((selectUpstream ts now).run h).2.up = (h.cleared now us).up := by
  unfold selectUpstream
  split
  next hn =>
    rw [selectLoop_run]
    exact ⟨_, rfl⟩
  next => exact ⟨[], by rw [cleared_nil]; rfl⟩

theorem selectUpstream_available {ts : TenantState} {now : ℤ} {h : UpstreamHeap}
    {u : UpstreamServer} (hu : ((selectUpstream ts now).run h).1 = some u) : Available now u h := by
  unfold selectUpstream at hu
  split at hu
  next hn =>
    rw [selectLoop_run] at hu
    simpa using List.find?_some hu
  next => cases hu

/-! ## Until the deadline -/

/-- The deadline of the upstream at address `a` is `d` or later. -/
def InCooldown (d : ℤ) (a : ℕ) (h : UpstreamHeap) : Prop := d ≤ (h.up a).deadUntil

section Deadline

variable {threshold cooldown d t : ℤ} {a : ℕ} {h : UpstreamHeap}

theorem unix_mono {s t : ℤ} (h : s ≤ t) : unix s ≤ unix t :=
  Int.ediv_le_ediv (by decide) h

/-- An event before the end of the cooldown leaves the deadline where it is or moves it back. -/
theorem exec_inCooldown {s : ℤ} (hd : d = unix (t + effectiveCooldown cooldown)) (hts : t ≤ s)
    (hs : unix s < d) (hin : InCooldown d a h) (e : BreakerEvent) :
    InCooldown d a (e.exec threshold cooldown s h) := by
  unfold InCooldown at hin ⊢
  cases e with
  | failure u =>
    rw [BreakerEvent.exec, recordUpstreamFailure_run]
    by_cases ha : a = u.id
    · subst ha
      rw [UpstreamHeap.setUp_self]
      dsimp only
      split
      · rw [hd]
        exact unix_mono (by omega)
      · exact hin
    · rw [UpstreamHeap.setUp_of_ne _ ha]
      exact hin
  | success u =>
    rw [BreakerEvent.exec, recordUpstreamSuccess]
    by_cases ha : a = u.id
    · subst ha
      rw [UpstreamHeap.setUp_self]
      exact hin
    · rw [UpstreamHeap.setUp_of_ne _ ha]
      exact hin
  | select ts =>
    obtain ⟨us, hup⟩ := selectUpstream_up ts (unix s) h
    rw [BreakerEvent.exec, hup]
    -- only deadlines that the clock has reached are cleared
    have hkeep : (h.cleared (unix s) us).up a = h.up a := if_neg (by omega)
    rw [hkeep]
    exact hin

theorem runBreaker_inCooldown (threshold : ℤ) {events : List (ℤ × BreakerEvent)}
    (hd : d = unix (t + effectiveCooldown cooldown))
    (hevents : ∀ e ∈ events, t ≤ e.1 ∧ unix e.1 < d) (hin : InCooldown d a h) :
    InCooldown d a (runBreaker threshold cooldown h events) := by
  induction events generalizing h with
  | nil => exact hin
  | cons e events ih =>
    rw [List.forall_mem_cons] at hevents
    exact ih hevents.2 (exec_inCooldown hd hevents.1.1 hevents.1.2 hin e.2)

theorem failure_up {u : UpstreamServer}
    (hcount : threshold ≤ nextFailures (h.up u.id).consecutiveFailures) :
    (BreakerEvent.exec threshold cooldown t h (.failure u)).up u.id =
      { isHealthy := (h.up u.id).isHealthy
        consecutiveFailures := nextFailures (h.up u.id).consecutiveFailures
        deadUntil := unix (t + effectiveCooldown cooldown) } := by
  rw [BreakerEvent.exec, recordUpstreamFailure_run, UpstreamHeap.setUp_self, if_pos hcount]

/-- A cooldown that ends at a whole second is kept. -/
theorem cooldownKept_of_whole (hpos : 0 < t + effectiveCooldown cooldown)
    (hwhole : (t + effectiveCooldown cooldown) % second = 0) : CooldownKept threshold cooldown t := by
  intro h u events ts t' hcount hsorted ht' v hv hid
  generalize hd : unix (t + effectiveCooldown cooldown) = d
  have hend : t + effectiveCooldown cooldown = second * d := by
    rw [← hd, unix]
    exact (Int.mul_ediv_cancel' (Int.dvd_of_emod_eq_zero hwhole)).symm
  -- before the end, the clock has not reached the deadline
  have hbefore : ∀ s, s < t + effectiveCooldown cooldown → unix s < d := by
    intro s hs
    rw [hend] at hs
    exact Int.ediv_lt_of_lt_mul (by decide) (by rwa [Int.mul_comm] at hs)
  obtain ⟨hfirst, hrest⟩ := List.pairwise_cons.mp hsorted
  have hevents : ∀ e ∈ events, t ≤ e.1 ∧ unix e.1 < d := by
    intro e he
    have hmem : e.1 ∈ events.map Prod.fst := List.mem_map_of_mem he
    have hle : e.1 ≤ t' := (List.pairwise_append.mp hrest).2.2 e.1 hmem t' (List.mem_singleton_self t')
    exact ⟨hfirst _ (List.mem_append_left _ hmem), hbefore _ (by omega)⟩
  have hstart : InCooldown d u.id (BreakerEvent.exec threshold cooldown t h (.failure u)) := by
    rw [InCooldown, failure_up hcount, hd]
  have hin := runBreaker_inCooldown threshold hd.symm hevents hstart
  have havailable := selectUpstream_available hv
  rw [Available, hid] at havailable
  unfold InCooldown at hin
  have hnow := hbefore t' ht'
  have hdpos : 0 < d := by
    by_contra hneg
    have : second * d ≤ 0 := Int.mul_nonpos_of_nonneg_of_nonpos (by decide) (by omega)
    omega
  omega

/-! ## Cooldowns that are cut short -/

/-- One healthy upstream, one failure before the threshold. -/
def lastStrawHeap (threshold : ℤ) : UpstreamHeap := ⟨fun _ => 0, fun _ => ⟨true, threshold - 1, 0⟩⟩

theorem nextFailures_pred {n : ℤ} (hn : 1 ≤ n) (hlt : n < 2 ^ 31) : nextFailures (n - 1) = n := by
  rw [nextFailures, Int.sub_add_cancel]
  exact Int.bmod_eq_of_le (by omega) (by omega)

/-- An instant at which the deadline is no obstacle is one at which the upstream comes back. -/
theorem not_cooldownKept {t' : ℤ} (hthreshold : 1 ≤ threshold) (hlt : threshold < 2 ^ 31)
    (hle : t ≤ t') (ht' : t' < t + effectiveCooldown cooldown)
    (hover : unix (t + effectiveCooldown cooldown) ≤ 0 ∨
      unix (t + effectiveCooldown cooldown) ≤ unix t') : ¬ CooldownKept threshold cooldown t := by
  intro hkept
  have hcount : threshold ≤ nextFailures ((lastStrawHeap threshold).up 0).consecutiveFailures :=
    (nextFailures_pred hthreshold hlt).ge
  generalize hh : BreakerEvent.exec threshold cooldown t (lastStrawHeap threshold)
    (.failure ⟨0, []⟩) = h
  have hup : h.up 0 = ⟨true, nextFailures (threshold - 1), unix (t + effectiveCooldown cooldown)⟩ :=
    hh ▸ failure_up hcount
  have havailable : ∀ u ∈ [(⟨0, []⟩ : UpstreamServer)], Available (unix t') u h := by
    intro u hu
    rw [List.mem_singleton.mp hu, Available, hup]
    exact ⟨rfl, hover⟩
  have houtcome : (SelectCall.outcome ⟨0, [⟨0, []⟩]⟩ (unix t', h)).1 = _ :=
    (outcome_of_available (by decide) havailable).1
  refine hkept (lastStrawHeap threshold) ⟨0, []⟩ [] ⟨0, [⟨0, []⟩]⟩ t' hcount (by simpa using hle) ht' _
    (hh ▸ houtcome) ?_
  rw [List.mem_singleton.mp (at_mem ⟨0, [⟨0, []⟩]⟩ (by decide) _)]

theorem nextFailures_lt (f : ℤ) : nextFailures f < 2 ^ 31 := by
  have hlt : (f + 1).bmod (2 ^ 32) < ((2 ^ 32 : ℕ) + 1) / 2 := Int.bmod_lt (by decide)
  exact hlt.trans_le (by decide)

theorem effectiveCooldown_pos (hcooldown : 0 ≤ cooldown) : 0 < effectiveCooldown cooldown := by
  unfold effectiveCooldown
  split
  · decide
  · omega

/-- **When a cooldown is kept.** For every threshold and cooldown and every instant of the failure:
exactly if the cooldown ends at a whole second after the epoch, or the threshold is beyond what the
32-bit counter of failures can reach. -/
theorem cooldownKept_iff (hthreshold : 1 ≤ threshold) (hcooldown : 0 ≤ cooldown) (t : ℤ) :
    CooldownKept threshold cooldown t ↔
      2 ^ 31 ≤ threshold ∨
        0 < t + effectiveCooldown cooldown ∧ (t + effectiveCooldown cooldown) % second = 0 := by
  have hcd := effectiveCooldown_pos hcooldown
  generalize hstop : t + effectiveCooldown cooldown = stop
  constructor
  · intro hkept
    by_contra hcon
    obtain ⟨hlt, hnot⟩ := not_or.mp hcon
    have hfloor : second * unix stop ≤ stop := Int.mul_ediv_self_le (by decide)
    by_cases hpos : 0 < stop
    · -- the end of the cooldown, rounded down, or the failure itself if that is later
      have hne : second * unix stop ≠ stop := fun heq =>
        hnot ⟨hpos, Int.emod_eq_zero_of_dvd ⟨_, heq.symm⟩⟩
      have hreached : unix stop ≤ unix (max t (second * unix stop)) := by
        refine (Int.le_ediv_iff_mul_le (by decide)).mpr ?_
        rw [Int.mul_comm]
        exact le_max_right _ _
      subst hstop
      exact not_cooldownKept hthreshold (by omega) (le_max_left _ _) (by omega) (.inr hreached) hkept
    · have hzero : unix stop ≤ unix 0 := unix_mono (not_lt.mp hpos)
      subst hstop
      exact not_cooldownKept hthreshold (by omega) (le_refl t) (by omega) (.inl hzero) hkept
  · rintro (hlarge | ⟨hpos, hwhole⟩)
    · intro h u events ts t' hcount
      have := nextFailures_lt (h.up u.id).consecutiveFailures
      omega
    · subst hstop
      exact cooldownKept_of_whole hpos hwhole

/-- A failure at second 100 with a cooldown of one second. -/
theorem cooldownKept_iff_whole : CooldownKept 1 second (100 * second) :=
  (cooldownKept_iff (by decide) (by decide) _).mpr (.inr (by decide))

/-- **A cooldown cut short.** After a failure at 100.5 seconds with a cooldown of one second, the
upstream is returned at 101.2 seconds. -/
theorem cooldown_cut_short :
    ((selectUpstream ⟨0, [⟨0, []⟩]⟩ (unix (101200 * millisecond))).run
      (BreakerEvent.exec 1 second (100500 * millisecond) ⟨fun _ => 0, fun _ => ⟨true, 0, 0⟩⟩
        (.failure ⟨0, []⟩))).1 = some ⟨0, []⟩ ∧
    101200 * millisecond < 100500 * millisecond + effectiveCooldown second := by
  decide

end Deadline

end SynitWaf
