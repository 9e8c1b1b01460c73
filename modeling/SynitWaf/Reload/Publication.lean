import SynitWaf.Reload.Transaction

/-!
# A publication among requests

One reload publishes its values while requests and other traffic run. Each request reads the
published values one by one, and none of them waits for the reload.

* `HandlerOp.replaces`: the operation replaces what a read reads; `HandlerOp.Carries g`: what it
  stores is what the state `g` holds;
* `publish_carries`, `publish_settings_first`, `publish_states_first`, `publish_deletes_first`: what
  a publication stores, and in which order;
* `Overlap`, `Overlap.run`: a publication among requests; `Overlap.after`: the state it leaves when
  it runs alone;
* **`Overlap.pub_eq`**, **`Overlap.lookup_eq_old`**, **`Overlap.lookup_eq_new`**: the values in force
  at a step, by the operations performed before it; `Overlap.loads_matched`;
* `moving`: a request during a reload that moves its tenant.
-/

namespace SynitWaf

open Atomic Go

/-! ## What a publication stores -/

/-- The values that decide on the client address, the lists and the tenant of a request. -/
def Field.consulted : Field → Bool
  | .allowIPs => true
  | .blockIPs => true
  | .trustedProxyCIDRs => true
  | .trustForwardedFor => true
  | .registry => true
  | _ => false

/-- The operation replaces what the given read reads. -/
def HandlerOp.replaces : HandlerOp → HandlerOp → Bool
  | .store f _, .load g => f = g
  | .deleteTenantState domain, .loadTenantState domain' => domain = domain'
  | .storeTenantState domain _, .loadTenantState domain' => domain = domain'
  | _, _ => false

/-- What the operation stores is what `g` holds. -/
def HandlerOp.Carries (g : Runtime) : HandlerOp → Prop
  | .store f v => f.consulted = true → v = g.pub f
  | .storeTenantState domain state => g.tenantStates.lookup domain = some state
  | _ => True

section Exec

variable {w : World} {g : Runtime} {o : HandlerOp} {f : Field} {domain : GoString} (s : Runtime)

theorem exec_pub_of_not_replaces (h : o.replaces (.load f) = false) :
    (o.exec w s).2.pub f = s.pub f := by
  cases o with
  | store f' v =>
    have hne : f ≠ f' := by
      rintro rfl
      simp [HandlerOp.replaces] at h
    exact Function.update_of_ne hne _ _
  | _ => rfl

theorem exec_pub_of_replaces (hf : f.consulted = true) (hg : o.Carries g)
    (h : o.replaces (.load f) = true) : (o.exec w s).2.pub f = g.pub f := by
  cases o with
  | store f' v =>
    obtain rfl : f' = f := by simpa [HandlerOp.replaces] using h
    rw [← hg hf]
    exact Function.update_self _ _ _
  | _ => simp [HandlerOp.replaces] at h

theorem exec_pub_of_carries (hf : f.consulted = true) (hg : o.Carries g) (h : s.pub f = g.pub f) :
    (o.exec w s).2.pub f = g.pub f := by
  cases hr : o.replaces (.load f) with
  | true => exact exec_pub_of_replaces s hf hg hr
  | false => rw [exec_pub_of_not_replaces s hr, h]

theorem exec_lookup_of_not_replaces (h : o.replaces (.loadTenantState domain) = false) :
    (o.exec w s).2.tenantStates.lookup domain = s.tenantStates.lookup domain := by
  cases o with
  | deleteTenantState domain' =>
    have hne : domain ≠ domain' := by
      rintro rfl
      simp [HandlerOp.replaces] at h
    exact AList.lookup_erase_ne hne
  | storeTenantState domain' state =>
    have hne : domain ≠ domain' := by
      rintro rfl
      simp [HandlerOp.replaces] at h
    exact AList.lookup_insert_ne hne
  | _ => rfl

theorem exec_lookup_of_store {state : TenantState}
    (hg : (HandlerOp.storeTenantState domain state).Carries g) :
    ((HandlerOp.storeTenantState domain state).exec w s).2.tenantStates.lookup domain =
      g.tenantStates.lookup domain := by
  have hlookup : (s.tenantStates.insert domain state).lookup domain = some state :=
    AList.lookup_insert _
  have hstate : g.tenantStates.lookup domain = some state := hg
  exact hlookup.trans hstate.symm

theorem exec_lookup_of_carries (hg : o.Carries g) (hd : o ≠ .deleteTenantState domain)
    (h : s.tenantStates.lookup domain = g.tenantStates.lookup domain) :
    (o.exec w s).2.tenantStates.lookup domain = g.tenantStates.lookup domain := by
  cases hr : o.replaces (.loadTenantState domain) with
  | false => rw [exec_lookup_of_not_replaces s hr, h]
  | true =>
    cases o with
    | deleteTenantState domain' =>
      obtain rfl : domain' = domain := by simpa [HandlerOp.replaces] using hr
      exact absurd rfl hd
    | storeTenantState domain' state =>
      obtain rfl : domain' = domain := by simpa [HandlerOp.replaces] using hr
      exact exec_lookup_of_store s hg
    | _ => simp [HandlerOp.replaces] at hr

theorem reloads_of_replaces {read : HandlerOp} (h : o.replaces read = true) : o.reloads = true := by
  cases o <;> first | rfl | simp [HandlerOp.replaces] at h

end Exec

/-! ## The order of a publication -/

section Publish

variable {w : World} {env : Surroundings} {next : Generation}

/-- The state holds what the generation says about requests. -/
structure Generation.InForce (order : KeyOrder) (next : Generation) (g : Runtime) : Prop where
  allowIPs : g.pub .allowIPs = next.allowIPs
  blockIPs : g.pub .blockIPs = next.blockIPs
  trustedProxyCIDRs : g.pub .trustedProxyCIDRs = next.trustedProxyCIDRs
  trustForwardedFor : g.pub .trustForwardedFor = next.trustForwardedFor
  registry : g.pub .registry = next.registry order
  lookup : ∀ host, g.tenantStates.lookup host = next.built.states.lookup host

theorem publish_inForce (s : Runtime) :
    next.InForce (env.order .wildcards) ((publish w env next).run s).2 := by
  obtain ⟨_, _, _, hrun, hlookup⟩ := publish_run (w := w) (s := s) env next
  rw [hrun]
  exact ⟨rfl, rfl, rfl, rfl, rfl, hlookup⟩

/-- A host that matches a generation matches a tenant with a state. -/
theorem Generation.InForce.matched_state {order : KeyOrder} {g : Runtime} (hg : next.InForce order g)
    {r : Request} {domain : GoString} (h : matchedDomain w r (g.pub .registry) = some domain) :
    ∃ state, next.built.states.lookup domain = some state := by
  rw [hg.registry] at h
  obtain ⟨⟨entry, domain'⟩, hget, hdomain⟩ := Option.map_eq_some_iff.mp h
  obtain rfl : domain' = domain := hdomain
  have hentry := Registry.get_mem (r := next.registry order) (by
    rintro _ ⟨rfl⟩ wildcard hw
    exact (mem_buildWildcardIndex hw).1) hget
  have hkey : domain' ∈ next.built.states.keys := by
    rw [← next.built.keys_eq]
    exact mem_of_lookup hentry
  exact exists_lookup hkey

theorem carries_op {g : Runtime} {o : HandlerOp} (h : o.Carries g) :
    (Prog.op (S := handlerSig w) o).Avoids fun o : HandlerOp => ¬ o.Carries g :=
  Prog.avoids_op fun hne => hne h

theorem closeReplaced_avoids {B : HandlerOp → Prop} (oldCoordinator : Option Coordinator)
    (oldGeoIP : Option ℕ) (hc : ∀ n, ¬ B (.closeCoordinator n)) (hr : ∀ n, ¬ B (.closeReader n)) :
    (closeReplaced w oldCoordinator oldGeoIP next).Avoids B := by
  have hreader : ∀ reader, Prog.Avoids (S := handlerSig w) B
      (if next.geoIP = some reader then pure ()
        else Prog.op (S := handlerSig w) (.closeReader reader)) := by
    intro reader
    split
    · exact Prog.avoids_ret ()
    · exact Prog.avoids_op (hr _)
  unfold closeReplaced
  cases oldCoordinator with
  | none =>
    cases oldGeoIP with
    | none => exact Prog.avoids_ret ()
    | some reader => exact hreader reader
  | some c =>
    dsimp only
    split
    · cases oldGeoIP with
      | none => exact Prog.avoids_ret ()
      | some reader => exact hreader reader
    · refine (Prog.avoids_op (hc _)).bind fun _ => ?_
      cases oldGeoIP with
      | none => exact Prog.avoids_ret ()
      | some reader => exact hreader reader

/-- **A publication stores the values of its generation**, and no others. -/
theorem publish_carries {g : Runtime} (hg : next.InForce (env.order .wildcards) g) :
    (publish w env next).Avoids fun o : HandlerOp => ¬ o.Carries g := by
  refine Prog.Avoids.bind (carries_op trivial) fun _ => Prog.Avoids.bind ?_ fun _ =>
    Prog.Avoids.bind ?_ fun _ => Prog.Avoids.bind ?_ fun _ => ?_
  · unfold publishSettings
    repeat' refine Prog.Avoids.bind (carries_op ?_) fun _ => ?_
    all_goals simp [HandlerOp.Carries, Field.consulted, hg.allowIPs,
      hg.blockIPs, hg.trustedProxyCIDRs, hg.trustForwardedFor]
  · refine Prog.Avoids.bind (carries_op trivial) fun keys => ?_
    refine Prog.Avoids.bind (Prog.Avoids.each fun key _ => carries_op trivial) fun _ =>
      Prog.Avoids.each fun t ht => carries_op ?_
    exact (hg.lookup _).trans ((mem_visit (env.order .publish) next.built.states).mp ht)
  · unfold publishRegistry
    repeat' refine Prog.Avoids.bind (carries_op ?_) fun _ => ?_
    all_goals simp [HandlerOp.Carries, Field.consulted, hg.registry]
  · exact closeReplaced_avoids _ _ (fun _ h => h trivial) fun _ h => h trivial

/-- **The lists are stored before the trusted proxies.** -/
theorem publish_settings_first {f : Field} (hf : f = .allowIPs ∨ f = .blockIPs) :
    (publish w env next).Behind (fun o : HandlerOp => o.replaces (.load f) = true)
      fun o : HandlerOp => o.replaces (.load .trustedProxyCIDRs) = true := by
  intro _
  refine ⟨by simp [HandlerOp.replaces], .inr fun _ => ⟨by simp [HandlerOp.replaces], .inr fun _ =>
    ⟨by simp [HandlerOp.replaces], ?_⟩⟩⟩
  obtain rfl | rfl := hf
  · exact .inl rfl
  · exact .inr fun _ => ⟨by simp [HandlerOp.replaces], .inl rfl⟩

theorem publishSettings_avoids {B : HandlerOp → Prop} (hB : ∀ o, B o →
    o.replaces (.load .registry) = true ∨ ∃ domain, o.replaces (.loadTenantState domain) = true) :
    (publishSettings w next).Avoids B := by
  have hop : ∀ o : HandlerOp, o.replaces (.load .registry) = false →
      (∀ domain, o.replaces (.loadTenantState domain) = false) →
      (Prog.op (S := handlerSig w) o).Avoids B := by
    intro o hr hd
    refine Prog.avoids_op fun h => ?_
    obtain h | ⟨domain, h⟩ := hB o h
    · simp [hr] at h
    · simp [hd] at h
  unfold publishSettings
  repeat' refine Prog.Avoids.bind (hop _ ?_ fun _ => ?_) fun _ => ?_
  all_goals first | rfl | exact Prog.avoids_ret _

/-- **Every tenant state is stored before the registry.** -/
theorem publish_states_first {domain : GoString} {state : TenantState}
    (h : next.built.states.lookup domain = some state) :
    (publish w env next).Behind (fun o : HandlerOp => o = .storeTenantState domain state)
      fun o : HandlerOp => o.replaces (.load .registry) = true := by
  have hmem := (mem_visit (env.order .publish) next.built.states).mpr h
  refine fun _ => ⟨by simp [HandlerOp.replaces], .inr ?_⟩
  refine (publishSettings_avoids fun _ h => .inl h).behind.bind fun _ =>
    Prog.Performs.behind_bind ?_ ?_ _
  · refine Prog.Performs.of_bind fun _ => Prog.Performs.of_bind fun _ =>
      Prog.Performs.each hmem (.inl rfl)
  · refine Prog.Avoids.bind (Prog.avoids_op (by simp [HandlerOp.replaces])) fun _ =>
      Prog.Avoids.bind (Prog.Avoids.each fun _ _ => ?_) fun _ => Prog.Avoids.each fun _ _ => ?_
    · exact Prog.avoids_op (by simp [HandlerOp.replaces])
    · exact Prog.avoids_op (by simp [HandlerOp.replaces])

/-- **No tenant state is deleted after one is stored.** -/
theorem publish_deletes_first (domain : GoString) :
    (publish w env next).Before (fun o : HandlerOp => o = .deleteTenantState domain)
      fun o : HandlerOp => ∃ state, o = .storeTenantState domain state := by
  have hsettings : (publishSettings w next).Avoids
      fun o : HandlerOp => ∃ state, o = .storeTenantState domain state :=
    publishSettings_avoids (by rintro _ ⟨_, rfl⟩; exact .inr ⟨domain, by simp [HandlerOp.replaces]⟩)
  have hregistry : (publishRegistry w (next.registry (env.order .wildcards)) next).Avoids
      fun o : HandlerOp => o = .deleteTenantState domain := by
    unfold publishRegistry
    repeat' refine Prog.Avoids.bind (Prog.avoids_op ?_) fun _ => ?_
    all_goals first | exact Prog.avoids_op (by simp) | simp
  refine Prog.Avoids.before_bind (Prog.avoids_op (by simp)) fun _ => hsettings.before_bind fun _ =>
    Prog.Before.bind ?_ fun _ => hregistry.bind fun _ => closeReplaced_avoids _ _ (by simp) (by simp)
  refine Prog.Avoids.before_bind (Prog.avoids_op (by simp)) fun _ =>
    Prog.Avoids.before_bind ?_ fun _ => ?_
  · exact Prog.Avoids.each fun _ _ => Prog.avoids_op (by simp)
  · exact (Prog.Avoids.each fun _ _ => Prog.avoids_op (by simp)).before

end Publish

/-! ## Requests in flight -/

/-- The threads of an overlap: the publication, the requests and other traffic. -/
inductive Task (ι κ : Type) where
  | publication
  | request (i : ι)
  | other (k : κ)
  deriving DecidableEq

/-- A generation that is published while requests and other traffic run. -/
structure Overlap (w : World) (ι κ : Type) where
  env : Surroundings
  next : Generation
  clock : ι → ServeClock
  request : ι → Request
  other : κ → Traffic w

namespace Overlap

variable {w : World} {ι κ : Type} [DecidableEq ι] [DecidableEq κ] (c : Overlap w ι κ)

/-- The program of a thread; only requests return a value. -/
def threads : Task ι κ → Prog (handlerSig w) (Option Served)
  | .publication => publish w c.env c.next >>= fun _ => .ret none
  | .request i => serveHTTP w (c.clock i) (c.request i) >>= fun served => .ret (some served)
  | .other k => (c.other k).prog >>= fun _ => .ret none

/-- The state after the publication, if it runs alone. -/
def after (mem : Runtime) : Runtime := ((publish w c.env c.next).run mem).2

/-- A run from `mem`. -/
def run (mem : Runtime) (sched : List (Task ι κ)) :
    Pool (handlerSig w) (Task ι κ) (Option Served) :=
  (Pool.start c.threads mem).runs sched

section Runs

variable {c} {mem : Runtime} {sched : List (Task ι κ)}
  {t₁ t₂ : Trace (handlerSig w) (Task ι κ)} {e : Task ι κ × HandlerOp × Runtime}

/-- The steps of a request are a path of `ServeHTTP`. -/
theorem request_path (c : Overlap w ι κ) (mem : Runtime) (sched : List (Task ι κ)) (i : ι) :
    ∃ p, (c.run mem sched).threads (.request i) = (p >>= fun served => .ret (some served)) ∧
      Path (serveHTTP w (c.clock i) (c.request i)) (own (.request i) (c.run mem sched).trace) p :=
  (path_own c.threads mem sched (.request i)).of_pack

theorem reloads_eq_false {x : Task ι κ × HandlerOp × Runtime} (hx : x ∈ (c.run mem sched).trace)
    (hne : x.1 ≠ .publication) : x.2.1.reloads = false := by
  obtain ⟨task, x⟩ := x
  rw [← Bool.not_eq_true]
  cases task with
  | publication => exact absurd rfl hne
  | request i =>
    have havoids : (c.threads (.request i)).Avoids fun o : HandlerOp => o.reloads = true :=
      serveHTTP_avoids_reloads.bind fun _ => Prog.avoids_ret _
    exact Pool.avoids havoids hx
  | other k =>
    have havoids : (c.threads (.other k)).Avoids fun o : HandlerOp => o.reloads = true :=
      (c.other k).avoids.bind fun _ => Prog.avoids_ret _
    exact Pool.avoids havoids hx

/-- **Every step carries the new values**, if it stores any. -/
theorem carries {x : Task ι κ × HandlerOp × Runtime} (hx : x ∈ (c.run mem sched).trace) :
    x.2.1.Carries (c.after mem) := by
  by_cases hne : x.1 = .publication
  · obtain ⟨task, x⟩ := x
    subst hne
    have havoids : (c.threads .publication).Avoids
        fun o : HandlerOp => ¬ o.Carries (c.after mem) :=
      (publish_carries (publish_inForce mem)).bind fun _ => Prog.avoids_ret _
    exact not_not.mp (Pool.avoids havoids hx)
  · have hreloads := reloads_eq_false hx hne
    cases ho : x.2.1 <;> simp_all [HandlerOp.reloads, HandlerOp.Carries]

theorem state_eq (ht : (c.run mem sched).trace = t₁ ++ e :: t₂) : e.2.2 = replay mem t₁ := by
  have hchained := (chained_runs c.threads mem sched).1
  change Chained mem (c.run mem sched).trace at hchained
  rw [ht] at hchained
  exact state_of_split hchained

theorem mem_of_split (ht : (c.run mem sched).trace = t₁ ++ e :: t₂)
    {x : Task ι κ × HandlerOp × Runtime} (hx : x ∈ t₁) : x ∈ (c.run mem sched).trace := by
  rw [ht]
  exact List.mem_append_left _ hx

/-- A value that has not been stored is the old one. -/
theorem pub_eq_old (ht : (c.run mem sched).trace = t₁ ++ e :: t₂) {f : Field}
    (h : ∀ x ∈ t₁, x.2.1.replaces (.load f) = false) : e.2.2.pub f = mem.pub f := by
  rw [state_eq ht]
  refine replay_induction (P := fun s : Runtime => s.pub f = mem.pub f) rfl fun x hx s hs => ?_
  exact (exec_pub_of_not_replaces s (h x hx)).trans hs

/-- **A value that has been stored is the new one.** -/
theorem pub_eq_new (ht : (c.run mem sched).trace = t₁ ++ e :: t₂) {f : Field}
    (hf : f.consulted = true) (h : ∃ x ∈ t₁, x.2.1.replaces (.load f) = true) :
    e.2.2.pub f = (c.after mem).pub f := by
  rw [state_eq ht]
  obtain ⟨x, hx, hreplaces⟩ := h
  have hcarries := fun y hy => carries (mem_of_split ht (x := y) hy)
  obtain ⟨u₁, u₂, rfl⟩ := List.append_of_mem hx
  refine replay_of_split (P := fun s : Runtime => s.pub f = (c.after mem).pub f) (fun s => ?_)
    fun y hy s hs => ?_
  · exact exec_pub_of_replaces s hf (hcarries x hx) hreplaces
  · exact exec_pub_of_carries s hf (hcarries y (by simp [hy])) hs

/-- **At every step a value is the old one or the new one**. -/
theorem pub_eq (ht : (c.run mem sched).trace = t₁ ++ e :: t₂) {f : Field}
    (hf : f.consulted = true) : e.2.2.pub f = mem.pub f ∨ e.2.2.pub f = (c.after mem).pub f := by
  by_cases h : ∃ x ∈ t₁, x.2.1.replaces (.load f) = true
  · exact .inr (pub_eq_new ht hf h)
  · push Not at h
    exact .inl (pub_eq_old ht fun x hx => Bool.eq_false_of_not_eq_true (h x hx))

/-- A tenant state that has been neither deleted nor stored is the old one. -/
theorem lookup_eq_old (ht : (c.run mem sched).trace = t₁ ++ e :: t₂) {domain : GoString}
    (h : ∀ x ∈ t₁, x.2.1.replaces (.loadTenantState domain) = false) :
    e.2.2.tenantStates.lookup domain = mem.tenantStates.lookup domain := by
  rw [state_eq ht]
  refine replay_induction (P := fun s : Runtime => s.tenantStates.lookup domain =
    mem.tenantStates.lookup domain) rfl fun x hx s hs => ?_
  exact (exec_lookup_of_not_replaces s (h x hx)).trans hs

theorem publication_of_reloads {x : Task ι κ × HandlerOp × Runtime}
    (hx : x ∈ (c.run mem sched).trace) (h : x.2.1.reloads = true) : x.1 = .publication := by
  by_contra hne
  have hfalse := reloads_eq_false hx hne
  rw [h] at hfalse
  cases hfalse

/-- **A tenant state that has been stored is the new one.** -/
theorem lookup_eq_new (ht : (c.run mem sched).trace = t₁ ++ e :: t₂) {domain : GoString}
    (h : ∃ x ∈ t₁, ∃ state, x.2.1 = .storeTenantState domain state) :
    e.2.2.tenantStates.lookup domain = (c.after mem).tenantStates.lookup domain := by
  rw [state_eq ht]
  obtain ⟨⟨task, x, m⟩, hx, state, hstore⟩ := h
  have hcarries := fun y hy => carries (mem_of_split ht (x := y) hy)
  have hpublication := fun y hy => publication_of_reloads (mem_of_split ht (x := y) hy)
  obtain ⟨u₁, u₂, rfl⟩ := List.append_of_mem hx
  obtain rfl : task = .publication := hpublication _ hx (by rw [hstore]; rfl)
  obtain rfl : x = .storeTenantState domain state := hstore
  refine replay_of_split (P := fun s : Runtime => s.tenantStates.lookup domain =
    (c.after mem).tenantStates.lookup domain) (fun s => ?_) fun y hy s hs => ?_
  · exact exec_lookup_of_store (w := w) s (hcarries _ hx)
  · have hy' : y ∈ u₁ ++ (.publication, .storeTenantState domain state, m) :: u₂ := by simp [hy]
    refine exec_lookup_of_carries s (hcarries y hy') (fun hdelete => ?_) hs
    -- the publication deletes nothing after it has stored a state
    obtain ⟨task, y, m'⟩ := y
    obtain rfl : task = .publication := hpublication _ hy' (by rw [hdelete]; rfl)
    rw [List.append_assoc] at ht
    have hbefore : (c.threads .publication).Before
        (fun o : HandlerOp => o = .deleteTenantState domain)
        fun o : HandlerOp => ∃ state, o = .storeTenantState domain state :=
      (publish_deletes_first domain).bind fun _ => Prog.avoids_ret _
    exact Pool.before hbefore ht ⟨state, rfl⟩ (x := (y, m')) (by simp [hy]) hdelete

/-- What the publication does first has been done. -/
theorem done_before (ht : (c.run mem sched).trace = t₁ ++ e :: t₂) {A : HandlerOp → Prop}
    {read : HandlerOp} (hbehind : (publish w c.env c.next).Behind A
      fun o : HandlerOp => o.replaces read = true)
    (h : ∃ x ∈ t₁, x.2.1.replaces read = true) : ∃ x ∈ t₁, A x.2.1 := by
  obtain ⟨⟨task, x⟩, hx, hreplaces⟩ := h
  obtain rfl : task = .publication :=
    publication_of_reloads (mem_of_split ht hx) (reloads_of_replaces hreplaces)
  obtain ⟨u₁, u₂, rfl⟩ := List.append_of_mem hx
  rw [List.append_assoc] at ht
  have hthread : (c.threads .publication).Behind A fun o : HandlerOp => o.replaces read = true :=
    hbehind.bind fun _ => Prog.behind_ret _
  obtain ⟨y, hy, hA⟩ := Pool.behind hthread ht hreplaces
  exact ⟨_, List.mem_append_left _ hy, hA⟩

/-- **The tenant state a request loads** is that of the domain its host matched in the registry it
read before. -/
theorem loads_matched {i : ι} {domain : GoString} {s : Runtime}
    (ht : (c.run mem sched).trace = t₁ ++ (.request i, .loadTenantState domain, s) :: t₂) :
    ∃ u₁ u₂ s', t₁ = u₁ ++ (.request i, .load .registry, s') :: u₂ ∧
      matchedDomain w (c.request i) (s'.pub .registry) = some domain := by
  have hthread : Path (c.threads (.request i)) _ _ := path_of_split ht
  obtain ⟨p, -, hpath⟩ := hthread.of_pack
  obtain ⟨s', hs', hmatched⟩ := serveHTTP_loads_matched hpath
  obtain ⟨u₁, u₂, rfl⟩ := List.append_of_mem (mem_own.mp hs')
  exact ⟨u₁, u₂, s', rfl, hmatched⟩

end Runs

end Overlap

/-! ## A tenant that is put behind a password and moved -/

/-- The sample site in service. -/
def siteServing : Runtime := (runReload site siteAttempt newRuntime).2

/-- The new upstream of the sample tenant. -/
def movedUpstream : UpstreamServer := ⟨3, str "http://v"⟩

/-- The reload with the tenant moved, up to its publication. -/
def movedPrepared : Result Generation × Runtime :=
  Prog.run (prepare site movedAttempt).run siteServing

/-- What it publishes. -/
def movedGeneration : Generation := movedPrepared.1.toOption.get (by decide +kernel)

/-- The state before its publication. -/
def movedRuntime : Runtime := movedPrepared.2

/-- A request for the sample tenant. -/
def siteRequest : Request where
  method := str "GET"
  host := str "a"
  path := str "/"
  query _ := []
  header := default
  remoteAddr := str "192.0.2.1:1"
  tls := false
  contentLength := 0
  body := .noBody

/-- The tenant moves while the request is served. -/
def moving : Overlap site Unit Empty where
  env := siteSurroundings
  next := movedGeneration
  clock _ := ⟨0, 0⟩
  request _ := siteRequest
  other := nofun

end SynitWaf
