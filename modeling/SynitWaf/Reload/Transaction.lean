import SynitWaf.Reload.Model
import SynitWaf.Serve.Reads

/-!
# A reload is a transaction

Until it publishes, a reload writes only to objects it made itself, so that a failure at any point
leaves what requests read as it was.

* `Runtime.view`: what requests and readiness reports read; `Untouched`, `Quiet`: the states an
  unfinished reload leads to;
* `buildTenants_keeps`, `connectCrowdSec_keeps`, `openGeoIP_ends`, `setUpCoordinator_ends`: the parts
  of a reload;
* `Consistent`: what a reload establishes; `publish_consistent`, **`reload_ends`**;
* `Event`: reloads and other traffic; **`reload_transactional`**: every attempt of every sequence.
-/

namespace SynitWaf

open Atomic Go

/-! ## What requests read -/

/-- The counter of a tenant and the atomics of its upstreams. -/
def Runtime.atomics (s : Runtime) (state : TenantState) : ℕ × List UpstreamAtomics :=
  (s.upstreams.counter state.id, state.upstreams.map fun u => s.upstreams.up u.id)

/-- What `ServeHTTP` and `ReadinessReport` read. The settings of the upstream transports are read
when upstreams are built only. -/
structure View where
  values : (f : { f : Field // f ≠ .upstreamPool }) → f.1.Val
  tenantStates : GoMap TenantState
  atomics : GoString → Option (ℕ × List UpstreamAtomics)
  llm : LlmState
  basicAuth : BasicAuthState
  crowdsec : CrowdsecState
  limiters : LimiterState
  globalCalls : ℕ
  jwtCalls : ℕ
  lookups : ℕ
  transactions : ℕ

/-- What requests read of a state. -/
def Runtime.view (s : Runtime) : View where
  values f := s.pub f.1
  tenantStates := s.tenantStates
  atomics host := (s.tenantStates.lookup host).map s.atomics
  llm := s.llm
  basicAuth := s.basicAuth
  crowdsec := s.crowdsec
  limiters := s.limiters
  globalCalls := s.globalCalls
  jwtCalls := s.jwtCalls
  lookups := s.lookups
  transactions := s.transactions

/-- The addresses of a tenant state are below `n`. -/
def TenantState.Below (n : ℕ) (state : TenantState) : Prop :=
  state.id < n ∧ ∀ u ∈ state.upstreams, u.id < n

theorem TenantState.Below.mono {n m : ℕ} {state : TenantState} (h : state.Below n) (hn : n ≤ m) :
    state.Below m :=
  ⟨h.1.trans_le hn, fun u hu => (h.2 u hu).trans_le hn⟩

/-- The addresses of the tenant states in force have been given out. -/
def Runtime.WellFormed (s : Runtime) : Prop :=
  ∀ host state, s.tenantStates.lookup host = some state → state.Below s.next

/-! ## Unfinished reloads -/

/-- `s'` differs from `s` in new objects, GeoIP readers and the transport settings only. -/
structure Untouched (s s' : Runtime) : Prop where
  values : ∀ f, f ≠ .upstreamPool → s'.pub f = s.pub f
  tenantStates : s'.tenantStates = s.tenantStates
  llm : s'.llm = s.llm
  basicAuth : s'.basicAuth = s.basicAuth
  crowdsec : s'.crowdsec = s.crowdsec
  limiters : s'.limiters = s.limiters
  globalCalls : s'.globalCalls = s.globalCalls
  jwtCalls : s'.jwtCalls = s.jwtCalls
  lookups : s'.lookups = s.lookups
  transactions : s'.transactions = s.transactions
  running : s'.running = s.running
  next_le : s.next ≤ s'.next
  counter : ∀ i < s.next, s'.upstreams.counter i = s.upstreams.counter i
  up : ∀ i < s.next, s'.upstreams.up i = s.upstreams.up i

/-- Moreover, the same GeoIP readers are open. -/
structure Quiet (s s' : Runtime) : Prop extends Untouched s s' where
  openReaders : s'.openReaders = s.openReaders

theorem Untouched.trans {s s' s'' : Runtime} (h : Untouched s s') (h' : Untouched s' s'') :
    Untouched s s'' where
  values f hf := (h'.values f hf).trans (h.values f hf)
  tenantStates := h'.tenantStates.trans h.tenantStates
  llm := h'.llm.trans h.llm
  basicAuth := h'.basicAuth.trans h.basicAuth
  crowdsec := h'.crowdsec.trans h.crowdsec
  limiters := h'.limiters.trans h.limiters
  globalCalls := h'.globalCalls.trans h.globalCalls
  jwtCalls := h'.jwtCalls.trans h.jwtCalls
  lookups := h'.lookups.trans h.lookups
  transactions := h'.transactions.trans h.transactions
  running := h'.running.trans h.running
  next_le := h.next_le.trans h'.next_le
  counter i hi := (h'.counter i (hi.trans_le h.next_le)).trans (h.counter i hi)
  up i hi := (h'.up i (hi.trans_le h.next_le)).trans (h.up i hi)

theorem Quiet.refl (s : Runtime) : Quiet s s := by
  refine ⟨⟨?_, ?_, ?_, ?_, ?_, ?_, ?_, ?_, ?_, ?_, ?_, ?_, ?_, ?_⟩, ?_⟩ <;> intros <;> rfl

theorem Quiet.trans {s s' s'' : Runtime} (h : Quiet s s') (h' : Quiet s' s'') : Quiet s s'' :=
  ⟨h.toUntouched.trans h'.toUntouched, h'.openReaders.trans h.openReaders⟩

instance : IsTrans Runtime Quiet := ⟨fun _ _ _ => Quiet.trans⟩

/-- **Requests read the same** after an unfinished reload. -/
theorem Untouched.view_eq {s s' : Runtime} (hs : s.WellFormed) (h : Untouched s s') :
    s'.view = s.view := by
  have hatomics : ∀ host, (s.tenantStates.lookup host).map s'.atomics =
      (s.tenantStates.lookup host).map s.atomics := by
    intro host
    cases hstate : s.tenantStates.lookup host with
    | none => rfl
    | some state =>
      have hbelow := hs host state hstate
      have hups : (state.upstreams.map fun u => s'.upstreams.up u.id) =
          state.upstreams.map fun u => s.upstreams.up u.id :=
        List.map_congr_left fun u hu => h.up u.id (hbelow.2 u hu)
      simp only [Option.map_some, Runtime.atomics, h.counter state.id hbelow.1, hups]
  unfold Runtime.view
  simp only [h.tenantStates, h.llm, h.basicAuth, h.crowdsec, h.limiters, h.globalCalls, h.jwtCalls,
    h.lookups, h.transactions, View.mk.injEq, and_true, true_and]
  exact ⟨funext fun f => h.values f.1 f.2, funext hatomics⟩

theorem Untouched.wellFormed {s s' : Runtime} (hs : s.WellFormed) (h : Untouched s s') :
    s'.WellFormed := by
  intro host state hstate
  rw [h.tenantStates] at hstate
  exact (hs host state hstate).mono h.next_le

theorem quiet_alloc (s : Runtime) : Quiet s s.alloc := by
  refine ⟨⟨?_, ?_, ?_, ?_, ?_, ?_, ?_, ?_, ?_, ?_, ?_, Nat.le_succ _, ?_, ?_⟩, ?_⟩ <;>
    try (intros; rfl)
  · intro i hi
    exact Function.update_of_ne (Nat.ne_of_lt hi) _ _
  · intro i hi
    exact Function.update_of_ne (Nat.ne_of_lt hi) _ _

/-- Writing to the atomics of a new object. -/
theorem Quiet.setUp {s s' : Runtime} (h : Quiet s s') {u : ℕ} (hu : s.next ≤ u) (x : UpstreamAtomics) :
    Quiet s { s' with upstreams := s'.upstreams.setUp u x } :=
  { h with
    up := fun i hi =>
      (Function.update_of_ne (Nat.ne_of_lt (hi.trans_le hu)) _ _).trans (h.up i hi) }

theorem quiet_upstreamPool (s : Runtime) (v : Option UpstreamTransport) :
    Quiet s { s with pub := Function.update s.pub .upstreamPool v } :=
  { Quiet.refl s with values := fun _ hf => Function.update_of_ne hf _ _ }

/-! ## The parts of a reload -/

section Parts

variable {w : World} {a : Attempt} {s : Runtime} {α : Type}

theorem keeps_pure {Q : α → Runtime → Prop} {x : α} (h : Q x s) :
    (pure x : Reloading w α).Keeps Quiet s Q := Fallible.Ends.pure ⟨Quiet.refl s, h⟩

theorem keeps_ofExcept (r : Result α) :
    (Fallible.ofExcept r : Reloading w α).Keeps Quiet s fun x s' => r = .ok x ∧ s' = s :=
  Fallible.Ends.ofExcept (Quiet.refl s) fun _ hx => ⟨Quiet.refl s, hx, rfl⟩

theorem keeps_load (f : Field) : (liftM (load (w := w) f) : Reloading w f.Val).Keeps Quiet s
    fun v s' => v = s.pub f ∧ s' = s := Fallible.Ends.lift ⟨Quiet.refl s, rfl, rfl⟩

theorem keeps_alloc : (liftM (alloc (w := w)) : Reloading w ℕ).Keeps Quiet s
    fun id s' => id = s.next ∧ s' = s.alloc := Fallible.Ends.lift ⟨quiet_alloc s, rfl, rfl⟩

theorem keeps_newUpstream (url : GoString) :
    (liftM (newUpstream w url) : Reloading w UpstreamServer).Keeps Quiet s
      fun u s' => u.id < s'.next :=
  Fallible.Ends.lift ⟨(quiet_alloc s).setUp (Nat.le_refl s.next) _, Nat.lt_succ_self s.next⟩

theorem checkRestart_keeps (cfg : AppConfig) :
    (checkRestart w a cfg).Keeps Quiet s fun _ _ => True := by
  refine (keeps_load .acmeEnabled).bind fun _ _ _ _ => ?_
  refine (keeps_ofExcept _).bind fun _ _ _ _ => ?_
  refine (keeps_load .registry).bind fun _ _ _ _ => ?_
  exact (keeps_ofExcept _).mono (fun _ h => h) fun _ _ h => ⟨h.1, trivial⟩

theorem newGlobalLimiter_keeps (policy : RateLimitPolicy) :
    (liftM (newGlobalLimiter w policy) : Reloading w _).Keeps Quiet s fun _ _ => True := by
  unfold newGlobalLimiter
  split
  · exact Fallible.Ends.lift ⟨quiet_alloc s, trivial⟩
  · exact Fallible.Ends.lift ⟨Quiet.refl s, trivial⟩

/-- The addresses of the upstreams built are given out. -/
theorem buildUpstreams_keeps (fqdn : GoString) (upstreams : List Upstream) :
    (buildUpstreams w fqdn upstreams).Keeps Quiet s fun us s' => ∀ u ∈ us, u.id < s'.next := by
  induction upstreams generalizing s with
  | nil => exact keeps_pure (by simp)
  | cons upstream rest ih =>
    refine (keeps_ofExcept _).bind fun _ _ _ _ => ?_
    refine (keeps_newUpstream _).bind fun server s₁ _ hserver => ?_
    refine ih.bind fun us s₂ hquiet hus => keeps_pure ?_
    intro u hu
    rcases List.mem_cons.mp hu with rfl | hu
    · exact hserver.trans_le hquiet.next_le
    · exact hus u hu

theorem buildTenantState_keeps (fqdn : GoString) (tenant : Tenant) :
    (buildTenantState w fqdn tenant).Keeps Quiet s fun state s' => state.1.Below s'.next := by
  refine (keeps_ofExcept _).bind fun _ _ _ _ => ?_
  refine (buildUpstreams_keeps fqdn tenant.upstreams).bind fun us s₁ _ hus => ?_
  split
  · refine keeps_alloc.bind fun id s₂ hquiet hid => keeps_pure ?_
    obtain ⟨rfl, rfl⟩ := hid
    exact ⟨Nat.lt_succ_self _, fun u hu => (hus u hu).trans_le hquiet.next_le⟩
  · exact Fallible.Ends.throw (Quiet.refl s₁)

theorem tenantWAF_keeps (cfg : AppConfig) (fqdn : GoString) (tenant : Tenant) (cache : GoMap ℕ) :
    (tenantWAF w a cfg fqdn tenant cache).Keeps Quiet s fun _ _ => True := by
  unfold tenantWAF
  split
  · refine (keeps_load .wafCache).bind fun wafCache _ _ _ => ?_
    split
    · exact keeps_pure trivial
    · refine (keeps_ofExcept _).bind fun _ _ _ _ => ?_
      exact keeps_alloc.bind fun _ _ _ _ => keeps_pure trivial
  · exact keeps_pure trivial

/-- The addresses of the tenant states built so far are given out. -/
def Built.Below (n : ℕ) (b : Built) : Prop :=
  ∀ host state, b.states.lookup host = some state → state.Below n

theorem Built.Below.add {b : Built} {n m : ℕ} {host : GoString} {entry : Entry}
    {state : LiveTenantState} {cache : GoMap ℕ} (h : b.Below n) (hn : n ≤ m)
    (hstate : state.1.Below m) : (b.add host entry state cache).Below m := by
  intro key st hlookup
  by_cases hkey : key = host
  · subst hkey
    rw [Built.add, AList.lookup_insert] at hlookup
    cases hlookup
    exact hstate
  · rw [Built.add, AList.lookup_insert_ne hkey] at hlookup
    exact (h key st hlookup).mono hn

/-- A round adds the normalized host of the tenant. -/
theorem buildTenant_keeps {b : Built} (hb : b.Below s.next) (cfg : AppConfig) (fqdn : GoString)
    (tenant : Tenant) : (buildTenant w a cfg b fqdn tenant).Keeps Quiet s fun b' s' =>
      b'.Below s'.next ∧ ∃ entry, b'.mapping = b.mapping.insert (normalizeHost w.unicode fqdn) entry := by
  refine (tenantWAF_keeps cfg fqdn tenant b.wafCache).bind fun waf s₁ h₁ _ => ?_
  refine (keeps_ofExcept _).bind fun page s₂ h₂ _ => ?_
  refine (buildTenantState_keeps _ tenant).bind fun state s₃ h₃ hstate => keeps_pure ⟨?_, _, rfl⟩
  exact hb.add ((h₁.trans h₂).trans h₃).next_le hstate

theorem keys_insert_of_new {m : GoMap Entry} {host : GoString} {entry : Entry} (h : host ∉ m) :
    (m.insert host entry).keys = host :: m.keys := by
  rw [AList.insert_of_notMem h]
  rfl

/-- The hosts of the tenants are added one after the other; none is lost if they are distinct. -/
theorem buildTenants_keeps {b : Built} (hb : b.Below s.next) (cfg : AppConfig)
    (tenants : List (GoString × Tenant)) : (buildTenants w a cfg b tenants).Keeps Quiet s
      fun b' s' => b'.Below s'.next ∧ ((tenants.map fun t => normalizeHost w.unicode t.1).Nodup →
        (∀ t ∈ tenants, normalizeHost w.unicode t.1 ∉ b.mapping) → b'.mapping.keys =
          (tenants.map fun t => normalizeHost w.unicode t.1).reverse ++ b.mapping.keys) := by
  induction tenants generalizing b s with
  | nil => exact keeps_pure ⟨hb, fun _ _ => rfl⟩
  | cons t rest ih =>
    refine (buildTenant_keeps hb cfg t.1 t.2).bind fun b₁ s₁ _ hb₁ => ?_
    refine Fallible.Ends.mono (ih (s := s₁) hb₁.1) (fun _ h => h) fun b₂ s₂ h₂ => ?_
    refine ⟨h₂.1, h₂.2.1, fun hnodup hnew => ?_⟩
    obtain ⟨entry, hmapping⟩ := hb₁.2
    obtain ⟨hhost, hrest⟩ := List.nodup_cons.mp hnodup
    have hnew₁ : ∀ t' ∈ rest, normalizeHost w.unicode t'.1 ∉ b₁.mapping := by
      intro t' ht'
      rw [hmapping, AList.mem_insert, not_or]
      refine ⟨fun heq => hhost (List.mem_map.mpr ⟨t', ht', heq⟩), ?_⟩
      exact hnew t' (List.mem_cons_of_mem _ ht')
    rw [h₂.2.2 hrest hnew₁, hmapping, keys_insert_of_new (hnew t List.mem_cons_self)]
    simp

theorem connectCrowdSec_keeps (cfg : AppConfig) (required : Bool) :
    (connectCrowdSec w a cfg required).Keeps Quiet s fun _ _ => True := by
  unfold connectCrowdSec
  split
  · refine keeps_alloc.bind fun _ _ _ _ => ?_
    refine (keeps_ofExcept _).bind fun _ _ _ _ => ?_
    split
    · exact (keeps_ofExcept _).bind fun _ _ _ _ => keeps_pure trivial
    · exact keeps_pure trivial
  · exact keeps_pure trivial

/-! ## GeoIP readers and coordinators -/

theorem openCountryLookup_ends (path : GoString) : (openCountryLookup w a path).Ends s (Quiet s)
    fun reader s' => Untouched s s' ∧ s'.openReaders = reader :: s.openReaders := by
  have halloc := quiet_alloc s
  refine Fallible.Ends.bind (Q := fun _ s' => s = s')
    (Fallible.Ends.ofExcept (Quiet.refl s) fun _ _ => rfl) ?_
  rintro _ _ rfl
  refine Fallible.Ends.bind (Q := fun reader s' => reader = s.next ∧
    s' = { s.alloc with openReaders := s.next :: s.openReaders }) (Fallible.Ends.lift ⟨rfl, rfl⟩) ?_
  rintro _ _ ⟨rfl, rfl⟩
  split
  · exact Fallible.Ends.pure ⟨{ halloc with }, rfl⟩
  · refine Fallible.Ends.bind (Q := fun _ => Quiet s) (Fallible.Ends.lift ?_) fun _ _ h =>
      Fallible.Ends.throw h
    exact { halloc with openReaders := List.erase_cons_head s.next s.openReaders }

/-- The reader returned is open; after a failure none is left open. -/
theorem openGeoIP_ends (cfg : AppConfig) (required : Bool) :
    (openGeoIP w a cfg required).Ends s (Quiet s)
      fun g s' => Untouched s s' ∧ s'.openReaders = g.toList ++ s.openReaders := by
  unfold openGeoIP
  split
  · exact Fallible.Ends.bind (openCountryLookup_ends _) fun _ _ h => Fallible.Ends.pure h
  · exact Fallible.Ends.pure ⟨(Quiet.refl s).toUntouched, rfl⟩

section Coordinator

variable {g : Option ℕ} {readers : List ℕ}

theorem closeAndFail_ends (hs : s.openReaders = g.toList ++ readers) (e : GoString)
    {Q : α → Runtime → Prop} : (closeAndFail w g e : Reloading w α).Ends s
      (fun s' => Untouched s s' ∧ s'.openReaders = readers) Q := by
  have hself := (Quiet.refl s).toUntouched
  cases g with
  | none => exact Fallible.Ends.throw ⟨hself, hs⟩
  | some reader =>
    refine Fallible.Ends.bind (Q := fun _ s' => Untouched s s' ∧ s'.openReaders = readers)
      (Fallible.Ends.lift ⟨{ hself with }, ?_⟩) fun _ _ h => Fallible.Ends.throw h
    change s.openReaders.erase reader = readers
    rw [hs]
    exact List.erase_cons_head reader readers

/-- After a failure the GeoIP reader is closed and no coordinator was started. -/
theorem setUpCoordinator_ends (hs : s.openReaders = g.toList ++ readers) (c : CoordinatorConfig) :
    (setUpCoordinator w a c g).Ends s (fun s' => Untouched s s' ∧ s'.openReaders = readers)
      fun _ s' => s.next ≤ s'.next := by
  unfold setUpCoordinator
  split
  · split
    · exact closeAndFail_ends hs _
    · refine Fallible.Ends.bind (Q := fun _ s' => s' = s.alloc) (Fallible.Ends.lift rfl) ?_
      rintro id _ rfl
      refine Fallible.Ends.bind (Q := fun _ s' => s' = s.alloc) (Fallible.Ends.lift rfl) ?_
      rintro old _ rfl
      have hfail : ∀ e, (closeAndFail w g e : Reloading w (Option Coordinator)).Ends s.alloc
          (fun s' => Untouched s s' ∧ s'.openReaders = readers)
          fun _ s' => s.next ≤ s'.next := fun e =>
        (closeAndFail_ends (s := s.alloc) hs e).mono
          (fun s' h => ⟨(quiet_alloc s).toUntouched.trans h.1, h.2⟩) fun _ _ h => h
      split
      · exact Fallible.Ends.pure (Nat.le_succ _)
      · split
        · exact hfail _
        · split
          · exact hfail _
          · exact Fallible.Ends.bind (Q := fun _ s' => s.next ≤ s'.next)
              (Fallible.Ends.lift (Nat.le_succ _)) fun _ _ h => Fallible.Ends.pure h
  · exact Fallible.Ends.pure (Nat.le_refl _)

end Coordinator

end Parts

/-! ## Publication -/

/-- What a successful reload of `cfg` establishes: the normalized tenant keys, none lost or merged,
are the hosts of the mapping and of the tenant states; the index belongs to the mapping; and every
tenant has an upstream. -/
structure Consistent (unicode : Unicode) (cfg : AppConfig) (s : Runtime) : Prop where
  hosts : (s.pub .registry).mapping.keys.Perm (cfg.tenants.keys.map (normalizeHost unicode))
  states : s.tenantStates.keys.Perm (s.pub .registry).mapping.keys
  wildcards : ∀ order, (s.pub .registry).wildcards =
    some (buildWildcardIndex order (s.pub .registry).mapping)
  upstreams : ∀ host state, s.tenantStates.lookup host = some state → state.upstreams ≠ []

section Publish

variable {w : World} {a : Attempt} {s : Runtime}

theorem foldl_tenantStates {β : Type} (step : GoMap TenantState → β → GoMap TenantState)
    (l : List β) (s : Runtime) :
    l.foldl (fun s b => { s with tenantStates := step s.tenantStates b }) s =
      { s with tenantStates := l.foldl step s.tenantStates } := by
  induction l generalizing s with
  | nil => rfl
  | cons b l ih => rw [List.foldl_cons, ih, List.foldl_cons]

theorem deleteAll_run (keys : List GoString) : ((Prog.each (fun key =>
      Prog.op (S := handlerSig w) (.deleteTenantState key)) keys).run s).2 =
    { s with tenantStates := keys.foldl (fun m k => m.erase k) s.tenantStates } :=
  (Prog.run_each _ _ _).trans (foldl_tenantStates (fun m k => m.erase k) _ _)

theorem storeAll_run (l : List (GoString × TenantState)) : ((Prog.each (fun t : GoString × TenantState =>
      Prog.op (S := handlerSig w) (.storeTenantState t.1 t.2)) l).run s).2 =
    { s with tenantStates := l.foldl (fun m t => m.insert t.1 t.2) s.tenantStates } :=
  (Prog.run_each _ _ _).trans (foldl_tenantStates (fun m (t : GoString × TenantState) =>
    m.insert t.1 t.2) _ _)

/-- The map of tenant states is replaced as a whole, nothing else changes. -/
theorem replaceTenantStates_run (previous order : KeyOrder) (next : GoMap TenantState) :
    ∃ states, ((replaceTenantStates w previous order next).run s).2 =
        { s with tenantStates := states } ∧
      ∀ host, states.lookup host = next.lookup host := by
  refine ⟨_, ?_, fun host => lookup_replace (m := s.tenantStates) order previous next host⟩
  have hrange : (handlerSig w).exec .rangeTenantStates s = (s.tenantStates.keys, s) := rfl
  rw [replaceTenantStates, Prog.op_bind, Prog.run_act, hrange, Prog.run_bind, storeAll_run,
    deleteAll_run]

theorem closeReplaced_run (oldCoordinator : Option Coordinator) (oldGeoIP : Option ℕ)
    (next : Generation) : ∃ readers running,
      ((closeReplaced w oldCoordinator oldGeoIP next).run s).2 =
        { s with openReaders := readers, running := running } := by
  unfold closeReplaced
  cases oldCoordinator <;> cases oldGeoIP <;> dsimp only <;> repeat' split
  all_goals exact ⟨_, _, rfl⟩

/-- **The state after publication.** -/
theorem publish_run (env : Surroundings) (next : Generation) :
    ∃ states readers running,
      ((publish w env next).run s).2 =
        { ((publishRegistry w (next.registry (env.order .wildcards)) next).run
            { ((publishSettings w next).run s).2 with tenantStates := states }).2 with
          openReaders := readers, running := running } ∧
      ∀ host, states.lookup host = next.built.states.lookup host := by
  let s₁ := ((publishSettings w next).run s).2
  obtain ⟨states, hreplace, hlookup⟩ :=
    replaceTenantStates_run (w := w) (s := s₁) (env.order .previous) (env.order .publish)
      next.built.states
  let s₂ := ((publishRegistry w (next.registry (env.order .wildcards)) next).run
    { s₁ with tenantStates := states }).2
  obtain ⟨readers, running, hclose⟩ := closeReplaced_run (w := w) (s := s₂) (s.pub .coordinator)
    (s.pub .geoIP) next
  refine ⟨states, readers, running, ?_, hlookup⟩
  rw [publish, Prog.run_bind, Prog.run_bind, Prog.run_bind, Prog.run_bind]
  rw [← hclose]
  have : ((replaceTenantStates w (env.order .previous) (env.order .publish)
    next.built.states).run s₁).2 = _ := hreplace
  exact congrArg (fun t => ((closeReplaced w (s.pub .coordinator) (s.pub .geoIP) next).run
    ((publishRegistry w (next.registry (env.order .wildcards)) next).run t).2).2) this

theorem publish_registry (env : Surroundings) (next : Generation) :
    ((publish w env next).run s).2.pub .registry = next.registry (env.order .wildcards) := by
  obtain ⟨_, _, _, hrun, -⟩ := publish_run (w := w) (s := s) env next
  rw [hrun]
  rfl

theorem publish_lookup (env : Surroundings) (next : Generation) (host : GoString) :
    ((publish w env next).run s).2.tenantStates.lookup host = next.built.states.lookup host := by
  obtain ⟨_, _, _, hrun, hlookup⟩ := publish_run (w := w) (s := s) env next
  rw [hrun]
  exact hlookup host

theorem publish_next (env : Surroundings) (next : Generation) :
    ((publish w env next).run s).2.next = s.next + 1 := by
  obtain ⟨_, _, _, hrun, -⟩ := publish_run (w := w) (s := s) env next
  rw [hrun]
  rfl

theorem probeTenantStates_next (states : GoMap TenantState) :
    ((probeTenantStates w a states).run s).2.next = s.next := by
  have havoids : (probeTenantStates w a states).Avoids fun o : HandlerOp => ∀ u, o ≠ .upstream u :=
    Prog.Avoids.each fun _ _ => Prog.Avoids.each fun _ _ => Prog.Avoids.lift (fun o h => h o rfl) _
  refine havoids.run (I := fun s' => s'.next = s.next) (fun o s' ho h => ?_) rfl
  simp only [ne_eq, not_forall, not_not] at ho
  obtain ⟨u, rfl⟩ := ho
  exact h

/-- The hosts built for a valid configuration are its normalized tenant keys. -/
theorem built_hosts {cfg : AppConfig} (hvalid : validateConfig w.lib a.env cfg = .ok ()) {b : Built}
    (hb : ((GoMap.visit (a.env.order .build) cfg.tenants).map fun t =>
        normalizeHost w.unicode t.1).Nodup →
      (∀ t ∈ GoMap.visit (a.env.order .build) cfg.tenants,
        normalizeHost w.unicode t.1 ∉ Built.empty.mapping) →
      b.mapping.keys = ((GoMap.visit (a.env.order .build) cfg.tenants).map fun t =>
        normalizeHost w.unicode t.1).reverse ++ Built.empty.mapping.keys) :
    b.mapping.keys.Perm (cfg.tenants.keys.map (normalizeHost w.unicode)) := by
  have hvisit : ((GoMap.visit (a.env.order .build) cfg.tenants).map fun t =>
      normalizeHost w.unicode t.1).Perm (cfg.tenants.keys.map (normalizeHost w.unicode)) := by
    have hperm := ((a.env.order .build).perm cfg.tenants.keys).map (normalizeHost w.unicode)
    rwa [← visit_map_fst, List.map_map] at hperm
  have hkeys := hb (hvisit.nodup_iff.mpr (validateConfig_hosts_nodup hvalid))
    fun _ _ => AList.notMem_empty _
  rw [hkeys]
  have hempty : Built.empty.mapping.keys = [] := rfl
  rw [hempty, List.append_nil]
  exact (List.reverse_perm _).trans hvisit

/-- Publishing the tenants built for a configuration. -/
theorem publish_consistent {cfg : AppConfig} (next : Generation)
    (hkeys : next.built.mapping.keys.Perm (cfg.tenants.keys.map (normalizeHost w.unicode)))
    (hbelow : next.built.Below s.next) :
    ((publish w a.env next).run s).2.WellFormed ∧
      Consistent w.unicode cfg ((publish w a.env next).run s).2 := by
  have hregistry := publish_registry (w := w) (s := s) a.env next
  have hlookup := publish_lookup (w := w) (s := s) a.env next
  have hnext := publish_next (w := w) (s := s) a.env next
  refine ⟨fun host state hstate => ?_, ?_, ?_, ?_, ?_⟩
  · rw [hlookup] at hstate
    rw [hnext]
    exact (hbelow host state hstate).mono (Nat.le_succ _)
  · rw [hregistry]
    exact hkeys
  · rw [hregistry, Generation.registry, next.built.keys_eq]
    refine (List.perm_ext_iff_of_nodup (AList.keys_nodup _) (AList.keys_nodup _)).mpr fun host => ?_
    rw [← AList.mem_keys, ← AList.mem_keys, ← AList.lookup_isSome, ← AList.lookup_isSome, hlookup]
  · intro order
    rw [hregistry, Generation.registry, buildWildcardIndex_eq]
  · intro host state hstate
    rw [hlookup] at hstate
    exact next.built.upstreams_ne host state hstate

/-- How the part of a reload before the publication ends. -/
theorem prepare_ends : (prepare w a).Ends s (Quiet s) fun next s' => next.built.Below s'.next ∧
    ∃ cfg, loadConfig w.lib a.env a.configPath = .ok cfg ∧
      next.built.mapping.keys.Perm (cfg.tenants.keys.map (normalizeHost w.unicode)) := by
  refine Fallible.Keeps.bind_ends (Quiet.refl s) (keeps_ofExcept _) fun cfg _ hs _ hload => ?_
  obtain ⟨hload, rfl⟩ := hload
  refine Fallible.Keeps.bind_ends hs (checkRestart_keeps cfg) fun _ s₁ h₁ _ _ => ?_
  refine Fallible.Keeps.bind_ends h₁ (newGlobalLimiter_keeps _) fun limiter s₂ h₂ _ _ => ?_
  have hpool : (liftM (store (w := w) .upstreamPool (some cfg.globalSettings.upstreamTransport)) :
      Reloading w Unit).Keeps Quiet s₂ fun _ _ => True :=
    Fallible.Ends.lift ⟨quiet_upstreamPool s₂ _, trivial⟩
  refine Fallible.Keeps.bind_ends h₂ hpool fun _ s₃ h₃ _ _ => ?_
  have hempty : Built.empty.Below s₃.next := fun _ _ h => by simp [Built.empty] at h
  refine Fallible.Keeps.bind_ends h₃ (buildTenants_keeps hempty cfg _) fun built s₄ h₄ _ hbuilt => ?_
  refine Fallible.Keeps.bind_ends h₄ (connectCrowdSec_keeps cfg _) fun bouncer s₅ h₅ h₄₅ _ => ?_
  -- from here on a GeoIP reader may be open, which a failure has to close
  refine Fallible.Ends.bind ((openGeoIP_ends cfg built.geoIPRequired).mono (fun _ h => h₅.trans h)
    fun _ _ h => h) fun geoIP s₆ h₆ => ?_
  refine Fallible.Ends.bind ((setUpCoordinator_ends h₆.2 cfg.globalSettings.coordinator).mono
    (fun s' h => ?_) fun _ _ h => h) fun coordinator s₇ h₇ => ?_
  · exact h₅.trans ⟨h₆.1.trans h.1, h.2⟩
  refine Fallible.Ends.bind (Fallible.Ends.lift (Q := fun _ s' => s'.next = s₇.next)
    (probeTenantStates_next built.states)) fun _ s₈ h₈ => Fallible.Ends.pure ?_
  refine ⟨fun host state hstate => (hbuilt.1 host state hstate).mono ?_, cfg, hload,
    built_hosts (loadConfig_valid hload) hbuilt.2⟩
  calc s₄.next ≤ s₅.next := h₄₅.next_le
    _ ≤ s₆.next := h₆.1.next_le
    _ ≤ s₇.next := h₇
    _ = s₈.next := h₈.symm

/-- **How a reload ends.** -/
theorem reload_ends : (reload w a).Ends s (Quiet s) fun _ s' => s'.WellFormed ∧
    ∃ cfg, loadConfig w.lib a.env a.configPath = .ok cfg ∧ Consistent w.unicode cfg s' := by
  refine Fallible.Ends.bind prepare_ends fun next s₁ hnext => Fallible.Ends.lift ?_
  obtain ⟨hbelow, cfg, hload, hkeys⟩ := hnext
  obtain ⟨hwell, hconsistent⟩ := publish_consistent (w := w) (a := a) (s := s₁) next hkeys hbelow
  exact ⟨hwell, cfg, hload, hconsistent⟩

end Publish

/-! ## Sequences of reloads -/

section Events

variable {w : World}

/-- A program that leaves the configuration alone. -/
structure Traffic (w : World) where
  prog : Prog (handlerSig w) Unit
  avoids : prog.Avoids fun o : HandlerOp => o.reloads = true

/-- A request. -/
def Traffic.request (clock : ServeClock) (r : Request) : Traffic w where
  prog := serveHTTP w clock r >>= fun _ => .ret ()
  avoids := serveHTTP_avoids_reloads.bind fun _ => Prog.avoids_ret ()

/-- A health check or a recorded failure of an upstream. -/
def Traffic.upstream (p : Prog upstreamSig Unit) : Traffic w where
  prog := p.lift (upstreamPart w)
  avoids := Prog.Avoids.lift (fun _ => by simp [upstreamPart, HandlerOp.reloads]) p

/-- An attempt to reload, or something else. -/
inductive Event (w : World) where
  | attempt (a : Attempt)
  | traffic (t : Traffic w)

/-- The result of an attempt and the state after it. -/
def runReload (w : World) (a : Attempt) (s : Runtime) : Result Unit × Runtime :=
  Prog.run (reload w a).run s

/-- The state after an event. -/
def Event.run : Event w → Runtime → Runtime
  | .attempt a, s => (runReload w a s).2
  | .traffic t, s => (t.prog.run s).2

/-- The state after a sequence of events. -/
def runEvents (events : List (Event w)) (s : Runtime) : Runtime := events.foldl (fun s e => e.run s) s

/-- An attempt fails with everything as it was, or it succeeds. -/
theorem runReload_cases (w : World) (a : Attempt) (s : Runtime) :
    (∃ e s', runReload w a s = (.error e, s') ∧ Quiet s s') ∨
      ∃ s', runReload w a s = (.ok (), s') ∧ s'.WellFormed ∧
        ∃ cfg, loadConfig w.lib a.env a.configPath = .ok cfg ∧ Consistent w.unicode cfg s' := by
  have hends := reload_ends (w := w) (a := a) (s := s)
  unfold Fallible.Ends at hends
  unfold runReload
  generalize Prog.run (reload w a).run s = out at hends
  obtain ⟨e | u, s'⟩ := out
  · exact .inl ⟨e, s', rfl, hends⟩
  · exact .inr ⟨s', rfl, hends⟩

theorem Traffic.wellFormed (t : Traffic w) {s : Runtime} (hs : s.WellFormed) :
    (t.prog.run s).2.WellFormed := by
  have hkeep := t.avoids.run
    (I := fun s' => s'.tenantStates = s.tenantStates ∧ s'.next = s.next) (fun o s' ho h => by
      rw [Bool.not_eq_true] at ho
      cases o <;> first | exact h | cases ho) ⟨rfl, rfl⟩
  intro host state hstate
  rw [hkeep.1] at hstate
  rw [hkeep.2]
  exact hs host state hstate

theorem Event.wellFormed (e : Event w) {s : Runtime} (hs : s.WellFormed) : (e.run s).WellFormed := by
  cases e with
  | traffic t => exact t.wellFormed hs
  | attempt a =>
    change (runReload w a s).2.WellFormed
    obtain ⟨e, s', hrun, hquiet⟩ | ⟨s', hrun, hwell, -⟩ := runReload_cases w a s
    · rw [hrun]
      exact hquiet.toUntouched.wellFormed hs
    · rw [hrun]
      exact hwell

theorem runEvents_wellFormed (events : List (Event w)) {s : Runtime} (hs : s.WellFormed) :
    (runEvents events s).WellFormed := by
  induction events generalizing s with
  | nil => exact hs
  | cons e events ih => exact ih (e.wellFormed hs)

end Events

/-- **A reload is a transaction.** After every sequence of reloads and other traffic, and for every
configuration and every outcome of the external steps: an attempt that fails leaves what requests
and readiness reports read as it was, every GeoIP reader it opened closed, and no coordinator
running that was not running before; an attempt that succeeds leaves a consistent state. -/
theorem reload_transactional (w : World) (history : List (Event w)) (a : Attempt) :
    match runReload w a (runEvents history newRuntime) with
    | (.error _, s') =>
      s'.view = (runEvents history newRuntime).view ∧
        s'.openReaders = (runEvents history newRuntime).openReaders ∧
        s'.running = (runEvents history newRuntime).running
    | (.ok (), s') =>
      ∃ cfg, loadConfig w.lib a.env a.configPath = .ok cfg ∧ Consistent w.unicode cfg s' := by
  have hnew : newRuntime.WellFormed := fun _ _ h => by simp [newRuntime] at h
  have hwell := runEvents_wellFormed history hnew
  obtain ⟨e, s', hrun, hquiet⟩ | ⟨s', hrun, -, hcfg⟩ :=
    runReload_cases w a (runEvents history newRuntime)
  · rw [hrun]
    exact ⟨hquiet.toUntouched.view_eq hwell, hquiet.openReaders, hquiet.running⟩
  · rw [hrun]
    exact hcfg

example : (runReload site siteAttempt newRuntime).1 = .ok () := by decide +kernel

end SynitWaf
