import SynitWaf.Machine
import SynitWaf.Reload.Transaction

/-!
# Certificates for the served domains

With ACME enabled, `run` obtains the certificates of the domains at hand before it registers a manager
for those that later reloads add. The watcher may reload the configuration at any moment of this.

* `reload_checked`: what a reload that succeeds has checked;
* `Certificates`, `certificateStep`: the start of the service and the reloads after it;
* **`served_domains_managed`**: no domain is served without a managed certificate.
-/

namespace SynitWaf

open Atomic Go Machine

/-! ## Reloads -/

section Reload

variable {w : World} {a : Attempt} {s : Runtime} {cfg : AppConfig}

/-- What a reload has checked against the state it found. -/
structure Checked (w : World) (a : Attempt) (s : Runtime) (cfg : AppConfig) : Prop where
  loaded : loadConfig w.lib a.env a.configPath = .ok cfg
  acme : s.pub .acmeEnabled ≠ some (!cfg.globalSettings.acme.enabled)
  added : addedDomains w a cfg (s.pub .registry) = [] ∨ a.hasDomainManager = true

theorem checkRestart_ends (hload : loadConfig w.lib a.env a.configPath = .ok cfg) :
    (checkRestart w a cfg).Ends s (fun _ => True) fun _ _ => Checked w a s cfg := by
  refine .bind (.lift (Q := fun v s' => v = s.pub .acmeEnabled ∧ s = s') ⟨rfl, rfl⟩) ?_
  rintro _ _ ⟨rfl, rfl⟩
  refine .bind (.ofExcept (Q := fun _ s' => s = s' ∧ _) trivial fun _ h => ⟨rfl, refuse_eq_ok.mp h⟩) ?_
  rintro _ _ ⟨rfl, hacme⟩
  refine .bind (.lift (Q := fun v _ => v = s.pub .registry) rfl) ?_
  rintro _ s' rfl
  refine .ofExcept trivial fun _ h => ⟨hload, hacme, ?_⟩
  rw [refuse_eq_ok, not_and_or, not_ne_iff, Bool.not_eq_false] at h
  exact h

theorem ends_trivial {α : Type} (p : Reloading w α) (s : Runtime) :
    p.Ends s (fun _ => True) fun _ _ => True := by
  unfold Fallible.Ends
  split <;> trivial

theorem reload_checked {s' : Runtime} (h : runReload w a s = (.ok (), s')) :
    ∃ cfg, Checked w a s cfg ∧ s'.pub .acmeEnabled = some cfg.globalSettings.acme.enabled := by
  have hends : (reload w a).Ends s (fun _ => True) fun _ s' =>
      ∃ cfg, Checked w a s cfg ∧ s'.pub .acmeEnabled = some cfg.globalSettings.acme.enabled := by
    refine .bind (Q := fun next _ => ∃ cfg, Checked w a s cfg ∧
      next.acmeEnabled = cfg.globalSettings.acme.enabled) ?_ fun next s₁ hnext => .lift ?_
    · refine .bind (.ofExcept (Q := fun cfg s' => s = s' ∧
        loadConfig w.lib a.env a.configPath = .ok cfg) trivial fun _ h => ⟨rfl, h⟩) ?_
      rintro cfg _ ⟨rfl, hload⟩
      refine .bind (checkRestart_ends hload) fun _ _ hchecked => ?_
      -- whatever the other parts do, if they succeed
      iterate 7 refine .bind (ends_trivial _ _) fun _ _ _ => ?_
      exact .pure ⟨cfg, hchecked, rfl⟩
    · obtain ⟨cfg, hchecked, henabled⟩ := hnext
      obtain ⟨_, _, _, hrun, -⟩ := publish_run (w := w) (s := s₁) a.env next
      rw [hrun]
      exact ⟨cfg, hchecked, congrArg some henabled⟩
  unfold Fallible.Ends at hends
  unfold runReload at h
  rw [h] at hends
  exact hends

/-- A valid configuration has a tenant. -/
theorem Consistent.keys_ne (h : Consistent w.unicode cfg s)
    (hload : loadConfig w.lib a.env a.configPath = .ok cfg) : (s.pub .registry).mapping.keys ≠ [] := by
  intro hnil
  have hhosts := h.hosts
  rw [hnil, List.nil_perm, List.map_eq_nil_iff] at hhosts
  refine absurd hhosts ?_
  obtain ⟨_, hglobal, -⟩ := result_bind_eq_ok.mp (loadConfig_valid hload)
  unfold validateGlobal at hglobal
  repeat' first
    | exact refuse_eq_ok.mp hglobal
    | obtain ⟨_, -, hglobal⟩ := result_bind_eq_ok.mp hglobal
    | split at hglobal

/-- A domain of the configuration is served already, or it is added. -/
theorem mem_keys_or_added {registry : Registry} {domain : GoString}
    (hacme : cfg.globalSettings.acme.enabled = true) (htenants : registry.mapping.keys ≠ [])
    (h : domain ∈ cfg.tenants.keys.map (normalizeHost w.unicode)) :
    domain ∈ registry.mapping.keys ∨ domain ∈ addedDomains w a cfg registry := by
  by_cases hold : domain ∈ registry.mapping.keys
  · exact .inl hold
  · have hperm := ((a.env.order .addedDomains).perm cfg.tenants.keys).map (normalizeHost w.unicode)
    rw [← visit_map_fst, List.map_map] at hperm
    rw [addedDomains, if_pos ⟨hacme, htenants⟩]
    exact .inr (List.mem_filter.mpr ⟨hperm.mem_iff.mpr h, by simpa using hold⟩)

end Reload

/-! ## The start of the service -/

/-- `GetDomains`. -/
def Registry.getDomains (r : Registry) : List GoString := r.mapping.keys.mergeSort fun x y => x ≤ y

/-- How far `run` has come: after the first reload, `GetDomains`, `ManageSync`, `SetDomainManager`. -/
inductive StartPhase where
  | loaded
  | listed (domains : List GoString)
  | synced
  | serving
  deriving DecidableEq

/-- The service with ACME enabled, and the domains given to the certificate manager; `pending` are
those that a call of `Reload` under way has still to give to it. -/
structure Certificates where
  runtime : Runtime
  phase : StartPhase
  managed : List GoString
  pending : Option (List GoString)

/-- The next step of `run`, a call of `Reload` by the watcher up to the end of its publication and the
rest of it, or a request. -/
inductive CertificateStep (w : World) where
  | proceed
  | reload (a : Attempt)
  | handOver
  | traffic (t : Traffic w)

/-- The domains that a call of `Reload` gives to the manager. -/
def handedOver (w : World) (a : Attempt) (s : Runtime) : List GoString :=
  match (runReload w a s).1, loadConfig w.lib a.env a.configPath with
  | .ok (), .ok cfg => addedDomains w a cfg (s.pub .registry)
  | _, _ => []

/-- One step; a reload finds the manager once `run` has set it. `SetDomainManager` and other reloads
wait for the lock that a call of `Reload` holds until it returns. -/
def certificateStep (w : World) (s : Certificates) : CertificateStep w → Option Certificates
  | .proceed =>
    match s.phase with
    | .loaded => some { s with phase := .listed (s.runtime.pub .registry).getDomains }
    | .listed domains => some { s with phase := .synced, managed := s.managed ++ domains }
    | .synced => if s.pending.isNone then some { s with phase := .serving } else none
    | .serving => none
  | .reload a =>
    let a := { a with hasDomainManager := s.phase = .serving }
    if s.pending.isNone then
      some { s with
        runtime := (runReload w a s.runtime).2
        pending := some (handedOver w a s.runtime) }
    else none
  | .handOver => s.pending.map fun domains =>
    { s with managed := s.managed ++ domains, pending := none }
  | .traffic t => some { s with runtime := (t.prog.run s.runtime).2 }

/-- The domains that are managed or about to be. -/
def Certificates.covered (s : Certificates) : List GoString :=
  match s.phase with
  | .loaded => (s.runtime.pub .registry).mapping.keys
  | .listed domains => domains
  | _ => s.managed ++ s.pending.getD []

/-- ACME is on, and every domain is covered. -/
structure Certificates.Inv (s : Certificates) : Prop where
  acme : s.runtime.pub .acmeEnabled = some true
  tenants : (s.runtime.pub .registry).mapping.keys ≠ []
  covered : ∀ domain ∈ (s.runtime.pub .registry).mapping.keys, domain ∈ s.covered

section Certificates

variable {w : World} {s s' : Certificates}

/-- The published values stay as they are. -/
theorem Certificates.Inv.quiet (h : s.Inv) {runtime : Runtime}
    (hacme : runtime.pub .acmeEnabled = s.runtime.pub .acmeEnabled)
    (hregistry : runtime.pub .registry = s.runtime.pub .registry) :
    Certificates.Inv { s with runtime := runtime } := by
  refine ⟨hacme.trans h.acme, hregistry ▸ h.tenants, ?_⟩
  have hcovered := h.covered
  unfold Certificates.covered at hcovered ⊢
  simp only [hregistry]
  exact hcovered

/-- A reload keeps to the domains that are covered, or it hands over the others. -/
theorem Certificates.Inv.reload (h : s.Inv) (a : Attempt)
    (hl : certificateStep w s (.reload a) = some s') : s'.Inv := by
  simp only [certificateStep, Option.ite_none_right_eq_some, Option.some.injEq] at hl
  obtain ⟨hnone, rfl⟩ := hl
  have hpending : s.pending = none := Option.isNone_iff_eq_none.mp hnone
  have hmanager : ({ a with hasDomainManager := s.phase = .serving } : Attempt).hasDomainManager = true →
    s.phase = .serving := of_decide_eq_true
  generalize ({ a with hasDomainManager := s.phase = .serving } : Attempt) = b at hmanager
  obtain ⟨e, r, hrun, hquiet⟩ | ⟨r, hrun, -, cfg, hload, hcfg⟩ := runReload_cases w b s.runtime
  · have hover : handedOver w b s.runtime = [] := by simp [handedOver, hrun]
    obtain ⟨hacme, htenants, hcovered⟩ :=
      h.quiet (hquiet.values .acmeEnabled (by decide)) (hquiet.values .registry (by decide))
    simp only [hrun, hover]
    refine ⟨hacme, htenants, fun domain hdomain => ?_⟩
    simpa [Certificates.covered, hpending] using hcovered domain hdomain
  · obtain ⟨cfg', hchecked, henabled⟩ := reload_checked hrun
    obtain rfl : cfg = cfg' := Except.ok.inj (hload.symm.trans hchecked.loaded)
    have hacme : cfg.globalSettings.acme.enabled = true := by simpa [h.acme] using hchecked.acme
    have hover : handedOver w b s.runtime = addedDomains w b cfg (s.runtime.pub .registry) := by
      simp [handedOver, hrun, hload]
    simp only [hrun, hover]
    refine ⟨henabled.trans (congrArg some hacme), hcfg.keys_ne hload, fun domain hdomain => ?_⟩
    obtain hold | hnew := mem_keys_or_added (a := b) hacme h.tenants (hcfg.hosts.mem_iff.mp hdomain)
    · have hcovered := h.covered domain hold
      unfold Certificates.covered at hcovered ⊢
      cases hphase : s.phase <;> simp_all
    · obtain hnone | hset := hchecked.added
      · rw [hnone] at hnew
        cases hnew
      · simp [Certificates.covered, hmanager hset, hnew]

theorem Certificates.Inv.step (h : s.Inv) {l : CertificateStep w}
    (hl : certificateStep w s l = some s') : s'.Inv := by
  cases l with
  | reload a => exact h.reload a hl
  | handOver =>
    obtain ⟨domains, hpending, rfl⟩ := Option.map_eq_some_iff.mp hl
    refine ⟨h.acme, h.tenants, fun domain hdomain => ?_⟩
    simpa [Certificates.covered, hpending] using h.covered domain hdomain
  | traffic t =>
    cases hl
    have hkeep := t.avoids.run (I := fun r => r.pub = s.runtime.pub) (fun o r ho hr => by
      rw [Bool.not_eq_true] at ho
      cases o <;> first | exact hr | cases ho) rfl
    exact h.quiet (congrFun hkeep _) (congrFun hkeep _)
  | proceed =>
    have hcovered := h.covered
    unfold Certificates.covered at hcovered
    cases hphase : s.phase <;>
      simp only [certificateStep, hphase, Option.ite_none_right_eq_some] at hl hcovered <;>
      first | cases hl.2 | cases hl
    all_goals
      refine ⟨h.acme, h.tenants, fun domain hdomain => ?_⟩
      simp_all [Certificates.covered, Registry.getDomains]

end Certificates

/-- **No domain is served without a managed certificate.** The first reload has succeeded with ACME
enabled. However the steps of `run`, further reloads and requests interleave, once the certificate
manager is registered every domain of the configuration in force has been given to it, or will be by
the reload under way that has put it in force. -/
theorem served_domains_managed (w : World) (a : Attempt) (runtime : Runtime)
    (hfirst : runReload w a newRuntime = (.ok (), runtime))
    (hacme : runtime.pub .acmeEnabled = some true) (labels : List (CertificateStep w)) (s : Certificates)
    (h : run (certificateStep w) ⟨runtime, .loaded, [], none⟩ labels = some s)
    (hserving : s.phase = .serving) :
    ∀ domain ∈ (s.runtime.pub .registry).mapping.keys,
      domain ∈ s.managed ∨ ∃ domains, s.pending = some domains ∧ domain ∈ domains := by
  have hstart : Certificates.Inv ⟨runtime, .loaded, [], none⟩ := by
    refine ⟨hacme, ?_, fun _ => id⟩
    obtain ⟨_, _, hrun, -⟩ | ⟨r, hrun, -, cfg, hload, hcfg⟩ := runReload_cases w a newRuntime
    · simp [hfirst] at hrun
    · obtain rfl : runtime = r := congrArg Prod.snd (hfirst.symm.trans hrun)
      exact hcfg.keys_ne hload
  have hinv := run_invariant hstart (fun _ _ _ hI hl => hI.step hl) h
  intro domain hdomain
  have hcovered := hinv.covered domain hdomain
  cases hpending : s.pending <;> simpa [Certificates.covered, hserving, hpending] using hcovered

/-- A site with ACME enabled; the file `moved` adds a tenant. -/
def acmeSite : World :=
  let cfg : AppConfig := { siteConfig with
    globalSettings.acme.enabled := true
    globalSettings.acme.agreeTOS := true
    globalSettings.acme.email := str "a@a" }
  let more : AppConfig := { cfg with tenants := cfg.tenants.insert (str "b") siteTenant }
  { site with lib := { siteLib with decodeConfig data := .ok (if data = [] then cfg else more, .eof) } }

/-- It is in service. -/
def acmeServing : Runtime := (runReload acmeSite siteAttempt newRuntime).2

/-- A reload that adds a tenant is refused while the service starts, and goes on behind that. -/
def addTenantSteps : List (CertificateStep acmeSite) :=
  [.proceed, .reload movedAttempt, .proceed, .handOver, .proceed, .reload movedAttempt]

theorem served_domains_managed_added : ∃ s s',
    runReload acmeSite siteAttempt newRuntime = (.ok (), acmeServing) ∧
      run (certificateStep acmeSite) ⟨acmeServing, .loaded, [], none⟩ addTenantSteps = some s ∧
      str "b" ∈ (s.runtime.pub .registry).mapping.keys ∧
      (∀ domain ∈ (s.runtime.pub .registry).mapping.keys,
        domain ∈ s.managed ∨ ∃ domains, s.pending = some domains ∧ domain ∈ domains) ∧
      certificateStep acmeSite s .handOver = some s' ∧
      ∀ domain ∈ (s'.runtime.pub .registry).mapping.keys, domain ∈ s'.managed := by
  obtain ⟨hok, hacme, hend⟩ : (runReload acmeSite siteAttempt newRuntime).1 = .ok () ∧
      acmeServing.pub .acmeEnabled = some true ∧
      ((run (certificateStep acmeSite) ⟨acmeServing, .loaded, [], none⟩ addTenantSteps).bind fun s =>
        (certificateStep acmeSite s .handOver).map fun s' => decide (s.phase = .serving ∧
          str "b" ∈ (s.runtime.pub .registry).mapping.keys ∧ s'.phase = .serving ∧
          s'.pending = none)) = some true := by
    decide +kernel
  simp only [Option.bind_eq_some_iff, Option.map_eq_some_iff, decide_eq_true_eq] at hend
  obtain ⟨s, hs, s', hs', hserving, hadded, hserving', hnone⟩ := hend
  have hfirst : runReload acmeSite siteAttempt newRuntime = (.ok (), acmeServing) := Prod.ext hok rfl
  have hmanaged := served_domains_managed acmeSite siteAttempt acmeServing hfirst hacme
  refine ⟨s, s', hfirst, hs, hadded, hmanaged _ s hs hserving, hs', fun domain hdomain => ?_⟩
  have hgiven := hmanaged (addTenantSteps ++ [.handOver]) s' (by rw [run_append, hs]; exact hs')
    hserving'
  simpa [hnone] using hgiven domain hdomain

end SynitWaf
