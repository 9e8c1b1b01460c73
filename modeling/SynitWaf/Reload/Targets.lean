import SynitWaf.Reload.Model

/-!
# The URLs that are checked and the URLs that are used

`ValidateConfig` parses the URLs of a configuration without the white space around them; the code
that uses them parses them as they stand.

* `UpstreamURL`, `ServiceURL`: the URLs a configuration uses;
* `ApprovedTarget`, `ApprovedService`, `DenotesChecked`: what is checked, and that it is used;
* **`validateConfig_upstream`**, **`validateConfig_service`**: what an accepted configuration
  satisfies; **`buildTenantState_ends`**: when a tenant can be built;
* **`validated_runs_iff`**: an accepted configuration is the one that runs exactly if no URL it uses
  has white space around it; `padded_upstream_fails`.
-/

namespace SynitWaf

open Atomic Go

/-! ## URLs in use -/

/-- The URL of an upstream. -/
inductive UpstreamURL (cfg : AppConfig) : GoString → Prop
  | mk {fqdn : GoString} {tenant : Tenant} {upstream : Upstream} :
      cfg.tenants.lookup fqdn = some tenant → upstream ∈ tenant.upstreams →
      UpstreamURL cfg upstream.url

/-- The URL of a service: log entries are sent to the first one, keys are fetched from the second one
and texts are sent to the third one, unless the mode is `rules`. -/
inductive ServiceURL (cfg : AppConfig) : GoString → Prop
  | logForwarder : cfg.logging.logForwarder.enabled = true →
      ServiceURL cfg cfg.logging.logForwarder.url
  | jwksEndpoint {fqdn : GoString} {tenant : Tenant} : cfg.tenants.lookup fqdn = some tenant →
      tenant.security.jwtValidation.enabled = true →
      ServiceURL cfg tenant.security.jwtValidation.jwksEndpoint
  | sidecar {fqdn : GoString} {tenant : Tenant} : cfg.tenants.lookup fqdn = some tenant →
      tenant.security.llmProtection.enabled = true →
      tenant.security.llmProtection.mode ≠ str "rules" →
      ServiceURL cfg tenant.security.llmProtection.sidecarURL

/-- What `ValidateConfig` asks of an upstream. -/
def ApprovedTarget (target : ParsedURL) : Prop :=
  (target.scheme = str "http" ∨ target.scheme = str "https") ∧ target.host ≠ [] ∧
    target.hasUser = false

/-- What `validateServiceURL` asks of a service. -/
def ApprovedService (lib : ConfigLib) (allowInsecure : Bool) (parsed : ParsedURL) : Prop :=
  parsed.hasUser = false ∧ parsed.hostname ≠ [] ∧
    (parsed.scheme = str "https" ∨ parsed.scheme = str "http" ∧
      (allowInsecure = true ∨ lib.unicode.equalFold parsed.hostname (str "localhost") = true ∨
        (parseAddr parsed.hostname).any Addr.isLoopback = true))

/-- Parsed as it stands, the text denotes the URL that was parsed and approved. -/
def DenotesChecked (lib : ConfigLib) (approved : ParsedURL → Prop) (raw : GoString) : Prop :=
  ∃ parsed, lib.parseURL raw = .ok parsed ∧ lib.parseURL (trimSpace raw) = .ok parsed ∧
    approved parsed

theorem DenotesChecked.eq {lib : ConfigLib} {approved : ParsedURL → Prop} {raw : GoString}
    (h : DenotesChecked lib approved raw) : lib.parseURL raw = lib.parseURL (trimSpace raw) := by
  obtain ⟨parsed, hraw, htrim, -⟩ := h
  rw [hraw, htrim]

/-! ## What is checked -/

section Checked

variable {lib : ConfigLib} {env : Surroundings} {cfg : AppConfig}

theorem validateServiceURL_eq_ok {name raw : GoString} {allowInsecure : Bool}
    (h : validateServiceURL lib name raw allowInsecure = .ok ()) :
    ∃ parsed, lib.parseURL (trimSpace raw) = .ok parsed ∧
      ApprovedService lib allowInsecure parsed := by
  simp only [validateServiceURL, result_bind_eq_ok, wrapError_eq_ok, refuse_eq_ok] at h
  obtain ⟨parsed, hparsed, _, huser, _, hhost, h⟩ := h
  refine ⟨parsed, hparsed, eq_false_of_ne_true huser, hhost, ?_⟩
  split at h
  next hhttps => exact .inl hhttps
  next =>
    simp only [result_bind_eq_ok, refuse_eq_ok] at h
    obtain ⟨_, hhttp, hlocal⟩ := h
    exact .inr ⟨not_not.mp hhttp, not_not.mp hlocal⟩

theorem validateUpstream_eq_ok {fqdn : GoString} {upstream : Upstream}
    (h : validateUpstream lib fqdn upstream = .ok ()) :
    ∃ target, lib.parseURL (trimSpace upstream.url) = .ok target ∧ ApprovedTarget target := by
  simp only [validateUpstream, result_bind_eq_ok, wrapError_eq_ok, refuse_eq_ok] at h
  obtain ⟨target, htarget, _, hscheme, _, hhost, _, huser, -⟩ := h
  refine ⟨target, htarget, ?_, hhost, eq_false_of_ne_true huser⟩
  tauto

/-- Every tenant passes its checks. -/
theorem validateTenants_mem {tenants : List (GoString × Tenant)} {hosts : GoMap GoString}
    (h : validateTenants lib env cfg tenants hosts = .ok ()) {fqdn : GoString} {tenant : Tenant}
    (hmem : (fqdn, tenant) ∈ tenants) : validateTenant lib cfg fqdn env tenant = .ok () := by
  induction tenants generalizing hosts with
  | nil => cases hmem
  | cons t rest ih =>
    simp only [validateTenants, result_bind_eq_ok] at h
    obtain ⟨host, -, _, htenant, hrest⟩ := h
    obtain rfl | hmem := List.mem_cons.mp hmem
    · exact htenant
    · exact ih hrest hmem

theorem validateConfig_tenant (h : validateConfig lib env cfg = .ok ()) {fqdn : GoString}
    {tenant : Tenant} (ht : cfg.tenants.lookup fqdn = some tenant) :
    validateTenant lib cfg fqdn env tenant = .ok () := by
  simp only [validateConfig, result_bind_eq_ok] at h
  obtain ⟨_, -, htenants⟩ := h
  exact validateTenants_mem htenants ((mem_visit _ _).mpr ht)

/-- **The upstreams of an accepted configuration.** -/
theorem validateConfig_upstream (h : validateConfig lib env cfg = .ok ()) {url : GoString}
    (hu : UpstreamURL cfg url) :
    ∃ target, lib.parseURL (trimSpace url) = .ok target ∧ ApprovedTarget target := by
  obtain ⟨ht, hmem⟩ := hu
  have htenant := validateConfig_tenant h ht
  simp only [validateTenant, result_bind_eq_ok] at htenant
  obtain ⟨_, -, _, hupstreams, -⟩ := htenant
  exact validateUpstream_eq_ok (forM_eq_ok.mp hupstreams _ hmem)

theorem validateAuthentication_jwks {fqdn : GoString} {policy : SecurityPolicy}
    (h : validateAuthentication lib cfg fqdn policy = .ok ())
    (henabled : policy.jwtValidation.enabled = true) :
    ∃ parsed, lib.parseURL (trimSpace policy.jwtValidation.jwksEndpoint) = .ok parsed ∧
      ApprovedService lib cfg.globalSettings.allowInsecureServiceURLs parsed := by
  simp only [validateAuthentication, henabled, if_true, result_bind_eq_ok] at h
  obtain ⟨_, -, _, -, _, -, _, hurl, -⟩ := h
  exact validateServiceURL_eq_ok hurl

theorem validateLLM_sidecar {fqdn : GoString} {policy : SecurityPolicy}
    (h : validateLLM lib cfg fqdn policy = .ok ()) (henabled : policy.llmProtection.enabled = true)
    (hmode : policy.llmProtection.mode ≠ str "rules") :
    ∃ parsed, lib.parseURL (trimSpace policy.llmProtection.sidecarURL) = .ok parsed ∧
      ApprovedService lib cfg.globalSettings.allowInsecureServiceURLs parsed := by
  simp only [validateLLM, henabled, if_true, result_bind_eq_ok, refuse_eq_ok, not_not] at h
  obtain ⟨_, -, _, hlisted, _, -, _, -, _, -, _, -, _, -, _, -, _, -, h⟩ := h
  have hml : policy.llmProtection.mode = str "ml" ∨ policy.llmProtection.mode = str "hybrid" := by
    simpa [hmode] using hlisted
  rw [if_pos hml] at h
  simp only [result_bind_eq_ok] at h
  obtain ⟨_, -, _, -, _, hurl, -⟩ := h
  exact validateServiceURL_eq_ok hurl

theorem validateGlobal_logForwarder (h : validateGlobal lib cfg = .ok ())
    (henabled : cfg.logging.logForwarder.enabled = true) :
    ∃ parsed, lib.parseURL (trimSpace cfg.logging.logForwarder.url) = .ok parsed ∧
      ApprovedService lib cfg.globalSettings.allowInsecureServiceURLs parsed := by
  simp only [validateGlobal, henabled, if_true, result_bind_eq_ok, refuse_eq_ok] at h
  obtain ⟨_, -, _, -, _, -, _, -, _, -, _, -, _, -, _, -, _, -, _, -, h⟩ := h
  -- The checks of the coordinator and of ACME are made under a condition.
  have h := rest_of_optional h
  simp only [result_bind_eq_ok] at h
  obtain ⟨_, -, _, -, _, -, _, -, h⟩ := h
  have h := rest_of_optional h
  simp only [result_bind_eq_ok, validateLogForwarder] at h
  obtain ⟨_, -, _, -, _, ⟨_, -, hurl⟩, -⟩ := h
  exact validateServiceURL_eq_ok hurl

/-- **The services of an accepted configuration.** -/
theorem validateConfig_service (h : validateConfig lib env cfg = .ok ()) {url : GoString}
    (hu : ServiceURL cfg url) : ∃ parsed, lib.parseURL (trimSpace url) = .ok parsed ∧
      ApprovedService lib cfg.globalSettings.allowInsecureServiceURLs parsed := by
  cases hu with
  | logForwarder henabled =>
    simp only [validateConfig, result_bind_eq_ok] at h
    obtain ⟨_, hglobal, -⟩ := h
    exact validateGlobal_logForwarder hglobal henabled
  | jwksEndpoint ht henabled =>
    have htenant := validateConfig_tenant h ht
    simp only [validateTenant, result_bind_eq_ok] at htenant
    obtain ⟨_, -, _, -, _, -, _, -, _, -, _, hauth, -⟩ := htenant
    exact validateAuthentication_jwks hauth henabled
  | sidecar ht henabled hmode =>
    have htenant := validateConfig_tenant h ht
    simp only [validateTenant, result_bind_eq_ok] at htenant
    obtain ⟨_, -, _, -, _, -, _, -, _, -, _, -, _, -, _, -, _, -, hllm⟩ := htenant
    exact validateLLM_sidecar hllm henabled hmode

/-- What `buildTenantState` needs beside the URLs. -/
theorem validateConfig_builds (h : validateConfig lib env cfg = .ok ()) {fqdn : GoString}
    {tenant : Tenant} (ht : cfg.tenants.lookup fqdn = some tenant) : tenant.upstreams ≠ [] ∧
      ∀ rule ∈ tenant.security.responseMasking, lib.compileRegexp rule.pattern = none := by
  have htenant := validateConfig_tenant h ht
  simp only [validateTenant, result_bind_eq_ok, refuse_eq_ok, validateMasking] at htenant
  obtain ⟨_, hne, _, -, _, -, _, -, _, -, _, -, _, ⟨_, hrules, -⟩, -⟩ := htenant
  refine ⟨hne, fun rule hrule => ?_⟩
  have hrule := forM_eq_ok.mp hrules rule hrule
  simp only [result_bind_eq_ok, checkError_eq_ok] at hrule
  exact hrule.choose_spec.2

end Checked

/-! ## What is built -/

section Built

variable {w : World}

/-- The upstreams are built from the texts as they stand. -/
theorem buildUpstreams_ends (fqdn : GoString) {upstreams : List Upstream}
    (hparse : ∀ u ∈ upstreams, ∃ target, w.lib.parseURL u.url = .ok target) (s : Runtime) :
    (buildUpstreams w fqdn upstreams).Ends s (fun _ => False)
      fun servers _ => servers.map UpstreamServer.url = upstreams.map Upstream.url := by
  induction upstreams generalizing s with
  | nil => exact .pure rfl
  | cons upstream rest ih =>
    obtain ⟨target, htarget⟩ := hparse upstream List.mem_cons_self
    have hrest : ∀ u ∈ rest, ∃ target, w.lib.parseURL u.url = .ok target :=
      fun u hu => hparse u (List.mem_cons_of_mem _ hu)
    rw [buildUpstreams, htarget]
    refine Fallible.Ends.bind (Q := fun _ _ => True) trivial fun _ s₁ _ => ?_
    refine Fallible.Ends.bind (Q := fun server _ => server.url = upstream.url) (.lift rfl)
      fun server s₂ hserver => ?_
    refine Fallible.Ends.bind (ih hrest s₂) fun servers s₃ hservers => .pure ?_
    rw [List.map_cons, List.map_cons, hserver, hservers]

/-- **A tenant can be built** if its patterns compile, it has upstreams and their texts can be
parsed. -/
theorem buildTenantState_ends (fqdn : GoString) {tenant : Tenant}
    (hrules : ∀ rule ∈ tenant.security.responseMasking, w.lib.compileRegexp rule.pattern = none)
    (hne : tenant.upstreams ≠ [])
    (hparse : ∀ u ∈ tenant.upstreams, ∃ target, w.lib.parseURL u.url = .ok target) (s : Runtime) :
    (buildTenantState w fqdn tenant).Ends s (fun _ => False)
      fun state _ => state.1.upstreams.map UpstreamServer.url =
        tenant.upstreams.map Upstream.url := by
  have hmasking : (forM tenant.security.responseMasking fun rule =>
      checkError (tenantText fqdn (str "has invalid response_masking pattern " ++
        w.lib.quote rule.pattern ++ str ": ")) (w.lib.compileRegexp rule.pattern)) = .ok () :=
    forM_eq_ok.mpr fun rule hrule => checkError_eq_ok.mpr (hrules rule hrule)
  rw [buildTenantState, hmasking]
  refine Fallible.Ends.bind (Q := fun _ _ => True) trivial fun _ s₁ _ => ?_
  refine Fallible.Ends.bind (buildUpstreams_ends fqdn hparse s₁) fun servers s₂ hservers => ?_
  have hservers_ne : servers ≠ [] := by
    rintro rfl
    exact hne (List.map_eq_nil_iff.mp hservers.symm)
  rw [dif_pos hservers_ne]
  exact Fallible.Ends.bind (Q := fun _ _ => True) (.lift trivial) fun id s₃ _ => .pure hservers

end Built

/-! ## The configuration that runs -/

/-- The configuration runs as it was checked: every tenant is built, from any state, with its
upstreams in their order, and every URL in use denotes the one that was checked. -/
structure RunsAsValidated (w : World) (cfg : AppConfig) : Prop where
  builds {fqdn : GoString} {tenant : Tenant} (ht : cfg.tenants.lookup fqdn = some tenant)
    (s : Runtime) : ∃ state s',
      Prog.run (buildTenantState w (normalizeHost w.unicode fqdn) tenant).run s = (.ok state, s') ∧
      state.1.upstreams.map UpstreamServer.url = tenant.upstreams.map Upstream.url ∧
      ∀ server ∈ state.1.upstreams, DenotesChecked w.lib ApprovedTarget server.url
  services {url : GoString} (hu : ServiceURL cfg url) : DenotesChecked w.lib
    (ApprovedService w.lib cfg.globalSettings.allowInsecureServiceURLs) url

section Runs

variable {w : World} {env : Surroundings} {cfg : AppConfig}

theorem RunsAsValidated.parseURL_eq (h : RunsAsValidated w cfg) {url : GoString}
    (hu : UpstreamURL cfg url ∨ ServiceURL cfg url) (s : Runtime) :
    w.lib.parseURL url = w.lib.parseURL (trimSpace url) := by
  obtain ⟨ht, hmem⟩ | hu := hu
  · obtain ⟨state, -, -, hurls, hchecked⟩ := h.builds ht s
    obtain ⟨server, hserver, hurl⟩ := List.mem_map.mp (hurls ▸ List.mem_map_of_mem hmem)
    exact hurl ▸ (hchecked server hserver).eq
  · exact (h.services hu).eq

/-- Texts without white space around them denote what was checked. -/
theorem runsAsValidated_of_trimmed (hv : validateConfig w.lib env cfg = .ok ())
    (htrim : ∀ url, UpstreamURL cfg url ∨ ServiceURL cfg url → trimSpace url = url) :
    RunsAsValidated w cfg where
  builds {fqdn tenant} ht s := by
    have hchecked : ∀ u ∈ tenant.upstreams, DenotesChecked w.lib ApprovedTarget u.url := by
      intro u hu
      obtain ⟨target, htarget, happroved⟩ := validateConfig_upstream hv (.mk ht hu)
      exact ⟨target, htrim _ (.inl (.mk ht hu)) ▸ htarget, htarget, happroved⟩
    obtain ⟨hne, hrules⟩ := validateConfig_builds hv ht
    have hparse : ∀ u ∈ tenant.upstreams, ∃ target, w.lib.parseURL u.url = .ok target :=
      fun u hu => (hchecked u hu).imp fun _ h => h.1
    obtain ⟨state, s', hrun, hurls⟩ :=
      (buildTenantState_ends (normalizeHost w.unicode fqdn) hrules hne hparse s).returns
        fun _ => id
    refine ⟨state, s', hrun, hurls, fun server hserver => ?_⟩
    obtain ⟨u, hu, hurl⟩ := List.mem_map.mp (hurls ▸ List.mem_map_of_mem hserver)
    exact hurl ▸ hchecked u hu
  services {url} hu := by
    obtain ⟨parsed, hparsed, happroved⟩ := validateConfig_service hv hu
    exact ⟨parsed, htrim _ (.inr hu) ▸ hparsed, hparsed, happroved⟩

/-- **The configuration that was checked is the one that runs** exactly if no URL it uses has white
space around it, where white space is part of what a URL denotes. -/
theorem validated_runs_iff
    (hpadded : ∀ raw, trimSpace raw ≠ raw → w.lib.parseURL raw ≠ w.lib.parseURL (trimSpace raw))
    (hv : validateConfig w.lib env cfg = .ok ()) :
    RunsAsValidated w cfg ↔
      ∀ url, UpstreamURL cfg url ∨ ServiceURL cfg url → trimSpace url = url := by
  constructor
  · intro h url hu
    by_contra hne
    exact hpadded url hne (h.parseURL_eq hu newRuntime)
  · exact runsAsValidated_of_trimmed hv

end Runs

theorem siteConfig_tenant {fqdn : GoString} {tenant : Tenant}
    (ht : siteConfig.tenants.lookup fqdn = some tenant) : tenant = siteTenant := by
  by_cases h : fqdn = str "a"
  · subst h
    exact (Option.some.inj ht).symm
  · have hnone : siteConfig.tenants.lookup fqdn = none := AList.lookup_insert_ne h
    rw [hnone] at ht
    cases ht

/-- The only URL of `siteConfig` has no white space around it. -/
theorem validated_runs_iff_site :
    validateConfig siteLib siteSurroundings siteConfig = .ok () ∧ RunsAsValidated site siteConfig := by
  have hv : validateConfig site.lib siteSurroundings siteConfig = .ok () := by decide +kernel
  refine ⟨hv, (validated_runs_iff (fun raw hne heq => ?_) hv).mpr ?_⟩
  · have hhost := congrArg ParsedURL.host (Except.ok.inj heq)
    exact hne hhost.symm
  · rintro url (⟨ht, hmem⟩ | ⟨⟨⟩⟩ | ⟨ht, henabled⟩ | ⟨ht, henabled, -⟩)
    · rw [siteConfig_tenant ht] at hmem
      rw [List.mem_singleton.mp hmem]
      decide +kernel
    · rw [siteConfig_tenant ht] at henabled
      cases henabled
    · rw [siteConfig_tenant ht] at henabled
      cases henabled

/-- The library of `site`, with a parser that refuses a blank at the front as `url.Parse` does: what
precedes the colon is then no scheme. -/
def strictLib : ConfigLib :=
  { siteLib with
    parseURL url :=
      if url.head? = some (byte ' ') then
        .error (str "first path segment in URL cannot contain colon")
      else siteLib.parseURL url }

/-- The world of `site` with that library. -/
def strictSite : World := { site with lib := strictLib }

/-- The tenant of `site`, with a blank before the URL of its upstream. -/
def paddedTenant : Tenant := { siteTenant with upstreams := [⟨str " http://u", 0⟩] }

/-- The configuration with that tenant. -/
def paddedConfig : AppConfig :=
  { (default : AppConfig) with tenants := (∅ : GoMap Tenant).insert (str "a") paddedTenant }

/-- **A blank before the URL of an upstream** passes `ValidateConfig`, and the tenant cannot be
built. -/
theorem padded_upstream_fails :
    validateConfig strictLib siteSurroundings paddedConfig = .ok () ∧
    (Prog.run (buildTenantState strictSite (str "a") paddedTenant).run newRuntime).1 =
      .error (str "tenant a has invalid upstream URL " ++ str " http://u" ++
        str ": first path segment in URL cannot contain colon") ∧
    ¬ RunsAsValidated strictSite paddedConfig := by
  -- the state that would be built is left out, as its type has no decidable equality
  obtain ⟨hvalid, hfails, hname⟩ :
      validateConfig strictLib siteSurroundings paddedConfig = .ok () ∧
      (Prog.run (buildTenantState strictSite (str "a") paddedTenant).run newRuntime).1.map
        (fun _ => ()) = .error (str "tenant a has invalid upstream URL " ++ str " http://u" ++
          str ": first path segment in URL cannot contain colon") ∧
      normalizeHost strictSite.unicode (str "a") = str "a" := by decide +kernel
  rw [result_map_eq_error] at hfails
  refine ⟨hvalid, hfails, fun h => ?_⟩
  have ht : paddedConfig.tenants.lookup (str "a") = some paddedTenant := rfl
  obtain ⟨state, s, hrun, -⟩ := h.builds ht newRuntime
  rw [hname] at hrun
  rw [hrun] at hfails
  cases hfails

end SynitWaf
