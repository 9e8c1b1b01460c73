import Mathlib.Tactic.Tauto
import SynitWaf.Serve.Pipeline

/-!
# The contract of the request pipeline

What each stage requires of the runtime, and that a request reaches an upstream exactly if all
requirements hold. A stage writes only a part of the state that no later stage reads, so that all
requirements can be read off the state in which the request arrives.

* `JwtPasses`, `CrowdSecPasses`, `InspectionPasses`, …: the requirements;
* `Decides`, `andThen_isUpstream`: one stage;
* **`serveHTTP_upstream_iff`**: an allow-listed client skips GeoIP, rate limits and inspection, the
  bypass secret skips inspection, and nothing else is ever skipped.
-/

namespace SynitWaf

open Atomic Go

/-! ## What the stages require -/

section Requirements

variable (w : World) (s : Runtime) (r : Request)

/-- The client address under the settings of the runtime. -/
def clientIPOf : GoString :=
  clientIPFromRequest r (s.pub .trustForwardedFor) ((s.pub .trustedProxyCIDRs).getD [])

/-- The client address, parsed. -/
def clientAddrOf : Addr := (parseAddr (clientIPOf s r)).getD .invalid

/-- The client is in the block list. -/
def InBlockList : Prop := prefixesContain ((s.pub .blockIPs).getD []) (clientAddrOf s r) = true

/-- The client is in the allow list. -/
def InAllowList : Prop := prefixesContain ((s.pub .allowIPs).getD []) (clientAddrOf s r) = true

/-- The tenant of the host. -/
def tenantOf : Option (Entry × GoString) := (s.pub .registry).get w.unicode w.order r.host

variable (policy : SecurityPolicy)

/-- The token is valid, if one is required. -/
def JwtPasses : Prop :=
  policy.jwtValidation.enabled = true →
    validateJWT r (w.jwt s.jwtCalls policy.jwtValidation) = none

/-- A credential matches, if any is configured. -/
def BasicAuthPasses : Prop :=
  policy.basicAuth ≠ [] → ((checkBasicAuth w.auth r policy.basicAuth).run s.basicAuth).1 ≠ none

/-- What CrowdSec says about a client; `none` if it cannot be reached. -/
def crowdSecVerdict (now : ℤ) (clientIP : GoString) : Option Bool :=
  (s.pub .bouncer).bind fun bouncer =>
    ((crowdSecBanned (s.pub .crowdsecCacheTTL) now bouncer clientIP :
      Prog (crowdsecSig w.lapi) _).run s.crowdsec).1

/-- CrowdSec reports no ban, if enabled, and is reachable or dispensable. -/
def CrowdSecPasses (now : ℤ) (clientIP : GoString) : Prop :=
  policy.crowdSecEnabled = some true → crowdSecVerdict w s now clientIP ≠ some true ∧
    (crowdSecVerdict w s now clientIP ≠ none ∨ s.pub .dependencyMode = .failOpen)

/-- The country of an address, if it has one; `none` if the lookup fails. -/
def countryOf (ip : Addr) : Option (Option GoString) := ((HandlerOp.lookupCountry ip).exec w s).1

/-- The country is not blocked, if countries are checked, and was found or is dispensable. -/
def CountryPasses (ip : Addr) : Prop :=
  policy.geoIPEnabled = some true →
    (∀ country, countryOf w s ip = some (some country) → country ∉ policy.blockedCountries) ∧
      (countryOf w s ip ≠ none ∨ s.pub .dependencyMode = .failOpen)

/-- The global limiter allows the request, if there is one. -/
def GlobalLimitPasses : Prop :=
  ∀ limiter, s.pub .globalLimiter = some limiter → w.globalAllow s.globalCalls limiter = true

/-- The limiter of the tenant allows the request. -/
def TenantLimitPasses (tenant clientIP : GoString) : Prop :=
  ((allowRateLimitedRequest (s.pub .coordinator) tenant clientIP policy.rateLimit :
    Prog (limiterSig w.limits) _).run s.limiters).1 = true

/-- What Coraza does with the request, if the tenant has an instance. -/
def corazaOutcome (entry : Entry) (clientIP : GoString) : Option Reply × Option GoString :=
  match entry.waf with
  | none => (none, none)
  | some waf =>
    applyWAF w.escape r entry
      (w.transaction s.transactions waf (if clientIP ≠ [] then clientIP else clientIPOf s r) r)
      (s.pub .requestBodyLimit) none

/-- What GraphQL inspection does with the request, if enabled. -/
def graphQLOutcome (cached : Option GoString) : Option Reply × Option GoString :=
  if policy.graphQL.enabled then
    applyGraphQLProtection w.graphQL policy.graphQL r (s.pub .requestBodyLimit) cached
  else (none, cached)

/-- What LLM inspection does with the request, if enabled. -/
def llmOutcome (tenant : GoString) (cached : Option GoString) : LlmOutcome :=
  if policy.llmProtection.enabled then
    ((applyLLMProtection w.sidecar w.llm policy.llmProtection (s.pub .requestBodyLimit) tenant r
      cached).run s.llm).1
  else .pass

/-- Coraza, GraphQL and LLM inspection let the request pass. -/
def InspectionPasses (entry : Entry) (tenant clientIP : GoString) : Prop :=
  let coraza := corazaOutcome w s r entry clientIP
  let graphQL := graphQLOutcome w s r entry.tenant.security coraza.2
  coraza.1 = none ∧ graphQL.1 = none ∧
    llmOutcome w s r entry.tenant.security tenant graphQL.2 = .pass

/-- The tenant has a state, and an upstream is selected from it. -/
def UpstreamSelected (now : ℤ) (tenant : GoString) : Prop :=
  ∃ state, s.tenantStates.lookup tenant = some state ∧
    ((selectUpstream state now).run s.upstreams).1 ≠ none

end Requirements

/-! ## Single stages -/

section Runs

variable {w : World} {s : Runtime}

theorem run_load_bind {α : Type} (f : Field) (k : f.Val → Prog (handlerSig w) α) :
    (load f >>= k).run s = (k (s.pub f)).run s := rfl

/-- In state `s` the check lets the request pass exactly if `P`, and otherwise ends it; `R` tells
what it does to the state. -/
def Decides (check : Prog (handlerSig w) (Option Served)) (s : Runtime) (P : Prop)
    (R : Runtime → Prop) : Prop :=
  ((check.run s).1 = none ↔ P) ∧
    (∀ served, (check.run s).1 = some served → served.isUpstream = false) ∧ R (check.run s).2

/-- **One stage**: the request goes on exactly if the check lets it pass. -/
theorem andThen_isUpstream {check : Prog (handlerSig w) (Option Served)}
    {next : Prog (handlerSig w) Served} {P Q : Prop} {R : Runtime → Prop} (h : Decides check s P R)
    (hn : ∀ s', R s' → ((next.run s').1.isUpstream = true ↔ Q)) :
    ((andThen check next).run s).1.isUpstream = true ↔ P ∧ Q := by
  rw [andThen, Prog.run_bind, ← h.1, ← hn _ h.2.2]
  cases hc : (check.run s).1 with
  | none => simp
  | some served => simp [h.2.1 served hc]

theorem Decides.onlyIf {check : Prog (handlerSig w) (Option Served)} {P : Prop} {R : Runtime → Prop}
    (h : Decides check s P R) (hs : R s) (c : Bool) :
    Decides (onlyIf c check) s (c = true → P) R := by
  cases c with
  | false => simp [Decides, SynitWaf.onlyIf, hs]
  | true => simpa [SynitWaf.onlyIf] using h

theorem checkBlockList_decides (ip : Addr) : Decides (checkBlockList (w := w) ip) s
    (¬ prefixesContain ((s.pub .blockIPs).getD []) ip = true) (s = ·) := by
  rw [Decides, checkBlockList, run_load_bind]
  split
  next h => simp [h, Served.isUpstream]
  next h => simp [h]

theorem checkCountry_decides (policy : SecurityPolicy) (ip : Addr) :
    Decides (checkCountry (w := w) policy ip) s
      ((∀ country, countryOf w s ip = some (some country) → country ∉ policy.blockedCountries) ∧
        (countryOf w s ip ≠ none ∨ s.pub .dependencyMode = .failOpen))
      fun s' => ∃ lookups, s' = { s with lookups := lookups } := by
  have hexec : (handlerSig w).exec (.lookupCountry ip) s =
      (countryOf w s ip, { s with lookups := s.lookups + 1 }) := rfl
  rw [Decides, checkCountry, Prog.op_bind, Prog.run_act, hexec]
  cases countryOf w s ip with
  | none =>
    dsimp only
    rw [run_load_bind]
    cases s.pub .dependencyMode <;> simp [reject, Served.isUpstream]
  | some o =>
    cases o with
    | none => simp
    | some country =>
      by_cases h : country ∈ policy.blockedCountries <;> simp [h, reject, Served.isUpstream]

theorem checkGlobalLimit_decides :
    Decides (checkGlobalLimit (w := w)) s (GlobalLimitPasses w s)
      fun s' => ∃ calls, s' = { s with globalCalls := calls } := by
  rw [Decides, checkGlobalLimit, run_load_bind, GlobalLimitPasses]
  cases s.pub .globalLimiter with
  | none => exact ⟨by simp, by simp, s.globalCalls, rfl⟩
  | some limiter =>
    have hexec : (handlerSig w).exec (.globalAllow limiter) s =
      (w.globalAllow s.globalCalls limiter, { s with globalCalls := s.globalCalls + 1 }) := rfl
    dsimp only
    rw [Prog.op_bind, Prog.run_act, hexec]
    cases h : w.globalAllow s.globalCalls limiter <;> simp [h, reject, Served.isUpstream]

theorem checkTenantLimit_decides (tenant clientIP : GoString) (policy : SecurityPolicy) :
    Decides (checkTenantLimit (w := w) tenant clientIP policy.rateLimit) s
      (TenantLimitPasses w s policy tenant clientIP)
      fun s' => ∃ limiters, s' = { s with limiters := limiters } := by
  rw [Decides, checkTenantLimit]
  split
  next hoff =>
    have hpass : TenantLimitPasses w s policy tenant clientIP := by
      rw [TenantLimitPasses, allowRateLimitedRequest, if_pos hoff]
      rfl
    exact ⟨iff_of_true rfl hpass, by simp, s.limiters, rfl⟩
  rw [run_load_bind, Prog.run_bind]
  simp only [Prog.run_lift, limiterPart, TenantLimitPasses]
  generalize (allowRateLimitedRequest (s.pub .coordinator) tenant clientIP policy.rateLimit :
    Prog (limiterSig w.limits) _).run s.limiters = out
  obtain ⟨ok, limiters⟩ := out
  cases ok <;> simp [reject, Served.isUpstream]

theorem checkJWT_decides (r : Request) (cfg : JWTValidationConfig) :
    Decides (checkJWT (w := w) r cfg) s (validateJWT r (w.jwt s.jwtCalls cfg) = none)
      fun s' => ∃ calls, s' = { s with jwtCalls := calls } := by
  have hrun : (checkJWT (w := w) r cfg).run s =
      ((validateJWT r (w.jwt s.jwtCalls cfg)).map .reply, { s with jwtCalls := s.jwtCalls + 1 }) := rfl
  rw [Decides, hrun]
  cases validateJWT r (w.jwt s.jwtCalls cfg) <;> simp [Served.isUpstream]

/-- Basic Auth passes exactly if a credential matches; the user does not matter afterwards. -/
theorem authenticate_isUpstream (r : Request) (info : RequestInfo)
    {next : RequestInfo → Prog (handlerSig w) Served} {Q : Prop}
    (hn : ∀ user cache, ((next { info with user := user }).run
      { s with basicAuth := cache }).1.isUpstream = true ↔ Q) :
    ((authenticate r info next).run s).1.isUpstream = true ↔
      BasicAuthPasses w s r info.entry.tenant.security ∧ Q := by
  unfold authenticate BasicAuthPasses
  dsimp only
  split
  next h =>
    have hnext := hn info.user s.basicAuth
    simp only [h, ne_eq, not_true_eq_false, false_implies, true_and]
    exact hnext
  next h =>
    rw [Prog.run_bind, Prog.run_lift]
    dsimp only [basicAuthPart]
    cases ((checkBasicAuth w.auth r info.entry.tenant.security.basicAuth).run s.basicAuth).1 with
    | none => simp [h, Served.isUpstream]
    | some user => simp [h, hn]

theorem crowdSecDecision_run (now : ℤ) (clientIP : GoString) :
    ∃ crowdsec, (crowdSecDecision (w := w) now clientIP).run s =
      (crowdSecVerdict w s now clientIP, { s with crowdsec := crowdsec }) := by
  rw [crowdSecDecision, run_load_bind, crowdSecVerdict]
  cases s.pub .bouncer with
  | none => exact ⟨s.crowdsec, rfl⟩
  | some bouncer =>
    dsimp only
    rw [run_load_bind, Prog.run_lift]
    exact ⟨_, rfl⟩

theorem checkCrowdSec_decides (now : ℤ) (clientIP : GoString) :
    Decides (checkCrowdSec (w := w) now clientIP) s
      (crowdSecVerdict w s now clientIP ≠ some true ∧
        (crowdSecVerdict w s now clientIP ≠ none ∨ s.pub .dependencyMode = .failOpen))
      fun s' => ∃ crowdsec, s' = { s with crowdsec := crowdsec } := by
  obtain ⟨crowdsec, hrun⟩ := crowdSecDecision_run (w := w) (s := s) now clientIP
  rw [Decides, checkCrowdSec, Prog.run_bind, hrun]
  cases crowdSecVerdict w s now clientIP with
  | none =>
    dsimp only
    rw [run_load_bind]
    cases s.pub .dependencyMode <;> simp [reject, Served.isUpstream]
  | some banned => cases banned <;> simp [Served.isUpstream]

theorem runCoraza_run (r : Request) (info : RequestInfo) :
    ∃ transactions, (runCoraza (w := w) r info).run s =
      (corazaOutcome w s r info.entry info.clientIP, { s with transactions := transactions }) := by
  unfold runCoraza corazaOutcome
  cases info.entry.waf with
  | none => exact ⟨s.transactions, rfl⟩
  | some waf =>
    refine ⟨s.transactions + 1, ?_⟩
    dsimp only
    rw [Prog.op_bind, Prog.run_act, Prog.run_bind, clientIPFor]
    split <;> rfl

theorem runGraphQL_run (r : Request) (policy : SecurityPolicy) (cached : Option GoString) :
    (runGraphQL (w := w) r policy.graphQL cached).run s = (graphQLOutcome w s r policy cached, s) := by
  unfold runGraphQL graphQLOutcome
  split <;> rfl

theorem runLLM_run (r : Request) (tenant : GoString) (policy : SecurityPolicy)
    (cached : Option GoString) : ∃ llm, (runLLM (w := w) r tenant policy.llmProtection cached).run s =
      (llmOutcome w s r policy tenant cached, { s with llm := llm }) := by
  unfold runLLM llmOutcome
  split
  · rw [run_load_bind, Prog.run_lift]
    exact ⟨_, rfl⟩
  · exact ⟨s.llm, rfl⟩

theorem inspectContent_decides (r : Request) (info : RequestInfo) :
    Decides (inspectContent (w := w) r info) s
      (devBypassGranted r info.entry.tenant.security.devBypassSecret = true ∨
        InspectionPasses w s r info.entry info.tenant info.clientIP)
      fun s' => ∃ transactions llm, s' = { s with transactions := transactions, llm := llm } := by
  unfold Decides inspectContent InspectionPasses
  dsimp only
  split
  next h => exact ⟨by simp [h], by simp, s.transactions, s.llm, rfl⟩
  next h =>
    obtain ⟨transactions, hcoraza⟩ := runCoraza_run (w := w) (s := s) r info
    rw [Prog.run_bind, hcoraza]
    rcases corazaOutcome w s r info.entry info.clientIP with ⟨_ | reply, cached⟩
    · -- the later inspections do not read the number of transactions
      have hgraphQL : (runGraphQL (w := w) r info.entry.tenant.security.graphQL cached).run
          { s with transactions := transactions } =
          (graphQLOutcome w s r info.entry.tenant.security cached,
            { s with transactions := transactions }) := runGraphQL_run _ _ _
      dsimp only
      rw [Prog.run_bind, hgraphQL]
      rcases graphQLOutcome w s r info.entry.tenant.security cached with ⟨_ | reply, cached⟩
      · obtain ⟨llm, hllm⟩ : ∃ llm, (runLLM (w := w) r info.tenant
            info.entry.tenant.security.llmProtection cached).run { s with transactions := transactions } =
            (llmOutcome w s r info.entry.tenant.security info.tenant cached,
              { s with transactions := transactions, llm := llm }) := runLLM_run _ _ _ _
        dsimp only
        rw [Prog.run_bind, hllm]
        cases llmOutcome w s r info.entry.tenant.security info.tenant cached
        · exact ⟨by simp [h], by simp, transactions, llm, rfl⟩
        · exact ⟨by simp [h], by simp [Served.isUpstream], transactions, llm, rfl⟩
        · exact ⟨by simp [h], by simp [Served.isUpstream], transactions, llm, rfl⟩
      · exact ⟨by simp [h], by simp [Served.isUpstream], transactions, s.llm, rfl⟩
    · exact ⟨by simp [h], by simp [Served.isUpstream], transactions, s.llm, rfl⟩

theorem proxyRequest_isUpstream (now : ℤ) (info : RequestInfo) :
    ((proxyRequest (w := w) now info).run s).1.isUpstream = true ↔
      UpstreamSelected s now info.tenant := by
  have hexec : (handlerSig w).exec (.loadTenantState info.tenant) s =
      (s.tenantStates.lookup info.tenant, s) := rfl
  rw [proxyRequest, Prog.op_bind, Prog.run_act, hexec, UpstreamSelected]
  cases s.tenantStates.lookup info.tenant with
  | none => simp [Served.isUpstream]
  | some state =>
    dsimp only
    rw [Prog.run_bind, Prog.run_lift]
    dsimp only [upstreamPart]
    cases h : ((selectUpstream state now).run s.upstreams).1 <;> simp [h, Served.isUpstream]

end Runs

/-! ## The pipeline -/

section Contract

variable {w : World} {s : Runtime}

theorem serveTenant_isUpstream (clock : ServeClock) (r : Request) (allowlisted : Bool)
    (info : RequestInfo) :
    ((serveTenant (w := w) clock r allowlisted info).run s).1.isUpstream = true ↔
      ((!allowlisted) = true →
        TenantLimitPasses w s info.entry.tenant.security info.tenant info.clientIP) ∧
      JwtPasses w s r info.entry.tenant.security ∧
      BasicAuthPasses w s r info.entry.tenant.security ∧
      CrowdSecPasses w s info.entry.tenant.security clock.crowdSec info.clientIP ∧
      ((!allowlisted) = true →
        devBypassGranted r info.entry.tenant.security.devBypassSecret = true ∨
          InspectionPasses w s r info.entry info.tenant info.clientIP) ∧
      UpstreamSelected s clock.select info.tenant := by
  -- every stage writes a part of the state that no later stage reads
  refine andThen_isUpstream ((checkTenantLimit_decides _ _ _).onlyIf ⟨s.limiters, rfl⟩ _) ?_
  rintro _ ⟨limiters, rfl⟩
  refine andThen_isUpstream ((checkJWT_decides _ _).onlyIf ⟨s.jwtCalls, rfl⟩ _) ?_
  rintro _ ⟨calls, rfl⟩
  refine authenticate_isUpstream r info fun user cache => ?_
  have hcrowd := (checkCrowdSec_decides (w := w)
    (s := { s with limiters := limiters, jwtCalls := calls, basicAuth := cache }) clock.crowdSec
      info.clientIP).onlyIf ⟨s.crowdsec, rfl⟩ (info.entry.tenant.security.crowdSecEnabled = some true)
  rw [decide_eq_true_iff] at hcrowd
  refine andThen_isUpstream hcrowd ?_
  rintro _ ⟨crowdsec, rfl⟩
  refine andThen_isUpstream ((inspectContent_decides _ _).onlyIf ⟨s.transactions, s.llm, rfl⟩ _) ?_
  rintro _ ⟨transactions, llm, rfl⟩
  exact proxyRequest_isUpstream _ _

theorem stages_isUpstream (clock : ServeClock) (r : Request) (ip : Addr) (info : RequestInfo)
    (allowlisted : Bool) (ha : allowlisted = prefixesContain ((s.pub .allowIPs).getD []) ip) :
    ((stages (w := w) clock r ip info).run s).1.isUpstream = true ↔
      ¬ prefixesContain ((s.pub .blockIPs).getD []) ip = true ∧
      ((!allowlisted) = true ∧ info.matched = true →
        CountryPasses w s info.entry.tenant.security ip) ∧
      ((!allowlisted) = true → GlobalLimitPasses w s) ∧ info.matched = true ∧
      ((serveTenant (w := w) clock r allowlisted info).run s).1.isUpstream = true := by
  refine andThen_isUpstream (checkBlockList_decides ip) ?_
  rintro _ rfl
  rw [allowListed, Prog.run_bind, run_load_bind, ← ha]
  have hcountry := (checkCountry_decides (w := w) (s := s) info.entry.tenant.security ip).onlyIf
    ⟨s.lookups, rfl⟩
    (!allowlisted && (info.matched && info.entry.tenant.security.geoIPEnabled = some true))
  rw [Bool.and_eq_true, Bool.and_eq_true, decide_eq_true_iff, and_imp, and_imp, ← and_imp] at hcountry
  refine andThen_isUpstream hcountry ?_
  rintro _ ⟨lookups, rfl⟩
  refine andThen_isUpstream (checkGlobalLimit_decides.onlyIf ⟨_, rfl⟩ _) ?_
  rintro _ ⟨calls, rfl⟩
  cases hm : info.matched with
  | false => simp [Served.isUpstream]
  | true =>
    simp only [Bool.not_true, Bool.false_eq_true, if_false, true_and]
    rw [serveTenant_isUpstream, serveTenant_isUpstream]
    exact Iff.rfl

end Contract

/-- **The request pipeline.** For every request, runtime and outcome of the checks, the request is
handed to an upstream exactly if the client is not in the block list, the host matches a tenant,
the token, a credential and CrowdSec pass where required, an upstream is selected, and the client is
in the allow list or passes GeoIP, both rate limits and, unless it holds the bypass secret,
inspection. -/
theorem serveHTTP_upstream_iff (w : World) (clock : ServeClock) (r : Request) (s : Runtime) :
    ((serveHTTP w clock r).run s).1.isUpstream = true ↔
      ¬ InBlockList s r ∧ ∃ entry domain, tenantOf w s r = some (entry, domain) ∧
        JwtPasses w s r entry.tenant.security ∧
        BasicAuthPasses w s r entry.tenant.security ∧
        CrowdSecPasses w s entry.tenant.security clock.crowdSec (clientIPOf s r) ∧
        UpstreamSelected s clock.select domain ∧
        (InAllowList s r ∨
          (CountryPasses w s entry.tenant.security (clientAddrOf s r) ∧
            GlobalLimitPasses w s ∧
            TenantLimitPasses w s entry.tenant.security domain (clientIPOf s r) ∧
            (devBypassGranted r entry.tenant.security.devBypassSecret = true ∨
              InspectionPasses w s r entry domain (clientIPOf s r)))) := by
  have hrun : (serveHTTP w clock r).run s = (stages (w := w) clock r (clientAddrOf s r)
      (newRequestInfo r (s.pub .trustForwardedFor) ((s.pub .trustedProxyCIDRs).getD [])
        (clientIPOf s r) (tenantOf w s r))).run s := rfl
  rw [hrun, stages_isUpstream _ _ _ _ _ rfl]
  cases ht : tenantOf w s r with
  | none => simp [newRequestInfo]
  | some found =>
    obtain ⟨entry, domain⟩ := found
    rw [serveTenant_isUpstream]
    unfold InBlockList InAllowList
    cases prefixesContain ((s.pub .allowIPs).getD []) (clientAddrOf s r) with
    | true => simp [newRequestInfo]
    | false =>
      simp only [newRequestInfo, Option.map_some, Option.getD_some, Option.isSome_some, Bool.not_false,
        true_and, forall_const, Option.some.injEq, Prod.mk.injEq, Bool.false_eq_true, false_or,
        ↓existsAndEq]
      tauto

end SynitWaf
