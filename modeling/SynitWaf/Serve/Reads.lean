import SynitWaf.Atomic.Fallible
import SynitWaf.Serve.Pipeline

/-!
# What a request reads

A request changes no part of the configuration, and reads it in a fixed order: first the trusted
proxies, the trust flag and the registry, then everything else. The tenant state it loads is that of
the domain its host matched in the registry it read.

* `Serving`: a program that performs operations of a request only; `serveTenant_serving`,
  **`stages_serving`**;
* **`serveHTTP_avoids_reloads`**: a request performs no operation of a reload;
* **`serveHTTP_loads_matched`**: which tenant state is loaded;
* `serveHTTP_reads_proxies`: the trusted proxies are read first; **`serveHTTP_loadsLast`**: the tenant
  state is read last.
-/

namespace SynitWaf

open Atomic Go

variable {w : World} {α β : Type} {tenant : Option GoString}

/-- The program performs operations of a request for `tenant` only. -/
def Serving (tenant : Option GoString) (p : Prog (handlerSig w) α) : Prop :=
  p.Avoids fun o : HandlerOp => o.serves tenant = false

theorem serving_ret (x : α) : Serving tenant (.ret x : Prog (handlerSig w) α) := Prog.avoids_ret x

theorem Serving.bind {p : Prog (handlerSig w) α} {f : α → Prog (handlerSig w) β}
    (hp : Serving tenant p) (hf : ∀ x, Serving tenant (f x)) : Serving tenant (p >>= f) :=
  Prog.Avoids.bind hp hf

theorem serving_op {o : HandlerOp} (h : o.serves tenant = true) :
    Serving tenant (Prog.op (S := handlerSig w) o) :=
  Prog.avoids_op (by simp [h])

theorem serving_lift {σ : Type} {S : Sig σ} (E : Embed S (handlerSig w)) (p : Prog S α)
    (h : ∀ o, HandlerOp.serves tenant (E.op o) = true) : Serving tenant (p.lift E) :=
  Prog.Avoids.lift (by simpa using h) p

theorem serving_load (f : Field) : Serving tenant (load (w := w) f) := serving_op rfl

/-! ## The stages -/

theorem Serving.andThen {check : Prog (handlerSig w) (Option Served)}
    {next : Prog (handlerSig w) Served} (hc : Serving tenant check) (hn : Serving tenant next) :
    Serving tenant (andThen check next) := by
  refine hc.bind fun x => ?_
  cases x with
  | none => exact hn
  | some served => exact serving_ret served

theorem Serving.onlyIf {c : Bool} {check : Prog (handlerSig w) (Option Served)}
    (h : Serving tenant check) : Serving tenant (onlyIf c check) := by
  unfold SynitWaf.onlyIf
  split
  · exact h
  · exact serving_ret none

theorem checkBlockList_serving (ip : Addr) : Serving tenant (checkBlockList (w := w) ip) := by
  refine (serving_load .blockIPs).bind fun _ => ?_
  split <;> exact serving_ret _

theorem checkDependencyMode_serving (served : Option Served) : Serving tenant (do
    if (← load (w := w) .dependencyMode) = .failClosed then return served else return none) := by
  refine (serving_load .dependencyMode).bind fun _ => ?_
  split <;> exact serving_ret _

theorem checkCountry_serving (policy : SecurityPolicy) (ip : Addr) :
    Serving tenant (checkCountry (w := w) policy ip) := by
  refine (serving_op (o := .lookupCountry ip) rfl).bind fun x => ?_
  rcases x with _ | _ | country
  · exact checkDependencyMode_serving _
  · exact serving_ret none
  · dsimp only
    split <;> exact serving_ret _

theorem checkGlobalLimit_serving : Serving tenant (checkGlobalLimit (w := w)) := by
  refine (serving_load .globalLimiter).bind fun x => ?_
  cases x with
  | none => exact serving_ret none
  | some limiter =>
    refine (serving_op (o := .globalAllow limiter) rfl).bind fun _ => ?_
    split <;> exact serving_ret _

theorem checkTenantLimit_serving (domain clientIP : GoString) (policy : RateLimitPolicy) :
    Serving tenant (checkTenantLimit (w := w) domain clientIP policy) := by
  unfold checkTenantLimit
  split
  · exact serving_ret none
  refine (serving_load .coordinator).bind fun coordinator => ?_
  refine (serving_lift (limiterPart w) _ fun _ => rfl).bind fun _ => ?_
  split <;> exact serving_ret _

theorem checkJWT_serving (r : Request) (cfg : JWTValidationConfig) :
    Serving tenant (checkJWT (w := w) r cfg) :=
  (serving_op (o := .jwtCall) rfl).bind fun _ => serving_ret _

theorem authenticate_serving {r : Request} {info : RequestInfo}
    {next : RequestInfo → Prog (handlerSig w) Served}
    (h : ∀ user, Serving tenant (next { info with user := user })) (h' : Serving tenant (next info)) :
    Serving tenant (authenticate r info next) := by
  unfold authenticate
  dsimp only
  split
  · exact h'
  · refine (serving_lift (basicAuthPart w) _ fun _ => rfl).bind fun x => ?_
    cases x with
    | none => exact serving_ret _
    | some user => exact h user

theorem crowdSecDecision_serving (now : ℤ) (clientIP : GoString) :
    Serving tenant (crowdSecDecision (w := w) now clientIP) := by
  refine (serving_load .bouncer).bind fun x => ?_
  cases x with
  | none => exact serving_ret none
  | some bouncer =>
    refine (serving_load .crowdsecCacheTTL).bind fun ttl => ?_
    exact serving_lift (crowdsecPart w) _ fun _ => rfl

theorem checkCrowdSec_serving (now : ℤ) (clientIP : GoString) :
    Serving tenant (checkCrowdSec (w := w) now clientIP) := by
  refine (crowdSecDecision_serving now clientIP).bind fun x => ?_
  rcases x with _ | _ | _
  · exact checkDependencyMode_serving _
  · exact serving_ret _
  · exact serving_ret _

theorem runCoraza_serving (r : Request) (info : RequestInfo) :
    Serving tenant (runCoraza (w := w) r info) := by
  unfold runCoraza
  split
  · exact serving_ret _
  · refine (serving_op (o := .newTransaction) rfl).bind fun number => ?_
    refine Serving.bind ?_ fun clientIP => (serving_load .requestBodyLimit).bind fun _ => serving_ret _
    unfold clientIPFor
    split
    · exact serving_ret _
    · exact (serving_load .trustForwardedFor).bind fun _ =>
        (serving_load .trustedProxyCIDRs).bind fun _ => serving_ret _

theorem runGraphQL_serving (r : Request) (policy : GraphQLProtection) (cached : Option GoString) :
    Serving tenant (runGraphQL (w := w) r policy cached) := by
  unfold runGraphQL
  split
  · exact (serving_load .requestBodyLimit).bind fun _ => serving_ret _
  · exact serving_ret _

theorem runLLM_serving (r : Request) (domain : GoString) (policy : LLMProtectionConfig)
    (cached : Option GoString) : Serving tenant (runLLM (w := w) r domain policy cached) := by
  unfold runLLM
  split
  · refine (serving_load .requestBodyLimit).bind fun _ => ?_
    exact serving_lift (llmPart w) _ fun _ => rfl
  · exact serving_ret _

theorem inspectContent_serving (r : Request) (info : RequestInfo) :
    Serving tenant (inspectContent (w := w) r info) := by
  unfold inspectContent
  dsimp only
  split
  · exact serving_ret none
  · refine (runCoraza_serving r info).bind fun x => ?_
    rcases x with ⟨_ | reply, cached⟩
    · refine (runGraphQL_serving r _ cached).bind fun x => ?_
      rcases x with ⟨_ | reply, cached⟩
      · refine (runLLM_serving r _ _ cached).bind fun x => ?_
        cases x <;> exact serving_ret _
      · exact serving_ret _
    · exact serving_ret _

theorem proxyRequest_serving (now : ℤ) (info : RequestInfo) :
    Serving (some info.tenant) (proxyRequest (w := w) now info) := by
  refine (serving_op (o := .loadTenantState info.tenant) (by simp [HandlerOp.serves])).bind fun x => ?_
  cases x with
  | none => exact serving_ret _
  | some state =>
    refine (serving_lift (upstreamPart w) _ fun _ => rfl).bind fun x => ?_
    cases x <;> exact serving_ret _

theorem serveTenant_serving (clock : ServeClock) (r : Request) (allowlisted : Bool)
    (info : RequestInfo) :
    Serving (some info.tenant) (serveTenant (w := w) clock r allowlisted info) := by
  have hrest : ∀ info' : RequestInfo, info'.tenant = info.tenant →
      Serving (some info.tenant) (andThen (onlyIf (info.entry.tenant.security.crowdSecEnabled = some true)
        (checkCrowdSec clock.crowdSec info'.clientIP)) <|
      andThen (onlyIf (!allowlisted) (inspectContent (w := w) r info')) <|
        proxyRequest clock.select info') := by
    intro info' htenant
    have hproxy := proxyRequest_serving (w := w) clock.select info'
    rw [htenant] at hproxy
    exact (checkCrowdSec_serving _ _).onlyIf.andThen
      ((inspectContent_serving r info').onlyIf.andThen hproxy)
  refine (checkTenantLimit_serving _ _ _).onlyIf.andThen ?_
  refine (checkJWT_serving r _).onlyIf.andThen ?_
  exact authenticate_serving (fun user => hrest { info with user := user } rfl) (hrest info rfl)

/-- The stages load the state of the matched tenant only. -/
theorem stages_serving (clock : ServeClock) (r : Request) (ip : Addr) (info : RequestInfo) :
    Serving (if info.matched then some info.tenant else none) (stages (w := w) clock r ip info) := by
  refine (checkBlockList_serving ip).andThen ?_
  refine ((serving_load .allowIPs).bind fun _ => serving_ret _).bind fun allowlisted => ?_
  refine (checkCountry_serving _ _).onlyIf.andThen ?_
  refine checkGlobalLimit_serving.onlyIf.andThen ?_
  cases info.matched with
  | false => exact serving_ret _
  | true => exact serveTenant_serving clock r allowlisted info

/-! ## Whole requests -/

section Paths

variable {clock : ServeClock} {r : Request}

/-- What a request does after it has read the registry. -/
def afterRegistry (clock : ServeClock) (r : Request) (proxies : Option (List Prefix)) (trust : Bool)
    (registry : Registry) : Prog (handlerSig w) Served :=
  let clientIP := clientIPFromRequest r trust (proxies.getD [])
  stages clock r ((parseAddr clientIP).getD .invalid) (newRequestInfo r trust (proxies.getD [])
    clientIP (registry.get w.unicode w.order r.host))

theorem serveHTTP_eq : serveHTTP w clock r =
    .act (.load .trustedProxyCIDRs) fun (proxies : Option (List Prefix)) =>
      .act (.load .trustForwardedFor) fun (trust : Bool) =>
        .act (.load .registry) fun (registry : Registry) =>
          afterRegistry clock r proxies trust registry := rfl

/-- The domain a request is served under. -/
def matchedDomain (w : World) (r : Request) (registry : Registry) : Option GoString :=
  (registry.get w.unicode w.order r.host).map Prod.snd

theorem afterRegistry_serving (proxies : Option (List Prefix)) (trust : Bool) (registry : Registry) :
    Serving (matchedDomain w r registry) (afterRegistry (w := w) clock r proxies trust registry) := by
  have hstages := stages_serving (w := w) clock r
    ((parseAddr (clientIPFromRequest r trust (proxies.getD []))).getD .invalid)
    (newRequestInfo r trust (proxies.getD []) (clientIPFromRequest r trust (proxies.getD []))
      (registry.get w.unicode w.order r.host))
  unfold matchedDomain
  unfold afterRegistry
  cases hget : registry.get w.unicode w.order r.host with
  | none =>
    rw [hget] at hstages
    exact hstages
  | some found =>
    rw [hget] at hstages
    exact hstages

/-- **A request performs no operation of a reload.** -/
theorem serveHTTP_avoids_reloads :
    (serveHTTP w clock r).Avoids fun o : HandlerOp => o.reloads = true := by
  rw [serveHTTP_eq]
  simp only [Prog.avoids_act]
  refine fun _ => ⟨by simp [HandlerOp.reloads], fun _ => ⟨by simp [HandlerOp.reloads], fun _ =>
    ⟨by simp [HandlerOp.reloads], ?_⟩⟩⟩
  refine (afterRegistry_serving _ _ _).mono (fun o _ h => ?_) fun _ h => h
  rw [Bool.not_eq_false] at h
  simp [HandlerOp.not_reloads h]

/-- The first three operations of a request. -/
theorem serveHTTP_path {t : Steps (handlerSig w)} {q : Prog (handlerSig w) Served}
    (h : Path (serveHTTP w clock r) t q) : (∀ e ∈ t, e.1 = .load .trustedProxyCIDRs ∨
      e.1 = .load .trustForwardedFor ∨ e.1 = .load .registry) ∨ ∃ s₁ s₂ s₃ t',
      t = (.load .trustedProxyCIDRs, s₁) :: (.load .trustForwardedFor, s₂) ::
        (.load .registry, s₃) :: t' ∧
      Path (afterRegistry clock r (s₁.pub .trustedProxyCIDRs) (s₂.pub .trustForwardedFor)
        (s₃.pub .registry)) t' q := by
  rw [serveHTTP_eq] at h
  obtain ⟨rfl, -⟩ | ⟨s₁, t₁, rfl, h₁⟩ := h.act_inv
  · exact .inl (by simp)
  obtain ⟨rfl, -⟩ | ⟨s₂, t₂, rfl, h₂⟩ := h₁.act_inv
  · exact .inl (by simp)
  obtain ⟨rfl, -⟩ | ⟨s₃, t₃, rfl, h₃⟩ := h₂.act_inv
  · exact .inl (by simp)
  · exact .inr ⟨s₁, s₂, s₃, t₃, rfl, h₃⟩

/-- **The tenant state a request loads** is that of the domain its host matched. -/
theorem serveHTTP_loads_matched {t₁ t₂ : Steps (handlerSig w)} {q : Prog (handlerSig w) Served}
    {domain : GoString} {s : Runtime}
    (h : Path (serveHTTP w clock r) (t₁ ++ (.loadTenantState domain, s) :: t₂) q) :
    ∃ s', ((.load .registry, s') : HandlerOp × Runtime) ∈ t₁ ∧
      matchedDomain w r (s'.pub .registry) = some domain := by
  obtain hload | ⟨s₁, s₂, s₃, t', ht, hrest⟩ := serveHTTP_path h
  · have hlast := hload (.loadTenantState domain, s) (by simp)
    simp at hlast
  · have hmem : ((.loadTenantState domain, s) : HandlerOp × Runtime) ∈ t' := by
      have hall : ((.loadTenantState domain, s) : HandlerOp × Runtime) ∈
        t₁ ++ (.loadTenantState domain, s) :: t₂ := by simp
      rw [ht] at hall
      simpa using hall
    have hserves := (afterRegistry_serving _ _ _).path hrest _ hmem
    rw [Bool.not_eq_false, HandlerOp.serves, decide_eq_true_iff] at hserves
    refine ⟨s₃, ?_, hserves⟩
    -- the load comes behind the first three operations
    obtain _ | ⟨x₁, _ | ⟨x₂, _ | ⟨x₃, t₁⟩⟩⟩ := t₁
    · simp at ht
    · simp at ht
    · simp at ht
    · simp only [List.cons_append, List.cons.injEq] at ht
      simp [ht.2.2.1]

/-- **The trusted proxies are read first.** -/
theorem serveHTTP_reads_proxies : (serveHTTP w clock r).Behind
    (fun o : HandlerOp => o = .load .trustedProxyCIDRs)
    fun o : HandlerOp => o = .load .blockIPs ∨ o = .load .allowIPs := by
  rw [serveHTTP_eq]
  exact fun _ => ⟨by simp, .inl rfl⟩

end Paths

/-! ## The load of the tenant state -/

section LeadsTo

variable {clock : ServeClock} {r : Request}

/-- The operation loads a tenant state. -/
def HandlerOp.loadsState : HandlerOp → Bool
  | .loadTenantState _ => true
  | _ => false

theorem Serving.avoids_load {p : Prog (handlerSig w) α} (h : Serving none p) :
    p.Avoids fun o : HandlerOp => o.loadsState = true := by
  refine h.mono (fun o _ ho hload => ho ?_) fun _ h => h
  cases o with
  | loadTenantState domain => rfl
  | _ => cases hload

/-- The tenant state is loaded by a final `proxyRequest`. -/
def LoadsLast (now : ℤ) (p : Prog (handlerSig w) Served) : Prop :=
  p.LeadsTo (fun q => ∃ info, q = proxyRequest now info) fun o : HandlerOp => o.loadsState = true

theorem LoadsLast.bind {now : ℤ} {p : Prog (handlerSig w) α} {f : α → Prog (handlerSig w) Served}
    (hp : Serving none p) (hf : ∀ x, LoadsLast now (f x)) : LoadsLast now (p >>= f) :=
  hp.avoids_load.leadsTo_bind hf

theorem loadsLast_ret {now : ℤ} (served : Served) :
    LoadsLast now (.ret served : Prog (handlerSig w) Served) :=
  (Prog.avoids_ret served).leadsTo

theorem LoadsLast.andThen {now : ℤ} {check : Prog (handlerSig w) (Option Served)}
    {next : Prog (handlerSig w) Served} (hc : Serving none check) (hn : LoadsLast now next) :
    LoadsLast now (andThen check next) := by
  refine LoadsLast.bind hc fun x => ?_
  cases x with
  | none => exact hn
  | some served => exact loadsLast_ret served

theorem authenticate_loadsLast {now : ℤ} {info : RequestInfo}
    {next : RequestInfo → Prog (handlerSig w) Served} (h : ∀ info, LoadsLast now (next info)) :
    LoadsLast now (authenticate r info next) := by
  unfold authenticate
  dsimp only
  split
  · exact h info
  · refine LoadsLast.bind (serving_lift (basicAuthPart w) _ fun _ => rfl) fun x => ?_
    cases x with
    | none => exact loadsLast_ret _
    | some user => exact h _

theorem serveTenant_loadsLast (allowlisted : Bool) (info : RequestInfo) :
    LoadsLast clock.select (serveTenant (w := w) clock r allowlisted info) := by
  refine LoadsLast.andThen (checkTenantLimit_serving _ _ _).onlyIf ?_
  refine LoadsLast.andThen (checkJWT_serving r _).onlyIf ?_
  refine authenticate_loadsLast fun info' => ?_
  refine LoadsLast.andThen (checkCrowdSec_serving _ _).onlyIf ?_
  refine LoadsLast.andThen (inspectContent_serving r info').onlyIf ?_
  exact Prog.LeadsTo.self ⟨info', rfl⟩

/-- **Only the last stage of a request loads a tenant state.** -/
theorem serveHTTP_loadsLast : LoadsLast clock.select (serveHTTP w clock r) := by
  refine LoadsLast.bind (serving_load .trustedProxyCIDRs) fun proxies => ?_
  refine LoadsLast.bind (serving_load .trustForwardedFor) fun trust => ?_
  refine LoadsLast.bind (serving_load .registry) fun registry => ?_
  refine LoadsLast.andThen (checkBlockList_serving _) ?_
  refine LoadsLast.bind ((serving_load .allowIPs).bind fun _ => serving_ret _) fun allowlisted => ?_
  refine LoadsLast.andThen (checkCountry_serving _ _).onlyIf ?_
  refine LoadsLast.andThen checkGlobalLimit_serving.onlyIf ?_
  split
  · exact loadsLast_ret _
  · exact serveTenant_loadsLast allowlisted _

end LeadsTo

end SynitWaf
