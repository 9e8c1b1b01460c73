import SynitWaf.Reload.Publication

/-!
# Requests and configuration generations

A request served during a publication may read some values before and some after the publication
stores them. It is served under a single generation if no such mixture occurs.

* `Agrees`, **`SingleGeneration`**: everything a request reads about its client, the lists, its
  tenant and the state of the tenant comes from one generation;
* `ReadsBefore`, `ResolvesAfter`: conditions on the order of the steps;
* **`serves_single_generation`**: requests that meet one of the conditions are served under a
  single generation, in every interleaving;
* `serves_mixed_generations`: an interleaving with a request that meets neither.
-/

namespace SynitWaf

open Atomic Go

/-- What the read finds in state `s` is what it finds in `g`; the registry is read for the host of the
request. -/
def Agrees (w : World) (r : Request) (g : Runtime) : HandlerOp → Runtime → Prop
  | .load .registry, s => (s.pub .registry).get w.unicode w.order r.host =
      (g.pub .registry).get w.unicode w.order r.host
  | .load f, s => f.consulted = true → s.pub f = g.pub f
  | .loadTenantState domain, s => s.tenantStates.lookup domain = g.tenantStates.lookup domain
  | _, _ => True

/-- The read is one of the configuration of a request. -/
def HandlerOp.consults : HandlerOp → Bool
  | .load f => f.consulted
  | .loadTenantState _ => true
  | _ => false

/-- The read decides on the client address or on the tenant. -/
def HandlerOp.resolves : HandlerOp → Bool
  | .load .trustedProxyCIDRs => true
  | .load .trustForwardedFor => true
  | .load .registry => true
  | _ => false

theorem agrees_of_not_consults {w : World} {r : Request} {g s : Runtime} {o : HandlerOp}
    (h : o.consults = false) : Agrees w r g o s := by
  cases o with
  | load f => cases f <;> first | exact trivial | simp_all [HandlerOp.consults, Field.consulted, Agrees]
  | loadTenantState domain => cases h
  | _ => trivial

theorem agrees_load {w : World} {r : Request} {g s : Runtime} {f : Field}
    (h : f.consulted = true → s.pub f = g.pub f) : Agrees w r g (.load f) s := by
  cases f with
  | registry =>
    exact congrArg (fun registry => Registry.get w.unicode w.order registry r.host) (h rfl)
  | _ => exact h

namespace Overlap

variable {w : World} {ι κ : Type} [DecidableEq ι] [DecidableEq κ]

/-- All configuration the request has read is that of one generation: the one in force before the
publication, or the one it publishes. -/
def SingleGeneration (c : Overlap w ι κ) (mem : Runtime) (i : ι)
    (t : Trace (handlerSig w) (Task ι κ)) : Prop :=
  (∀ e ∈ own (.request i) t, Agrees w (c.request i) mem e.1 e.2) ∨
    ∀ e ∈ own (.request i) t, Agrees w (c.request i) (c.after mem) e.1 e.2

/-- The request reads each part of its configuration before the publication replaces that part. -/
def ReadsBefore (i : ι) : Trace (handlerSig w) (Task ι κ) → Prop :=
  AtSteps fun earlier e => e.1 = .request i → HandlerOp.consults e.2.1 = true →
    ∀ x ∈ earlier, HandlerOp.replaces x.2.1 e.2.1 = false

/-- The request resolves its client and its tenant from values the publication has stored. -/
def ResolvesAfter (i : ι) : Trace (handlerSig w) (Task ι κ) → Prop :=
  AtSteps fun earlier e => e.1 = .request i → HandlerOp.resolves e.2.1 = true →
    ∃ x ∈ earlier, HandlerOp.replaces x.2.1 e.2.1 = true

instance (i : ι) (t : Trace (handlerSig w) (Task ι κ)) : Decidable (ReadsBefore i t) :=
  inferInstanceAs (Decidable (AtSteps _ t))

instance (i : ι) (t : Trace (handlerSig w) (Task ι κ)) : Decidable (ResolvesAfter i t) :=
  inferInstanceAs (Decidable (AtSteps _ t))

section Steps

variable {c : Overlap w ι κ} {mem : Runtime} {sched : List (Task ι κ)} {i : ι}
  {t₁ t₂ : Trace (handlerSig w) (Task ι κ)} {o : HandlerOp} {s : Runtime}

theorem agrees_old (h : ReadsBefore i (c.run mem sched).trace)
    (ht : (c.run mem sched).trace = t₁ ++ (.request i, o, s) :: t₂) :
    Agrees w (c.request i) mem o s := by
  cases ho : o.consults with
  | false => exact agrees_of_not_consults ho
  | true =>
    have hbefore : ∀ x ∈ t₁, x.2.1.replaces o = false := by
      rw [ht] at h
      exact h.split rfl ho
    cases o with
    | load f => exact agrees_load fun _ => pub_eq_old ht hbefore
    | loadTenantState domain => exact lookup_eq_old ht hbefore
    | _ => trivial

/-- The read of a value that resolves the client or the tenant finds the new value. -/
theorem stored_before (h : ResolvesAfter i (c.run mem sched).trace)
    (ht : (c.run mem sched).trace = t₁ ++ (.request i, o, s) :: t₂) (ho : o.resolves = true) :
    ∃ x ∈ t₁, x.2.1.replaces o = true := by
  rw [ht] at h
  exact h.split rfl ho

/-- The lists are read after the trusted proxies, and stored before them. -/
theorem list_eq_new (h : ResolvesAfter i (c.run mem sched).trace) {f : Field}
    (hf : f = .allowIPs ∨ f = .blockIPs)
    (ht : (c.run mem sched).trace = t₁ ++ (.request i, .load f, s) :: t₂) :
    s.pub f = (c.after mem).pub f := by
  have hreads : (c.threads (.request i)).Behind (fun o : HandlerOp => o = .load .trustedProxyCIDRs)
      fun o : HandlerOp => o = .load .blockIPs ∨ o = .load .allowIPs :=
    serveHTTP_reads_proxies.bind fun _ => Prog.behind_ret _
  have hlist : HandlerOp.load f = .load .blockIPs ∨ HandlerOp.load f = .load .allowIPs := by
    rcases hf with rfl | rfl <;> simp
  obtain ⟨⟨o, s'⟩, hx, rfl⟩ := Pool.behind hreads ht hlist
  have hproxies : ∃ x ∈ t₁, x.2.1.replaces (.load .trustedProxyCIDRs) = true := by
    obtain ⟨u₁, u₂, rfl⟩ := List.append_of_mem hx
    rw [List.append_assoc] at ht
    obtain ⟨x, hx, hreplaces⟩ := stored_before h ht rfl
    exact ⟨x, List.mem_append_left _ hx, hreplaces⟩
  have hconsulted : f.consulted = true := by rcases hf with rfl | rfl <;> rfl
  exact pub_eq_new ht hconsulted (done_before ht (publish_settings_first hf) hproxies)

/-- The tenant is matched in the new registry, which is stored after all tenant states. -/
theorem tenantState_eq_new (h : ResolvesAfter i (c.run mem sched).trace) {domain : GoString}
    (ht : (c.run mem sched).trace = t₁ ++ (.request i, .loadTenantState domain, s) :: t₂) :
    s.tenantStates.lookup domain = (c.after mem).tenantStates.lookup domain := by
  obtain ⟨u₁, u₂, s', rfl, hmatched⟩ := loads_matched ht
  have ht' := ht
  rw [List.append_assoc] at ht'
  have hregistry := stored_before h ht' rfl
  rw [pub_eq_new ht' rfl hregistry] at hmatched
  obtain ⟨state, hstate⟩ := (publish_inForce mem).matched_state hmatched
  obtain ⟨x, hx, hreplaces⟩ := hregistry
  obtain ⟨y, hy, hstored⟩ := done_before ht (publish_states_first hstate)
    ⟨x, List.mem_append_left _ hx, hreplaces⟩
  exact lookup_eq_new ht ⟨y, hy, state, hstored⟩

theorem agrees_new (h : ResolvesAfter i (c.run mem sched).trace)
    (ht : (c.run mem sched).trace = t₁ ++ (.request i, o, s) :: t₂) :
    Agrees w (c.request i) (c.after mem) o s := by
  cases o with
  | load f =>
    refine agrees_load fun hf => ?_
    cases f with
    | allowIPs => exact list_eq_new h (.inl rfl) ht
    | blockIPs => exact list_eq_new h (.inr rfl) ht
    | trustedProxyCIDRs => exact pub_eq_new ht rfl (stored_before h ht rfl)
    | trustForwardedFor => exact pub_eq_new ht rfl (stored_before h ht rfl)
    | registry => exact pub_eq_new ht rfl (stored_before h ht rfl)
    | _ => cases hf
  | loadTenantState domain => exact tenantState_eq_new h ht
  | _ => trivial

end Steps

/-- **Requests under a single generation.** In every interleaving of a publication with requests and
other traffic, a request that reads each part of its configuration before the publication replaces
it, or that resolves its client and its tenant after the publication has stored the values for it,
is served under a single generation. -/
theorem serves_single_generation (c : Overlap w ι κ) (mem : Runtime) (sched : List (Task ι κ)) (i : ι)
    (h : ReadsBefore i (c.run mem sched).trace ∨ ResolvesAfter i (c.run mem sched).trace) :
    c.SingleGeneration mem i (c.run mem sched).trace := by
  rcases h with h | h
  · left
    intro e he
    obtain ⟨t₁, t₂, ht⟩ := List.append_of_mem (mem_own.mp he)
    exact agrees_old h ht
  · right
    intro e he
    obtain ⟨t₁, t₂, ht⟩ := List.append_of_mem (mem_own.mp he)
    exact agrees_new h ht

end Overlap

/-- The request reads the settings of its client when the publication has stored them, its tenant when
the registry is stored, and the publication ends behind it. -/
def afterSchedule : List (Task Unit Empty) :=
  List.replicate 14 .publication ++ List.replicate 2 (.request ()) ++ List.replicate 11 .publication ++
    List.replicate 20 (.request ()) ++ List.replicate 2 .publication

/-- The request has loaded the state of its tenant before the publication starts, and goes on during
it. -/
def beforeSchedule : List (Task Unit Empty) :=
  List.replicate 7 (.request ()) ++ List.replicate 14 .publication ++ [.request ()] ++
    List.replicate 13 .publication ++ List.replicate 20 (.request ())

theorem serves_single_generation_moved :
    moving.SingleGeneration movedRuntime () (moving.run movedRuntime afterSchedule).trace ∧
      moving.SingleGeneration movedRuntime () (moving.run movedRuntime beforeSchedule).trace ∧
      ∀ sched ∈ [afterSchedule, beforeSchedule],
        ((moving.run movedRuntime sched).threads (.request ())).result?.isSome = true ∧
          ((moving.run movedRuntime sched).threads .publication).result?.isSome = true := by
  have hserves := Overlap.serves_single_generation moving movedRuntime
  refine And.imp (fun h => hserves _ () (.inr h)) (And.imp_left fun h => hserves _ () (.inl h)) ?_
  decide +kernel

/-! ## A mixture -/

/-- The read finds the tenant state of `g`. -/
def findsState (g : Runtime) : HandlerOp → Runtime → Bool
  | .loadTenantState domain, s => s.tenantStates.lookup domain = g.tenantStates.lookup domain
  | _, _ => true

/-- The passwords of the tenant that a host matches. -/
def passwords (w : World) (r : Request) (registry : Registry) : Option (List BasicAuthCredentials) :=
  (registry.get w.unicode w.order r.host).map fun found => found.1.tenant.security.basicAuth

/-- The read finds the passwords of `g`. -/
def findsPasswords (w : World) (r : Request) (g : Runtime) : HandlerOp → Runtime → Bool
  | .load .registry, s => passwords w r (s.pub .registry) = passwords w r (g.pub .registry)
  | _, _ => true

theorem Agrees.findsState {w : World} {r : Request} {g s : Runtime} {o : HandlerOp}
    (h : Agrees w r g o s) : findsState g o s = true := by
  cases o with
  | loadTenantState domain => exact decide_eq_true h
  | _ => rfl

theorem Agrees.findsPasswords {w : World} {r : Request} {g s : Runtime} {o : HandlerOp}
    (h : Agrees w r g o s) : findsPasswords w r g o s = true := by
  cases o with
  | load f =>
    cases f with
    | registry => exact decide_eq_true (congrArg (Option.map _) h)
    | _ => rfl
  | _ => rfl

/-- The upstream a request is handed to, and the passwords it had to give one of. -/
def Served.admission : Served → Option (UpstreamServer × List BasicAuthCredentials)
  | .upstream u info => some (u, info.entry.tenant.security.basicAuth)
  | _ => none

/-- The request resolves its client and its tenant, the generation is published, and the request goes
on. -/
def movingSchedule : List (Task Unit Empty) :=
  List.replicate 3 (.request ()) ++ List.replicate 30 .publication ++ List.replicate 20 (.request ())

/-- **A request under two generations.** The request is admitted under the old policy, which asks for
no password, and is handed to the new upstream. -/
theorem serves_mixed_generations :
    ¬ moving.SingleGeneration movedRuntime () (moving.run movedRuntime movingSchedule).trace ∧
    ((moving.run movedRuntime movingSchedule).threads (.request ())).result?.join.bind
      Served.admission = some (movedUpstream, []) := by
  -- the tenant state is the new one and the policy the old one
  obtain ⟨hstate, hpolicy, hserved⟩ :
      (¬ ∀ e ∈ own (.request ()) (moving.run movedRuntime movingSchedule).trace,
        findsState movedRuntime e.1 e.2 = true) ∧
      (¬ ∀ e ∈ own (.request ()) (moving.run movedRuntime movingSchedule).trace,
        findsPasswords site siteRequest (moving.after movedRuntime) e.1 e.2 = true) ∧
      ((moving.run movedRuntime movingSchedule).threads (.request ())).result?.join.bind
        Served.admission = some (movedUpstream, []) := by decide +kernel
  refine ⟨?_, hserved⟩
  rintro (h | h)
  · exact hstate fun e he => (h e he).findsState
  · exact hpolicy fun e he => (h e he).findsPasswords

end SynitWaf
