import SynitWaf.Serve.Rewrite
import SynitWaf.Upstream.Masking

/-!
# Injected headers and the order of maps

A tenant may have headers set in the requests to its upstreams and in their responses. The headers
stand in a map, which Go visits in any order, and a key is brought into its canonical form when it is
set. Two keys of a map may therefore be the same header.

* `lastOrder`: an order that ends with a key;
* `injectHeaders_order_iff`: the value of a header is the same for all orders exactly if all keys that
  denote it inject the same value;
* `modifiedResponse`: `ModifyResponse` behind the circuit breaker;
* `InjectsAgree`; **`injection_order_iff`**: the requests and responses that do not depend on the
  order; `spelled_twice`: a tenant for which both do.
-/

namespace SynitWaf

open Go

/-! ## The loop -/

/-- An order that visits one key behind all others. -/
def lastOrder (key : GoString) : KeyOrder where
  visit keys := if key ∈ keys then keys.erase key ++ [key] else keys
  perm keys := by
    split
    next hkey => exact (List.perm_append_singleton _ _).trans (List.perm_cons_erase hkey).symm
    next => exact .refl _

section Loop

variable {inject : GoMap GoString} {value : GoString → GoString} {h : Header} {name : GoString}

/-- The key that is visited last wins. -/
theorem injectHeaders_lastOrder {key v : GoString} (hkey : inject.lookup key = some v) :
    injectHeaders (lastOrder key) inject value h (canonicalMIMEHeaderKey key) = [value v] := by
  have hmem : key ∈ inject.keys := mem_of_lookup hkey
  have hvisit : (lastOrder key).visit inject.keys = inject.keys.erase key ++ [key] := if_pos hmem
  simp only [injectHeaders, GoMap.visit, hvisit, List.filterMap_append, List.filterMap_cons, hkey,
    Option.map_some, List.filterMap_nil, List.foldl_append, List.foldl_cons, List.foldl_nil,
    Header.set_self]

/-- The keys that denote this header inject the same value. -/
def AgreesOn (inject : GoMap GoString) (value : GoString → GoString) (name : GoString) : Prop :=
  ∀ key v key' v', inject.lookup key = some v → inject.lookup key' = some v' →
    canonicalMIMEHeaderKey key = name → canonicalMIMEHeaderKey key' = name → value v = value v'

/-- **The order of the loop** does not matter for a header exactly if its keys agree. -/
theorem injectHeaders_order_iff :
    (∀ order order', injectHeaders order inject value h name =
      injectHeaders order' inject value h name) ↔ AgreesOn inject value name := by
  constructor
  · rintro heq key v key' v' hkey hkey' rfl hname
    have hlast := heq (lastOrder key) (lastOrder key')
    rw [injectHeaders_lastOrder hkey, ← hname, injectHeaders_lastOrder hkey'] at hlast
    exact List.cons.inj hlast |>.1
  · intro hagree
    by_cases hex : ∃ key v, inject.lookup key = some v ∧ canonicalMIMEHeaderKey key = name
    · obtain ⟨key, v, hkey, hname⟩ := hex
      have hvalue : ∀ order, injectHeaders order inject value h name = [value v] := fun order => by
        refine Header.foldl_set_agree ⟨(key, v), (mem_visit order _).mpr hkey, hname⟩ ?_
        rintro ⟨key', v'⟩ hkv hname'
        exact hagree key' v' key v ((mem_visit order _).mp hkv) hkey hname' hname
      intro order order'
      rw [hvalue, hvalue]
    · have hvalue : ∀ order, injectHeaders order inject value h name = h name := fun order => by
        refine Header.foldl_apply fun kv hkv h => Header.set_of_ne (fun hname => hex ?_) _
        exact ⟨kv.1, kv.2, (mem_visit order _).mp hkv, hname⟩
      intro order order'
      rw [hvalue, hvalue]

end Loop

/-! ## Requests -/

/-- The headers that `Rewrite` removes at last if responses are masked. -/
def maskedNames : List GoString := [str "Accept-Encoding", str "Range", str "If-Range"]

/-- The tenant has the header removed from its requests, whatever is injected. -/
def Tenant.Withholds (tenant : Tenant) (name : GoString) : Prop :=
  tenant.security.responseMasking ≠ [] ∧ name ∈ maskedNames

instance (tenant : Tenant) (name : GoString) : Decidable (tenant.Withholds name) :=
  inferInstanceAs (Decidable (tenant.security.responseMasking ≠ [] ∧ name ∈ maskedNames))

section Requests

variable {fqdn : GoString} {tenant : Tenant} {r : Request} {info : Option RequestInfo} {out : Outbound}

/-- The header of the request before the loop over the injected headers. -/
def strippedRequest (tenant : Tenant) (r : Request) (info : Option RequestInfo) (out : Outbound) :
    Header :=
  tenant.headerTransform.stripRequest.foldl Header.del (setForwarding out.header (forwarding r info))

theorem rewrite_apply (order : KeyOrder) (name : GoString) :
    (rewrite order fqdn tenant r info out).header name =
      if tenant.Withholds name then []
      else injectHeaders order tenant.headerTransform.injectRequest
        (injectedValue fqdn (forwarding r info).clientIP) (strippedRequest tenant r info out) name := by
  have hcanonical : ∀ key ∈ maskedNames, canonicalMIMEHeaderKey key = key := by decide +kernel
  set injected := injectHeaders order tenant.headerTransform.injectRequest
    (injectedValue fqdn (forwarding r info).clientIP) (strippedRequest tenant r info out)
  have hheader : (rewrite order fqdn tenant r info out).header =
      if tenant.security.responseMasking ≠ [] then maskedNames.foldl Header.del injected
      else injected := rfl
  rw [hheader]
  by_cases hmasking : tenant.security.responseMasking ≠ []
  · rw [if_pos hmasking]
    by_cases hname : name ∈ maskedNames
    · have hdel := Header.foldl_del_mem (h := injected) hname
      rwa [if_pos ⟨hmasking, hname⟩, ← hcanonical name hname]
    · rw [if_neg fun h => hname h.2, Header.foldl_apply fun key hkey h => Header.del_of_ne ?_]
      rintro rfl
      exact hname ((hcanonical key hkey).symm ▸ hkey)
  · rw [if_neg hmasking, if_neg fun h => hmasking h.1]

/-- **A request** is rewritten in the same way for all orders exactly if the keys of every header agree
that is not removed anyway. -/
theorem rewrite_order_iff :
    (∀ order order', rewrite order fqdn tenant r info out = rewrite order' fqdn tenant r info out) ↔
      ∀ name, AgreesOn tenant.headerTransform.injectRequest
        (injectedValue fqdn (forwarding r info).clientIP) name ∨ tenant.Withholds name := by
  have hheader : (∀ order order', rewrite order fqdn tenant r info out =
      rewrite order' fqdn tenant r info out) ↔ ∀ name order order',
        (rewrite order fqdn tenant r info out).header name =
          (rewrite order' fqdn tenant r info out).header name := by
    constructor
    · intro h name order order'
      rw [h order order']
    · intro h order order'
      have hfun : (rewrite order fqdn tenant r info out).header =
          (rewrite order' fqdn tenant r info out).header := funext fun name => h name order order'
      exact congrArg (Outbound.mk r.host) hfun
  rw [hheader]
  refine forall_congr' fun name => ?_
  simp only [rewrite_apply]
  by_cases hname : tenant.Withholds name
  · simp [hname]
  · simp only [hname, if_false, or_false]
    exact injectHeaders_order_iff

end Requests

/-! ## Responses -/

section Responses

variable (lib : MaskingLib) (limit : ℤ) (rules : List MaskingRule)

/-- The response that is inspected, or an error. -/
def inspectedResponse (resp : UpstreamResponse) : Result UpstreamResponse :=
  if rules ≠ [] then applyResponseMasking lib limit resp rules else .ok resp

/-- `ModifyResponse` behind the circuit breaker; `rules` are those of `ResponseMasking`, and `order` is
that of the loop over the injected headers. -/
def modifiedResponse (order : KeyOrder) (transform : HeaderTransform) (resp : UpstreamResponse) :
    Result UpstreamResponse := do
  let resp ← inspectedResponse lib limit rules resp
  let header := transform.stripResponse.foldl Header.del resp.header
  return { resp with header := injectHeaders order transform.injectResponse id header }

variable {lib limit rules}

/-- **A response** is modified in the same way for all orders exactly if it is refused, or the keys of
every header agree. -/
theorem modifiedResponse_order_iff {transform : HeaderTransform} {resp : UpstreamResponse} :
    (∀ order order', modifiedResponse lib limit rules order transform resp =
      modifiedResponse lib limit rules order' transform resp) ↔
      (∃ e, inspectedResponse lib limit rules resp = .error e) ∨
        ∀ name, AgreesOn transform.injectResponse id name := by
  unfold modifiedResponse
  cases hinspected : inspectedResponse lib limit rules resp with
  | error e => simp [Bind.bind, Except.bind]
  | ok resp' =>
    have hok : ¬ ∃ e, Except.ok resp' = (.error e : Result UpstreamResponse) := by simp
    rw [or_iff_right hok]
    constructor
    · intro h name
      refine (injectHeaders_order_iff
        (h := transform.stripResponse.foldl Header.del resp'.header)).mp fun order order' => ?_
      have heq := congrArg UpstreamResponse.header (Except.ok.inj (h order order'))
      exact congrFun heq name
    · intro h order order'
      have hfun : injectHeaders order transform.injectResponse id
            (transform.stripResponse.foldl Header.del resp'.header) =
          injectHeaders order' transform.injectResponse id
            (transform.stripResponse.foldl Header.del resp'.header) :=
        funext fun name => injectHeaders_order_iff.mpr (h name) order order'
      change Except.ok { resp' with header := _ } = Except.ok { resp' with header := _ }
      rw [hfun]

end Responses

/-! ## All orders -/

/-- **Injected headers and the order of the maps.** For every tenant, a request is rewritten in the
same way for all orders exactly if keys that denote the same header inject the same value for this
client, or the header is removed anyway; a response is modified in the same way exactly if it is
refused, or keys that denote the same header have the same value. -/
theorem injection_order_iff (fqdn : GoString) (tenant : Tenant) :
    (∀ (r : Request) (info : Option RequestInfo) (out : Outbound),
      (∀ order order', rewrite order fqdn tenant r info out = rewrite order' fqdn tenant r info out) ↔
        ∀ name, AgreesOn tenant.headerTransform.injectRequest
          (injectedValue fqdn (forwarding r info).clientIP) name ∨ tenant.Withholds name) ∧
    ∀ (lib : MaskingLib) (limit : ℤ) (rules : List MaskingRule) (resp : UpstreamResponse),
      (∀ order order', modifiedResponse lib limit rules order tenant.headerTransform resp =
        modifiedResponse lib limit rules order' tenant.headerTransform resp) ↔
        (∃ e, inspectedResponse lib limit rules resp = .error e) ∨
          ∀ name, AgreesOn tenant.headerTransform.injectResponse id name :=
  ⟨fun _ _ _ => rewrite_order_iff, fun _ _ _ _ => modifiedResponse_order_iff⟩

/-- Two spellings of one header, with different values. -/
def spelledTwice : GoMap GoString :=
  ((∅ : GoMap GoString).insert (str "X-Env") (str "production")).insert (str "x-env") (str "test")

/-- The tenant of the sample site, with that header in its requests and responses. -/
def spelledTwiceTenant : Tenant :=
  { siteTenant with headerTransform := { siteTenant.headerTransform with
      injectRequest := spelledTwice
      injectResponse := spelledTwice } }

/-- The configuration with that tenant. -/
def spelledTwiceConfig : AppConfig :=
  { (default : AppConfig) with tenants := (∅ : GoMap Tenant).insert (str "a") spelledTwiceTenant }

/-- A response without a body. -/
def emptyResponse : UpstreamResponse := ⟨204, fun _ => [], 0, none, none⟩

/-- **Two spellings of a header** pass `ValidateConfig`; the upstream and the client get the one that
is visited last. -/
theorem spelled_twice :
    validateConfig siteLib siteSurroundings spelledTwiceConfig = .ok () ∧
    (∃ order order', (rewrite order (str "a") spelledTwiceTenant siteRequest none
        (plainProxy.outbound siteRequest)).header (str "X-Env") = [str "production"] ∧
      (rewrite order' (str "a") spelledTwiceTenant siteRequest none
        (plainProxy.outbound siteRequest)).header (str "X-Env") = [str "test"]) ∧
    ∃ order order' resp resp',
      modifiedResponse plainTextLib 0 [] order spelledTwiceTenant.headerTransform emptyResponse =
        .ok resp ∧
      modifiedResponse plainTextLib 0 [] order' spelledTwiceTenant.headerTransform emptyResponse =
        .ok resp' ∧
      resp.header (str "X-Env") = [str "production"] ∧ resp'.header (str "X-Env") = [str "test"] := by
  obtain ⟨hvalid, hproduction, htest⟩ :
      validateConfig siteLib siteSurroundings spelledTwiceConfig = .ok () ∧
      (rewrite (lastOrder (str "X-Env")) (str "a") spelledTwiceTenant siteRequest none
        (plainProxy.outbound siteRequest)).header (str "X-Env") = [str "production"] ∧
      (rewrite (lastOrder (str "x-env")) (str "a") spelledTwiceTenant siteRequest none
        (plainProxy.outbound siteRequest)).header (str "X-Env") = [str "test"] := by decide +kernel
  refine ⟨hvalid, ⟨_, _, hproduction, htest⟩, lastOrder (str "X-Env"), lastOrder (str "x-env"), _, _,
    rfl, rfl, ?_⟩
  decide +kernel

end SynitWaf
