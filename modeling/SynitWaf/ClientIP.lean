import Mathlib.Data.List.Induction
import SynitWaf.Go.NetipText
import SynitWaf.Request

/-!
# The client address behind trusted proxies

`clientIPFromRequest` reads the field lines of `X-Forwarded-For` from right to left, as long as the
entries are trusted proxies. It reads the first field line only, although all of them are one
list.

* `clientIPFromRequest`, `prefixesContain`;
* `IsClient`: the address of an entry that is not trusted, with only trusted entries to its right;
  `ForwardedClient`: what the proxy should take for the client;
* `isClient_iff`, `forwardedLoop_eq`: the loop finds the client of the entries it is given;
* **`clientIPFromRequest_forwarded_iff`**: the result is right exactly if the later lines hold
  trusted entries only, or name the same client as the first one;
* `clientIPFromRequest_spoofed`: a client that chooses its own address.
-/

namespace SynitWaf

open Go

/-! ## The source -/

/-- `prefixesContain`. -/
def prefixesContain (prefixes : List Prefix) (addr : Addr) : Bool :=
  prefixes.any fun p => p.contains addr

/-- The host part of the peer address. -/
def peerIP (r : Request) : GoString :=
  match splitHostPort r.remoteAddr with
  | some (host, _) => host
  | none => r.remoteAddr

/-- The loop over the parts of the header, the last one first. -/
def forwardedLoop (trustedProxies : List Prefix) (peer : Addr) : List GoString → GoString
  | [] => peer.string
  | part :: parts =>
    match parseAddr (trimSpace part) with
    | none => peer.string
    | some candidate =>
      if !prefixesContain trustedProxies candidate.unmap then candidate.unmap.string
      else forwardedLoop trustedProxies peer parts

/-- The canonical name of the header. -/
def xForwardedFor : GoString := str "X-Forwarded-For"

/-- `clientIPFromRequest`. -/
def clientIPFromRequest (r : Request) (trustForwarded : Bool) (trustedProxies : List Prefix) :
    GoString :=
  match parseAddr (peerIP r) with
  | none => peerIP r
  | some peer =>
    if !trustForwarded || !prefixesContain trustedProxies peer.unmap then peer.unmap.string
    else
      let parts := split (r.header.get xForwardedFor) (byte ',')
      forwardedLoop trustedProxies peer.unmap parts.reverse

/-! ## The client of a list of entries -/

section Entries

variable (proxies : List Prefix)

/-- The address of an entry. -/
def entryAddr (entry : GoString) : Option Addr := (parseAddr (trimSpace entry)).map Addr.unmap

/-- The entry is the address of a trusted proxy. -/
def TrustedEntry (entry : GoString) : Prop :=
  ∃ a, entryAddr entry = some a ∧ prefixesContain proxies a

/-- `a` stands in the list, is not trusted, and all entries to its right are. -/
def IsClient (entries : List GoString) (a : Addr) : Prop :=
  ∃ l e r, entries = l ++ e :: r ∧ entryAddr e = some a ∧ prefixesContain proxies a = false ∧
    ∀ x ∈ r, TrustedEntry proxies x

/-- The entries of all field lines, which form one comma-separated list. -/
def forwardedEntries (lines : List GoString) : List GoString :=
  if lines = [] then [] else split (join lines (byte ',')) (byte ',')

/-- The client of `entries` is the result, and the peer if there is none. -/
def ForwardedClient (peer : Addr) (entries : List GoString) (result : GoString) : Prop :=
  (∃ a, IsClient proxies entries a ∧ result = a.string) ∨
    ((∀ a, ¬ IsClient proxies entries a) ∧ result = peer.string)

/-- The client, computed from the right end of the list. -/
def clientOf : List GoString → Option Addr
  | [] => none
  | e :: es =>
    match entryAddr e with
    | none => none
    | some a => if prefixesContain proxies a then clientOf es else some a

instance (entry : GoString) : Decidable (TrustedEntry proxies entry) :=
  decidable_of_iff ((entryAddr entry).any (prefixesContain proxies)) (by
    cases h : entryAddr entry <;> simp [TrustedEntry, h])

theorem forwardedEntries_eq (lines : List GoString) :
    forwardedEntries lines = lines.flatMap (split · (byte ',')) := by
  unfold forwardedEntries
  split
  next h => simp [h]
  next h => exact split_join lines _ h

variable {proxies}

theorem isClient_nil (a : Addr) : ¬ IsClient proxies [] a := by
  rintro ⟨l, e, r, h, -⟩
  simp at h

theorem isClient_concat (es : List GoString) (e : GoString) (a : Addr) :
    IsClient proxies (es ++ [e]) a ↔ (entryAddr e = some a ∧ prefixesContain proxies a = false) ∨
      (TrustedEntry proxies e ∧ IsClient proxies es a) := by
  constructor
  · rintro ⟨l, x, r, h, hx, ha, hr⟩
    rcases List.eq_nil_or_concat r with rfl | ⟨r, y, rfl⟩
    · have hxe := (List.append_inj' h rfl).2
      rw [List.singleton_inj.mp hxe]
      exact .inl ⟨hx, ha⟩
    · rw [List.concat_eq_append, ← List.cons_append, ← List.append_assoc] at h
      have hsplit := List.append_inj' h rfl
      have hey : e = y := List.singleton_inj.mp hsplit.2
      refine .inr ⟨hey ▸ hr y (by simp), l, x, r, hsplit.1, hx, ha, fun z hz => hr z ?_⟩
      rw [List.concat_eq_append]
      exact List.mem_append_left _ hz
  · rintro (⟨he, ha⟩ | ⟨ht, l, x, r, rfl, hx, ha, hr⟩)
    · exact ⟨es, e, [], rfl, he, ha, by simp⟩
    · refine ⟨l, x, r ++ [e], by simp, hx, ha, fun z hz => ?_⟩
      rcases List.mem_append.mp hz with hz | hz
      · exact hr z hz
      · rw [List.mem_singleton.mp hz]
        exact ht

/-- **The client is found from the right.** -/
theorem isClient_iff (entries : List GoString) (a : Addr) :
    IsClient proxies entries a ↔ clientOf proxies entries.reverse = some a := by
  induction entries using List.reverseRecOn with
  | nil => simp [isClient_nil, clientOf]
  | append_singleton es e ih =>
    rw [isClient_concat, ih, List.reverse_append, List.reverse_singleton, List.singleton_append,
      clientOf, TrustedEntry]
    cases h : entryAddr e with
    | none => simp
    | some b =>
      cases hb : prefixesContain proxies b with
      | false =>
        simp only [Option.some.injEq, hb, exists_eq_left', Bool.false_eq_true, false_and, or_false,
          if_false, and_iff_left_iff_imp]
        rintro rfl
        exact hb
      | true =>
        simp only [Option.some.injEq, hb, exists_eq_left', true_and, if_true, or_iff_right_iff_imp]
        rintro ⟨rfl, ha⟩
        rw [hb] at ha
        cases ha

theorem clientOf_append (xs ys : List GoString) : clientOf proxies (xs ++ ys) =
    if ∀ e ∈ xs, TrustedEntry proxies e then clientOf proxies ys else clientOf proxies xs := by
  induction xs with
  | nil => simp
  | cons e xs ih =>
    rw [List.cons_append, clientOf, clientOf, ih]
    cases h : entryAddr e with
    | none => simp [TrustedEntry, h]
    | some a =>
      have hte : TrustedEntry proxies e ↔ prefixesContain proxies a = true := by
        simp [TrustedEntry, h]
      cases ha : prefixesContain proxies a with
      | false => simp [hte, ha]
      | true => simp only [List.mem_cons, forall_eq_or_imp, hte, ha, true_and, if_true]

/-- The client found is an unmapped address that is not trusted. -/
theorem clientOf_eq_some {es : List GoString} {a : Addr} (h : clientOf proxies es = some a) :
    prefixesContain proxies a = false ∧ ∃ s b, parseAddr s = some b ∧ a = b.unmap := by
  induction es with
  | nil => cases h
  | cons e es ih =>
    rw [clientOf] at h
    cases he : entryAddr e with
    | none => rw [he] at h; cases h
    | some b =>
      rw [he] at h
      dsimp only at h
      split at h
      next => exact ih h
      next hb =>
        rw [← Option.some.inj h]
        simp only [entryAddr, Option.map_eq_some_iff] at he
        have heq : ∃ b', parseAddr (trimSpace e) = some b' ∧ b'.unmap = b := he
        obtain ⟨b', hp, hu⟩ := heq
        exact ⟨by simpa using hb, _, b', hp, hu.symm⟩

/-- **What the loop returns**: the client of the parts, or the peer. -/
theorem forwardedLoop_eq (peer : Addr) (parts : List GoString) :
    forwardedLoop proxies peer parts = ((clientOf proxies parts).getD peer).string := by
  induction parts with
  | nil => rfl
  | cons part parts ih =>
    rw [forwardedLoop, clientOf, entryAddr]
    cases parseAddr (trimSpace part) with
    | none => rfl
    | some c => cases hc : prefixesContain proxies c.unmap <;> simp [hc, ih]

theorem forwardedClient_iff (peer : Addr) (entries : List GoString) (result : GoString) :
    ForwardedClient proxies peer entries result ↔
      result = ((clientOf proxies entries.reverse).getD peer).string := by
  simp only [ForwardedClient, isClient_iff]
  cases clientOf proxies entries.reverse with
  | none => simp
  | some a => simp

/-- Different clients have different texts, also when one of them is the trusted peer. -/
theorem client_string_inj {s : GoString} {peer : Addr} (hp : parseAddr s = some peer)
    (ht : prefixesContain proxies peer.unmap) (es es' : List GoString) :
    ((clientOf proxies es).getD peer.unmap).string =
        ((clientOf proxies es').getD peer.unmap).string ↔
      clientOf proxies es = clientOf proxies es' := by
  refine ⟨fun h => ?_, fun h => h ▸ rfl⟩
  have hne : ∀ {es a}, clientOf proxies es = some a → a.string ≠ peer.unmap.string := by
    intro es a ha hs
    obtain ⟨hu, t, b, hb, rfl⟩ := clientOf_eq_some ha
    rw [(string_unmap_inj hb hp).mp hs, ht] at hu
    cases hu
  cases h1 : clientOf proxies es with
  | none =>
    cases h2 : clientOf proxies es' with
    | none => rfl
    | some b => rw [h1, h2] at h; exact absurd h.symm (hne h2)
  | some a =>
    cases h2 : clientOf proxies es' with
    | none => rw [h1, h2] at h; exact absurd h (hne h1)
    | some b =>
      rw [h1, h2] at h
      obtain ⟨-, t, a, ha, rfl⟩ := clientOf_eq_some h1
      obtain ⟨-, t', b, hb, rfl⟩ := clientOf_eq_some h2
      rw [(string_unmap_inj ha hb).mp h]

end Entries

/-! ## The first line and the later ones -/

/-- The later lines hold trusted entries only, or name the same client as the first line. -/
def LaterLinesAgree (proxies : List Prefix) (lines : List GoString) : Prop :=
  (∀ e ∈ forwardedEntries lines.tail, TrustedEntry proxies e) ∨
    ∀ a, IsClient proxies (forwardedEntries (lines.take 1)) a ↔
      IsClient proxies (forwardedEntries lines.tail) a

section Lines

variable {proxies : List Prefix} {r : Request} {peer : Addr}

theorem clientIPFromRequest_eq (hp : parseAddr (peerIP r) = some peer)
    (ht : prefixesContain proxies peer.unmap) : clientIPFromRequest r true proxies =
      ((clientOf proxies (forwardedEntries ((r.header xForwardedFor).take 1)).reverse).getD
        peer.unmap).string := by
  have hempty : split [] (byte ',') = [[]] := rfl
  have hnone : entryAddr [] = none := by decide
  rw [clientIPFromRequest, hp]
  simp only [Bool.not_true, ht, Bool.or_self, Bool.false_eq_true, if_false, forwardedLoop_eq]
  cases h : r.header xForwardedFor with
  | nil => simp [Header.get, h, hempty, forwardedEntries_eq, clientOf, hnone]
  | cons l ls => simp [Header.get, h, forwardedEntries_eq]

theorem clientOf_forwardedEntries (lines : List GoString) :
    clientOf proxies (forwardedEntries lines).reverse =
      if ∀ e ∈ forwardedEntries lines.tail, TrustedEntry proxies e then
        clientOf proxies (forwardedEntries (lines.take 1)).reverse
      else clientOf proxies (forwardedEntries lines.tail).reverse := by
  have hsplit : forwardedEntries lines =
      forwardedEntries (lines.take 1) ++ forwardedEntries lines.tail := by
    cases lines <;> simp [forwardedEntries_eq]
  conv_lhs => rw [hsplit, List.reverse_append, clientOf_append]
  simp only [List.mem_reverse]

theorem laterLinesAgree_iff (lines : List GoString) : LaterLinesAgree proxies lines ↔
    clientOf proxies (forwardedEntries (lines.take 1)).reverse =
      clientOf proxies (forwardedEntries lines).reverse := by
  rw [clientOf_forwardedEntries lines, LaterLinesAgree]
  simp only [isClient_iff]
  have hext : (∀ a, clientOf proxies (forwardedEntries (lines.take 1)).reverse = some a ↔
      clientOf proxies (forwardedEntries lines.tail).reverse = some a) ↔
      clientOf proxies (forwardedEntries (lines.take 1)).reverse =
        clientOf proxies (forwardedEntries lines.tail).reverse :=
    ⟨fun h => Option.ext h, fun h a => by rw [h]⟩
  rw [hext]
  split
  next h => exact ⟨fun _ => rfl, fun _ => .inl h⟩
  next h => exact or_iff_right h

/-- **Forwarded-address trust.** For a trusted peer, the address returned is the rightmost one that
is not trusted, over all field lines, exactly if `LaterLinesAgree`. For two such requests the result
does not depend on what stands before entries that already name the client or stop the scan. -/
theorem clientIPFromRequest_forwarded_iff (r : Request) (proxies : List Prefix) (peer : Addr)
    (hp : parseAddr (peerIP r) = some peer) (ht : prefixesContain proxies peer.unmap) :
    (ForwardedClient proxies peer.unmap (forwardedEntries (r.header xForwardedFor))
        (clientIPFromRequest r true proxies) ↔ LaterLinesAgree proxies (r.header xForwardedFor)) ∧
    (LaterLinesAgree proxies (r.header xForwardedFor) → ∀ r' : Request, peerIP r' = peerIP r →
      LaterLinesAgree proxies (r'.header xForwardedFor) → ∀ pre pre' appended,
      forwardedEntries (r.header xForwardedFor) = pre ++ appended →
      forwardedEntries (r'.header xForwardedFor) = pre' ++ appended →
      (¬ ∀ e ∈ appended, TrustedEntry proxies e) →
      clientIPFromRequest r true proxies = clientIPFromRequest r' true proxies) := by
  constructor
  · rw [forwardedClient_iff, clientIPFromRequest_eq hp ht, client_string_inj hp ht,
      laterLinesAgree_iff]
  · intro h r' hpeer h' pre pre' appended he he' hstop
    have hstop' : ¬ ∀ e ∈ appended.reverse, TrustedEntry proxies e := by
      simpa only [List.mem_reverse] using hstop
    rw [laterLinesAgree_iff] at h h'
    rw [clientIPFromRequest_eq hp ht, clientIPFromRequest_eq (hpeer ▸ hp) ht, h, h', he, he',
      List.reverse_append, List.reverse_append, clientOf_append, clientOf_append, if_neg hstop',
      if_neg hstop']

end Lines

/-! ## A spoofed address -/

/-- A request from the proxy 10.0.0.1 with the given field lines. -/
def viaProxy (lines : List String) : Request where
  method := str "GET"
  host := str "example.com"
  path := str "/"
  query := fun _ => []
  header := fun name => if name = xForwardedFor then lines.map str else []
  remoteAddr := str "10.0.0.1:4711"
  tls := false
  contentLength := 0
  body := .noBody

/-- The network 10.0.0.0/8. -/
def tenNet : List Prefix := [.v4 ⟨[10, 0, 0, 0], rfl⟩ 8]

theorem clientIPFromRequest_one_line :
    ForwardedClient tenNet (.v4 ⟨[10, 0, 0, 1], rfl⟩)
      (forwardedEntries ((viaProxy ["6.6.6.6, 192.0.2.7, 10.0.0.2"]).header xForwardedFor))
      (clientIPFromRequest (viaProxy ["6.6.6.6, 192.0.2.7, 10.0.0.2"]) true tenNet) :=
  (clientIPFromRequest_forwarded_iff _ tenNet (.v4 ⟨[10, 0, 0, 1], rfl⟩) (by decide)
    (by decide)).1.mpr (.inl (by decide))

/-- **A spoofed client address.** The trusted proxy appends the field line `192.0.2.7`, the client
sent the line `6.6.6.6` before it. -/
theorem clientIPFromRequest_spoofed :
    ¬ ForwardedClient tenNet (.v4 ⟨[10, 0, 0, 1], rfl⟩)
      (forwardedEntries ((viaProxy ["6.6.6.6", "192.0.2.7"]).header xForwardedFor))
      (clientIPFromRequest (viaProxy ["6.6.6.6", "192.0.2.7"]) true tenNet) := by
  rw [forwardedClient_iff]
  decide

end SynitWaf
