import SynitWaf.Go.NetipText
import SynitWaf.Reload.Publication

/-!
# What the entries of the IP sets denote

An entry of `block_list`, `allow_list` or `trusted_proxy_cidrs` is an address or a CIDR and is kept as
it is written. The address of a peer is unmapped, printed and parsed again before it is looked up in
the sets.

* `EntryDenotes`: the addresses of an entry, the mapped form denoting IPv4 addresses;
* `contains_prefixOfAddr`: the prefix of a single address;
* `MatchedBy`: an entry denotes the address and is written in its family;
* `prefixesContain_iff`: the sets contain an address that they denote exactly if it is matched;
* `RejectedByBlockList`, **`ipSets_match_iff`**: the same for the peer of a request;
  `mapped_entry_ignored`: an entry that blocks nobody.
-/

namespace SynitWaf

open Atomic Go

/-! ## Entries -/

/-- The base of the prefix is an IPv4-mapped address. -/
def isMappedPrefix : Prefix → Bool
  | .v4 _ _ => false
  | .v6 groups _ => (Addr.v6 groups []).is4In6

/-- The addresses that an entry denotes: those of its own family in a CIDR, the IPv4 addresses that
are mapped into it if it is written in the mapped form, and for a single address that address. -/
inductive EntryDenotes (entry : GoString) : Addr → Prop
  | own {p : Prefix} {a : Addr} : parsePrefix entry = some p → p.contains a = true →
      a.is4In6 = false → EntryDenotes entry a
  | mapped {p : Prefix} {a : Addr} : parsePrefix entry = some p → isMappedPrefix p = true →
      p.contains a = true → a.is4In6 = true → EntryDenotes entry a.unmap
  | addr {a : Addr} : parsePrefix entry = none → parseAddr entry = some a → EntryDenotes entry a.unmap

/-- The entry is written as an IPv4 address or CIDR. -/
def writtenAs4 (entry : GoString) : Bool :=
  match parseIPSetEntry entry with
  | some (.v4 _ _) => true
  | _ => false

/-- The address has no zone. -/
def zoneless : Addr → Bool
  | .v6 _ zone => zone = []
  | _ => true

/-- The address has no zone, and an entry that denotes it is written in its family. -/
def MatchedBy (entries : List GoString) (a : Addr) : Prop :=
  zoneless a = true ∧ ∃ entry ∈ entries, EntryDenotes entry a ∧ writtenAs4 entry = a.is4

/-! ## Prefixes -/

theorem zoneless_of_contains {p : Prefix} {a : Addr} (h : p.contains a = true) :
    zoneless a = true := by
  unfold Prefix.contains at h
  split at h
  · rfl
  · rfl
  · cases h

/-- A prefix contains addresses of its own family. -/
theorem is4_of_contains {p : Prefix} {a : Addr} (h : p.contains a = true) :
    (match p with | .v4 _ _ => true | .v6 _ _ => false) = a.is4 := by
  unfold Prefix.contains at h
  split at h
  · rfl
  · rfl
  · cases h

theorem octets_ext {l l' : List.Vector UInt8 4}
    (h : valueOf 256 (l.toList.map UInt8.toNat) = valueOf 256 (l'.toList.map UInt8.toNat)) : l = l' := by
  obtain ⟨l, hl⟩ := l
  obtain ⟨l', hl'⟩ := l'
  match l, hl, l', hl' with
  | [a, b, c, d], _, [a', b', c', d'], _ =>
    replace h : ((((0 * 256 + a.toNat) * 256 + b.toNat) * 256 + c.toNat) * 256 + d.toNat) =
        ((((0 * 256 + a'.toNat) * 256 + b'.toNat) * 256 + c'.toNat) * 256 + d'.toNat) := h
    have ha := a.toNat_lt
    have hb := b.toNat_lt
    have hc := c.toNat_lt
    have hd := d.toNat_lt
    have ha' := a'.toNat_lt
    have hb' := b'.toNat_lt
    have hc' := c'.toNat_lt
    have hd' := d'.toNat_lt
    obtain ⟨h1, h2, h3, h4⟩ : a.toNat = a'.toNat ∧ b.toNat = b'.toNat ∧ c.toNat = c'.toNat ∧
        d.toNat = d'.toNat := by omega
    rw [UInt8.toNat_inj] at h1 h2 h3 h4
    rw [h1, h2, h3, h4]

/-- The prefix of an address contains it, if it has no zone. -/
theorem contains_prefixOfAddr {a : Addr} {p : Prefix} (hp : prefixOfAddr a = some p)
    (hzone : zoneless a = true) : p.contains a = true := by
  cases a with
  | invalid => cases hp
  | v4 octets =>
    cases hp
    simp [Prefix.contains]
  | v6 groups zone =>
    cases hp
    obtain rfl : zone = [] := by simpa [zoneless] using hzone
    simp [Prefix.contains]

/-! ## Sets -/

section Sets

variable {entries : List GoString} {entry : GoString} {a : Addr}

theorem unmap_of_not_mapped (h : a.is4In6 = false) : a.unmap = a := by
  cases a with
  | v6 groups zone => simp [Addr.unmap, h]
  | _ => rfl

theorem is4_unmap_of_mapped (h : a.is4In6 = true) : a.unmap.is4 = true := by
  cases a with
  | invalid => cases h
  | v4 octets => cases h
  | v6 groups zone =>
    obtain ⟨o, ho⟩ := vector?_octetsOf groups
    simp only [Addr.unmap, h, if_true, ho]
    rfl

theorem mem_parseIPSets {p : Prefix} :
    p ∈ (parseIPSets entries).getD [] ↔ ∃ entry ∈ entries, parseIPSetEntry entry = some p := by
  unfold parseIPSets
  split
  next hnil => simp [hnil]
  next => simp [List.mem_filterMap]

theorem parseIPSetEntry_cidr {p : Prefix} (h : parsePrefix entry = some p) :
    parseIPSetEntry entry = some p := by
  simp [parseIPSetEntry, h]

theorem parseIPSetEntry_of_addr (h : parsePrefix entry = none) (ha : parseAddr entry = some a) :
    parseIPSetEntry entry = prefixOfAddr a := by
  simp [parseIPSetEntry, h, ha]

theorem writtenAs4_of_contains {p : Prefix} (hp : parseIPSetEntry entry = some p)
    (h : p.contains a = true) : writtenAs4 entry = a.is4 := by
  rw [← is4_of_contains h, writtenAs4, hp]
  cases p <;> rfl

/-- An entry that denotes an IPv6 address is written as one. -/
theorem writtenAs4_of_denotes (h : EntryDenotes entry a) (ha : a.is4 = false) :
    writtenAs4 entry = a.is4 := by
  cases h with
  | own hp hcontains _ => exact writtenAs4_of_contains (parseIPSetEntry_cidr hp) hcontains
  | mapped _ _ _ hmapped =>
    rw [is4_unmap_of_mapped hmapped] at ha
    cases ha
  | @addr b hnone hb =>
    have hmapped : b.is4In6 = false := by
      by_contra hmapped
      rw [is4_unmap_of_mapped (by simpa using hmapped)] at ha
      cases ha
    rw [unmap_of_not_mapped hmapped] at ha ⊢
    rw [writtenAs4, parseIPSetEntry_of_addr hnone hb, ha]
    cases b with
    | v4 octets => cases ha
    | _ => rfl

/-- An entry matches what it denotes in the family it is written in, but no address with a zone. -/
theorem contains_of_denotes (h : EntryDenotes entry a) (hzone : zoneless a = true)
    (hfamily : writtenAs4 entry = a.is4) :
    ∃ p, parseIPSetEntry entry = some p ∧ p.contains a = true := by
  cases h with
  | @own p _ hp hcontains _ => exact ⟨p, parseIPSetEntry_cidr hp, hcontains⟩
  | @mapped p b hp _ hcontains hmapped =>
    have hsix := writtenAs4_of_contains (parseIPSetEntry_cidr hp) hcontains
    rw [hfamily, is4_unmap_of_mapped hmapped] at hsix
    cases b <;> cases hsix
    cases hmapped
  | @addr b hnone hb =>
    have hentry := parseIPSetEntry_of_addr hnone hb
    have hne := parseAddr_ne_invalid hb
    have hmapped : b.is4In6 = false := by
      by_contra hmapped
      have hmapped : b.is4In6 = true := by simpa using hmapped
      rw [is4_unmap_of_mapped hmapped, writtenAs4, hentry] at hfamily
      cases b with
      | v6 groups zone => cases hfamily
      | _ => cases hmapped
    rw [unmap_of_not_mapped hmapped] at hzone ⊢
    obtain ⟨p, hp⟩ : ∃ p, prefixOfAddr b = some p := by
      cases b with
      | invalid => exact absurd rfl hne
      | v4 octets => exact ⟨_, rfl⟩
      | v6 groups zone => exact ⟨_, rfl⟩
    exact ⟨p, hentry.trans hp, contains_prefixOfAddr hp hzone⟩

/-- An IPv4 address is matched by what denotes it. -/
theorem denotes_of_contains {p : Prefix} (hp : parseIPSetEntry entry = some p)
    (h : p.contains a = true) (ha : a.is4 = true) : EntryDenotes entry a := by
  cases hprefix : parsePrefix entry with
  | some q =>
    obtain rfl : q = p := Option.some.inj ((parseIPSetEntry_cidr hprefix).symm.trans hp)
    refine .own hprefix h ?_
    cases a with
    | v6 groups zone => cases ha
    | _ => rfl
  | none =>
    cases hb : parseAddr entry with
    | none => simp [parseIPSetEntry, hprefix, hb] at hp
    | some b =>
      rw [parseIPSetEntry_of_addr hprefix hb] at hp
      have hfour := is4_of_contains h
      rw [ha] at hfour
      cases b with
      | invalid => cases hp
      | v6 groups zone =>
        cases hp
        cases hfour
      | v4 octets =>
        cases hp
        cases a with
        | invalid => cases ha
        | v6 groups zone => cases ha
        | v4 octets' =>
          have heq : octets = octets' := octets_ext (by simpa [Prefix.contains] using h)
          exact heq ▸ .addr (a := .v4 octets) hprefix hb

/-- **A set contains** an address that it denotes exactly if it is matched. -/
theorem prefixesContain_iff (hdenoted : ∃ entry ∈ entries, EntryDenotes entry a) :
    prefixesContain ((parseIPSets entries).getD []) a = true ↔ MatchedBy entries a := by
  simp only [prefixesContain, List.any_eq_true, mem_parseIPSets]
  constructor
  · rintro ⟨p, ⟨entry, hentry, hp⟩, hcontains⟩
    refine ⟨zoneless_of_contains hcontains, ?_⟩
    cases ha : a.is4 with
    | true =>
      refine ⟨entry, hentry, denotes_of_contains hp hcontains ha, ?_⟩
      exact (writtenAs4_of_contains hp hcontains).trans ha
    | false =>
      obtain ⟨entry', hentry', hdenotes⟩ := hdenoted
      exact ⟨entry', hentry', hdenotes, (writtenAs4_of_denotes hdenotes ha).trans ha⟩
  · rintro ⟨hzone, entry, hentry, hdenotes, hfamily⟩
    obtain ⟨p, hp, hcontains⟩ := contains_of_denotes hdenotes hzone hfamily
    exact ⟨p, ⟨entry, hentry, hp⟩, hcontains⟩

end Sets

/-! ## Requests -/

/-- The state has published the sets of these settings. -/
structure PublishesSets (g : GlobalSettings) (s : Runtime) : Prop where
  blockIPs : s.pub .blockIPs = parseIPSets g.ipSets.blockList
  allowIPs : s.pub .allowIPs = parseIPSets g.ipSets.allowList
  trustedProxyCIDRs : s.pub .trustedProxyCIDRs = parseIPSets g.trustedProxyCIDRs
  trustForwardedFor : s.pub .trustForwardedFor = g.trustForwardedFor

/-- The address that a request is looked up by. -/
def lookedUp (r : Request) (s : Runtime) : Addr :=
  (parseAddr (clientIPFromRequest r (s.pub .trustForwardedFor)
    ((s.pub .trustedProxyCIDRs).getD []))).getD .invalid

/-- The block list answers the request, and its answer is that of `ServeHTTP`. -/
def RejectedByBlockList (w : World) (clock : ServeClock) (r : Request) (s : Runtime) : Prop :=
  ∃ served, ((checkBlockList (w := w) (lookedUp r s)).run s).1 = some served ∧
    ((serveHTTP w clock r).run s).1 = served

/-- The allow list has the address of the request. -/
def AllowListed (w : World) (r : Request) (s : Runtime) : Prop :=
  ((allowListed (w := w) (lookedUp r s)).run s).1 = true

/-- The peer is no trusted proxy whose forwarding headers are read. -/
def Direct (s : Runtime) (peer : Addr) : Prop :=
  s.pub .trustForwardedFor = false ∨
    prefixesContain ((s.pub .trustedProxyCIDRs).getD []) peer.unmap = false

section Requests

variable {w : World} {clock : ServeClock} {r : Request} {s : Runtime} {peer : Addr}

/-- A direct peer is looked up by its own address. -/
theorem lookedUp_eq (hpeer : parseAddr (peerIP r) = some peer) (hdirect : Direct s peer) :
    lookedUp r s = peer.unmap := by
  have hclient : clientIPFromRequest r (s.pub .trustForwardedFor)
      ((s.pub .trustedProxyCIDRs).getD []) = peer.unmap.string := by
    rw [clientIPFromRequest, hpeer]
    obtain h | h := hdirect <;> simp [h]
  rw [lookedUp, hclient, parseAddr_string (unmap_ne_invalid (parseAddr_ne_invalid hpeer))
    (is4In6_unmap peer)]
  rfl

theorem run_checkBlockList (ip : Addr) :
    ((checkBlockList (w := w) ip).run s).1.isSome =
      prefixesContain ((s.pub .blockIPs).getD []) ip := by
  unfold checkBlockList
  change Option.isSome ((if prefixesContain ((s.pub .blockIPs).getD []) ip then _ else _ :
    Prog (handlerSig w) (Option Served)).run s).1 = _
  split
  next h => exact h.symm
  next h => simpa using h

theorem run_andThen {check : Prog (handlerSig w) (Option Served)} {next : Prog (handlerSig w) Served}
    {served : Served} (h : (check.run s).1 = some served) : ((andThen check next).run s).1 = served := by
  rw [andThen, Prog.run_bind, h]
  rfl

theorem rejectedByBlockList_iff : RejectedByBlockList w clock r s ↔
    prefixesContain ((s.pub .blockIPs).getD []) (lookedUp r s) = true := by
  rw [← run_checkBlockList (w := w), Option.isSome_iff_exists]
  refine exists_congr fun served => and_iff_left_of_imp fun h => ?_
  exact run_andThen h

end Requests

/-- **IP sets.** If the settings are published and an entry denotes the address of a direct peer, plain
or mapped, the block list rejects its request exactly if the address is matched: it has no zone, and
an entry that denotes it is written in its family. The same holds for the allow list and for the
proxies that are trusted. -/
theorem ipSets_match_iff (w : World) (clock : ServeClock) (r : Request) (s : Runtime)
    (g : GlobalSettings) (hs : PublishesSets g s) (peer : Addr)
    (hpeer : parseAddr (peerIP r) = some peer) :
    (Direct s peer → (∃ entry ∈ g.ipSets.blockList, EntryDenotes entry peer.unmap) →
      (RejectedByBlockList w clock r s ↔ MatchedBy g.ipSets.blockList peer.unmap)) ∧
    (Direct s peer → (∃ entry ∈ g.ipSets.allowList, EntryDenotes entry peer.unmap) →
      (AllowListed w r s ↔ MatchedBy g.ipSets.allowList peer.unmap)) ∧
    ((∃ entry ∈ g.trustedProxyCIDRs, EntryDenotes entry peer.unmap) →
      (prefixesContain ((s.pub .trustedProxyCIDRs).getD []) peer.unmap = true ↔
        MatchedBy g.trustedProxyCIDRs peer.unmap)) := by
  refine ⟨fun hdirect hdenoted => ?_, fun hdirect hdenoted => ?_, fun hdenoted => ?_⟩
  · rw [rejectedByBlockList_iff, lookedUp_eq hpeer hdirect, hs.blockIPs, prefixesContain_iff hdenoted]
  · change prefixesContain ((s.pub .allowIPs).getD []) (lookedUp r s) = true ↔ _
    rw [lookedUp_eq hpeer hdirect, hs.allowIPs, prefixesContain_iff hdenoted]
  · rw [hs.trustedProxyCIDRs, prefixesContain_iff hdenoted]

/-! ## A blocked client -/

/-- The sample configuration with a block list. -/
def blockingConfig (entry : String) : AppConfig :=
  { siteConfig with globalSettings := { siteConfig.globalSettings with
      ipSets := { siteConfig.globalSettings.ipSets with blockList := [str entry] } } }

/-- The sample site with that configuration. -/
def blockingSite (entry : String) : World :=
  { site with lib := { siteLib with decodeConfig := fun _ => .ok (blockingConfig entry, .eof) } }

/-- The site in service. -/
def blockingServing (entry : String) : Runtime :=
  (runReload (blockingSite entry) siteAttempt newRuntime).2

/-- The peer of the sample request. -/
def sitePeer : Addr := .v4 ⟨[192, 0, 2, 1], rfl⟩

theorem ipSets_match_cidr :
    RejectedByBlockList (blockingSite "192.0.2.0/24") ⟨0, 0⟩ siteRequest
      (blockingServing "192.0.2.0/24") := by
  obtain ⟨hblock, hallow, hproxies, htrust, hpeer, hfamily⟩ :
      (blockingServing "192.0.2.0/24").pub .blockIPs = parseIPSets [str "192.0.2.0/24"] ∧
      (blockingServing "192.0.2.0/24").pub .allowIPs = parseIPSets [] ∧
      (blockingServing "192.0.2.0/24").pub .trustedProxyCIDRs = parseIPSets [] ∧
      (blockingServing "192.0.2.0/24").pub .trustForwardedFor = false ∧
      parseAddr (peerIP siteRequest) = some sitePeer ∧
      writtenAs4 (str "192.0.2.0/24") = sitePeer.is4 := by decide +kernel
  have hdenotes : EntryDenotes (str "192.0.2.0/24") sitePeer :=
    .own (p := .v4 ⟨[192, 0, 2, 0], rfl⟩ 24) (by decide) (by decide) rfl
  have hmatch := ipSets_match_iff (blockingSite "192.0.2.0/24") ⟨0, 0⟩ siteRequest
    (blockingServing "192.0.2.0/24") (blockingConfig "192.0.2.0/24").globalSettings
    ⟨hblock, hallow, hproxies, htrust⟩ sitePeer hpeer
  exact (hmatch.1 (.inl htrust) ⟨_, List.mem_singleton_self _, hdenotes⟩).mpr
    ⟨rfl, _, List.mem_singleton_self _, hdenotes, hfamily⟩

/-- **An entry in mapped form blocks nobody.** It passes `ValidateConfig` and is published, and the
request of the client it denotes is handed to the upstream. -/
theorem mapped_entry_ignored :
    validateConfig siteLib siteSurroundings (blockingConfig "::ffff:192.0.2.1") = .ok () ∧
    PublishesSets (blockingConfig "::ffff:192.0.2.1").globalSettings
      (blockingServing "::ffff:192.0.2.1") ∧
    parseAddr (peerIP siteRequest) = some sitePeer ∧
    Direct (blockingServing "::ffff:192.0.2.1") sitePeer ∧
    EntryDenotes (str "::ffff:192.0.2.1") sitePeer.unmap ∧
    ¬ RejectedByBlockList (blockingSite "::ffff:192.0.2.1") ⟨0, 0⟩ siteRequest
      (blockingServing "::ffff:192.0.2.1") ∧
    ((serveHTTP (blockingSite "::ffff:192.0.2.1") ⟨0, 0⟩ siteRequest).run
      (blockingServing "::ffff:192.0.2.1")).1.isUpstream = true := by
  obtain ⟨hvalid, hblock, hallow, hproxies, htrust, hpeer, hmember, hupstream⟩ :
      validateConfig siteLib siteSurroundings (blockingConfig "::ffff:192.0.2.1") = .ok () ∧
      (blockingServing "::ffff:192.0.2.1").pub .blockIPs = parseIPSets [str "::ffff:192.0.2.1"] ∧
      (blockingServing "::ffff:192.0.2.1").pub .allowIPs = parseIPSets [] ∧
      (blockingServing "::ffff:192.0.2.1").pub .trustedProxyCIDRs = parseIPSets [] ∧
      (blockingServing "::ffff:192.0.2.1").pub .trustForwardedFor = false ∧
      parseAddr (peerIP siteRequest) = some sitePeer ∧
      prefixesContain (((blockingServing "::ffff:192.0.2.1").pub .blockIPs).getD [])
        (lookedUp siteRequest (blockingServing "::ffff:192.0.2.1")) = false ∧
      ((serveHTTP (blockingSite "::ffff:192.0.2.1") ⟨0, 0⟩ siteRequest).run
        (blockingServing "::ffff:192.0.2.1")).1.isUpstream = true := by decide +kernel
  refine ⟨hvalid, ⟨hblock, hallow, hproxies, htrust⟩, hpeer, .inl htrust, ?_, ?_, hupstream⟩
  · exact .addr (a := .v6 ⟨[0, 0, 0, 0, 0, 0xffff, 0xc000, 0x201], rfl⟩ []) (by decide +kernel)
      (by decide +kernel)
  · rw [rejectedByBlockList_iff, hmember]
    exact Bool.false_ne_true

end SynitWaf
