import Mathlib.Data.List.DropRight
import SynitWaf.Go.NetipText
import SynitWaf.Reload.Model
import SynitWaf.Serve.Checks

/-!
# The keys of the buckets

A bucket is known by the tenant and the client, put together with a colon. Both may have colons of
their own: a tenant that is an IPv6 literal, and a client that is known by its network.

* `SameClient`: the clients share a bucket;
* `network`: the groups of a network without the zeros behind them; `string6_network`: its text;
* `clientKey4`, `clientKey6`: the key of a client;
* `Shifted`: groups of the network of one client stand at the end of the other tenant;
  `bucketKey_eq_iff`: two keys are equal;
* **`bucketKey_separates_iff`**: the keys separate two pairs exactly if neither is the other one
  shifted; `shifted_literals`: two tenants that share a bucket.
-/

namespace SynitWaf

open Atomic Go

/-- The same IPv4 address, or the same IPv6 network of 64 bits. -/
def SameClient (a b : Addr) : Prop :=
  match a.unmap, b.unmap with
  | .v4 octets, .v4 octets' => octets = octets'
  | .v6 groups _, .v6 groups' _ => groups.toList.take 4 = groups'.toList.take 4
  | _, _ => False

/-! ## Networks -/

/-- The first four groups, without the zeros at their end. -/
def network (groups : List UInt16) : List UInt16 := (groups.take 4).rdropWhile (· = 0)

section Networks

/-- The zeros at the end are the longest run. -/
theorem zeroRun_padded (a b c d : UInt16) :
    let l := [a, b, c, d].rdropWhile (· = 0)
    zeroRun [a, b, c, d, 0, 0, 0, 0] = (l.length, 8 - l.length) ∧ l.length ≤ 4 ∧
      [a, b, c, d, 0, 0, 0, 0].take l.length = l := by
  have hrange : List.range 8 = [0, 1, 2, 3, 4, 5, 6, 7] := by decide
  by_cases hd : d = 0 <;> by_cases hc : c = 0 <;> by_cases hb : b = 0 <;> by_cases ha : a = 0 <;>
    simp [zeroRun, hrange, List.rdropWhile, ha, hb, hc, hd]

theorem string6_network {groups : List UInt16} (h : groups.length = 8) :
    string6 (groups.take 4 ++ [0, 0, 0, 0]) = stringGroups (network groups) ++ str "::" := by
  match groups, h with
  | [a, b, c, d, _, _, _, _], _ =>
    obtain ⟨hrun, hle, htake⟩ := zeroRun_padded a b c d
    change string6 [a, b, c, d, 0, 0, 0, 0] = stringGroups ([a, b, c, d].rdropWhile (· = 0)) ++ _
    generalize [a, b, c, d].rdropWhile (· = 0) = l at hrun hle htake
    have hdrop : [a, b, c, d, 0, 0, 0, 0].drop (l.length + (8 - l.length)) = [] :=
      List.drop_eq_nil_of_le (by simp; omega)
    rw [string6, hrun]
    dsimp only
    rw [if_neg (by omega), htake, hdrop]
    exact List.append_nil _

/-- The text of a network determines it. -/
theorem stringGroups_network_inj {groups groups' : List UInt16} (h : groups.length = 8)
    (h' : groups'.length = 8) :
    stringGroups (network groups) = stringGroups (network groups') ↔
      groups.take 4 = groups'.take 4 := by
  constructor
  · intro htext
    have hstring : string6 (groups.take 4 ++ [0, 0, 0, 0]) =
        string6 (groups'.take 4 ++ [0, 0, 0, 0]) := by
      rw [string6_network h, string6_network h', htext]
    have hread : parseGroups (string6 (groups.take 4 ++ [0, 0, 0, 0])) = some _ :=
      parseGroups_string6 (by simp [h])
    rw [hstring, parseGroups_string6 (by simp [h'])] at hread
    exact (List.append_cancel_right (Option.some.inj hread)).symm
  · intro htake
    rw [network, htake, network]

/-! ## Texts of groups -/

theorem colon_notMem_appendHex (g : UInt16) : byte ':' ∉ appendHex g.toNat := by
  intro h
  obtain ⟨d, hd, heq⟩ := mem_appendHex g.toNat_lt h
  exact hexDigit_ne (by decide) hd heq.symm

theorem appendHex_inj : Function.Injective fun g : UInt16 => appendHex g.toNat := by
  intro g g' h
  have hread (g : UInt16) : scanHex (appendHex g.toNat ++ []) 0 0 =
      some ((appendHex g.toNat).length, g.toNat, []) := scanHex_appendHex g.toNat_lt nofun
  have heq := hread g
  rw [show appendHex g.toNat = appendHex g'.toNat from h, hread g', Option.some.injEq,
    Prod.mk.injEq, Prod.mk.injEq] at heq
  exact UInt16.toNat_inj.mp heq.2.1.symm

theorem split_stringGroups {gs : List UInt16} (h : gs ≠ []) :
    split (stringGroups gs) (byte ':') = gs.map fun g => appendHex g.toNat := by
  rw [stringGroups, split_join _ _ (by simpa using h), List.flatMap_map]
  calc gs.flatMap (fun g => split (appendHex g.toNat) (byte ':'))
      = gs.flatMap fun g => [appendHex g.toNat] :=
        List.flatMap_congr fun g _ => split_of_not_mem (colon_notMem_appendHex g)
    _ = gs.map fun g => appendHex g.toNat := List.flatMap_pure_eq_map _ _

theorem stringGroups_append {gs gs' : List UInt16} (h : gs ≠ []) (h' : gs' ≠ []) :
    stringGroups (gs ++ gs') = stringGroups gs ++ byte ':' :: stringGroups gs' := by
  induction gs with
  | nil => exact absurd rfl h
  | cons g gs ih =>
    cases gs with
    | nil =>
      obtain ⟨g', gs', rfl⟩ := List.exists_cons_of_ne_nil h'
      rw [List.singleton_append, stringGroups_cons, stringGroups_singleton]
    | cons g₁ gs =>
      rw [List.cons_append, List.cons_append, stringGroups_cons, ← List.cons_append,
        ih (List.cons_ne_nil _ _), stringGroups_cons, List.append_assoc, List.cons_append]

/-- A text of groups, cut at one of its colons. -/
theorem stringGroups_eq_append {gs gs' : List UInt16} {x : GoString}
    (h : stringGroups gs = x ++ byte ':' :: stringGroups gs') :
    gs' ≠ [] ∧ ∃ moved, moved ≠ [] ∧ gs = moved ++ gs' ∧ x = stringGroups moved := by
  have hne : gs ≠ [] := by
    rintro rfl
    simp [stringGroups, join, List.intercalate] at h
  have hsplit : gs.map (fun g => appendHex g.toNat) =
      split x (byte ':') ++ split (stringGroups gs') (byte ':') := by
    rw [← split_stringGroups hne, h, split_append_sep]
  have hne' : gs' ≠ [] := by
    rintro rfl
    -- behind the colon there would be a group without digits
    have hmem : [] ∈ gs.map fun g => appendHex g.toNat := by
      rw [hsplit]
      exact List.mem_append_right _ (by decide)
    obtain ⟨g, -, hnil⟩ := List.mem_map.mp hmem
    obtain ⟨c, s, hcons⟩ := appendHex_eq_cons g.toNat
    rw [hcons] at hnil
    cases hnil
  refine ⟨hne', ?_⟩
  rw [split_stringGroups hne'] at hsplit
  obtain ⟨moved, rest, rfl, hmoved, hrest⟩ := List.map_eq_append_iff.mp hsplit
  have hx : x = stringGroups moved := by
    rw [stringGroups, hmoved]
    exact (List.intercalate_splitOn (byte ':')).symm
  refine ⟨moved, ?_, by rw [List.map_injective_iff.mpr appendHex_inj hrest], hx⟩
  rintro rfl
  have hnil : split x (byte ':') = [] := hmoved.symm
  rw [hx] at hnil
  exact absurd hnil (by decide)

end Networks

/-! ## Keys -/

/-- Two texts that are cut at a separator each. -/
theorem append_sep_eq_iff {a b s t : GoString} {sep : UInt8} :
    a ++ sep :: s = b ++ sep :: t ↔ (a = b ∧ s = t) ∨ (∃ x, b = a ++ sep :: x ∧ s = x ++ sep :: t) ∨
      ∃ x, a = b ++ sep :: x ∧ t = x ++ sep :: s := by
  rw [List.append_eq_append_iff]
  constructor
  · rintro (⟨x, rfl, hx⟩ | ⟨x, rfl, hx⟩)
    · cases x with
      | nil => exact .inl ⟨by simp, (List.cons.inj hx).2⟩
      | cons c x =>
        obtain ⟨rfl, rfl⟩ := List.cons.inj hx
        exact .inr (.inl ⟨x, rfl, rfl⟩)
    · cases x with
      | nil => exact .inl ⟨by simp, (List.cons.inj hx).2.symm⟩
      | cons c x =>
        obtain ⟨rfl, rfl⟩ := List.cons.inj hx
        exact .inr (.inr ⟨x, rfl, rfl⟩)
  · rintro (⟨rfl, rfl⟩ | ⟨x, rfl, rfl⟩ | ⟨x, rfl, rfl⟩)
    · exact .inl ⟨[], by simp⟩
    · exact .inl ⟨sep :: x, rfl, rfl⟩
    · exact .inr ⟨sep :: x, rfl, rfl⟩

section Keys

variable {client client' tenant tenant' : GoString} {a b : Addr}

theorem clientKey4 (h : parseAddr client = some a) {octets : List.Vector UInt8 4}
    (hu : a.unmap = .v4 octets) : rateLimitClientKey client = string4 octets.toList := by
  simp only [rateLimitClientKey, h, hu]
  rfl

theorem clientKey6 (h : parseAddr client = some a) {groups : List.Vector UInt16 8} {zone : GoString}
    (hu : a.unmap = .v6 groups zone) :
    rateLimitClientKey client = stringGroups (network groups.toList) ++ str "::/64" := by
  have htail : str "::/64" = str "::" ++ str "/64" := by decide
  simp only [rateLimitClientKey, h, hu]
  rw [string6_network groups.toList_length, htail, List.append_assoc]

/-- The text of an IPv4 address has neither colons nor slashes. -/
theorem plain_string4 (octets : List.Vector UInt8 4) :
    byte ':' ∉ string4 octets.toList ∧ byte '/' ∉ string4 octets.toList := by
  obtain ⟨l, hl⟩ := octets
  match l, hl with
  | [o₀, o₁, o₂, o₃], _ =>
    have hplain {c : UInt8} (hdot : c ≠ byte '.') (hdigit : ∀ d < 10, c ≠ hexDigit d) :
        c ∉ string4 [o₀, o₁, o₂, o₃] := by
      intro h
      obtain heq | ⟨d, hd, heq⟩ := mem_string4 h
      · exact hdot heq
      · exact hdigit d hd heq
    exact ⟨hplain (by decide) (by decide), hplain (by decide) (by decide)⟩

theorem bucketKey_eq (tenant client : GoString) :
    bucketKey tenant client = tenant ++ byte ':' :: rateLimitClientKey client := by
  rw [bucketKey, List.append_assoc]
  rfl

/-- Groups of the network of the first client stand at the end of the second tenant. -/
def Shifted (tenant : GoString) (a : Addr) (tenant' : GoString) (b : Addr) : Prop :=
  ∃ groups zone groups' zone' moved, a.unmap = .v6 groups zone ∧ b.unmap = .v6 groups' zone' ∧
    moved ≠ [] ∧ network groups'.toList ≠ [] ∧
    network groups.toList = moved ++ network groups'.toList ∧
    tenant' = tenant ++ str ":" ++ stringGroups moved

theorem Shifted.ne (h : Shifted tenant a tenant' b) : tenant ≠ tenant' := by
  obtain ⟨-, -, -, -, moved, -, -, -, -, -, htenant⟩ := h
  intro heq
  have hlen := congrArg List.length (heq.trans htenant)
  have hone : (str ":").length = 1 := by decide
  simp only [List.length_append] at hlen
  omega

/-- Two IPv4 clients. -/
theorem bucketKey4_eq_iff {octets octets' : List.Vector UInt8 4} (ha : parseAddr client = some a)
    (hb : parseAddr client' = some b) (hu : a.unmap = .v4 octets) (hu' : b.unmap = .v4 octets') :
    bucketKey tenant client = bucketKey tenant' client' ↔ tenant = tenant' ∧ octets = octets' := by
  have hcolon := (plain_string4 octets).1
  have hcolon' := (plain_string4 octets').1
  rw [bucketKey_eq, bucketKey_eq, clientKey4 ha hu, clientKey4 hb hu', append_sep_eq_iff]
  constructor
  · rintro (⟨htenant, htext⟩ | ⟨x, -, htext⟩ | ⟨x, -, htext⟩)
    · have hread := parseAddr_string4 octets
      rw [htext, parseAddr_string4] at hread
      cases hread
      exact ⟨htenant, rfl⟩
    · exact absurd (by rw [htext]; simp) hcolon
    · exact absurd (by rw [htext]; simp) hcolon'
  · rintro ⟨rfl, rfl⟩
    exact .inl ⟨rfl, rfl⟩

/-- An IPv4 client and an IPv6 client. -/
theorem bucketKey46_ne {octets : List.Vector UInt8 4} {groups : List.Vector UInt16 8}
    {zone : GoString} (ha : parseAddr client = some a) (hb : parseAddr client' = some b)
    (hu : a.unmap = .v4 octets) (hu' : b.unmap = .v6 groups zone) :
    bucketKey tenant client ≠ bucketKey tenant' client' := by
  obtain ⟨hcolon, hslash⟩ := plain_string4 octets
  have htail : str "::/64" = byte ':' :: byte ':' :: str "/64" := by decide
  have hsuffix : tenant' ++ byte ':' :: (stringGroups (network groups.toList) ++ str "::/64") =
      (tenant' ++ byte ':' :: (stringGroups (network groups.toList) ++ [byte ':'])) ++
        byte ':' :: str "/64" := by
    rw [htail]
    simp
  intro h
  rw [bucketKey_eq, bucketKey_eq, clientKey4 ha hu, clientKey6 hb hu', hsuffix,
    append_sep_eq_iff] at h
  obtain ⟨-, htext⟩ | ⟨x, -, htext⟩ | ⟨x, -, htext⟩ := h
  · exact absurd (by rw [htext]; decide) hslash
  · exact absurd (by rw [htext]; simp) hcolon
  · have hmem : byte ':' ∈ str "/64" := by
      rw [htext]
      simp
    exact absurd hmem (by decide)

theorem shifted_iff {groups groups' : List.Vector UInt16 8} {zone zone' : GoString}
    (hu : a.unmap = .v6 groups zone) (hu' : b.unmap = .v6 groups' zone') :
    Shifted tenant a tenant' b ↔ ∃ x, tenant' = tenant ++ byte ':' :: x ∧
      stringGroups (network groups.toList) ++ str "::/64" =
        x ++ byte ':' :: (stringGroups (network groups'.toList) ++ str "::/64") := by
  have hcolon (x : GoString) : tenant ++ str ":" ++ x = tenant ++ byte ':' :: x :=
    List.append_assoc ..
  constructor
  · rintro ⟨g, z, g', z', moved, hg, hg', hmoved, hnet', hnet, htenant⟩
    cases hu.symm.trans hg
    cases hu'.symm.trans hg'
    refine ⟨stringGroups moved, htenant.trans (hcolon _), ?_⟩
    rw [hnet, stringGroups_append hmoved hnet', List.append_assoc, List.cons_append]
  · rintro ⟨x, htenant, htext⟩
    rw [← List.cons_append, ← List.append_assoc] at htext
    obtain ⟨hnet', moved, hmoved, hnet, rfl⟩ :=
      stringGroups_eq_append (List.append_cancel_right htext)
    exact ⟨groups, zone, groups', zone', moved, hu, hu', hmoved, hnet', hnet,
      htenant.trans (hcolon _).symm⟩

/-- Two IPv6 clients. -/
theorem bucketKey6_eq_iff {groups groups' : List.Vector UInt16 8} {zone zone' : GoString}
    (ha : parseAddr client = some a) (hb : parseAddr client' = some b)
    (hu : a.unmap = .v6 groups zone) (hu' : b.unmap = .v6 groups' zone') :
    bucketKey tenant client = bucketKey tenant' client' ↔
      (tenant = tenant' ∧ groups.toList.take 4 = groups'.toList.take 4) ∨
        Shifted tenant a tenant' b ∨ Shifted tenant' b tenant a := by
  rw [bucketKey_eq, bucketKey_eq, clientKey6 ha hu, clientKey6 hb hu', append_sep_eq_iff,
    ← shifted_iff hu hu', ← shifted_iff hu' hu, List.append_left_inj,
    stringGroups_network_inj groups.toList_length groups'.toList_length]

/-- **Two keys are equal** if the pairs are the same, or one is the other one shifted. -/
theorem bucketKey_eq_iff (ha : parseAddr client = some a) (hb : parseAddr client' = some b) :
    bucketKey tenant client = bucketKey tenant' client' ↔
      (tenant = tenant' ∧ SameClient a b) ∨ Shifted tenant a tenant' b ∨
        Shifted tenant' b tenant a := by
  have hvalid := unmap_ne_invalid (parseAddr_ne_invalid ha)
  have hvalid' := unmap_ne_invalid (parseAddr_ne_invalid hb)
  -- a key that is shifted belongs to two IPv6 clients
  have hno {s t : GoString} {x y : Addr} {octets : List.Vector UInt8 4}
      (h : x.unmap = .v4 octets ∨ y.unmap = .v4 octets) : ¬ Shifted s x t y := by
    rintro ⟨g, z, g', z', moved, hg, hg', -⟩
    obtain h | h := h
    · cases h.symm.trans hg
    · cases h.symm.trans hg'
  unfold SameClient
  cases hu : a.unmap with
  | invalid => exact absurd hu hvalid
  | v4 octets =>
    rw [or_iff_left (not_or.mpr ⟨hno (.inl hu), hno (.inr hu)⟩)]
    cases hu' : b.unmap with
    | invalid => exact absurd hu' hvalid'
    | v4 octets' => exact bucketKey4_eq_iff ha hb hu hu'
    | v6 groups' zone' => exact iff_of_false (bucketKey46_ne ha hb hu hu') fun h => h.2
  | v6 groups zone =>
    cases hu' : b.unmap with
    | invalid => exact absurd hu' hvalid'
    | v4 octets' =>
      rw [or_iff_left (not_or.mpr ⟨hno (.inr hu'), hno (.inl hu')⟩)]
      exact iff_of_false (bucketKey46_ne hb ha hu' hu).symm fun h => h.2
    | v6 groups' zone' => exact bucketKey6_eq_iff ha hb hu hu'

end Keys

/-- **Buckets.** The keys of two tenants and two clients are equal exactly if the tenants and the
clients are, unless groups of the network of one client stand at the end of the other tenant. -/
theorem bucketKey_separates_iff {tenant tenant' client client' : GoString} {a b : Addr}
    (ha : parseAddr client = some a) (hb : parseAddr client' = some b) :
    (bucketKey tenant client = bucketKey tenant' client' ↔ tenant = tenant' ∧ SameClient a b) ↔
      ¬ Shifted tenant a tenant' b ∧ ¬ Shifted tenant' b tenant a := by
  rw [bucketKey_eq_iff ha hb]
  constructor
  · intro h
    exact ⟨fun hs => hs.ne (h.mp (.inr (.inl hs))).1, fun hs => hs.ne (h.mp (.inr (.inr hs))).1.symm⟩
  · rintro ⟨h, h'⟩
    rw [or_iff_left (not_or.mpr ⟨h, h'⟩)]

/-! ## Two tenants -/

/-- Two tenants that are IPv6 literals. -/
def literalConfig : AppConfig :=
  { (default : AppConfig) with
    tenants := ((∅ : GoMap Tenant).insert (str "fd00::1") siteTenant).insert
      (str "fd00::1:2001:db8") siteTenant }

theorem bucketKey_separates_iff_networks :
    (parseAddr (str "2001:db8:1:2::5")).isSome = true ∧
      (bucketKey (str "fd00::1") (str "2001:db8:1:2::5") =
          bucketKey (str "fd00::1") (str "2001:db8:1:3::5") ↔
        str "fd00::1" = str "fd00::1" ∧
          SameClient (.v6 ⟨[0x2001, 0xdb8, 1, 2, 0, 0, 0, 5], rfl⟩ [])
            (.v6 ⟨[0x2001, 0xdb8, 1, 3, 0, 0, 0, 5], rfl⟩ [])) := by
  refine ⟨by decide, (bucketKey_separates_iff (by decide) (by decide)).mpr ⟨?_, ?_⟩⟩
  · exact fun h => h.ne rfl
  · exact fun h => h.ne rfl

/-- **A bucket that two tenants share.** The configuration is accepted, and a client of each tenant
has the same key. -/
theorem shifted_literals :
    validateConfig siteLib siteSurroundings literalConfig = .ok () ∧
      normalizeHost siteLib.unicode (str "fd00::1") = str "fd00::1" ∧
      normalizeHost siteLib.unicode (str "fd00::1:2001:db8") = str "fd00::1:2001:db8" ∧
      bucketKey (str "fd00::1") (str "2001:db8:1:2::5") =
        bucketKey (str "fd00::1:2001:db8") (str "1:2::5") := by
  exact ⟨rfl, by decide, by decide, by decide⟩

end SynitWaf
