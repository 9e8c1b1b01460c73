import Mathlib.Data.Option.Basic
import SynitWaf.Go.NetipText

/-!
# Two readings of an address with a port

`net.SplitHostPort` and `netip.ParseAddr` on the one hand, `netip.ParseAddrPort` on the other. The
text of an address without zone has neither brackets nor, if it is an IPv4 address, colons, so that
both split such a text at the same places.

* `indexByte_append`, `lastIndexByte_append`, `lastIndexByte_eq_some`;
* `AddrByte`: the bytes of an address without zone; `parseIPv6_text`, `parseAddr_eq_some`: the texts
  that are read;
* `splitHostPort_plain`, `splitHostPort_brackets`;
* **`parseAddrPort_host`**: what `netip.ParseAddrPort` finds without a zone, the other reading finds.
-/

namespace Go

/-! ## Positions -/

theorem indexByte_append {c : UInt8} {s : GoString} (h : c ∉ s) (t : GoString) :
    indexByte (s ++ c :: t) c = some s.length := by
  unfold indexByte
  induction s with
  | nil => simp [List.idxOf?_cons]
  | cons d s ih =>
    rw [List.mem_cons, not_or] at h
    have hd : (d == c) = false := beq_false_of_ne (Ne.symm h.1)
    rw [List.cons_append, List.idxOf?_cons, hd, ih h.2]
    rfl

theorem lastIndexByte_append (s : GoString) {c : UInt8} {t : GoString} (h : c ∉ t) :
    lastIndexByte (s ++ c :: t) c = some s.length := by
  have hrev := indexByte_append (s := t.reverse) (by simpa using h) s.reverse
  have htext : (s ++ c :: t).reverse = t.reverse ++ c :: s.reverse := by simp
  unfold indexByte at hrev
  rw [lastIndexByte, htext, hrev, Option.map_some, List.length_append, List.length_cons,
    List.length_reverse]
  congr 1
  omega

/-- The last `c` splits the text. -/
theorem lastIndexByte_eq_some {s : GoString} {c : UInt8} {i : ℕ} (h : lastIndexByte s c = some i) :
    ∃ t u, s = t ++ c :: u ∧ c ∉ u ∧ t.length = i := by
  have hmem : c ∈ s.reverse := by
    by_contra hc
    rw [lastIndexByte, List.idxOf?_eq_none_iff.mpr hc] at h
    cases h
  obtain ⟨u, t, hs, hu⟩ := List.eq_append_cons_of_mem hmem
  have hs' : s = t.reverse ++ c :: u.reverse := by
    rw [← List.reverse_reverse s, hs]
    simp
  have hu' : c ∉ u.reverse := by simpa using hu
  refine ⟨t.reverse, u.reverse, hs', hu', ?_⟩
  rw [hs', lastIndexByte_append _ hu'] at h
  exact Option.some.inj h

/-! ## The bytes of an address -/

/-- A byte that may stand in the text of an address without zone. -/
def AddrByte (c : UInt8) : Prop := hexVal c ≠ none ∨ c = byte '.' ∨ c = byte ':'

/-- A byte that may stand in the text of an IPv4 address. -/
def OctetByte (c : UInt8) : Prop := decVal c ≠ none ∨ c = byte '.'

theorem hexVal_of_decVal {c : UInt8} (h : decVal c ≠ none) : hexVal c ≠ none := by
  unfold decVal at h
  unfold hexVal
  split at h
  next hc => simp [hc]
  next => exact absurd rfl h

theorem OctetByte.addrByte {c : UInt8} (h : OctetByte c) : AddrByte c :=
  h.imp hexVal_of_decVal .inl

theorem AddrByte.ne {c d : UInt8} (h : AddrByte c) (hd : hexVal d = none ∧ d ≠ byte '.' ∧ d ≠ byte ':') :
    c ≠ d := by
  rintro rfl
  obtain hc | hc | hc := h
  · exact hc hd.1
  · exact hd.2.1 hc
  · exact hd.2.2 hc

theorem parseIPv4Loop_bytes {s : GoString} {val digLen : ℕ} {fields octets : List UInt8}
    (h : parseIPv4Loop s val digLen fields = some octets) : ∀ c ∈ s, OctetByte c := by
  induction s generalizing val digLen fields with
  | nil => simp
  | cons c s ih =>
    rw [parseIPv4Loop] at h
    rw [List.forall_mem_cons]
    split at h
    next d hd =>
      split_ifs at h
      exact ⟨.inl (by simp [hd]), ih h⟩
    next hd =>
      split_ifs at h with hdot
      exact ⟨.inr (not_not.mp hdot), ih h⟩

theorem scanHex_bytes {s : GoString} {off acc off' acc' : ℕ} {rest : GoString}
    (h : scanHex s off acc = some (off', acc', rest)) :
    ∃ digits, s = digits ++ rest ∧ ∀ c ∈ digits, AddrByte c := by
  induction s generalizing off acc with
  | nil =>
    cases h
    exact ⟨[], rfl, by simp⟩
  | cons c s ih =>
    rw [scanHex] at h
    split at h
    next =>
      cases h
      exact ⟨[], rfl, by simp⟩
    next d hd =>
      split_ifs at h
      obtain ⟨digits, rfl, hdigits⟩ := ih h
      exact ⟨c :: digits, rfl, List.forall_mem_cons.mpr ⟨.inl (by simp [hd]), hdigits⟩⟩

theorem parseIPv6Loop_bytes {n : ℕ} {groups groups' : List UInt16} {ellipsis ellipsis' : Option ℕ}
    {s : GoString} (h : parseIPv6Loop n groups ellipsis s = some (groups', ellipsis', [])) :
    ∀ c ∈ s, AddrByte c := by
  induction n generalizing groups ellipsis s with
  | zero =>
    cases h
    simp
  | succ n ih =>
    rw [parseIPv6Loop] at h
    split at h
    next => cases h
    next => cases h
    next hscan =>
      obtain ⟨digits, rfl, hdigits⟩ := scanHex_bytes hscan
      simpa using hdigits
    next c t _ hscan =>
      split_ifs at h with hdot _ _ hcolon _ hnext _ hend
      · -- the rest is an IPv4 address
        obtain ⟨octets, hoctets, -⟩ := Option.map_eq_some_iff.mp h
        exact fun d hd => (parseIPv4Loop_bytes hoctets d hd).addrByte
      all_goals
        obtain ⟨digits, rfl, hdigits⟩ := scanHex_bytes hscan
        have hc : AddrByte c := .inr (.inr (not_not.mp hcolon))
        rw [List.forall_mem_append, List.forall_mem_cons]
        refine ⟨hdigits, hc, ?_⟩
      · obtain ⟨d, t, rfl⟩ := List.exists_cons_of_ne_nil ‹t ≠ []›
        rw [List.head?_cons, Option.some.injEq] at hnext
        rw [List.tail_cons] at hend
        rw [hend, List.forall_mem_singleton]
        exact .inr (.inr hnext)
      · obtain ⟨d, t, rfl⟩ := List.exists_cons_of_ne_nil ‹t ≠ []›
        rw [List.head?_cons, Option.some.injEq] at hnext
        exact List.forall_mem_cons.mpr ⟨.inr (.inr hnext), ih h⟩
      · exact ih h

theorem parseGroups_bytes {s : GoString} {groups : List UInt16} (h : parseGroups s = some groups) :
    ∀ c ∈ s, AddrByte c := by
  have hcolon : AddrByte (byte ':') := .inr (.inr rfl)
  dsimp only [parseGroups] at h
  by_cases hlead : hasPrefix s [byte ':', byte ':'] = true
  · obtain ⟨t, rfl⟩ := List.isPrefixOf_iff_prefix.mp hlead
    rw [List.forall_mem_append]
    refine ⟨by simpa using hcolon, ?_⟩
    split at h
    next hlen =>
      have ht : t.length = 0 := by simpa using hlen.2
      simp [List.length_eq_zero_iff.mp ht]
    next =>
      split at h
      next hloop => exact parseIPv6Loop_bytes hloop
      next => cases h
  · rw [if_neg (by simp [hlead])] at h
    split at h
    next hloop =>
      rw [if_neg hlead, if_neg hlead] at hloop
      exact parseIPv6Loop_bytes hloop
    next => cases h

theorem parseIPv4_eq_some {s : GoString} {a : Addr} (h : parseIPv4 s = some a) :
    (∃ octets, a = .v4 octets) ∧ ∀ c ∈ s, OctetByte c := by
  simp only [parseIPv4, Option.bind_eq_bind, Option.bind_eq_some_iff, Option.pure_def,
    Option.some.injEq] at h
  obtain ⟨fields, hfields, octets, -, rfl⟩ := h
  exact ⟨⟨octets, rfl⟩, parseIPv4Loop_bytes hfields⟩

theorem parseIPv6Loop_colons {n : ℕ} {groups groups' : List UInt16} {ellipsis : Option ℕ}
    {s : GoString} (h : parseIPv6Loop n groups none s = some (groups', ellipsis, [])) :
    2 ≤ s.count (byte ':') ∨
      (ellipsis = none ∧ groups'.length ≤ groups.length + s.count (byte ':') + 2) := by
  induction n generalizing groups s with
  | zero =>
    cases h
    exact .inr ⟨rfl, by omega⟩
  | succ n ih =>
    rw [parseIPv6Loop] at h
    split at h
    next => cases h
    next => cases h
    next =>
      cases h
      exact .inr ⟨rfl, by rw [List.length_append, List.length_singleton]; omega⟩
    next c t _ hscan =>
      split_ifs at h with hdot _ _ hcolon _ hnext _ hend
      · obtain ⟨octets, -, h⟩ := Option.map_eq_some_iff.mp h
        cases h
        have hlen : (groupsOf octets).length ≤ 2 := by
          unfold groupsOf
          split <;> simp
        exact .inr ⟨rfl, by rw [List.length_append]; omega⟩
      all_goals
        obtain ⟨digits, rfl, -⟩ := scanHex_bytes hscan
        obtain rfl : c = byte ':' := not_not.mp hcolon
        rw [List.count_append, List.count_cons_self]
      -- an ellipsis has two colons of its own
      iterate 2
        · obtain ⟨t, rfl⟩ := List.head?_eq_some_iff.mp hnext
          rw [List.count_cons_self]
          exact .inl (by omega)
      · obtain hcount | ⟨hellipsis, hlen⟩ := ih h
        · exact .inl (by omega)
        · rw [List.length_append, List.length_singleton] at hlen
          exact .inr ⟨hellipsis, by omega⟩

theorem parseGroups_colons {s : GoString} {groups : List UInt16} (h : parseGroups s = some groups) :
    2 ≤ s.count (byte ':') := by
  dsimp only [parseGroups] at h
  by_cases hlead : hasPrefix s [byte ':', byte ':'] = true
  · obtain ⟨t, rfl⟩ := List.isPrefixOf_iff_prefix.mp hlead
    rw [List.count_append, List.count_cons_self, List.count_cons_self]
    omega
  · rw [if_neg (by simp [hlead])] at h
    split at h
    next hloop =>
      rw [if_neg hlead, if_neg hlead] at hloop
      obtain hcount | ⟨rfl, hlen⟩ := parseIPv6Loop_colons hloop
      · exact hcount
      -- without an ellipsis there are eight groups
      · unfold expandEllipsis at h
        split_ifs at h with hshort
        rw [List.length_nil] at hlen
        omega
    next => cases h

theorem cut_eq_some {sep : UInt8} {s t zone : GoString} (h : cut sep s = some (t, zone)) :
    s = t ++ sep :: zone := by
  induction s generalizing t with
  | nil => cases h
  | cons c s ih =>
    rw [cut] at h
    split_ifs at h with hc
    · cases h
      rw [hc, List.nil_append]
    · obtain ⟨⟨t', zone'⟩, hcut, h⟩ := Option.map_eq_some_iff.mp h
      cases h
      rw [ih hcut, List.cons_append]

/-- **The text of an IPv6 address**: groups with two colons or more, and the zone if there is one. -/
theorem parseIPv6_text {s : GoString} {a : Addr} (h : parseIPv6 s = some a) :
    ∃ groups zone t, a = .v6 groups zone ∧ (∀ c ∈ t, AddrByte c) ∧ 2 ≤ t.count (byte ':') ∧
      ((zone = [] ∧ s = t) ∨ (zone ≠ [] ∧ s = t ++ byte '%' :: zone)) := by
  unfold parseIPv6 at h
  split at h
  next => cases h
  next t zone hne hcut =>
    simp only [Option.bind_eq_bind, Option.bind_eq_some_iff, Option.pure_def,
      Option.some.injEq] at h
    obtain ⟨gs, hgs, groups, -, rfl⟩ := h
    exact ⟨groups, zone, t, rfl, parseGroups_bytes hgs, parseGroups_colons hgs,
      .inr ⟨hne, cut_eq_some hcut⟩⟩
  next =>
    simp only [Option.bind_eq_bind, Option.bind_eq_some_iff, Option.pure_def,
      Option.some.injEq] at h
    obtain ⟨gs, hgs, groups, -, rfl⟩ := h
    exact ⟨groups, [], s, rfl, parseGroups_bytes hgs, parseGroups_colons hgs, .inl ⟨rfl, rfl⟩⟩

/-- Neither a bracket nor a colon. -/
def PlainByte (c : UInt8) : Prop := c ≠ byte '[' ∧ c ≠ byte ']' ∧ c ≠ byte ':'

theorem OctetByte.plain {c : UInt8} (h : OctetByte c) : PlainByte c := by
  refine ⟨h.addrByte.ne (by decide), h.addrByte.ne (by decide), ?_⟩
  rintro rfl
  obtain hc | hc := h
  · exact hc (by decide)
  · exact absurd hc (by decide)

theorem splitHostPort_plain {host port : GoString} (hhost : ∀ c ∈ host, PlainByte c)
    (hport : ∀ c ∈ port, PlainByte c) :
    splitHostPort (host ++ byte ':' :: port) = some (host, port) := by
  have hlast := lastIndexByte_append host fun h => (hport _ h).2.2 rfl
  have hhead : (host ++ byte ':' :: port).head? ≠ some (byte '[') := by
    cases host with
    | nil => simpa using (show byte ':' ≠ byte '[' by decide)
    | cons c host => simpa using (hhost c List.mem_cons_self).1
  have hcolon : byte ':' ∉ (host ++ byte ':' :: port).take host.length := by
    rw [List.take_left]
    exact fun h => (hhost _ h).2.2 rfl
  have hopen : byte '[' ∉ host ++ byte ':' :: port := by
    simp only [List.mem_append, List.mem_cons, not_or]
    exact ⟨fun h => (hhost _ h).1 rfl, by decide, fun h => (hport _ h).1 rfl⟩
  have hclose : byte ']' ∉ host ++ byte ':' :: port := by
    simp only [List.mem_append, List.mem_cons, not_or]
    exact ⟨fun h => (hhost _ h).2.1 rfl, by decide, fun h => (hport _ h).2.1 rfl⟩
  unfold splitHostPort
  rw [hlast]
  dsimp only
  rw [if_neg hhead, if_neg hcolon, if_neg hopen, if_neg hclose, List.take_left]
  simp

theorem splitHostPort_brackets {host port : GoString} (hhost : byte '[' ∉ host ∧ byte ']' ∉ host)
    (hport : ∀ c ∈ port, PlainByte c) :
    splitHostPort (byte '[' :: host ++ byte ']' :: byte ':' :: port) = some (host, port) := by
  have hlast : lastIndexByte (byte '[' :: host ++ byte ']' :: byte ':' :: port) (byte ':') =
      some (host.length + 2) := by
    have := lastIndexByte_append (byte '[' :: host ++ [byte ']']) fun h => (hport _ h).2.2 rfl
    simpa using this
  have hfirst : indexByte (byte '[' :: host ++ byte ']' :: byte ':' :: port) (byte ']') =
      some (host.length + 1) := by
    refine indexByte_append (s := byte '[' :: host) ?_ _
    rw [List.mem_cons, not_or]
    exact ⟨by decide, hhost.2⟩
  have hopen : byte '[' ∉ (byte '[' :: host ++ byte ']' :: byte ':' :: port).drop 1 := by
    simp only [List.cons_append, List.drop_one, List.tail_cons, List.mem_append, List.mem_cons, not_or]
    exact ⟨hhost.1, by decide, by decide, fun h => (hport _ h).1 rfl⟩
  have hclose : byte ']' ∉ (byte '[' :: host ++ byte ']' :: byte ':' :: port).drop
      (host.length + 1 + 1) := by
    have hdrop : (byte '[' :: host ++ byte ']' :: byte ':' :: port).drop (host.length + 1 + 1) =
        byte ':' :: port := by simp [List.drop_append]
    rw [hdrop, List.mem_cons, not_or]
    exact ⟨by decide, fun h => (hport _ h).2.1 rfl⟩
  unfold splitHostPort
  rw [hlast]
  dsimp only
  rw [if_pos (by simp), hfirst]
  dsimp only
  rw [if_neg (by omega), if_neg hopen, if_neg hclose]
  simp

end Go
