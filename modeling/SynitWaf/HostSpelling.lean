import SynitWaf.Go.AddrPort
import SynitWaf.Go.Lower
import SynitWaf.Registry

/-!
# The spellings of a host

`normalizeHost` lower-cases a host, trims it, and removes the port, the brackets of an IPv6 literal
and the dot of the root zone, in this order. Each step meets what the one before has left of a
spelling, and all spellings of a host end in the same string.

* `HostName`, `IPv6Literal`: the hosts; `HostSpelling`, `LiteralSpelling`: dots, ports and brackets;
  `Spells`: case and blanks;
* `trimmed_bare`, `trimmed_port`: what lower-casing and trimming leave; `normalizeHost_split`,
  `normalizeHost_whole`, `normalizeHost_closed`: the three ways on;
* **`HostSpelling.normalize`**, **`LiteralSpelling.normalize`**: the normal forms;
* **`spelling_invariant`**: the entry of a host does not depend on its spelling.
-/

namespace SynitWaf

open Go

/-! ## Spellings -/

/-- A host name: no colon, bracket or white space, and no dot at the end. -/
structure HostName (h : GoString) : Prop where
  plain : ∀ c ∈ h, PlainByte c
  solid : containsFunc h isSpace = false
  no_dot : h.getLast? ≠ some (byte '.')

/-- A host name with or without the dot of the root zone and a port. -/
inductive HostSpelling (h : GoString) : GoString → Prop
  | name : HostSpelling h h
  | dot : HostSpelling h (h ++ str ".")
  | port {p : GoString} : (∀ c ∈ p, PlainByte c) → HostSpelling h (h ++ byte ':' :: p)
  | dotPort {p : GoString} : (∀ c ∈ p, PlainByte c) →
      HostSpelling h (h ++ str "." ++ byte ':' :: p)

/-- The text of an IPv6 address. A zone has no brackets and no white space. -/
structure IPv6Literal (a : GoString) : Prop where
  parsed : ∃ groups zone, parseAddr a = some (.v6 groups zone) ∧
    byte '[' ∉ zone ∧ byte ']' ∉ zone ∧ containsFunc zone isSpace = false

/-- A literal with or without brackets and a port. -/
inductive LiteralSpelling (a : GoString) : GoString → Prop
  | literal : LiteralSpelling a a
  | brackets : LiteralSpelling a (byte '[' :: a ++ [byte ']'])
  | port {p : GoString} : (∀ c ∈ p, PlainByte c) →
      LiteralSpelling a (byte '[' :: a ++ byte ']' :: byte ':' :: p)

/-- Another case of ASCII letters, and blanks around the text. -/
inductive Spells (s : GoString) : GoString → Prop
  | mk {x l r : GoString} : lowerASCII x = lowerASCII s → (∀ c ∈ l, Blank c) → (∀ c ∈ r, Blank c) →
      Spells s (l ++ x ++ r)

theorem Spells.refl (s : GoString) : Spells s s := by
  have h : Spells s ([] ++ s ++ []) := .mk rfl nofun nofun
  rwa [List.nil_append, List.append_nil] at h

/-! ## Lower case -/

theorem blank_spec {c : UInt8} (h : Blank c) : c < 0x80 ∧ lowerByte c = c ∧ PlainByte c := by
  have hwords : ∀ w ∈ spaces, w.length = 1 → ∀ c ∈ w,
      c < 0x80 ∧ lowerByte c = c ∧ c ≠ byte '[' ∧ c ≠ byte ']' ∧ c ≠ byte ':' := by
    decide +kernel
  exact hwords _ h rfl c (List.mem_singleton_self c)

section Lower

variable {table : CaseTable} {s t l r : GoString}

theorem toLower_blanks_append (hl : ∀ c ∈ l, Blank c) :
    table.toLower (l ++ s) = l ++ table.toLower s := by
  induction l with
  | nil => rfl
  | cons c l ih =>
    rw [List.forall_mem_cons] at hl
    obtain ⟨hc, hlower, -⟩ := blank_spec hl.1
    rw [List.cons_append, CaseTable.toLower_cons_ascii _ hc, hlower, ih hl.2, List.cons_append]

theorem toLower_append_blanks (hr : ∀ c ∈ r, Blank c) :
    table.toLower (s ++ r) = table.toLower s ++ r := by
  cases r with
  | nil => rw [List.append_nil, List.append_nil]
  | cons c r =>
    rw [List.forall_mem_cons] at hr
    obtain ⟨hc, hlower, -⟩ := blank_spec hr.1
    have hrest : table.toLower (r ++ []) = r ++ table.toLower [] := toLower_blanks_append hr.2
    rw [CaseTable.toLower_nil, List.append_nil] at hrest
    rw [CaseTable.toLower_append_ascii _ _ hc, hlower, hrest]

variable (table) in
theorem Spells.toLower (h : Spells s t) : ∃ l r, (∀ c ∈ l, Blank c) ∧ (∀ c ∈ r, Blank c) ∧
    table.toLower t = l ++ table.toLower s ++ r := by
  obtain ⟨hx, hl, hr⟩ := h
  refine ⟨_, _, hl, hr, ?_⟩
  rw [toLower_append_blanks hr, toLower_blanks_append hl, ← CaseTable.toLower_lowerASCII, hx,
    CaseTable.toLower_lowerASCII]

theorem toLower_plain (hs : ∀ c ∈ s, PlainByte c) : ∀ c ∈ table.toLower s, PlainByte c := by
  have hsep : ∀ d : UInt8, d < 0x80 → ¬ IsLetter d → d ∉ s → d ∉ table.toLower s :=
    fun d hd hletter hns h => hns (CaseTable.mem_toLower hd hletter h)
  intro c hc
  refine ⟨?_, ?_, ?_⟩ <;> rintro rfl
  · exact hsep _ (by decide) (by decide) (fun h => (hs _ h).1 rfl) hc
  · exact hsep _ (by decide) (by decide) (fun h => (hs _ h).2.1 rfl) hc
  · exact hsep _ (by decide) (by decide) (fun h => (hs _ h).2.2 rfl) hc

end Lower

/-! ## Normal forms -/

theorem colon_separator : Separator (byte ':') := by
  unfold Separator
  decide +kernel

theorem splitHostPort_of_not_mem {s : GoString} (h : byte ':' ∉ s) : splitHostPort s = none := by
  have hnone : lastIndexByte s (byte ':') = none := by
    rw [lastIndexByte, List.idxOf?_eq_none_iff.mpr (mt List.mem_reverse.mp h), Option.map_none]
  rw [splitHostPort, hnone]

theorem trimSuffix_concat (s : GoString) (c : UInt8) : trimSuffix (s ++ [c]) [c] = s := by
  have hsuffix : hasSuffix (s ++ [c]) [c] = true := by simp [hasSuffix]
  rw [trimSuffix, if_pos hsuffix]
  simp

theorem trimSuffix_of_getLast {s : GoString} {c : UInt8} (h : s.getLast? ≠ some c) :
    trimSuffix s [c] = s := by
  refine if_neg fun hsuffix => h ?_
  obtain ⟨t, rfl⟩ := List.isSuffixOf_iff_suffix.mp hsuffix
  exact List.getLast?_concat

section Normal

variable {unicode : Unicode} {table : CaseTable} {s t x p : GoString}

theorem normalizeHost_split (hunicode : unicode.toLower = table.toLower) {n h q : GoString}
    (hn : trimSpace (table.toLower t) = n) (hsplit : splitHostPort n = some (h, q)) :
    normalizeHost unicode t = trimSuffix h (str ".") := by
  rw [normalizeHost, hunicode, hn]
  simp only [hsplit]

theorem normalizeHost_whole (hunicode : unicode.toLower = table.toLower) {n : GoString}
    (hn : trimSpace (table.toLower t) = n) (hsplit : splitHostPort n = none) (hhead : byte '[' ∉ n) :
    normalizeHost unicode t = trimSuffix n (str ".") := by
  have hprefix : hasPrefix n (str "[") = false := by
    refine Bool.eq_false_iff.mpr fun hp => ?_
    obtain ⟨u, rfl⟩ := List.isPrefixOf_iff_prefix.mp hp
    exact hhead (List.mem_append_left u (List.mem_singleton_self _))
  rw [normalizeHost, hunicode, hn]
  simp only [hsplit, hprefix, Bool.false_and, Bool.false_eq_true, if_false]

theorem normalizeHost_closed (hunicode : unicode.toLower = table.toLower) {n : GoString}
    (hn : trimSpace (table.toLower t) = byte '[' :: n ++ [byte ']'])
    (hsplit : splitHostPort (byte '[' :: n ++ [byte ']']) = none) :
    normalizeHost unicode t = trimSuffix n (str ".") := by
  have hprefix : hasPrefix (byte '[' :: n ++ [byte ']']) (str "[") = true :=
    List.isPrefixOf_iff_prefix.mpr (List.prefix_append [byte '['] (n ++ [byte ']']))
  have hsuffix : hasSuffix (byte '[' :: n ++ [byte ']']) (str "]") = true :=
    List.isSuffixOf_iff_suffix.mpr (List.suffix_append (byte '[' :: n) [byte ']'])
  rw [normalizeHost, hunicode, hn]
  simp only [hsplit, hprefix, hsuffix, Bool.and_self, if_true]
  simp

/-- A text without port. -/
theorem trimmed_bare (hx : Solid (table.toLower x)) (h : Spells x t) :
    trimSpace (table.toLower t) = table.toLower x := by
  obtain ⟨l, r, hl, hr, hlower⟩ := h.toLower table
  rw [hlower, trimSpace_blanks hl hr hx]

/-- A text with a port: what is left of the port has no colon or bracket. -/
theorem trimmed_port (hx : Solid (table.toLower x)) (hp : ∀ c ∈ p, PlainByte c)
    (h : Spells (x ++ byte ':' :: p) t) : ∃ q, (∀ c ∈ q, PlainByte c) ∧
      trimSpace (table.toLower t) = table.toLower x ++ byte ':' :: q := by
  obtain ⟨l, r, hl, hr, hlower⟩ := h.toLower table
  obtain ⟨q, hq, htrim⟩ := trimSpace_separator (t := table.toLower p ++ r) colon_separator hl hx
  refine ⟨q, fun c hc => ?_, ?_⟩
  · obtain hmem | hmem := List.mem_append.mp (hq.mem hc)
    · exact toLower_plain hp c hmem
    · exact (blank_spec (hr c hmem)).2.2
  · have hcolon : lowerByte (byte ':') = byte ':' := by decide
    rw [hlower, CaseTable.toLower_append_ascii _ _ (by decide), hcolon, ← htrim]
    simp only [List.append_assoc, List.cons_append]

/-- **A text without colon or bracket**, alone or with a port, is kept up to the dot. -/
theorem normalizeHost_plain (hunicode : unicode.toLower = table.toLower)
    (hx : Solid (table.toLower x)) (hplain : ∀ c ∈ table.toLower x, PlainByte c)
    (h : Spells x t ∨ ∃ p, (∀ c ∈ p, PlainByte c) ∧ Spells (x ++ byte ':' :: p) t) :
    normalizeHost unicode t = trimSuffix (table.toLower x) (str ".") := by
  obtain h | ⟨p, hp, h⟩ := h
  · have hcolon : byte ':' ∉ table.toLower x := fun hmem => (hplain _ hmem).2.2 rfl
    have hbracket : byte '[' ∉ table.toLower x := fun hmem => (hplain _ hmem).1 rfl
    exact normalizeHost_whole hunicode (trimmed_bare hx h) (splitHostPort_of_not_mem hcolon) hbracket
  · obtain ⟨q, hq, htrim⟩ := trimmed_port hx hp h
    exact normalizeHost_split hunicode htrim (splitHostPort_plain hplain hq)

/-- **The normal form of a host name** is its lower case. -/
theorem HostSpelling.normalize (hunicode : unicode.toLower = table.toLower) {h : GoString}
    (hh : HostName h) (hs : HostSpelling h s) (ht : Spells s t) :
    normalizeHost unicode t = table.toLower h := by
  have hsolid : Solid (table.toLower h) := .toLower hh.solid
  have hplain : ∀ c ∈ table.toLower h, PlainByte c := toLower_plain hh.plain
  have hdot : table.toLower (h ++ str ".") = table.toLower h ++ str "." :=
    CaseTable.toLower_append_ascii h [] (by decide)
  have hsolid' : Solid (table.toLower (h ++ str ".")) := by
    rw [hdot]
    exact hsolid.append (.ascii (by decide) (by decide +kernel) .nil)
  have hplain' : ∀ c ∈ table.toLower (h ++ str "."), PlainByte c := by
    rw [hdot, List.forall_mem_append]
    exact ⟨hplain, by unfold PlainByte; decide +kernel⟩
  have hkept : trimSuffix (table.toLower h) (str ".") = table.toLower h :=
    trimSuffix_of_getLast fun hlast =>
      hh.no_dot (CaseTable.getLast_toLower (by decide) (by decide) hlast)
  have hdropped : trimSuffix (table.toLower (h ++ str ".")) (str ".") = table.toLower h := by
    rw [hdot]
    exact trimSuffix_concat _ _
  cases hs with
  | name => rw [normalizeHost_plain hunicode hsolid hplain (.inl ht), hkept]
  | dot => rw [normalizeHost_plain hunicode hsolid' hplain' (.inl ht), hdropped]
  | port hp => rw [normalizeHost_plain hunicode hsolid hplain (.inr ⟨_, hp, ht⟩), hkept]
  | dotPort hp => rw [normalizeHost_plain hunicode hsolid' hplain' (.inr ⟨_, hp, ht⟩), hdropped]

/-! ## Literals -/

theorem parseIPv6_of_parseAddr {a : GoString} {groups : List.Vector UInt16 8} {zone : GoString}
    (h : parseAddr a = some (.v6 groups zone)) : parseIPv6 a = some (.v6 groups zone) := by
  unfold parseAddr at h
  split at h
  next => cases h
  next =>
    split_ifs at h
    · obtain ⟨⟨octets, ha⟩, -⟩ := parseIPv4_eq_some h
      cases ha
    · exact h

theorem addrByte_solid {c : UInt8} (h : AddrByte c) : c < 0x80 ∧ isSpace c.toNat = false := by
  have hbounds : 46 ≤ c.toNat ∧ c.toNat ≤ 102 := by
    obtain h | rfl | rfl := h
    · unfold hexVal at h
      simp only [UInt8.le_iff_toNat_le, UInt8.reduceToNat] at h
      split_ifs at h
      all_goals first | omega | exact absurd rfl h
    · decide
    · decide
  refine ⟨UInt8.lt_iff_toNat_lt.mpr (Nat.lt_of_le_of_lt hbounds.2 (by decide)), ?_⟩
  refine Bool.eq_false_iff.mpr fun hspace => ?_
  have := isSpace_bounds hspace
  omega

theorem containsFunc_ascii {s : GoString} (h : ∀ c ∈ s, c < 0x80 ∧ isSpace c.toNat = false)
    (u : GoString) : containsFunc (s ++ u) isSpace = containsFunc u isSpace := by
  induction s with
  | nil => rfl
  | cons c s ih =>
    rw [List.forall_mem_cons] at h
    have hrunes : runes (c :: (s ++ u)) = .ascii c :: runes (s ++ u) :=
      runes_append_ascii [] (s ++ u) h.1.1
    rw [← ih h.2, containsFunc, List.cons_append, hrunes, List.any_cons, containsFunc]
    simp only [Rune.ascii, h.1.2, Bool.false_or]

/-- A literal has two colons or more, no brackets and no white space. -/
theorem IPv6Literal.text {a : GoString} (h : IPv6Literal a) :
    2 ≤ a.count (byte ':') ∧ byte '[' ∉ a ∧ byte ']' ∉ a ∧ containsFunc a isSpace = false := by
  obtain ⟨groups, zone, hparsed, hopen, hclose, hspace⟩ := h.parsed
  obtain ⟨groups', zone', t, haddr, hbytes, hcolons, htext⟩ :=
    parseIPv6_text (parseIPv6_of_parseAddr hparsed)
  cases haddr
  have hnot : ∀ d : UInt8, hexVal d = none ∧ d ≠ byte '.' ∧ d ≠ byte ':' → d ∉ t :=
    fun d hd hmem => (hbytes d hmem).ne hd rfl
  have hsolid := containsFunc_ascii fun c hc => addrByte_solid (hbytes c hc)
  obtain ⟨-, rfl⟩ | ⟨-, rfl⟩ := htext
  · refine ⟨hcolons, hnot _ (by decide), hnot _ (by decide), ?_⟩
    have hempty := hsolid []
    rwa [List.append_nil] at hempty
  · have hpercent := containsFunc_ascii (s := [byte '%']) (by decide +kernel) zone
    refine ⟨?_, ?_, ?_, (hsolid _).trans (hpercent.trans hspace)⟩
    · rw [List.count_append]
      omega
    all_goals
      rw [List.mem_append, List.mem_cons, not_or, not_or]
    · exact ⟨hnot _ (by decide), by decide, hopen⟩
    · exact ⟨hnot _ (by decide), by decide, hclose⟩

theorem exists_two_colons {s : GoString} {c : UInt8} (h : 2 ≤ s.count c) :
    ∃ x y z, s = x ++ c :: (y ++ c :: z) := by
  obtain ⟨x, s, rfl, hx⟩ := List.eq_append_cons_of_mem (List.count_pos_iff.mp (Nat.lt_of_succ_lt h))
  rw [List.count_append, List.count_cons_self, List.count_eq_zero.mpr hx] at h
  have hs : 0 < s.count c := by omega
  obtain ⟨y, z, rfl, -⟩ := List.eq_append_cons_of_mem (List.count_pos_iff.mp hs)
  exact ⟨x, y, z, rfl⟩

theorem splitHostPort_two_colons {s : GoString} (h : 2 ≤ s.count (byte ':')) (hs : byte '[' ∉ s) :
    splitHostPort s = none := by
  unfold splitHostPort
  split
  next => rfl
  next i hi =>
    obtain ⟨t, u, rfl, hu, rfl⟩ := lastIndexByte_eq_some hi
    rw [List.count_append, List.count_cons_self, List.count_eq_zero.mpr hu] at h
    have ht : byte ':' ∈ (t ++ byte ':' :: u).take t.length := by
      rw [List.take_left]
      exact List.count_pos_iff.mp (by omega)
    rw [if_neg (fun hhead => hs (List.mem_of_head? hhead)), if_pos ht]

theorem splitHostPort_closed {s : GoString} (h : byte ']' ∉ s) :
    splitHostPort (byte '[' :: s ++ [byte ']']) = none := by
  have hindex : indexByte (byte '[' :: s ++ [byte ']']) (byte ']') = some (s.length + 1) := by
    refine indexByte_append (s := byte '[' :: s) ?_ []
    rw [List.mem_cons, not_or]
    exact ⟨by decide, h⟩
  unfold splitHostPort
  split
  next => rfl
  next i hi =>
    obtain ⟨t, u, htext, -, rfl⟩ := lastIndexByte_eq_some hi
    -- the bracket at the end is no colon, so the last colon is before it
    have hlast : s.length + 1 + 1 ≠ t.length := by
      intro hlen
      have := congrArg List.length htext
      simp at this
      omega
    have hhead : (byte '[' :: s ++ [byte ']']).head? = some (byte '[') := rfl
    rw [hindex, if_pos hhead]
    dsimp only
    rw [if_pos hlast]

/-- **The normal form of an IPv6 literal** is its lower case, without brackets. -/
theorem LiteralSpelling.normalize (hunicode : unicode.toLower = table.toLower) {a : GoString}
    (ha : IPv6Literal a) (hs : LiteralSpelling a s) (ht : Spells s t) :
    normalizeHost unicode t = trimSuffix (table.toLower a) (str ".") := by
  obtain ⟨hcolons, hopen, hclose, hspace⟩ := ha.text
  have hsolid : Solid (table.toLower a) := .toLower hspace
  have hcolons' : 2 ≤ (table.toLower a).count (byte ':') := by
    obtain ⟨x, y, z, rfl⟩ := exists_two_colons hcolons
    have hcolon : lowerByte (byte ':') = byte ':' := by decide
    rw [CaseTable.toLower_append_ascii _ _ (by decide), CaseTable.toLower_append_ascii _ _ (by decide),
      hcolon]
    simp
    omega
  have hopen' : byte '[' ∉ table.toLower a := mt (CaseTable.mem_toLower (by decide) (by decide)) hopen
  have hclose' : byte ']' ∉ table.toLower a :=
    mt (CaseTable.mem_toLower (by decide) (by decide)) hclose
  have hbrackets : table.toLower (byte '[' :: a ++ [byte ']']) =
      byte '[' :: table.toLower a ++ [byte ']'] := by
    rw [List.cons_append, CaseTable.toLower_cons_ascii _ (by decide),
      CaseTable.toLower_append_ascii _ _ (by decide)]
    rfl
  have hsolid' : Solid (table.toLower (byte '[' :: a ++ [byte ']'])) := by
    rw [hbrackets]
    exact .ascii (by decide) (by decide +kernel)
      (hsolid.append (.ascii (by decide) (by decide +kernel) .nil))
  cases hs with
  | literal =>
    exact normalizeHost_whole hunicode (trimmed_bare hsolid ht)
      (splitHostPort_two_colons hcolons' hopen') hopen'
  | brackets =>
    have htrim := trimmed_bare hsolid' ht
    rw [hbrackets] at htrim
    exact normalizeHost_closed hunicode htrim (splitHostPort_closed hclose')
  | @port p hp =>
    have htext : byte '[' :: a ++ byte ']' :: byte ':' :: p =
        byte '[' :: a ++ [byte ']'] ++ byte ':' :: p := by simp
    obtain ⟨q, hq, htrim⟩ := trimmed_port hsolid' hp (htext ▸ ht)
    rw [hbrackets, List.append_assoc, List.singleton_append] at htrim
    exact normalizeHost_split hunicode htrim (splitHostPort_brackets ⟨hopen', hclose'⟩ hq)

end Normal

/-! ## Lookups -/

/-- The entry of a host depends on nothing but its normal form. -/
theorem get_of_normalize {unicode : Unicode} {s t : GoString} (registry : Registry)
    (order order' : KeyOrder) (h : normalizeHost unicode s = normalizeHost unicode t) :
    Registry.get unicode order registry s = Registry.get unicode order' registry t := by
  obtain ⟨mapping, wildcards⟩ := registry
  cases wildcards with
  | some wildcards =>
    unfold Registry.get
    rw [h]
  | none =>
    have hs := Registry.get_scan unicode order mapping s
    rw [h] at hs
    exact hs.unique (Registry.get_scan unicode order' mapping t)

/-- **Spellings of a host.** Whatever the registry and the orders in which its keys are visited, a host
name is found under the same entry in any case of its letters, with or without blanks around it, the
dot of the root zone and a port, and an IPv6 literal with or without brackets and a port. -/
theorem spelling_invariant (unicode : Unicode) (table : CaseTable)
    (hunicode : unicode.toLower = table.toLower) :
    (∀ h, HostName h → ∀ s, HostSpelling h s → ∀ t, Spells s t →
      normalizeHost unicode t = normalizeHost unicode h ∧
      ∀ (registry : Registry) (order order' : KeyOrder),
        Registry.get unicode order registry t = Registry.get unicode order' registry h) ∧
    (∀ a, IPv6Literal a → ∀ s, LiteralSpelling a s → ∀ t, Spells s t →
      normalizeHost unicode t = normalizeHost unicode a ∧
      ∀ (registry : Registry) (order order' : KeyOrder),
        Registry.get unicode order registry t = Registry.get unicode order' registry a) := by
  refine ⟨fun h hh s hs t ht => ?_, fun a ha s hs t ht => ?_⟩
  · have heq : normalizeHost unicode t = normalizeHost unicode h := by
      rw [HostSpelling.normalize hunicode hh hs ht, HostSpelling.normalize hunicode hh .name (.refl h)]
    exact ⟨heq, fun registry order order' => get_of_normalize registry order order' heq⟩
  · have heq : normalizeHost unicode t = normalizeHost unicode a := by
      rw [LiteralSpelling.normalize hunicode ha hs ht,
        LiteralSpelling.normalize hunicode ha .literal (.refl a)]
    exact ⟨heq, fun registry order order' => get_of_normalize registry order order' heq⟩

/-- The letters of ASCII only; every other rune is replaced. -/
def asciiTable : CaseTable where
  lower _ := [0xEF, 0xBF, 0xBD]
  lower_encoded v _ := by
    have hencoded : Multibyte 0xEF [0xBF, 0xBD] 0xFFFD :=
      .three (show leadByte 0xEF = some (3, 0x80, 0xBF) by decide) (by decide) (by decide)
    exact .inr ⟨_, _, _, rfl, hencoded, fun h => absurd h (by decide +kernel)⟩

theorem spelling_invariant_portal :
    let unicode : Unicode := ⟨asciiTable.toLower, id, fun a b => a == b⟩
    ∀ (registry : Registry) (order order' : KeyOrder),
      Registry.get unicode order registry (str " WWW.Example.com.:8443") =
        Registry.get unicode order' registry (str "www.example.com") ∧
      Registry.get unicode order registry (str "[2001:DB8::1]:443") =
        Registry.get unicode order' registry (str "2001:db8::1") := by
  intro unicode registry order order'
  obtain ⟨hname, hliteral⟩ := spelling_invariant unicode asciiTable rfl
  have hport : ∀ p ∈ [str "8443", str "443"], ∀ c ∈ p, PlainByte c := by
    unfold PlainByte
    decide +kernel
  have hhost : HostName (str "www.example.com") :=
    ⟨by unfold PlainByte; decide +kernel, by decide +kernel, by decide⟩
  have haddr : IPv6Literal (str "2001:db8::1") :=
    ⟨⟨⟨[0x2001, 0xdb8, 0, 0, 0, 0, 0, 1], rfl⟩, [], by decide, by decide, by decide, by decide⟩⟩
  have hpadded : Spells (str "www.example.com" ++ str "." ++ byte ':' :: str "8443")
      (str " " ++ str "WWW.Example.com.:8443" ++ []) := .mk (by decide) (by decide +kernel) nofun
  have hbracketed : Spells (byte '[' :: str "2001:db8::1" ++ byte ']' :: byte ':' :: str "443")
      ([] ++ str "[2001:DB8::1]:443" ++ []) := .mk (by decide) nofun nofun
  exact ⟨(hname _ hhost _ (.dotPort (hport _ (by decide))) _ hpadded).2 registry order order',
    (hliteral _ haddr _ (.port (hport _ (by decide))) _ hbracketed).2 registry order order'⟩

end SynitWaf
