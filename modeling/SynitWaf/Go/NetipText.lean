import Mathlib.Data.List.TakeWhile
import SynitWaf.Go.Netip

/-!
# Addresses are read back from their text

* `scanHex_appendHex`, `parseIPv4Loop_appendDecimal`: one group, one octet;
* `parseIPv6Loop_end`, `parseIPv6Loop_ellipsis`: groups up to the end or to the ellipsis;
* `zeroRun_spec`: the groups left out by `string6` are zero;
* **`parseAddr_string`**: an address that is not in mapped form is read back from its text;
  **`string_inj`**: so its text determines it.
-/

namespace Go

/-! ## Digits -/

theorem cut_append {sep : UInt8} {s : GoString} (h : sep ∉ s) (t : GoString) :
    cut sep (s ++ sep :: t) = some (s, t) := by
  induction s with
  | nil => simp [cut]
  | cons c s ih =>
    have hc : c ≠ sep := fun e => h (e ▸ List.mem_cons_self)
    simp [cut, hc, ih fun hm => h (List.mem_cons_of_mem _ hm)]

theorem cut_eq_none {sep : UInt8} {s : GoString} (h : sep ∉ s) : cut sep s = none := by
  induction s with
  | nil => rfl
  | cons c s ih =>
    have hc : c ≠ sep := fun e => h (e ▸ List.mem_cons_self)
    simp [cut, hc, ih fun hm => h (List.mem_cons_of_mem _ hm)]

theorem hexVal_hexDigit : ∀ d < 16, hexVal (hexDigit d) = some d := by decide

theorem decVal_hexDigit : ∀ d < 10, decVal (hexDigit d) = some d := by decide

theorem hexDigit_ne {c : UInt8} (hc : hexVal c = none) {d : ℕ} (hd : d < 16) : hexDigit d ≠ c := by
  intro h
  rw [← h, hexVal_hexDigit d hd] at hc
  cases hc

/-- **A printed group is read back**, up to the first byte that is no digit. -/
theorem scanHex_appendHex {x : ℕ} (hx : x < 65536) {rest : GoString}
    (hr : ∀ c ∈ rest.head?, hexVal c = none) :
    scanHex (appendHex x ++ rest) 0 0 = some ((appendHex x).length, x, rest) := by
  have hrest : ∀ off acc, scanHex rest off acc = some (off, acc, rest) := by
    intro off acc
    cases rest with
    | nil => rfl
    | cons c rest => simp [scanHex, hr c (by simp)]
  have h1 : x / 0x1000 < 16 := by omega
  have h2 : x / 0x100 % 16 < 16 := by omega
  have h3 : x / 0x10 % 16 < 16 := by omega
  have h4 : x % 16 < 16 := by omega
  by_cases c1 : 0x1000 ≤ x
  · have c2 : 0x100 ≤ x := by omega
    have c3 : 0x10 ≤ x := by omega
    simp [appendHex, c1, c2, c3, scanHex, hexVal_hexDigit, h1, h2, h3, h4, hrest]
    omega
  by_cases c2 : 0x100 ≤ x
  · have c3 : 0x10 ≤ x := by omega
    simp [appendHex, c1, c2, c3, scanHex, hexVal_hexDigit, h2, h3, h4, hrest]
    omega
  by_cases c3 : 0x10 ≤ x
  · simp [appendHex, c1, c2, c3, scanHex, hexVal_hexDigit, h3, h4, hrest]
    omega
  · simp [appendHex, c1, c2, c3, scanHex, hexVal_hexDigit, h4, hrest]
    omega

/-! ## IPv6 -/

theorem eq_of_mem_ite {p : Prop} [Decidable p] {c d : UInt8} (h : c ∈ if p then [d] else []) :
    c = d := by
  split at h
  · exact List.mem_singleton.mp h
  · cases h

theorem mem_appendHex {x : ℕ} (hx : x < 65536) {c : UInt8} (h : c ∈ appendHex x) :
    ∃ d < 16, c = hexDigit d := by
  have h1 : x / 0x1000 < 16 := by omega
  simp only [appendHex, List.mem_append, List.mem_singleton] at h
  rcases h with ((h | h) | h) | h
  · exact ⟨_, h1, eq_of_mem_ite h⟩
  · exact ⟨_, Nat.mod_lt _ (by omega), eq_of_mem_ite h⟩
  · exact ⟨_, Nat.mod_lt _ (by omega), eq_of_mem_ite h⟩
  · exact ⟨_, Nat.mod_lt _ (by omega), h⟩

theorem appendHex_eq_cons (x : ℕ) : ∃ c s, appendHex x = c :: s := by
  have h : appendHex x ≠ [] := by simp [appendHex]
  exact List.exists_cons_of_ne_nil h

theorem stringGroups_singleton (g : UInt16) : stringGroups [g] = appendHex g.toNat := by
  simp [stringGroups, join, List.intercalate]

theorem stringGroups_cons (g g' : UInt16) (gs : List UInt16) :
    stringGroups (g :: g' :: gs) = appendHex g.toNat ++ byte ':' :: stringGroups (g' :: gs) := by
  simp [stringGroups, join, List.intercalate]

/-- The first byte of printed groups is a digit. -/
theorem stringGroups_head (g : UInt16) (gs : List UInt16) :
    ∃ d < 16, ∃ s, stringGroups (g :: gs) = hexDigit d :: s := by
  obtain ⟨c, s, hs⟩ := appendHex_eq_cons g.toNat
  have hc : c ∈ appendHex g.toNat := by rw [hs]; exact List.mem_cons_self
  obtain ⟨d, hd, rfl⟩ := mem_appendHex g.toNat_lt hc
  cases gs with
  | nil => exact ⟨d, hd, s, by rw [stringGroups_singleton, hs]⟩
  | cons g' gs => exact ⟨d, hd, _, by rw [stringGroups_cons, hs]; rfl⟩

/-- One round of the loop: a group that a colon and further text follow. -/
theorem parseIPv6Loop_colon (n : ℕ) (acc : List UInt16) (ell : Option ℕ) (g : UInt16)
    (t : GoString) (ht : t ≠ []) : parseIPv6Loop (n + 1) acc ell (appendHex g.toNat ++ byte ':' :: t) =
      if t.head? = some (byte ':') then
        if ell ≠ none then none
        else if t.tail = [] then some (acc ++ [g], some (acc.length + 1), [])
        else parseIPv6Loop n (acc ++ [g]) (some (acc.length + 1)) t.tail
      else parseIPv6Loop n (acc ++ [g]) ell t := by
  obtain ⟨c, s, hs⟩ := appendHex_eq_cons g.toNat
  have hscan : scanHex (appendHex g.toNat ++ byte ':' :: t) 0 0 = _ :=
    scanHex_appendHex g.toNat_lt (by simp; decide)
  rw [parseIPv6Loop, hscan, hs]
  simp [ht, show byte ':' ≠ byte '.' by decide]

theorem parseIPv6Loop_end (g : UInt16) (gs : List UInt16) (n : ℕ) (acc : List UInt16)
    (ell : Option ℕ) (hn : gs.length < n) :
    parseIPv6Loop n acc ell (stringGroups (g :: gs)) = some (acc ++ g :: gs, ell, []) := by
  induction gs generalizing g n acc with
  | nil =>
    obtain ⟨n, rfl⟩ : ∃ m, n = m + 1 := ⟨n - 1, by simp at hn; omega⟩
    obtain ⟨c, s, hs⟩ := appendHex_eq_cons g.toNat
    have hscan : scanHex (appendHex g.toNat ++ []) 0 0 = _ := scanHex_appendHex g.toNat_lt (by simp)
    rw [stringGroups_singleton, ← List.append_nil (appendHex _), parseIPv6Loop, hscan, hs]
    simp
  | cons g' gs ih =>
    obtain ⟨n, rfl⟩ : ∃ m, n = m + 1 := ⟨n - 1, by simp at hn; omega⟩
    obtain ⟨d, hd, s, hs⟩ := stringGroups_head g' gs
    have hne : hexDigit d ≠ byte ':' := hexDigit_ne (by decide) hd
    rw [stringGroups_cons, parseIPv6Loop_colon _ _ _ _ _ (by rw [hs]; simp),
      if_neg (by rw [hs]; simpa using hne), ih _ _ _ (by simp at hn; omega)]
    simp

theorem parseIPv6Loop_ellipsis (g : UInt16) (gs : List UInt16) (n : ℕ) (acc : List UInt16)
    (t : GoString) (hn : gs.length < n) :
    parseIPv6Loop n acc none (stringGroups (g :: gs) ++ byte ':' :: byte ':' :: t) =
      if t = [] then some (acc ++ g :: gs, some (acc ++ g :: gs).length, [])
      else parseIPv6Loop (n - (gs.length + 1)) (acc ++ g :: gs) (some (acc ++ g :: gs).length) t := by
  induction gs generalizing g n acc with
  | nil =>
    obtain ⟨n, rfl⟩ : ∃ m, n = m + 1 := ⟨n - 1, by simp at hn; omega⟩
    rw [stringGroups_singleton, parseIPv6Loop_colon _ _ _ _ _ (by simp)]
    by_cases ht : t = [] <;> simp [ht]
  | cons g' gs ih =>
    obtain ⟨n, rfl⟩ : ∃ m, n = m + 1 := ⟨n - 1, by simp at hn; omega⟩
    obtain ⟨d, hd, s, hs⟩ := stringGroups_head g' gs
    have hne : hexDigit d ≠ byte ':' := hexDigit_ne (by decide) hd
    rw [stringGroups_cons, List.append_assoc, List.cons_append,
      parseIPv6Loop_colon _ _ _ _ _ (by rw [hs]; simp), if_neg (by rw [hs]; simpa using hne),
      ih _ _ _ (by simp at hn; omega)]
    simp

theorem mem_stringGroups {gs : List UInt16} {c : UInt8} (h : c ∈ stringGroups gs) :
    c = byte ':' ∨ ∃ d < 16, c = hexDigit d := by
  induction gs with
  | nil => cases h
  | cons g gs ih =>
    cases gs with
    | nil =>
      rw [stringGroups_singleton] at h
      exact .inr (mem_appendHex g.toNat_lt h)
    | cons g' gs =>
      rw [stringGroups_cons] at h
      rcases List.mem_append.mp h with h | h
      · exact .inr (mem_appendHex g.toNat_lt h)
      · rcases List.mem_cons.mp h with h | h
        · exact .inl h
        · exact ih h

/-- What `zeroRun` reports is a run of at least two zero groups, if it is not empty. -/
def IsZeroRun (gs : List UInt16) (r : ℕ × ℕ) : Prop :=
  r.2 = 0 ∨ (2 ≤ r.2 ∧ ∃ t, gs.drop r.1 = List.replicate r.2 0 ++ t)

theorem zeroRun_spec (gs : List UInt16) : IsZeroRun gs (zeroRun gs) := by
  refine List.foldlRecOn (motive := IsZeroRun gs) (List.range 8) _ (.inl rfl) ?_
  intro best hbest i _
  dsimp only
  split
  next h =>
    refine .inr ⟨h.1, (gs.drop i).dropWhile (· = 0), ?_⟩
    have hz : (gs.drop i).takeWhile (· = 0) =
        List.replicate ((gs.drop i).takeWhile (· = 0)).length 0 := by
      refine List.eq_replicate_of_mem fun g hg => ?_
      simpa using List.mem_takeWhile_imp hg
    rw [← hz, List.takeWhile_append_dropWhile]
  next => exact hbest

/-- The groups around a run of zeros. -/
theorem split_zeroRun {gs : List UInt16} {start len : ℕ} (h : IsZeroRun gs (start, len))
    (hl : len ≠ 0) : 2 ≤ len ∧ start + len ≤ gs.length ∧
      gs = gs.take start ++ List.replicate len 0 ++ gs.drop (start + len) := by
  obtain ⟨h2, t, ht⟩ := h.resolve_left hl
  have hlen := congrArg List.length ht
  simp only [List.length_drop, List.length_append, List.length_replicate] at hlen h2 hl
  have hd : gs.drop (start + len) = t := by
    rw [← List.drop_drop, ht]
    simp
  refine ⟨h2, by omega, ?_⟩
  rw [hd, List.append_assoc, ← ht, List.take_append_drop]

theorem expandEllipsis_take {gs : List UInt16} (hgs : gs.length = 8) {start len : ℕ} (h2 : 2 ≤ len)
    (hle : start + len ≤ 8)
    (h : gs = gs.take start ++ List.replicate len 0 ++ gs.drop (start + len)) :
    expandEllipsis (gs.take start ++ gs.drop (start + len)) (some start) = some gs := by
  have hl : (gs.take start ++ gs.drop (start + len)).length = 8 - len := by
    simp only [List.length_append, List.length_take, List.length_drop]
    omega
  have hs : (gs.take start).length = start := by
    rw [List.length_take]
    omega
  rw [expandEllipsis, hl, if_pos (by omega), List.take_append_of_le_length (by omega),
    List.drop_append_of_le_length (by omega), show 8 - (8 - len) = len by omega,
    List.take_take, Nat.min_self, List.drop_of_length_le (by omega), List.nil_append, ← h]

theorem stringGroups_eq_nil {gs : List UInt16} : stringGroups gs = [] ↔ gs = [] := by
  cases gs with
  | nil => exact ⟨fun _ => rfl, fun _ => rfl⟩
  | cons g gs =>
    obtain ⟨d, hd, s, hs⟩ := stringGroups_head g gs
    simp [hs]

theorem hasPrefix_stringGroups (g : UInt16) (gs : List UInt16) (t : GoString) :
    hasPrefix (stringGroups (g :: gs) ++ t) [byte ':', byte ':'] = false := by
  obtain ⟨d, hd, s, hs⟩ := stringGroups_head g gs
  have hne : hexDigit d ≠ byte ':' := hexDigit_ne (by decide) hd
  simp [hasPrefix, hs, List.isPrefixOf, Ne.symm hne]

theorem parseGroups_stringGroups {gs : List UInt16} (hgs : gs.length = 8) :
    parseGroups (stringGroups gs) = some gs := by
  obtain ⟨g, l, rfl⟩ := List.exists_cons_of_length_pos (by omega : 0 < gs.length)
  have hp := hasPrefix_stringGroups g l []
  rw [List.append_nil] at hp
  have hloop := parseIPv6Loop_end g l 8 [] none (by simp at hgs; omega)
  simp [parseGroups, hp, hloop, expandEllipsis, hgs]

theorem parseGroups_ellipsis {a b : List UInt16} (h : a.length + b.length ≤ 8) :
    parseGroups (stringGroups a ++ [byte ':', byte ':'] ++ stringGroups b) =
      expandEllipsis (a ++ b) (some a.length) := by
  rw [List.append_assoc]
  cases a with
  | nil =>
    cases b with
    | nil => rfl
    | cons g b =>
      have hloop := parseIPv6Loop_end g b 8 [] (some 0) (by simp at h; omega)
      have hne : stringGroups (g :: b) ≠ [] := by simp [stringGroups_eq_nil]
      have hs : stringGroups [] = [] := rfl
      simp [parseGroups, hs, hasPrefix, List.isPrefixOf, hne, hloop]
  | cons g a =>
    have hp := hasPrefix_stringGroups g a ([byte ':', byte ':'] ++ stringGroups b)
    have hloop := parseIPv6Loop_ellipsis g a 8 [] (stringGroups b) (by simp at h; omega)
    rw [parseGroups, hp]
    simp only [Bool.false_eq_true, false_and, if_false]
    rw [List.cons_append, List.singleton_append, hloop]
    cases b with
    | nil => simp [stringGroups_eq_nil]
    | cons g' b =>
      have hend := parseIPv6Loop_end g' b (8 - (a.length + 1)) ([] ++ g :: a)
        (some ([] ++ g :: a).length) (by simp at h; omega)
      rw [if_neg (by simp [stringGroups_eq_nil]), hend]
      simp

/-- **Printed groups are read back.** -/
theorem parseGroups_string6 {gs : List UInt16} (hgs : gs.length = 8) :
    parseGroups (string6 gs) = some gs := by
  have hz := zeroRun_spec gs
  unfold string6
  generalize zeroRun gs = r at hz
  obtain ⟨start, len⟩ := r
  dsimp only
  split
  next => exact parseGroups_stringGroups hgs
  next hl =>
    obtain ⟨h2, hle, hsplit⟩ := split_zeroRun hz hl
    rw [hgs] at hle
    have hstart : (gs.take start).length = start := by
      rw [List.length_take]
      omega
    rw [parseGroups_ellipsis (by simp only [List.length_take, List.length_drop]; omega), hstart]
    exact expandEllipsis_take hgs h2 hle hsplit

theorem mem_string6 {gs : List UInt16} {c : UInt8} (h : c ∈ string6 gs) :
    c = byte ':' ∨ ∃ d < 16, c = hexDigit d := by
  unfold string6 at h
  dsimp only at h
  split at h
  · exact mem_stringGroups h
  · rcases List.mem_append.mp h with h | h
    · rcases List.mem_append.mp h with h | h
      · exact mem_stringGroups h
      · exact .inl (by simpa using h)
    · exact mem_stringGroups h

theorem colon_mem_string6 {gs : List UInt16} (hgs : gs.length = 8) : byte ':' ∈ string6 gs := by
  unfold string6
  dsimp only
  split
  · match gs, hgs with
    | g :: g' :: gs, _ => simp [stringGroups_cons]
  · simp

/-! ## IPv4 -/

theorem mem_appendDecimal {x : ℕ} (hx : x < 256) {c : UInt8} (h : c ∈ appendDecimal x) :
    ∃ d < 10, c = hexDigit d := by
  have h1 : x / 100 < 10 := by omega
  simp only [appendDecimal, List.mem_append, List.mem_singleton] at h
  rcases h with (h | h) | h
  · exact ⟨_, h1, eq_of_mem_ite h⟩
  · exact ⟨_, Nat.mod_lt _ (by omega), eq_of_mem_ite h⟩
  · exact ⟨_, Nat.mod_lt _ (by omega), h⟩

theorem parseIPv4Loop_digit {d val digLen : ℕ} (hd : d < 10) (hz : digLen = 1 → val ≠ 0)
    (hv : val * 10 + d ≤ 255) (s : GoString) (fields : List UInt8) :
    parseIPv4Loop (hexDigit d :: s) val digLen fields =
      parseIPv4Loop s (val * 10 + d) (digLen + 1) fields := by
  rw [parseIPv4Loop, decVal_hexDigit d hd]
  dsimp only
  rw [if_neg (fun h => hz h.1 h.2), if_neg (by omega)]

/-- **A printed octet is read back**, whatever follows. -/
theorem parseIPv4Loop_appendDecimal (x : UInt8) (rest : GoString) (fields : List UInt8) :
    ∃ k, parseIPv4Loop (appendDecimal x.toNat ++ rest) 0 0 fields =
      parseIPv4Loop rest x.toNat (k + 1) fields := by
  have hx := x.toNat_lt
  generalize x.toNat = x at hx ⊢
  by_cases c1 : 100 ≤ x
  · have happ : appendDecimal x = [hexDigit (x / 100), hexDigit (x / 10 % 10), hexDigit (x % 10)] := by
      simp [appendDecimal, c1, show 10 ≤ x by omega]
    refine ⟨2, ?_⟩
    rw [happ, List.cons_append, List.cons_append, List.cons_append, List.nil_append,
      parseIPv4Loop_digit (by omega) (by omega) (by omega),
      parseIPv4Loop_digit (by omega) (by omega) (by omega),
      parseIPv4Loop_digit (by omega) (by omega) (by omega),
      show ((0 * 10 + x / 100) * 10 + x / 10 % 10) * 10 + x % 10 = x by omega]
  by_cases c2 : 10 ≤ x
  · have happ : appendDecimal x = [hexDigit (x / 10 % 10), hexDigit (x % 10)] := by
      simp [appendDecimal, c1, c2]
    refine ⟨1, ?_⟩
    rw [happ, List.cons_append, List.cons_append, List.nil_append,
      parseIPv4Loop_digit (by omega) (by omega) (by omega),
      parseIPv4Loop_digit (by omega) (by omega) (by omega),
      show (0 * 10 + x / 10 % 10) * 10 + x % 10 = x by omega]
  · have happ : appendDecimal x = [hexDigit (x % 10)] := by
      simp [appendDecimal, c1, c2]
    refine ⟨0, ?_⟩
    rw [happ, List.cons_append, List.nil_append,
      parseIPv4Loop_digit (by omega) (by omega) (by omega), show 0 * 10 + x % 10 = x by omega]

theorem parseIPv4Loop_octet_dot (x : UInt8) {rest : GoString} (hr : rest ≠ []) {fields : List UInt8}
    (hf : fields.length ≠ 3) :
    parseIPv4Loop (appendDecimal x.toNat ++ byte '.' :: rest) 0 0 fields =
      parseIPv4Loop rest 0 0 (fields ++ [x]) := by
  obtain ⟨k, hk⟩ := parseIPv4Loop_appendDecimal x (byte '.' :: rest) fields
  have hdot : decVal (byte '.') = none := by decide
  rw [hk, parseIPv4Loop, hdot]
  simp [hr, hf]

theorem appendDecimal_ne_nil (x : ℕ) : appendDecimal x ≠ [] := by
  simp [appendDecimal]

theorem string4_eq (a b c d : UInt8) : string4 [a, b, c, d] =
    appendDecimal a.toNat ++ byte '.' :: (appendDecimal b.toNat ++ byte '.' ::
      (appendDecimal c.toNat ++ byte '.' :: appendDecimal d.toNat)) := by
  simp [string4, join, List.intercalate]

theorem mem_string4 {a b c d x : UInt8} (h : x ∈ string4 [a, b, c, d]) :
    x = byte '.' ∨ ∃ e < 10, x = hexDigit e := by
  rw [string4_eq] at h
  by_cases hdot : x = byte '.'
  · exact .inl hdot
  · have hdec : ∃ y : UInt8, x ∈ appendDecimal y.toNat := by
      simp only [List.mem_append, List.mem_cons, hdot, false_or] at h
      rcases h with h | h | h | h
      exacts [⟨_, h⟩, ⟨_, h⟩, ⟨_, h⟩, ⟨_, h⟩]
    obtain ⟨y, hy⟩ := hdec
    exact .inr (mem_appendDecimal y.toNat_lt hy)

/-- **Printed octets are read back.** -/
theorem parseIPv4Fields_string4 (a b c d : UInt8) :
    parseIPv4Fields (string4 [a, b, c, d]) = some [a, b, c, d] := by
  obtain ⟨k, hk⟩ := parseIPv4Loop_appendDecimal d [] [a, b, c]
  rw [List.append_nil] at hk
  rw [string4_eq, parseIPv4Fields, parseIPv4Loop_octet_dot a (by simp) (by simp),
    parseIPv4Loop_octet_dot b (by simp) (by simp),
    parseIPv4Loop_octet_dot c (appendDecimal_ne_nil _) (by simp)]
  simp [hk, parseIPv4Loop]

/-! ## Addresses -/

theorem find?_eq_some_of_unique {l : GoString} {p : UInt8 → Bool} {a : UInt8} (ha : a ∈ l)
    (hp : p a) (hu : ∀ c ∈ l, p c → c = a) (t : GoString) : (l ++ t).find? p = some a := by
  rw [List.find?_append]
  cases h : l.find? p with
  | none => exact absurd hp (by simpa using List.find?_eq_none.mp h a ha)
  | some c => rw [hu c (List.mem_of_find?_eq_some h) (List.find?_some h)]; rfl

/-- A digit is none of the bytes that tell the family of an address. -/
theorem not_family_hexDigit : ∀ d < 16, ¬ (hexDigit d = byte '.' ∨ hexDigit d = byte ':' ∨
    hexDigit d = byte '%') := by
  decide

theorem parseAddr_string4 (octets : List.Vector UInt8 4) :
    parseAddr (string4 octets.toList) = some (.v4 octets) := by
  obtain ⟨l, hl⟩ := octets
  match l, hl with
  | [a, b, c, d], hl =>
    change parseAddr (string4 [a, b, c, d]) = _
    have hfind := find?_eq_some_of_unique (l := string4 [a, b, c, d]) (a := byte '.')
      (p := fun c => c = byte '.' ∨ c = byte ':' ∨ c = byte '%') (by simp [string4_eq]) (by decide)
      (by
        intro x hx hp
        obtain hdot | ⟨e, he, rfl⟩ := mem_string4 hx
        · exact hdot
        · exact absurd (by simpa using hp) (not_family_hexDigit e (by omega))) []
    rw [List.append_nil] at hfind
    rw [parseAddr, hfind]
    change parseIPv4 _ = _
    rw [parseIPv4, parseIPv4Fields_string4]
    rfl

theorem parseAddr_string6 (groups : List.Vector UInt16 8) (zone : GoString) :
    parseAddr (string6 groups.toList ++ zoneSuffix zone) = some (.v6 groups zone) := by
  have hfind := find?_eq_some_of_unique (l := string6 groups.toList) (a := byte ':')
    (p := fun c => c = byte '.' ∨ c = byte ':' ∨ c = byte '%')
    (colon_mem_string6 groups.toList_length) (by decide)
    (by
      intro x hx hp
      rcases mem_string6 hx with h | ⟨d, hd, rfl⟩
      · exact h
      · exact absurd (by simpa using hp) (not_family_hexDigit d hd)) (zoneSuffix zone)
  have hpercent : byte '%' ∉ string6 groups.toList := by
    intro h
    rcases mem_string6 h with h | ⟨d, hd, h⟩
    · exact absurd h (by decide)
    · exact hexDigit_ne (by decide) hd h.symm
  have hgroups := parseGroups_string6 groups.toList_length
  rw [parseAddr, hfind]
  dsimp only
  rw [if_neg (by decide), if_pos rfl, parseIPv6]
  cases zone with
  | nil =>
    rw [zoneSuffix, if_pos rfl, List.append_nil, cut_eq_none hpercent]
    simp [hgroups]
  | cons z zone =>
    rw [zoneSuffix, if_neg (by simp), cut_append hpercent]
    simp [hgroups]

/-- **An address is read back from its text**, if it is not in mapped form. -/
theorem parseAddr_string {a : Addr} (ha : a ≠ .invalid) (hm : a.is4In6 = false) :
    parseAddr a.string = some a := by
  cases a with
  | invalid => exact absurd rfl ha
  | v4 octets => exact parseAddr_string4 octets
  | v6 groups zone =>
    rw [Addr.string, hm]
    exact parseAddr_string6 groups zone

theorem string_inj {a b : Addr} (ha : a ≠ .invalid) (hb : b ≠ .invalid) (ha' : a.is4In6 = false)
    (hb' : b.is4In6 = false) : a.string = b.string ↔ a = b := by
  refine ⟨fun h => ?_, fun h => h ▸ rfl⟩
  have h1 := parseAddr_string ha ha'
  have h2 := parseAddr_string hb hb'
  rw [h, h2] at h1
  exact (Option.some.inj h1).symm

theorem vector?_octetsOf (groups : List.Vector UInt16 8) :
    ∃ o, vector? 4 (octetsOf (groups.toList.drop 6)) = some o := by
  obtain ⟨l, hl⟩ := groups
  match l, hl with
  | [_, _, _, _, _, _, a, b], _ => exact ⟨⟨octetsOf [a, b], rfl⟩, rfl⟩

@[simp] theorem is4In6_unmap (a : Addr) : a.unmap.is4In6 = false := by
  cases a with
  | invalid => rfl
  | v4 octets => rfl
  | v6 groups zone =>
    obtain ⟨o, ho⟩ := vector?_octetsOf groups
    by_cases h : (Addr.v6 groups zone).is4In6 = true
    · simp only [Addr.unmap, h, if_true, ho]
      rfl
    · simp only [Addr.unmap, h]
      simpa using h

theorem unmap_ne_invalid {a : Addr} (h : a ≠ .invalid) : a.unmap ≠ .invalid := by
  cases a with
  | invalid => exact absurd rfl h
  | v4 octets => exact h
  | v6 groups zone =>
    obtain ⟨o, ho⟩ := vector?_octetsOf groups
    simp only [Addr.unmap, ho]
    split <;> simp

theorem parseAddr_ne_invalid {s : GoString} {a : Addr} (h : parseAddr s = some a) :
    a ≠ .invalid := by
  have h4 : ∀ {t}, parseIPv4 t = some a → a ≠ .invalid := by
    intro t ht
    simp only [parseIPv4, Option.bind_eq_bind, Option.bind_eq_some_iff] at ht
    obtain ⟨_, _, _, _, ht⟩ := ht
    cases ht
    simp
  have h6 : ∀ {t}, parseIPv6 t = some a → a ≠ .invalid := by
    intro t ht
    unfold parseIPv6 at ht
    split at ht
    · cases ht
    all_goals
      simp only [Option.bind_eq_bind, Option.bind_eq_some_iff] at ht
      obtain ⟨_, _, _, _, ht⟩ := ht
      cases ht
      simp
  unfold parseAddr at h
  split at h
  · cases h
  · split at h
    · exact h4 h
    · split at h
      · exact h6 h
      · cases h

/-- The text of an unmapped parsed address determines it. -/
theorem string_unmap_inj {s t : GoString} {a b : Addr} (ha : parseAddr s = some a)
    (hb : parseAddr t = some b) : a.unmap.string = b.unmap.string ↔ a.unmap = b.unmap :=
  string_inj (unmap_ne_invalid (parseAddr_ne_invalid ha)) (unmap_ne_invalid (parseAddr_ne_invalid hb))
    (is4In6_unmap a) (is4In6_unmap b)

end Go
