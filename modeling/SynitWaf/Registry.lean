import Mathlib.Data.List.Induction
import Mathlib.Data.List.Sort
import SynitWaf.Config.Types

/-!
# The tenant registry

The registry maps normalized host names to tenants. Keys of the form `*.suffix` match every host
below the suffix; an index of them, longest suffix first, is built whenever a mapping is published.

* `KeyOrder`: an order in which Go may visit the keys of a map;
* `normalizeHost`, `buildWildcardIndex`, `Registry.get`;
* **`buildWildcardIndex_eq`**: the index does not depend on the order in which the mapping is
  visited;
* **`Registry.get_mem`**: the domain a lookup matches is a key of the mapping;
* `Lookup`: what a lookup stands for;
* **`Registry.get_lookup`**: the index and the scan of the mapping both find it.
-/

namespace SynitWaf

open Go

/-! ## Maps -/

/-- An order in which the keys of a map are visited. -/
structure KeyOrder where
  visit : List GoString → List GoString
  perm : ∀ keys, (visit keys).Perm keys

/-- The keys in the order in which they were inserted. -/
def insertionOrder : KeyOrder := ⟨id, fun _ => .refl _⟩

/-- `for key, value := range m`. -/
def GoMap.visit {α : Type} (order : KeyOrder) (m : GoMap α) : List (GoString × α) :=
  (order.visit m.keys).filterMap fun key => (m.lookup key).map (key, ·)

/-- The number of entries of a map. -/
def GoMap.len {α : Type} (m : GoMap α) : ℕ := m.keys.length

theorem mem_of_lookup {α : Type} {m : GoMap α} {key : GoString} {value : α}
    (h : m.lookup key = some value) : key ∈ m :=
  AList.lookup_isSome.mp (by rw [h]; rfl)

theorem exists_lookup {α : Type} {m : GoMap α} {key : GoString} (h : key ∈ m) :
    ∃ value, m.lookup key = some value :=
  Option.isSome_iff_exists.mp (AList.lookup_isSome.mpr h)

section Visit

variable {α : Type} (order : KeyOrder) (m : GoMap α)

theorem mem_visit {key : GoString} {value : α} :
    (key, value) ∈ GoMap.visit order m ↔ m.lookup key = some value := by
  simp only [GoMap.visit, List.mem_filterMap, (order.perm m.keys).mem_iff, Option.map_eq_some_iff,
    Prod.mk.injEq]
  constructor
  · rintro ⟨_, -, _, h, rfl, rfl⟩
    exact h
  · intro h
    exact ⟨key, mem_of_lookup h, value, h, rfl, rfl⟩

theorem visit_map_fst : (GoMap.visit order m).map Prod.fst = order.visit m.keys := by
  have hall : ∀ l : List GoString, (∀ key ∈ l, key ∈ m) →
      (l.filterMap fun key => (m.lookup key).map fun value => (key, value)).map Prod.fst = l := by
    intro l hl
    induction l with
    | nil => rfl
    | cons key l ih =>
      obtain ⟨value, hv⟩ := exists_lookup (hl key List.mem_cons_self)
      have ih' := ih fun k hk => hl k (List.mem_cons_of_mem _ hk)
      rw [List.filterMap_cons, hv, Option.map_some, List.map_cons, ih']
  exact hall _ fun key hkey => (order.perm m.keys).mem_iff.mp hkey

theorem visit_keys_nodup : ((GoMap.visit order m).map Prod.fst).Nodup := by
  rw [visit_map_fst]
  exact (order.perm m.keys).nodup_iff.mpr m.keys_nodup

variable {m}

theorem lookup_foldl_erase {keys : List GoString} {key : GoString} :
    (keys.foldl (fun m k => AList.erase k m) m).lookup key =
      if key ∈ keys then none else m.lookup key := by
  induction keys generalizing m with
  | nil => simp
  | cons k keys ih =>
    rw [List.foldl_cons, ih]
    by_cases hk : key = k
    · subst hk
      simp [AList.lookup_erase]
    · simp [hk, AList.lookup_erase_ne hk]

theorem mem_foldl_erase {keys : List GoString} {key : GoString} :
    key ∈ keys.foldl (fun m k => AList.erase k m) m ↔ key ∉ keys ∧ key ∈ m := by
  rw [← AList.lookup_isSome, lookup_foldl_erase, ← AList.lookup_isSome]
  by_cases hkey : key ∈ keys <;> simp [hkey]

theorem lookup_foldl_insert_of_notMem {l : List (GoString × α)} {key : GoString}
    (h : key ∉ l.map Prod.fst) :
    (l.foldl (fun m t => AList.insert t.1 t.2 m) m).lookup key = m.lookup key := by
  induction l generalizing m with
  | nil => rfl
  | cons t l ih =>
    rw [List.map_cons, List.mem_cons, not_or] at h
    rw [List.foldl_cons, ih h.2, AList.lookup_insert_ne h.1]

theorem lookup_foldl_insert {l : List (GoString × α)} (hl : (l.map Prod.fst).Nodup)
    {key : GoString} {value : α} (h : (key, value) ∈ l) :
    (l.foldl (fun m t => AList.insert t.1 t.2 m) m).lookup key = some value := by
  induction l generalizing m with
  | nil => cases h
  | cons t l ih =>
    obtain ⟨ht, hl⟩ := List.nodup_cons.mp hl
    rcases List.mem_cons.mp h with rfl | h
    · rw [List.foldl_cons, lookup_foldl_insert_of_notMem ht, AList.lookup_insert]
    · exact ih hl h

/-- **Emptying a map and filling it** with another one. -/
theorem lookup_replace (previous : KeyOrder) (next : GoMap α) (key : GoString) :
    ((GoMap.visit order next).foldl (fun m t => AList.insert t.1 t.2 m)
      ((previous.visit m.keys).foldl (fun m k => AList.erase k m) m)).lookup key =
        next.lookup key := by
  cases hnext : next.lookup key with
  | some value =>
    exact lookup_foldl_insert (visit_keys_nodup order next) ((mem_visit order next).mpr hnext)
  | none =>
    have hvisit : key ∉ (GoMap.visit order next).map Prod.fst := by
      rw [visit_map_fst, (order.perm next.keys).mem_iff]
      exact AList.lookup_eq_none.mp hnext
    rw [lookup_foldl_insert_of_notMem hvisit, lookup_foldl_erase]
    split
    · rfl
    · rename_i hkey
      rw [(previous.perm m.keys).mem_iff] at hkey
      exact AList.lookup_eq_none.mpr hkey

end Visit

section Len

variable {α : Type} {m m' : GoMap α}

theorem len_le_of_subset (h : ∀ key ∈ m, key ∈ m') : GoMap.len m ≤ GoMap.len m' :=
  (List.subperm_of_subset m.keys_nodup fun key hkey => h key hkey).length_le

theorem len_erase_lt {key : GoString} (h : key ∈ m) :
    GoMap.len (AList.erase key m) < GoMap.len m := by
  have hnodup : (key :: (AList.erase key m).keys).Nodup :=
    List.nodup_cons.mpr ⟨fun hmem => (AList.mem_erase.mp hmem).1 rfl, AList.keys_nodup _⟩
  have hsub : key :: (AList.erase key m).keys ⊆ m.keys := by
    intro k hk
    rcases List.mem_cons.mp hk with rfl | hk
    · exact h
    · exact (AList.mem_erase.mp hk).2
  exact (List.subperm_of_subset hnodup hsub).length_le

theorem len_insert_le (key : GoString) (value : α) :
    GoMap.len (AList.insert key value m) ≤ GoMap.len m + 1 := by
  have hsub : (AList.insert key value m).keys ⊆ key :: m.keys := by
    intro k hk
    rcases (AList.mem_insert _).mp hk with rfl | hk
    · exact List.mem_cons_self
    · exact List.mem_cons_of_mem _ hk
  exact (List.subperm_of_subset (AList.keys_nodup _) hsub).length_le

theorem len_insert_of_mem {key : GoString} (value : α) (h : key ∈ m) :
    GoMap.len (AList.insert key value m) ≤ GoMap.len m := by
  refine len_le_of_subset fun k hk => ?_
  rcases (AList.mem_insert _).mp hk with rfl | hk
  · exact h
  · exact hk

end Len

/-! ## The source -/

/-- `Entry`: the tenant of a host, with its Coraza instance and block page. -/
structure Entry where
  waf : Option ℕ
  tenant : Tenant
  blockPage : GoString
  deriving Inhabited

/-- A key `*.suffix` and its suffix, which starts with the dot. -/
structure WildcardDomain where
  domain : GoString
  suffix : GoString
  deriving DecidableEq

/-- The fields of the registry that its lock guards; `wildcards` is nil until a mapping is
published. -/
structure Registry where
  mapping : GoMap Entry
  wildcards : Option (List WildcardDomain)

/-- `normalizeHost`. -/
def normalizeHost (unicode : Unicode) (host : GoString) : GoString :=
  let normalized := trimSpace (unicode.toLower host)
  let bare :=
    match splitHostPort normalized with
    | some (h, _) => h
    | none =>
      if hasPrefix normalized (str "[") && hasSuffix normalized (str "]") then
        (normalized.drop 1).dropLast
      else normalized
  trimSuffix bare (str ".")

/-- The wildcard of a key, if it is one. -/
def wildcardOf (domain : GoString) : Option WildcardDomain :=
  if hasPrefix domain (str "*.") then some ⟨domain, domain.drop 1⟩ else none

/-- The order of the index: longer suffixes first, then by domain. -/
def WildcardDomain.le (a b : WildcardDomain) : Prop :=
  b.suffix.length < a.suffix.length ∨ (b.suffix.length = a.suffix.length ∧ a.domain ≤ b.domain)

instance : DecidableRel WildcardDomain.le := fun a b =>
  inferInstanceAs (Decidable (b.suffix.length < a.suffix.length ∨
    (b.suffix.length = a.suffix.length ∧ a.domain ≤ b.domain)))

/-- `buildWildcardIndex`. -/
def buildWildcardIndex (order : KeyOrder) (mapping : GoMap Entry) : List WildcardDomain :=
  ((order.visit mapping.keys).filterMap wildcardOf).insertionSort WildcardDomain.le

/-- The longest wildcard of the mapping so far, with its entry. -/
def scanStep (host : GoString) (best : Option (Entry × WildcardDomain)) (key : GoString × Entry) :
    Option (Entry × WildcardDomain) :=
  match wildcardOf key.1 with
  | none => best
  | some wildcard =>
    if hasSuffix host wildcard.suffix ∧
        (best.map fun b => b.2.suffix.length).getD 0 < wildcard.suffix.length then
      some (key.2, wildcard)
    else best

/-- `SafeWAFRegistry.Get`: the entry of a host and the domain it matched. -/
def Registry.get (unicode : Unicode) (order : KeyOrder) (r : Registry) (host : GoString) :
    Option (Entry × GoString) :=
  let host := normalizeHost unicode host
  match r.mapping.lookup host with
  | some entry => some (entry, host)
  | none =>
    match r.wildcards with
    | some wildcards =>
      (wildcards.find? fun w => hasSuffix host w.suffix).map fun w =>
        ((r.mapping.lookup w.domain).getD default, w.domain)
    | none =>
      ((GoMap.visit order r.mapping).foldl (scanStep host) none).map fun best =>
        (best.1, best.2.domain)

/-! ## The index -/

instance : Std.Total WildcardDomain.le := ⟨fun a b => by
  rcases Nat.lt_trichotomy a.suffix.length b.suffix.length with h | h | h
  · exact .inr (.inl h)
  · exact Std.le_total.imp (fun hd => .inr ⟨h.symm, hd⟩) fun hd => .inr ⟨h, hd⟩
  · exact .inl (.inl h)⟩

instance : IsTrans WildcardDomain WildcardDomain.le := ⟨fun a b c hab hbc => by
  unfold WildcardDomain.le at *
  rcases hab with hab | ⟨hab, hab'⟩
  · rcases hbc with hbc | ⟨hbc, -⟩
    · exact .inl (by omega)
    · exact .inl (by omega)
  · rcases hbc with hbc | ⟨hbc, hbc'⟩
    · exact .inl (by omega)
    · exact .inr ⟨by omega, Std.le_trans hab' hbc'⟩⟩

theorem wildcardOf_eq_some {domain : GoString} {w : WildcardDomain} (h : wildcardOf domain = some w) :
    w.domain = domain ∧ w.suffix = domain.drop 1 := by
  unfold wildcardOf at h
  split at h
  · cases h
    exact ⟨rfl, rfl⟩
  · cases h

theorem mem_buildWildcardIndex {order : KeyOrder} {mapping : GoMap Entry} {w : WildcardDomain}
    (h : w ∈ buildWildcardIndex order mapping) :
    w.domain ∈ mapping.keys ∧ w.suffix = w.domain.drop 1 := by
  have hsort := (List.perm_insertionSort WildcardDomain.le _).mem_iff.mp h
  obtain ⟨domain, hd, hw⟩ := List.mem_filterMap.mp hsort
  obtain ⟨rfl, hs⟩ := wildcardOf_eq_some hw
  exact ⟨(order.perm _).mem_iff.mp hd, hs⟩

/-- **The index does not depend on the order** in which the mapping is visited. -/
theorem buildWildcardIndex_eq (order order' : KeyOrder) (mapping : GoMap Entry) :
    buildWildcardIndex order mapping = buildWildcardIndex order' mapping := by
  have hsorted := fun l => List.pairwise_insertionSort WildcardDomain.le l
  refine List.Perm.eq_of_pairwise ?_ (hsorted _) (hsorted _) ?_
  · intro a b ha hb hab hba
    -- two entries of the same rank have the same domain, and the suffix is a part of the domain
    have hdomain : a.domain = b.domain := by
      unfold WildcardDomain.le at hab hba
      rcases hab with hab | ⟨hlen, hab⟩
      · omega
      · rcases hba with hba | ⟨-, hba⟩
        · omega
        · exact Std.le_antisymm hab hba
    have hsa := (mem_buildWildcardIndex ha).2
    have hsb := (mem_buildWildcardIndex hb).2
    cases a
    cases b
    simp_all
  · have hvisit := ((order.perm mapping.keys).trans (order'.perm mapping.keys).symm).filterMap
      wildcardOf
    exact (List.perm_insertionSort _ _).trans (hvisit.trans (List.perm_insertionSort _ _).symm)

/-! ## Lookup -/

theorem scan_mem {host : GoString} {keys : List (GoString × Entry)}
    {best : Option (Entry × WildcardDomain)} {b : Entry × WildcardDomain}
    (h : keys.foldl (scanStep host) best = some b) :
    best = some b ∨ (b.2.domain, b.1) ∈ keys := by
  induction keys generalizing best with
  | nil => exact .inl h
  | cons key keys ih =>
    rcases ih h with hstep | hmem
    · unfold scanStep at hstep
      split at hstep
      · exact .inl hstep
      next w hw =>
        split at hstep
        · cases hstep
          rw [(wildcardOf_eq_some hw).1]
          exact .inr List.mem_cons_self
        · exact .inl hstep
    · exact .inr (List.mem_cons_of_mem _ hmem)

/-- **The matched domain is a key**, if the wildcards are those of the mapping. -/
theorem Registry.get_mem {unicode : Unicode} {order : KeyOrder} {r : Registry} {host : GoString}
    {entry : Entry} {domain : GoString}
    (hw : ∀ ws, r.wildcards = some ws → ∀ w ∈ ws, w.domain ∈ r.mapping.keys)
    (h : r.get unicode order host = some (entry, domain)) : r.mapping.lookup domain = some entry := by
  unfold Registry.get at h
  dsimp only at h
  split at h
  next e he =>
    cases h
    exact he
  next =>
    split at h
    next ws hws =>
      obtain ⟨w, hf, he⟩ := Option.map_eq_some_iff.mp h
      have hkey := hw ws hws w (List.mem_of_find?_eq_some hf)
      obtain ⟨e, hl⟩ := exists_lookup hkey
      rw [hl] at he
      cases he
      exact hl
    next =>
      obtain ⟨b, hb, he⟩ := Option.map_eq_some_iff.mp h
      cases he
      rcases scan_mem hb with hb | hb
      · cases hb
      · exact (mem_visit order r.mapping).mp hb

/-! ## The longest wildcard -/

/-- The key `*.s` is in the mapping, and the host is below it. -/
def Below (mapping : GoMap Entry) (host s : GoString) : Prop :=
  str "*." ++ s ∈ mapping ∧ str "." ++ s <:+ host

/-- `*.s` is the longest key that the host is below. -/
def IsLongest (mapping : GoMap Entry) (host s : GoString) : Prop :=
  Below mapping host s ∧ ∀ t, Below mapping host t → t.length ≤ s.length

/-- The entry of a normalized host and the key under which it stands. -/
inductive Lookup (mapping : GoMap Entry) (host : GoString) : Option (Entry × GoString) → Prop
  | key {entry : Entry} (h : mapping.lookup host = some entry) : Lookup mapping host (some (entry, host))
  | wildcard {entry : Entry} {s : GoString} (h : mapping.lookup host = none)
      (hs : IsLongest mapping host s) (he : mapping.lookup (str "*." ++ s) = some entry) :
      Lookup mapping host (some (entry, str "*." ++ s))
  | missing (h : mapping.lookup host = none) (hs : ∀ s, ¬ Below mapping host s) :
      Lookup mapping host none

section

variable {mapping : GoMap Entry} {host : GoString}

theorem IsLongest.unique {s t : GoString} (hs : IsLongest mapping host s)
    (ht : IsLongest mapping host t) : s = t := by
  have hlen : s.length = t.length := Nat.le_antisymm (ht.2 s hs.1) (hs.2 t ht.1)
  have hdot : (str "." ++ s).length = (str "." ++ t).length := by
    rw [List.length_append, List.length_append, hlen]
  -- two suffixes of one length are the same
  have hsuf := List.suffix_of_suffix_length_le hs.1.2 ht.1.2 (Nat.le_of_eq hdot)
  exact List.append_cancel_left (hsuf.eq_of_length hdot)

theorem Lookup.unique {a b : Option (Entry × GoString)} (ha : Lookup mapping host a)
    (hb : Lookup mapping host b) : a = b := by
  cases ha with
  | key h =>
    cases hb with
    | key h' => rw [h] at h'; cases h'; rfl
    | wildcard h' => rw [h] at h'; cases h'
    | missing h' => rw [h] at h'; cases h'
  | wildcard h hs he =>
    cases hb with
    | key h' => rw [h] at h'; cases h'
    | wildcard _ hs' he' =>
      cases hs.unique hs'
      rw [he] at he'
      cases he'
      rfl
    | missing _ hs' => exact absurd hs.1 (hs' _)
  | missing h hs =>
    cases hb with
    | key h' => rw [h] at h'; cases h'
    | wildcard _ hs' => exact absurd hs'.1 (hs _)
    | missing => rfl

theorem wildcardOf_eq_some_iff {domain : GoString} {w : WildcardDomain} :
    wildcardOf domain = some w ↔
      ∃ s, domain = str "*." ++ s ∧ w = ⟨str "*." ++ s, str "." ++ s⟩ := by
  unfold wildcardOf hasPrefix
  constructor
  · intro h
    split at h
    next hp =>
      obtain ⟨s, rfl⟩ := List.isPrefixOf_iff_prefix.mp hp
      cases h
      exact ⟨s, rfl, rfl⟩
    next => cases h
  · rintro ⟨s, rfl, rfl⟩
    rw [if_pos (List.isPrefixOf_iff_prefix.mpr (List.prefix_append _ _))]
    rfl

theorem mem_index_iff {order : KeyOrder} {w : WildcardDomain} :
    w ∈ buildWildcardIndex order mapping ↔
      ∃ s, str "*." ++ s ∈ mapping ∧ w = ⟨str "*." ++ s, str "." ++ s⟩ := by
  unfold buildWildcardIndex
  rw [(List.perm_insertionSort WildcardDomain.le _).mem_iff, List.mem_filterMap]
  constructor
  · rintro ⟨domain, hd, hw⟩
    obtain ⟨s, rfl, rfl⟩ := wildcardOf_eq_some_iff.mp hw
    exact ⟨s, (order.perm _).mem_iff.mp hd, rfl⟩
  · rintro ⟨s, hs, rfl⟩
    exact ⟨_, (order.perm _).mem_iff.mpr hs, wildcardOf_eq_some_iff.mpr ⟨s, rfl, rfl⟩⟩

theorem hasSuffix_iff {s suf : GoString} : hasSuffix s suf = true ↔ suf <:+ s :=
  List.isSuffixOf_iff_suffix

/-- The first wildcard of the index that fits is the longest one. -/
theorem index_find {order : KeyOrder} {w : WildcardDomain}
    (h : (buildWildcardIndex order mapping).find? (fun w => hasSuffix host w.suffix) = some w) :
    ∃ s, w = ⟨str "*." ++ s, str "." ++ s⟩ ∧ IsLongest mapping host s := by
  obtain ⟨s, hs, rfl⟩ := mem_index_iff.mp (List.mem_of_find?_eq_some h)
  obtain ⟨hfit, before, after, heq, hbefore⟩ := List.find?_eq_some_iff_append.mp h
  refine ⟨s, rfl, ⟨hs, hasSuffix_iff.mp hfit⟩, fun t ht => ?_⟩
  have hmem : (⟨str "*." ++ t, str "." ++ t⟩ : WildcardDomain) ∈ buildWildcardIndex order mapping :=
    mem_index_iff.mpr ⟨t, ht.1, rfl⟩
  have hsorted : (buildWildcardIndex order mapping).Pairwise WildcardDomain.le :=
    List.pairwise_insertionSort WildcardDomain.le _
  rw [heq] at hmem hsorted
  rcases List.mem_append.mp hmem with hb | hb
  · -- the wildcards before it do not fit
    have hno := hbefore _ hb
    rw [hasSuffix_iff.mpr ht.2] at hno
    cases hno
  · rcases List.mem_cons.mp hb with hb | hb
    · have hst : t = s := List.append_cancel_left (WildcardDomain.mk.inj hb).1
      exact Nat.le_of_eq (congrArg List.length hst)
    · have hle := List.rel_of_pairwise_cons (List.pairwise_append.mp hsorted).2.1 hb
      unfold WildcardDomain.le at hle
      simp only [List.length_append] at hle
      omega

/-- The scan so far has the longest of the wildcards that fit among the keys it has visited. -/
def ScannedTo (host : GoString) (keys : List (GoString × Entry))
    (best : Option (Entry × WildcardDomain)) : Prop :=
  (∀ b, best = some b → (b.2.domain, b.1) ∈ keys ∧
    wildcardOf b.2.domain = some b.2 ∧ hasSuffix host b.2.suffix = true) ∧
  ∀ key ∈ keys, ∀ w, wildcardOf key.1 = some w → hasSuffix host w.suffix = true →
    ∃ b, best = some b ∧ w.suffix.length ≤ b.2.suffix.length

theorem scanStep_scannedTo {keys : List (GoString × Entry)} {best : Option (Entry × WildcardDomain)}
    (h : ScannedTo host keys best) (key : GoString × Entry) :
    ScannedTo host (keys ++ [key]) (scanStep host best key) := by
  obtain ⟨hbest, hmax⟩ := h
  -- the best so far is not given up for a shorter one
  have hkeep : ∀ {l : ℕ} {b}, best = some b → l ≤ b.2.suffix.length →
      ∃ b', scanStep host best key = some b' ∧ l ≤ b'.2.suffix.length := by
    rintro l b rfl hl
    unfold scanStep
    split
    · exact ⟨b, rfl, hl⟩
    next w _ =>
      split
      next hlt =>
        have hlonger : b.2.suffix.length < w.suffix.length := hlt.2
        exact ⟨(key.2, w), rfl, by dsimp only; omega⟩
      next => exact ⟨b, rfl, hl⟩
  refine ⟨fun b hb => ?_, fun k hk w hw hfit => ?_⟩
  · unfold scanStep at hb
    split at hb
    · exact ⟨List.mem_append_left _ (hbest b hb).1, (hbest b hb).2⟩
    next w hw =>
      split at hb
      next hlt =>
        cases hb
        rw [(wildcardOf_eq_some hw).1]
        exact ⟨by simp, hw, hlt.1⟩
      next => exact ⟨List.mem_append_left _ (hbest b hb).1, (hbest b hb).2⟩
  · rcases List.mem_append.mp hk with hk | hk
    · obtain ⟨b, hb, hl⟩ := hmax k hk w hw hfit
      exact hkeep hb hl
    · cases List.mem_singleton.mp hk
      by_cases hlt : (best.map fun b => b.2.suffix.length).getD 0 < w.suffix.length
      · refine ⟨(key.2, w), ?_, Nat.le_refl _⟩
        rw [scanStep, hw]
        exact if_pos ⟨hfit, hlt⟩
      · obtain ⟨s, -, rfl⟩ := wildcardOf_eq_some_iff.mp hw
        cases best with
        | none =>
          -- a suffix has at least its dot
          have hdot : (str ".").length = 1 := rfl
          simp only [Option.map_none, Option.getD_none, List.length_append] at hlt
          omega
        | some b => exact hkeep rfl (by simpa using hlt)

theorem scan_scannedTo (keys : List (GoString × Entry)) :
    ScannedTo host keys (keys.foldl (scanStep host) none) := by
  induction keys using List.reverseRecOn with
  | nil =>
    constructor
    · intro b hb
      cases hb
    · intro key hkey
      cases hkey
  | append_singleton keys key ih =>
    rw [List.foldl_append, List.foldl_cons, List.foldl_nil]
    exact scanStep_scannedTo ih key

theorem below_visit {order : KeyOrder} {s : GoString} (h : Below mapping host s) :
    ∃ entry, (str "*." ++ s, entry) ∈ GoMap.visit order mapping := by
  obtain ⟨entry, he⟩ := exists_lookup h.1
  exact ⟨entry, (mem_visit order mapping).mpr he⟩

/-- **A lookup through the index** finds the entry of the host. -/
theorem Registry.get_index (unicode : Unicode) (order order' : KeyOrder) (mapping : GoMap Entry)
    (host : GoString) :
    Lookup mapping (normalizeHost unicode host)
      (Registry.get unicode order' ⟨mapping, some (buildWildcardIndex order mapping)⟩ host) := by
  unfold Registry.get
  dsimp only
  cases hkey : mapping.lookup (normalizeHost unicode host) with
  | some entry => exact .key hkey
  | none =>
    dsimp only
    cases hfind : (buildWildcardIndex order mapping).find? fun w =>
        hasSuffix (normalizeHost unicode host) w.suffix with
    | none =>
      refine .missing hkey fun s hs => ?_
      have hno := List.find?_eq_none.mp hfind _ (mem_index_iff.mpr ⟨s, hs.1, rfl⟩)
      exact hno (hasSuffix_iff.mpr hs.2)
    | some w =>
      obtain ⟨s, rfl, hlongest⟩ := index_find hfind
      obtain ⟨entry, he⟩ := exists_lookup hlongest.1.1
      have hlookup := Lookup.wildcard hkey hlongest he
      simpa only [Option.map_some, he, Option.getD_some] using hlookup

/-- **A lookup through a scan of the mapping** finds the entry of the host. -/
theorem Registry.get_scan (unicode : Unicode) (order : KeyOrder) (mapping : GoMap Entry)
    (host : GoString) :
    Lookup mapping (normalizeHost unicode host)
      (Registry.get unicode order ⟨mapping, none⟩ host) := by
  unfold Registry.get
  dsimp only
  cases hkey : mapping.lookup (normalizeHost unicode host) with
  | some entry => exact .key hkey
  | none =>
    dsimp only
    have hscanned : ScannedTo (normalizeHost unicode host) _ _ :=
      scan_scannedTo (GoMap.visit order mapping)
    obtain ⟨hbest, hmax⟩ := hscanned
    have hfits : ∀ s, Below mapping (normalizeHost unicode host) s →
        ∃ b, (GoMap.visit order mapping).foldl (scanStep (normalizeHost unicode host)) none = some b ∧
          (str "." ++ s).length ≤ b.2.suffix.length := by
      intro s hs
      obtain ⟨entry, he⟩ := below_visit hs
      exact hmax _ he ⟨_, _⟩ (wildcardOf_eq_some_iff.mpr ⟨s, rfl, rfl⟩) (hasSuffix_iff.mpr hs.2)
    cases hscan : (GoMap.visit order mapping).foldl (scanStep (normalizeHost unicode host)) none with
    | none =>
      refine .missing hkey fun s hs => ?_
      obtain ⟨b, hb, -⟩ := hfits s hs
      rw [hscan] at hb
      cases hb
    | some b =>
      obtain ⟨hmem, hw, hfit⟩ := hbest b hscan
      obtain ⟨entry, w⟩ := b
      obtain ⟨s, hdomain, rfl⟩ := wildcardOf_eq_some_iff.mp hw
      have he := (mem_visit order mapping).mp hmem
      refine .wildcard hkey ⟨⟨mem_of_lookup he, hasSuffix_iff.mp hfit⟩,
        fun t ht => ?_⟩ he
      obtain ⟨b, hb, hlen⟩ := hfits t ht
      rw [hscan] at hb
      cases hb
      simpa using hlen

/-- **The index and the scan agree.** Whatever the orders in which the mapping is visited, the index
of its wildcards and the scan of the mapping give the same entry: that of the host, or else that of
the longest wildcard it is below. -/
theorem Registry.get_lookup (unicode : Unicode) (built visited scanned : KeyOrder)
    (mapping : GoMap Entry) (host : GoString) :
    Registry.get unicode visited ⟨mapping, some (buildWildcardIndex built mapping)⟩ host =
        Registry.get unicode scanned ⟨mapping, none⟩ host ∧
      Lookup mapping (normalizeHost unicode host)
        (Registry.get unicode scanned ⟨mapping, none⟩ host) :=
  ⟨(get_index unicode built visited mapping host).unique (get_scan unicode scanned mapping host),
    get_scan unicode scanned mapping host⟩

end

end SynitWaf
