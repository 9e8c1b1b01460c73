import SynitWaf.Jwks.Throttle

/-!
# The size of the JWKS cache

`storeJWKSCacheEntry` stores an entry and goes through the cache once: it deletes what has expired,
counts the rest, and deletes the entry that expires first if there are too many.

* `StoreCall`, `storeRun`: calls one after the other, each with its own clock and order of `Range`;
* `storeStep_cache`: the cache after a call;
* `JwksSweep.Found`, `found_sweep`: what one pass finds out, in any order;
* `mem_sweptEndpoints_of_room`, `mem_sweptEndpoints_of_full`: what it deletes;
* `Stored`: the cache before and after a call; `len_storeStep_le`: the bound; `Removed`,
  `Removed.earliest`: the entry that has to go; `stored_storeStep`: one call;
* **`stored_of_run`**: every call of a run.
-/

namespace SynitWaf

open Atomic Go

variable {κ : Type}

/-! ## Runs -/

/-- A call of `storeJWKSCacheEntry`: its arguments, what the clock shows and, in `world`, the order in
which `Range` visits the cache. -/
structure StoreCall (κ : Type) where
  endpoint : GoString
  entry : JwksCacheEntry κ
  now : ℤ
  world : JwksWorld κ

/-- The state after a call. -/
def storeStep (s : JwksState κ) (c : StoreCall κ) : JwksState κ :=
  ((storeJWKSCacheEntry (w := c.world) c.endpoint c.entry).run { s with now := c.now }).2

/-- The state after some calls, from an empty cache. -/
def storeRun (calls : List (StoreCall κ)) : JwksState κ :=
  calls.foldl storeStep ⟨∅, .empty, false, 0, 0⟩

theorem storeRun_snoc (calls : List (StoreCall κ)) (c : StoreCall κ) :
    storeRun (calls ++ [c]) = storeStep (storeRun calls) c := by
  simp [storeRun]

/-- What a call visits. -/
def StoreCall.visited (c : StoreCall κ) (s : JwksState κ) : List (GoString × JwksCacheEntry κ) :=
  (c.world.order s.fetches).visit (cachedItems (s.cache.insert c.endpoint c.entry))

theorem run_deleteEndpoints {w : JwksWorld κ} (endpoints : List GoString) (s : JwksState κ) :
    ((deleteEndpoints (w := w) endpoints).run s).2.cache =
      endpoints.foldl (fun m e => AList.erase e m) s.cache := by
  induction endpoints generalizing s with
  | nil => rfl
  | cons e endpoints ih => exact ih _

/-- **The cache after a call.** -/
theorem storeStep_cache (s : JwksState κ) (c : StoreCall κ) :
    (storeStep s c).cache = (sweptEndpoints c.now c.endpoint (c.visited s)).foldl
      (fun m e => AList.erase e m) (s.cache.insert c.endpoint c.entry) :=
  run_deleteEndpoints _ _

theorem mem_cachedItems {cache : GoMap (JwksCacheEntry κ)} {e : GoString} {x : JwksCacheEntry κ} :
    (e, x) ∈ cachedItems cache ↔ cache.lookup e = some x := by
  rw [← Option.mem_def, AList.mem_lookup_iff]
  simp [cachedItems, Sigma.exists]

theorem cachedItems_map_fst (cache : GoMap (JwksCacheEntry κ)) :
    (cachedItems cache).map Prod.fst = cache.keys := by
  simp [cachedItems, AList.keys, List.keys, Function.comp_def]

section Visited

variable {s : JwksState κ} {c : StoreCall κ}

theorem mem_visited {e : GoString} {x : JwksCacheEntry κ} :
    (e, x) ∈ c.visited s ↔ (s.cache.insert c.endpoint c.entry).lookup e = some x :=
  ((c.world.order s.fetches).perm _).mem_iff.trans mem_cachedItems

theorem visited_perm : ((c.visited s).map Prod.fst).Perm (s.cache.insert c.endpoint c.entry).keys := by
  rw [← cachedItems_map_fst]
  exact ((c.world.order s.fetches).perm _).map _

theorem visited_nodup : ((c.visited s).map Prod.fst).Nodup :=
  visited_perm.nodup_iff.mpr (AList.keys_nodup _)

end Visited

/-! ## One pass -/

/-- The entry counts for the bound: it is the one just stored, or has not expired. -/
def Counts (now : ℤ) (endpoint : GoString) (item : GoString × JwksCacheEntry κ) : Prop :=
  item.1 = endpoint ∨ now < item.2.expiresAt

instance (now : ℤ) (endpoint : GoString) :
    DecidablePred (Counts now endpoint : GoString × JwksCacheEntry κ → Prop) :=
  fun item => inferInstanceAs (Decidable (item.1 = endpoint ∨ now < item.2.expiresAt))

/-- The entry may be deleted to make room. -/
def Replaceable (now : ℤ) (endpoint : GoString) (item : GoString × JwksCacheEntry κ) : Prop :=
  item.1 ≠ endpoint ∧ now < item.2.expiresAt

/-- The victim of a pass over these entries: none if no entry may be deleted, otherwise one that
expires first. -/
def Oldest (now : ℤ) (endpoint : GoString) (items : List (GoString × JwksCacheEntry κ))
    (oldestEndpoint : GoString) (oldestExpiry : ℤ) : Prop :=
  (oldestEndpoint = [] ∧ ∀ item ∈ items, ¬ Replaceable now endpoint item) ∨
    ∃ item ∈ items, Replaceable now endpoint item ∧ oldestEndpoint = item.1 ∧
      oldestExpiry = item.2.expiresAt ∧
      ∀ other ∈ items, Replaceable now endpoint other → item.2.expiresAt ≤ other.2.expiresAt

/-- What a pass over these entries has found out. -/
structure JwksSweep.Found (now : ℤ) (endpoint : GoString) (items : List (GoString × JwksCacheEntry κ))
    (sweep : JwksSweep) : Prop where
  count : sweep.count = items.countP fun item => Counts now endpoint item
  deleted : sweep.deleted = (items.filter fun item => ¬ Counts now endpoint item).map Prod.fst
  oldest : Oldest now endpoint items sweep.oldestEndpoint sweep.oldestExpiry

section Pass

variable {now : ℤ} {endpoint : GoString} {items : List (GoString × JwksCacheEntry κ)}
  {item : GoString × JwksCacheEntry κ} {sweep : JwksSweep}

theorem Oldest.skip {oldestEndpoint : GoString} {oldestExpiry : ℤ}
    (h : Oldest now endpoint items oldestEndpoint oldestExpiry)
    (hitem : Replaceable now endpoint item → oldestEndpoint ≠ [] ∧ oldestExpiry ≤ item.2.expiresAt) :
    Oldest now endpoint (items ++ [item]) oldestEndpoint oldestExpiry := by
  have hmem : ∀ other ∈ items ++ [item], other ∈ items ∨ other = item := by simp
  obtain ⟨hnil, hnone⟩ | ⟨first, hfirst, hr, rfl, rfl, hle⟩ := h
  · refine .inl ⟨hnil, fun other hother hr => ?_⟩
    obtain hother | rfl := hmem other hother
    · exact hnone other hother hr
    · exact (hitem hr).1 hnil
  · refine .inr ⟨first, List.mem_append_left _ hfirst, hr, rfl, rfl, fun other hother hr' => ?_⟩
    obtain hother | rfl := hmem other hother
    · exact hle other hother hr'
    · exact (hitem hr').2

theorem Oldest.take {oldestEndpoint : GoString} {oldestExpiry : ℤ}
    (h : Oldest now endpoint items oldestEndpoint oldestExpiry) (hr : Replaceable now endpoint item)
    (hitem : oldestEndpoint = [] ∨ item.2.expiresAt < oldestExpiry)
    (hne : ∀ other ∈ items, other.1 ≠ []) :
    Oldest now endpoint (items ++ [item]) item.1 item.2.expiresAt := by
  refine .inr ⟨item, by simp, hr, rfl, rfl, fun other hother hr' => ?_⟩
  have hmem : other ∈ items ∨ other = item := by simpa using hother
  obtain hother | rfl := hmem
  · obtain ⟨-, hnone⟩ | ⟨first, hfirst, -, rfl, rfl, hle⟩ := h
    · exact absurd hr' (hnone other hother)
    · exact (hitem.resolve_left (hne first hfirst)).le.trans (hle other hother hr')
  · exact le_rfl

/-- **One round** of the pass. -/
theorem JwksSweep.Found.visit (h : sweep.Found now endpoint items)
    (hne : ∀ other ∈ items, other.1 ≠ []) :
    (sweep.visit now endpoint item).Found now endpoint (items ++ [item]) := by
  by_cases hcounts : Counts now endpoint item
  · have hkeep : ¬ (item.1 ≠ endpoint ∧ ¬ now < item.2.expiresAt) := by
      unfold Counts at hcounts
      tauto
    have hcount : sweep.count + 1 =
        (items ++ [item]).countP fun item => Counts now endpoint item := by
      simp [List.countP_append, hcounts, h.count]
    have hdeleted : sweep.deleted =
        ((items ++ [item]).filter fun item => ¬ Counts now endpoint item).map Prod.fst := by
      simp [List.filter_append, hcounts, h.deleted]
    unfold JwksSweep.visit
    rw [if_neg hkeep]
    dsimp only
    split
    next htake =>
      have hr : Replaceable now endpoint item := ⟨htake.1, hcounts.resolve_left htake.1⟩
      exact ⟨hcount, hdeleted, h.oldest.take hr htake.2 hne⟩
    next hskip =>
      refine ⟨hcount, hdeleted, h.oldest.skip fun hr => ?_⟩
      simp only [not_and, not_or, not_lt] at hskip
      exact hskip hr.1
  · have hdelete : item.1 ≠ endpoint ∧ ¬ now < item.2.expiresAt := not_or.mp hcounts
    unfold JwksSweep.visit
    rw [if_pos hdelete]
    refine ⟨?_, ?_, h.oldest.skip fun hr => absurd hr.2 hdelete.2⟩
    · simp [List.countP_append, hcounts, h.count]
    · simp [List.filter_append, hcounts, h.deleted]

variable (now endpoint) in
/-- **What a pass finds out.** -/
theorem found_sweep (hne : ∀ item ∈ items, item.1 ≠ []) :
    (items.foldl (JwksSweep.visit now endpoint) ⟨0, [], 0, []⟩).Found now endpoint items := by
  induction items using List.reverseRecOn with
  | nil => exact ⟨rfl, rfl, .inl ⟨rfl, nofun⟩⟩
  | append_singleton items item ih =>
    have hne' := fun other hother => hne other (List.mem_append_left _ hother)
    rw [List.foldl_append]
    exact (ih hne').visit hne'

theorem mem_deleted {sweep : JwksSweep} (h : sweep.Found now endpoint items) {e : GoString} :
    e ∈ sweep.deleted ↔ ∃ item ∈ items, item.1 = e ∧ ¬ Counts now endpoint item := by
  rw [h.deleted]
  simp [and_comm, and_assoc]

/-- While there is room, a pass deletes what does not count. -/
theorem mem_sweptEndpoints_of_room (hne : ∀ item ∈ items, item.1 ≠ [])
    (hroom : items.countP (fun item => Counts now endpoint item) ≤ maxJWKSCacheEntries)
    {e : GoString} : e ∈ sweptEndpoints now endpoint items ↔
      ∃ item ∈ items, item.1 = e ∧ ¬ Counts now endpoint item := by
  have hfound := found_sweep now endpoint hne
  rw [← hfound.count] at hroom
  rw [sweptEndpoints, if_neg fun h => Nat.not_lt.mpr hroom h.1, mem_deleted hfound]

theorem countP_counts_le_one (hnodup : (items.map Prod.fst).Nodup)
    (hnone : ∀ item ∈ items, ¬ Replaceable now endpoint item) :
    items.countP (fun item => Counts now endpoint item) ≤ 1 := by
  have hsub : ((items.filter fun item => Counts now endpoint item).map Prod.fst) ⊆ [endpoint] := by
    intro e he
    simp only [List.mem_map, List.mem_filter, decide_eq_true_eq] at he
    obtain ⟨item, ⟨hitem, hcounts⟩, rfl⟩ := he
    by_contra hother
    have hother := fun h => hother (List.mem_singleton.mpr h)
    exact hnone item hitem ⟨hother, hcounts.resolve_left hother⟩
  have hlen := (List.subperm_of_subset
    (hnodup.sublist (List.filter_sublist.map Prod.fst)) hsub).length_le
  rwa [List.length_map, ← List.countP_eq_length_filter] at hlen

/-- If there is none, a pass also deletes an entry that expires first. -/
theorem mem_sweptEndpoints_of_full (hne : ∀ item ∈ items, item.1 ≠ [])
    (hnodup : (items.map Prod.fst).Nodup)
    (hfull : maxJWKSCacheEntries < items.countP fun item => Counts now endpoint item) :
    ∃ victim ∈ items, Replaceable now endpoint victim ∧
      (∀ other ∈ items, Replaceable now endpoint other →
        victim.2.expiresAt ≤ other.2.expiresAt) ∧
      ∀ e, e ∈ sweptEndpoints now endpoint items ↔
        (∃ item ∈ items, item.1 = e ∧ ¬ Counts now endpoint item) ∨ e = victim.1 := by
  have hfound := found_sweep now endpoint hne
  obtain ⟨-, hnone⟩ | ⟨victim, hvictim, hr, hendpoint, -, hfirst⟩ := hfound.oldest
  · have hone := countP_counts_le_one hnodup hnone
    have hmax : 1 < maxJWKSCacheEntries := by decide
    omega
  · rw [← hfound.count] at hfull
    refine ⟨victim, hvictim, hr, hfirst, fun e => ?_⟩
    rw [sweptEndpoints, if_pos ⟨hfull, hendpoint ▸ hne victim hvictim⟩, List.mem_append,
      mem_deleted hfound, List.mem_singleton, hendpoint]

end Pass

/-! ## Calls -/

/-- The endpoints that hold the bound up when an entry has been stored: that of the entry, and the
others that have not expired. -/
def StoreCall.counted (c : StoreCall κ) (cache : GoMap (JwksCacheEntry κ)) : ℕ :=
  (cachedItems (cache.insert c.endpoint c.entry)).countP fun item => Counts c.now c.endpoint item

/-- The cache before and after a call. -/
structure Stored (c : StoreCall κ) (before after : GoMap (JwksCacheEntry κ)) : Prop where
  bounded : GoMap.len after ≤ maxJWKSCacheEntries
  stored : after.lookup c.endpoint = some c.entry
  unexpired : ∀ e x, e ≠ c.endpoint → after.lookup e = some x → c.now < x.expiresAt
  kept : ∀ e x, e ≠ c.endpoint → after.lookup e = some x → before.lookup e = some x
  removed : ∀ e x, e ≠ c.endpoint → before.lookup e = some x → c.now < x.expiresAt →
    after.lookup e = none → maxJWKSCacheEntries < c.counted before ∧
      ∀ e' x', e' ≠ c.endpoint → before.lookup e' = some x' → c.now < x'.expiresAt →
        x.expiresAt ≤ x'.expiresAt ∧ (after.lookup e' = none → e' = e)

/-- What every call leaves behind. -/
structure CacheInv (cache : GoMap (JwksCacheEntry κ)) : Prop where
  bounded : GoMap.len cache ≤ maxJWKSCacheEntries
  nonempty : ∀ e ∈ cache, e ≠ []

section Call

variable {s : JwksState κ} {c : StoreCall κ}

theorem CacheInv.visited_ne_nil (h : CacheInv s.cache) (hc : c.endpoint ≠ []) :
    ∀ item ∈ c.visited s, item.1 ≠ [] := by
  rintro ⟨e, x⟩ hitem
  have hmem : e ∈ s.cache.insert c.endpoint c.entry := mem_of_lookup (mem_visited.mp hitem)
  rcases (AList.mem_insert _).mp hmem with rfl | hmem
  · exact hc
  · exact h.nonempty e hmem

theorem lookup_storeStep {e : GoString} {x : JwksCacheEntry κ} :
    (storeStep s c).cache.lookup e = some x ↔
      (e, x) ∈ c.visited s ∧ e ∉ sweptEndpoints c.now c.endpoint (c.visited s) := by
  rw [storeStep_cache, lookup_foldl_erase, mem_visited, and_comm]
  split <;> simp_all

/-- Another entry of the cache is visited. -/
theorem visited_of_lookup {e : GoString} {x : JwksCacheEntry κ} (hne : e ≠ c.endpoint) :
    (e, x) ∈ c.visited s ↔ s.cache.lookup e = some x := by
  rw [mem_visited, AList.lookup_insert_ne hne]

theorem counted_eq : c.counted s.cache = (c.visited s).countP fun item => Counts c.now c.endpoint item :=
  (((c.world.order s.fetches).perm _).countP_eq _).symm

theorem counted_le (h : CacheInv s.cache) : c.counted s.cache ≤ maxJWKSCacheEntries + 1 := by
  have hlen : (cachedItems (s.cache.insert c.endpoint c.entry)).length ≤ GoMap.len s.cache + 1 := by
    rw [← List.length_map Prod.fst, cachedItems_map_fst]
    exact len_insert_le _ _
  exact (List.countP_le_length.trans hlen).trans (Nat.add_le_add_right h.bounded 1)

/-- What is left counts. -/
theorem counts_of_lookup (h : CacheInv s.cache) (hc : c.endpoint ≠ []) {e : GoString}
    {x : JwksCacheEntry κ} (he : (storeStep s c).cache.lookup e = some x) :
    Counts c.now c.endpoint (e, x) := by
  obtain ⟨hvisited, hswept⟩ := lookup_storeStep.mp he
  have hne := h.visited_ne_nil hc
  by_contra hcounts
  have hexpired : ∃ item ∈ c.visited s, item.1 = e ∧ ¬ Counts c.now c.endpoint item :=
    ⟨_, hvisited, rfl, hcounts⟩
  rcases Nat.lt_or_ge maxJWKSCacheEntries
    ((c.visited s).countP fun item => Counts c.now c.endpoint item) with hfull | hroom
  · obtain ⟨victim, -, -, -, hmem⟩ := mem_sweptEndpoints_of_full hne visited_nodup hfull
    exact hswept ((hmem e).mpr (.inl hexpired))
  · exact hswept ((mem_sweptEndpoints_of_room hne hroom).mpr hexpired)

/-- The endpoints that count. -/
def StoreCall.countedEndpoints (c : StoreCall κ) (s : JwksState κ) : List GoString :=
  ((c.visited s).filter fun item => Counts c.now c.endpoint item).map Prod.fst

theorem length_countedEndpoints : (c.countedEndpoints s).length = c.counted s.cache := by
  rw [StoreCall.countedEndpoints, List.length_map, ← List.countP_eq_length_filter, counted_eq]

theorem mem_countedEndpoints {e : GoString} {x : JwksCacheEntry κ} (h : (e, x) ∈ c.visited s)
    (hcounts : Counts c.now c.endpoint (e, x)) : e ∈ c.countedEndpoints s :=
  List.mem_map_of_mem (List.mem_filter.mpr ⟨h, decide_eq_true hcounts⟩)

theorem keys_storeStep_subset (h : CacheInv s.cache) (hc : c.endpoint ≠ []) :
    (storeStep s c).cache.keys ⊆ c.countedEndpoints s := by
  intro e he
  obtain ⟨x, hx⟩ := exists_lookup (AList.mem_keys.mpr he)
  exact mem_countedEndpoints (lookup_storeStep.mp hx).1 (counts_of_lookup h hc hx)

/-- **The bound** holds after a call. -/
theorem len_storeStep_le (h : CacheInv s.cache) (hc : c.endpoint ≠ []) :
    GoMap.len (storeStep s c).cache ≤ maxJWKSCacheEntries := by
  have hsub := keys_storeStep_subset h hc
  rcases Nat.lt_or_ge maxJWKSCacheEntries (c.counted s.cache) with hfull | hroom
  · -- the victim counts as well, and is not there any more
    obtain ⟨victim, hvictim, hr, -, hmem⟩ :=
      mem_sweptEndpoints_of_full (h.visited_ne_nil hc) visited_nodup (counted_eq ▸ hfull)
    have hgone : victim.1 ∉ (storeStep s c).cache.keys := by
      intro he
      obtain ⟨x, hx⟩ := exists_lookup (AList.mem_keys.mpr he)
      exact (lookup_storeStep.mp hx).2 ((hmem _).mpr (.inr rfl))
    have hsub' : victim.1 :: (storeStep s c).cache.keys ⊆ c.countedEndpoints s :=
      List.cons_subset.mpr ⟨mem_countedEndpoints hvictim (.inr hr.2), hsub⟩
    have hle := (List.subperm_of_subset
      (List.nodup_cons.mpr ⟨hgone, AList.keys_nodup _⟩) hsub').length_le
    rw [length_countedEndpoints, List.length_cons] at hle
    have hcounted := counted_le (c := c) h
    unfold GoMap.len
    omega
  · have hle := (List.subperm_of_subset (AList.keys_nodup _) hsub).length_le
    rw [length_countedEndpoints] at hle
    exact hle.trans hroom

/-- Another endpoint with an unexpired entry, which a call removes from the cache. -/
structure Removed (s : JwksState κ) (c : StoreCall κ) (e : GoString) (x : JwksCacheEntry κ) :
    Prop where
  other : e ≠ c.endpoint
  present : s.cache.lookup e = some x
  live : c.now < x.expiresAt
  gone : (storeStep s c).cache.lookup e = none

section Removal

variable {e : GoString} {x : JwksCacheEntry κ}

theorem Removed.swept (h : Removed s c e x) : e ∈ sweptEndpoints c.now c.endpoint (c.visited s) := by
  by_contra hkept
  have hlookup := lookup_storeStep.mpr ⟨(visited_of_lookup h.other).mpr h.present, hkept⟩
  rw [h.gone] at hlookup
  cases hlookup

/-- It is not removed for its expiry. -/
theorem Removed.counts (h : Removed s c e x) :
    ¬ ∃ item ∈ c.visited s, item.1 = e ∧ ¬ Counts c.now c.endpoint item := by
  rintro ⟨⟨_, y⟩, hitem, rfl, hcounts⟩
  rw [visited_of_lookup h.other, h.present] at hitem
  obtain rfl := Option.some.inj hitem
  exact hcounts (.inr h.live)

theorem Removed.full (h : Removed s c e x) (hs : CacheInv s.cache) (hc : c.endpoint ≠ []) :
    maxJWKSCacheEntries < c.counted s.cache := by
  by_contra hroom
  rw [counted_eq] at hroom
  exact h.counts
    ((mem_sweptEndpoints_of_room (hs.visited_ne_nil hc) (Nat.not_lt.mp hroom)).mp h.swept)

/-- **The victim** is the only one, and has the earliest expiry. -/
theorem Removed.earliest (h : Removed s c e x) (hs : CacheInv s.cache) (hc : c.endpoint ≠ [])
    {e' : GoString} {x' : JwksCacheEntry κ} (hother : e' ≠ c.endpoint)
    (hpresent : s.cache.lookup e' = some x') (hlive : c.now < x'.expiresAt) :
    x.expiresAt ≤ x'.expiresAt ∧ ((storeStep s c).cache.lookup e' = none → e' = e) := by
  obtain ⟨⟨victim, y⟩, hvictim, -, hfirst, hmem⟩ :=
    mem_sweptEndpoints_of_full (hs.visited_ne_nil hc) visited_nodup (counted_eq ▸ h.full hs hc)
  obtain rfl : e = victim := ((hmem e).mp h.swept).resolve_left h.counts
  refine ⟨?_, fun hgone => ?_⟩
  · rw [visited_of_lookup h.other, h.present] at hvictim
    obtain rfl := Option.some.inj hvictim
    exact hfirst (e', x') ((visited_of_lookup hother).mpr hpresent) ⟨hother, hlive⟩
  · have h' : Removed s c e' x' := ⟨hother, hpresent, hlive, hgone⟩
    exact ((hmem e').mp h'.swept).resolve_left h'.counts

end Removal

/-- **One call**, from a cache that the calls before have left behind. -/
theorem stored_storeStep (h : CacheInv s.cache) (hc : c.endpoint ≠ []) :
    Stored c s.cache (storeStep s c).cache := by
  refine ⟨len_storeStep_le h hc, ?_, fun e x he hx => ?_, fun e x he hx => ?_,
    fun e x he hx hlive hgone => ?_⟩
  · refine lookup_storeStep.mpr ⟨mem_visited.mpr (AList.lookup_insert _), ?_⟩
    exact notMem_sweptEndpoints _ _ _
  · exact (counts_of_lookup h hc hx).resolve_left he
  · exact (visited_of_lookup he).mp (lookup_storeStep.mp hx).1
  · have hremoved : Removed s c e x := ⟨he, hx, hlive, hgone⟩
    exact ⟨hremoved.full h hc, fun _ _ he' hx' hlive' => hremoved.earliest h hc he' hx' hlive'⟩

theorem CacheInv.step (h : CacheInv s.cache) (hc : c.endpoint ≠ []) :
    CacheInv (storeStep s c).cache := by
  have hstored := stored_storeStep h hc
  refine ⟨hstored.bounded, fun e he => ?_⟩
  obtain ⟨x, hx⟩ := exists_lookup he
  by_cases hce : e = c.endpoint
  · exact hce ▸ hc
  · exact h.nonempty e (mem_of_lookup (hstored.kept e x hce hx))

end Call

theorem cacheInv_run {calls : List (StoreCall κ)} (h : ∀ c ∈ calls, c.endpoint ≠ []) :
    CacheInv (storeRun calls).cache := by
  induction calls using List.reverseRecOn with
  | nil => exact ⟨Nat.zero_le _, nofun⟩
  | append_singleton calls c ih =>
    rw [storeRun_snoc]
    exact (ih fun c' hc' => h c' (List.mem_append_left _ hc')).step (h c (by simp))

/-- **The JWKS cache is bounded.** Whatever was stored before and whatever the clock shows, a call
leaves at most `maxJWKSCacheEntries` entries: the one it stores and others that have not expired. It
removes an entry that has not expired only if there are too many, and then only one that expires
first. -/
theorem stored_of_run (calls : List (StoreCall κ)) (c : StoreCall κ)
    (h : ∀ c' ∈ calls ++ [c], c'.endpoint ≠ []) :
    Stored c (storeRun calls).cache (storeRun (calls ++ [c])).cache := by
  rw [storeRun_snoc]
  exact stored_storeStep (cacheInv_run fun c' hc' => h c' (List.mem_append_left _ hc')) (h c (by simp))

/-- The keys of one of many providers, stored for an hour. -/
def provider (i : ℕ) : StoreCall Unit where
  endpoint := str "https://idp.example/" ++ itoa i
  entry := ⟨i, ∅, i + 3600 * second, none⟩
  now := i
  world := constantWorld (.error [])

theorem stored_of_run_one_too_many :
    Stored (provider 256) (storeRun ((List.range 256).map provider)).cache
      (storeRun ((List.range 256).map provider ++ [provider 256])).cache :=
  stored_of_run _ _ (by decide +kernel)

end SynitWaf
