import SynitWaf.Jwks.Refresh

/-!
# How long a key set is kept

An entry of the cache expires after the lifetime that the header `Cache-Control` of its response asks
for, but after an hour at most. The lifetime is multiplied into nanoseconds before it is capped, so
that a large one wraps around.

* `maxAge?`, `lastMaxAge`: the directives that count, and the last one of a header;
* `requestedTTL`: the lifetime a header asks for; `RightTTL`: a lifetime is that one, and is positive
  and at most an hour;
* `MaxAgeFits`: the last directive does not spoil the lifetime by its overflow;
* `cacheTTL_eq`: what `cacheTTL` makes of the last directive;
* `Dated`: an entry expires as its response asks, counted from the time that its call has read;
* **`getJWKSEntry_lifetime_iff`**: every entry that a call stores is dated, and the lifetime is right
  if and only if the last directive fits; `max_age_wraps_around`: one that does not fit.
-/

namespace SynitWaf

open Atomic Go

/-! ## Directives -/

/-- The number of seconds of a directive of the form `max-age=m`, with `m` positive. -/
def maxAge? (part : GoString) : Option ℤ :=
  (cutPrefix (trimSpace part) (str "max-age=")).bind fun after =>
    (atoi after).filter fun ma => ma > 0

/-- The last directive that counts. -/
def lastMaxAge (cacheControl : GoString) : Option ℤ :=
  ((split cacheControl (byte ',')).filterMap maxAge?).getLast?

/-- The lifetime that a header asks for. -/
def requestedTTL (cacheControl : GoString) : ℤ :=
  match lastMaxAge cacheControl with
  | some m => min (m * second) (3600 * second)
  | none => 900 * second

/-- The lifetime is the one that the header asks for. -/
def RightTTL (cacheControl : GoString) (ttl : ℤ) : Prop :=
  0 < ttl ∧ ttl ≤ 3600 * second ∧ ttl = requestedTTL cacheControl

/-- The last directive in nanoseconds is an `int64`, or wraps around to an hour or more. -/
def MaxAgeFits (cacheControl : GoString) : Prop :=
  ∀ m ∈ lastMaxAge cacheControl, m * second < 2 ^ 63 ∨ 3600 * second ≤ int64 (m * second)

theorem readDirective_eq (ttl : ℤ) (part : GoString) :
    readDirective ttl part = ((maxAge? part).map fun m => int64 (m * second)).getD ttl := by
  unfold readDirective maxAge?
  cases cutPrefix (trimSpace part) (str "max-age=") with
  | none => rfl
  | some after =>
    cases ha : atoi after with
    | none => simp [ha]
    | some ma => by_cases hpos : ma > 0 <;> simp [ha, Option.filter, hpos]

theorem foldl_readDirective (parts : List GoString) (ttl : ℤ) :
    parts.foldl readDirective ttl =
      ((parts.filterMap maxAge?).getLast?.map fun m => int64 (m * second)).getD ttl := by
  induction parts generalizing ttl with
  | nil => rfl
  | cons part parts ih =>
    rw [List.foldl_cons, ih, readDirective_eq]
    cases hm : maxAge? part with
    | none => rw [List.filterMap_cons_none hm, Option.map_none, Option.getD_none]
    | some m =>
      rw [List.filterMap_cons_some hm, List.getLast?_cons]
      cases (parts.filterMap maxAge?).getLast? <;> rfl

theorem maxAge?_pos {part : GoString} {m : ℤ} (h : maxAge? part = some m) : 0 < m := by
  obtain ⟨after, -, h⟩ := Option.bind_eq_some_iff.mp h
  simpa using (Option.filter_eq_some_iff.mp h).2

theorem lastMaxAge_pos {cacheControl : GoString} {m : ℤ} (h : lastMaxAge cacheControl = some m) :
    0 < m := by
  obtain ⟨part, -, hm⟩ := List.mem_filterMap.mp (List.mem_of_getLast? h)
  exact maxAge?_pos hm

/-! ## The lifetime -/

theorem cacheTTL_eq (cacheControl : GoString) :
    cacheTTL cacheControl =
      min (((lastMaxAge cacheControl).map fun m => int64 (m * second)).getD (900 * second))
        (3600 * second) := by
  have hfold : (if cacheControl ≠ [] then
      (split cacheControl (byte ',')).foldl readDirective (900 * second) else 900 * second) =
      ((lastMaxAge cacheControl).map fun m => int64 (m * second)).getD (900 * second) := by
    split
    next => exact foldl_readDirective _ _
    next hnil =>
      rw [not_not.mp hnil]
      rfl
  unfold cacheTTL
  simp only [hfold, maxJWKSCacheTTL]
  split <;> omega

/-- The capped lifetime of a directive, against the one that is asked for. -/
theorem capped_eq_iff {m : ℤ} (hm : 0 < m) :
    min (int64 (m * second)) (3600 * second) = min (m * second) (3600 * second) ↔
      m * second < 2 ^ 63 ∨ 3600 * second ≤ int64 (m * second) := by
  have hhour : (3600 * second : ℤ) < 2 ^ 63 := by decide
  have hpos : 0 < m * second := Int.mul_pos hm (by decide)
  by_cases hlt : m * second < 2 ^ 63
  · simp only [int64_eq hpos.le hlt, hlt, true_or]
  · -- a product that wraps around is longer than an hour
    have hmin : min (m * second) (3600 * second) = 3600 * second := by omega
    rw [hmin, min_eq_right_iff, or_iff_right hlt]

theorem rightTTL_iff (cacheControl : GoString) :
    RightTTL cacheControl (cacheTTL cacheControl) ↔ MaxAgeFits cacheControl := by
  have hhour : 0 < (3600 * second : ℤ) := by decide
  unfold RightTTL MaxAgeFits requestedTTL
  rw [cacheTTL_eq]
  cases hlast : lastMaxAge cacheControl with
  | none => simp [second]
  | some m =>
    have hm := lastMaxAge_pos hlast
    have hpos : 0 < m * second := Int.mul_pos hm (by decide)
    simp only [Option.map_some, Option.getD_some, Option.mem_def, Option.some.injEq, forall_eq']
    constructor
    · rintro ⟨-, -, heq⟩
      exact (capped_eq_iff hm).mp heq
    · intro h
      rw [(capped_eq_iff hm).mpr h]
      exact ⟨lt_min hpos hhour, min_le_right _ _, rfl⟩

/-! ## The entries of a call -/

section Calls

variable {κ : Type} (w : JwksWorld κ) (lib : JwtLib κ) (endpoint : GoString)
  (previous : Option (JwksCacheEntry κ))

/-- The entry was made from a response of the endpoint, in the step of the call that fetched it. -/
def Dated (t : Steps (jwksSig w)) (entry : JwksCacheEntry κ) : Prop :=
  ∃ now resp, Performed t (.fetch endpoint previous.isSome now)
      (fun s => w.respond s.fetches endpoint = .ok resp) ∧
    decodeJWKS lib resp = .ok entry.keys ∧ entry.expiresAt = now + cacheTTL resp.cacheControl

/-- The entries that a call has stored are dated, and so is the one it is about to store. -/
def DatedAt (t : Steps (jwksSig w)) (pc : EntryPc κ) : Prop :=
  (∀ e ∈ t, ∀ entry, e.1 = .store endpoint entry → Dated w lib endpoint previous t entry) ∧
    ∀ l entry rest, pc = .storing l entry rest → Dated w lib endpoint previous t entry

variable {w lib endpoint previous}

theorem Dated.append {t : Steps (jwksSig w)} {entry : JwksCacheEntry κ}
    (h : Dated w lib endpoint previous t entry) (u : Steps (jwksSig w)) :
    Dated w lib endpoint previous (t ++ u) entry := by
  obtain ⟨now, resp, hp, hkeys, hexp⟩ := h
  exact ⟨now, resp, hp.append u, hkeys, hexp⟩

theorem newCacheEntry_eq_ok {forced : Bool} {now : ℤ} {fetch : ℕ} {outcome : Result JwksResponse}
    {entry : JwksCacheEntry κ} (h : newCacheEntry lib forced now fetch outcome = .ok entry) :
    ∃ resp, outcome = .ok resp ∧ decodeJWKS lib resp = .ok entry.keys ∧
      entry.expiresAt = now + cacheTTL resp.cacheControl := by
  obtain ⟨resp, hresp, h⟩ := result_bind_eq_ok.mp h
  obtain ⟨keys, hkeys, h⟩ := result_bind_eq_ok.mp h
  cases h
  exact ⟨resp, hresp, hkeys, rfl⟩

theorem DatedAt.step {t : Steps (jwksSig w)} {pc pc' : EntryPc κ} {o : JwksOp κ} {s : JwksState κ}
    (h : DatedAt w lib endpoint previous t pc)
    (hm : EntryMove w lib endpoint previous s pc o pc') :
    DatedAt w lib endpoint previous (t ++ [(o, s)]) pc' := by
  obtain ⟨hstored, hstoring⟩ := h
  have hpast : ∀ e ∈ t, ∀ entry, e.1 = .store endpoint entry →
      Dated w lib endpoint previous (t ++ [(o, s)]) entry := fun e he entry hs =>
    (hstored e he entry hs).append _
  -- a step that stores an entry stores the one the call holds
  have hstep : ∀ entry, o = .store endpoint entry →
      Dated w lib endpoint previous (t ++ [(o, s)]) entry := by
    rintro entry rfl
    cases hm with
    | put l entry => exact (hstoring _ _ _ rfl).append _
  refine ⟨fun e he entry hs => ?_, ?_⟩
  · obtain he | he := List.mem_append.mp he
    · exact hpast e he entry hs
    · rw [List.mem_singleton] at he
      subst he
      exact hstep entry hs
  · rintro l entry rest rfl
    cases hm with
    | fetched l now hnew =>
      obtain ⟨resp, hresp, hkeys, hexp⟩ := newCacheEntry_eq_ok hnew
      exact ⟨now, resp, Performed.last t _ s hresp, hkeys, hexp⟩
    | lockCache | put | time | range | delete => exact (hstoring _ _ _ rfl).append _

theorem stored_dated {t : Steps (jwksSig w)} {q : Prog (jwksSig w) (Result (JwksCacheEntry κ))}
    (h : Path (getJWKSEntry lib endpoint previous) t q) {entry : JwksCacheEntry κ}
    {s : JwksState κ} (hs : (JwksOp.store endpoint entry, s) ∈ t) :
    Dated w lib endpoint previous t entry := by
  have h₀ : DatedAt w lib endpoint previous [] .start := ⟨nofun, nofun⟩
  obtain ⟨pc, -, hdated, -⟩ := Path.locals (EntryPc.prog lib endpoint previous)
    (fun pc o k s h => entry_step lib endpoint previous h s)
    (fun t pc o s pc' hP hm => DatedAt.step hP hm) h₀ h
  exact hdated _ hs entry rfl

end Calls

/-- **Lifetimes.** Whatever other calls do in between, an entry that a call of `getJWKSEntry` stores
expires after the lifetime of its response, counted from the time that the call has read under the
lock; and this lifetime is the one that the header asks for, positive and at most an hour, if and only
if its last directive does not overflow or overflows to an hour or more. -/
theorem getJWKSEntry_lifetime_iff {κ : Type} (w : JwksWorld κ) (lib : JwtLib κ)
    (endpoint : GoString) (previous : Option (JwksCacheEntry κ)) :
    (∀ (t : Steps (jwksSig w)) (q : Prog (jwksSig w) (Result (JwksCacheEntry κ))),
      Path (getJWKSEntry lib endpoint previous) t q →
      ∀ entry s, (JwksOp.store endpoint entry, s) ∈ t →
        ∃ now resp, Performed t (.fetch endpoint previous.isSome now)
            (fun s => w.respond s.fetches endpoint = .ok resp) ∧
          decodeJWKS lib resp = .ok entry.keys ∧
          (RightTTL resp.cacheControl (entry.expiresAt - now) ↔ MaxAgeFits resp.cacheControl)) ∧
      ∀ cacheControl, RightTTL cacheControl (cacheTTL cacheControl) ↔ MaxAgeFits cacheControl := by
  refine ⟨fun t q h entry s hs => ?_, rightTTL_iff⟩
  obtain ⟨now, resp, hp, hkeys, hexp⟩ := stored_dated h hs
  refine ⟨now, resp, hp, hkeys, ?_⟩
  have hsub : entry.expiresAt - now = cacheTTL resp.cacheControl := by omega
  rw [hsub]
  exact rightTTL_iff resp.cacheControl

/-- Every endpoint asks for a lifetime of more than 292 years. -/
def centuriesWorld : JwksWorld Unit where
  respond _ _ := .ok ⟨200, 2, str "\x7b\x7d", none, str "public, max-age=9223372037"⟩
  order := minuteWorld.order

/-- The lifetimes of the entries that a call stores. -/
def storedTTLs (t : Steps (jwksSig centuriesWorld)) : List ℤ :=
  t.filterMap fun e => match e.1 with
    | .store _ entry => some (entry.expiresAt - e.2.now)
    | _ => none

/-- **A lifetime that wraps around.** The product is just above the largest duration, and the entry
has expired long before it is stored. -/
theorem max_age_wraps_around :
    lastMaxAge (str "public, max-age=9223372037") = some 9223372037 ∧
      requestedTTL (str "public, max-age=9223372037") = 3600 * second ∧
      storedTTLs ((getJWKSEntry oneKey (str "https://a/jwks") none).steps nothingCached) =
        [-9223372036709551616] := by
  decide +kernel

end SynitWaf
