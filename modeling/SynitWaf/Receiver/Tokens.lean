import Mathlib.Data.List.DropRight
import SynitWaf.Receiver.Store

/-!
# The tokens of the tenants

The receiver knows a tenant by its token. `loadTenantTokens` refuses a token that two tenants share,
byte by byte; what a client sends is compared with it after HTTP has removed the blanks at the end.

* `loadTenantTokens`, `loadTenantTokens_eq_ok`: the tokens that are accepted, in whatever order they
  are visited;
* `tenantIDForToken_eq`: a token has at most one tenant;
* `trimField`, `LogCall.SentWith`: what HTTP leaves of a header; `trimField_bearer`;
* `handleLogs_tenant`: the tenant whose state a request changes;
* **`isolated_iff`**: the token maps for which no request is taken for that of another tenant;
  `padded_token_crosses`: one for which it is.
-/

namespace SynitWaf

open Atomic Go

/-! ## Loading -/

/-- `filepath.Base`. -/
def base (path : GoString) : GoString :=
  if path = [] then str "."
  else
    let path := path.rdropWhile (· = byte '/')
    if path.rtakeWhile (· ≠ byte '/') = [] then str "/" else path.rtakeWhile (· ≠ byte '/')

/-- The bytes of a tenant ID. -/
def isTenantByte (c : UInt8) : Bool :=
  byte 'A' ≤ c ∧ c ≤ byte 'Z' ∨ byte 'a' ≤ c ∧ c ≤ byte 'z' ∨ byte '0' ≤ c ∧ c ≤ byte '9' ∨
    c = byte '_' ∨ c = byte '-'

/-- `tenantIDPattern.MatchString`. -/
def matchTenantID (tenantID : GoString) : Bool :=
  1 ≤ tenantID.length ∧ tenantID.length ≤ 128 ∧ tenantID.all isTenantByte

/-- `minTokenLength`. -/
def minTokenLength : ℕ := 32

/-- The functions of other packages: the verb `%q` and `json.Unmarshal` into a map of strings. -/
structure TokenLib where
  quote : GoString → GoString
  unmarshal : GoString → Result (GoMap GoString)

/-- One round of the loop in `loadTenantTokens`: the tokens seen, with their tenants. -/
def checkToken (lib : TokenLib) (seenTokens : GoMap GoString) (t : GoString × GoString) :
    Result (GoMap GoString) := do
  refuse (matchTenantID t.1 = false ∨ base t.1 ≠ t.1)
    (str "AI_LOG_TOKENS contains invalid tenant ID " ++ lib.quote t.1)
  refuse ((trimSpace t.2).length < minTokenLength)
    (str "AI_LOG_TOKENS token for tenant " ++ lib.quote t.1 ++ str " must be at least " ++
      itoa minTokenLength ++ str " characters")
  match seenTokens.lookup t.2 with
  | some otherTenant =>
    .error (str "AI_LOG_TOKENS reuses one token for tenants " ++ lib.quote otherTenant ++ str " and " ++
      lib.quote t.1)
  | none => .ok (seenTokens.insert t.2 t.1)

/-- `loadTenantTokens`; `order` is the order in which the loop visits the map. -/
def loadTenantTokens (lib : TokenLib) (order : KeyOrder) (raw : GoString) :
    Result (GoMap GoString) := do
  refuse (trimSpace raw = []) (str "AI_LOG_TOKENS is required")
  let tokens ← wrapError (str "parse AI_LOG_TOKENS: ") (lib.unmarshal raw)
  refuse (GoMap.len tokens = 0) (str "AI_LOG_TOKENS must contain at least one tenant token")
  let _ ← (GoMap.visit order tokens).foldlM (checkToken lib) ∅
  return tokens

/-- A tenant ID and a token that are accepted. -/
def GoodToken (tenantID token : GoString) : Prop :=
  matchTenantID tenantID = true ∧ base tenantID = tenantID ∧ minTokenLength ≤ (trimSpace token).length

/-- No two tenants have the same token. -/
def UniqueTokens (tokens : GoMap GoString) : Prop :=
  ∀ tenant other token, tokens.lookup tenant = some token → tokens.lookup other = some token →
    tenant = other

section Load

variable {lib : TokenLib} {order : KeyOrder} {tokens : GoMap GoString}

theorem checkToken_eq_ok {seen seen' : GoMap GoString} {t : GoString × GoString} :
    checkToken lib seen t = .ok seen' ↔
      GoodToken t.1 t.2 ∧ seen.lookup t.2 = none ∧ seen' = seen.insert t.2 t.1 := by
  unfold checkToken GoodToken
  simp only [result_bind_eq_ok, refuse_eq_ok, not_or, Bool.not_eq_false, not_not, not_lt, exists_const]
  cases seen.lookup t.2 with
  | some other => simp
  | none => simp [and_assoc, @eq_comm _ seen']

theorem foldlM_checkToken_eq_ok {l : List (GoString × GoString)} {seen : GoMap GoString} :
    (∃ seen', l.foldlM (checkToken lib) seen = .ok seen') ↔
      (∀ t ∈ l, GoodToken t.1 t.2 ∧ seen.lookup t.2 = none) ∧ (l.map Prod.snd).Nodup := by
  induction l generalizing seen with
  | nil => simp [pure, Except.pure]
  | cons t l ih =>
    simp only [List.foldlM_cons, result_bind_eq_ok]
    constructor
    · rintro ⟨seen', m, ht, hl⟩
      obtain ⟨hgood, hnew, rfl⟩ := checkToken_eq_ok.mp ht
      obtain ⟨hall, hnodup⟩ := ih.mp ⟨seen', hl⟩
      have hne : ∀ x ∈ l, x.2 ≠ t.2 := by
        rintro x hx heq
        simpa [heq] using (hall x hx).2
      have hnotMem : t.2 ∉ l.map Prod.snd := by
        rintro hmem
        obtain ⟨x, hx, heq⟩ := List.mem_map.mp hmem
        exact hne x hx heq
      refine ⟨?_, List.nodup_cons.mpr ⟨hnotMem, hnodup⟩⟩
      rintro x (_ | ⟨_, hx⟩)
      · exact ⟨hgood, hnew⟩
      · refine ⟨(hall x hx).1, ?_⟩
        rw [← (hall x hx).2, AList.lookup_insert_ne (hne x hx)]
    · rintro ⟨hall, hnodup⟩
      obtain ⟨ht, hnodup⟩ := List.nodup_cons.mp hnodup
      obtain ⟨hgood, hnew⟩ := hall t List.mem_cons_self
      have hrest : ∀ x ∈ l, GoodToken x.1 x.2 ∧ (seen.insert t.2 t.1).lookup x.2 = none := by
        intro x hx
        have hne : x.2 ≠ t.2 := fun heq => ht (heq ▸ List.mem_map_of_mem hx)
        rw [AList.lookup_insert_ne hne]
        exact hall x (List.mem_cons_of_mem _ hx)
      obtain ⟨seen', hl⟩ := ih.mpr ⟨hrest, hnodup⟩
      exact ⟨seen', _, checkToken_eq_ok.mpr ⟨hgood, hnew, rfl⟩, hl⟩

/-- The tokens of a map are different exactly if those of any visit are. -/
theorem nodup_visit_snd : ((GoMap.visit order tokens).map Prod.snd).Nodup ↔ UniqueTokens tokens := by
  have hfst : (GoMap.visit order tokens).Nodup :=
    List.Nodup.of_map Prod.fst (visit_keys_nodup order tokens)
  rw [List.nodup_map_iff_inj_on hfst]
  constructor
  · intro h tenant other token ht ho
    exact congrArg Prod.fst (h (tenant, token) ((mem_visit order tokens).mpr ht) (other, token)
      ((mem_visit order tokens).mpr ho) rfl)
  · rintro h ⟨tenant, token⟩ ht ⟨other, _⟩ ho rfl
    rw [h tenant other token ((mem_visit order tokens).mp ht) ((mem_visit order tokens).mp ho)]

/-- **The tokens that are accepted**; the order in which they are visited does not matter. -/
theorem loadTenantTokens_eq_ok {raw : GoString} :
    loadTenantTokens lib order raw = .ok tokens ↔
      trimSpace raw ≠ [] ∧ lib.unmarshal raw = .ok tokens ∧ GoMap.len tokens ≠ 0 ∧
        (∀ tenant token, tokens.lookup tenant = some token → GoodToken tenant token) ∧
        UniqueTokens tokens := by
  have hloop : (∃ seen, (GoMap.visit order tokens).foldlM (checkToken lib) ∅ = .ok seen) ↔
      (∀ tenant token, tokens.lookup tenant = some token → GoodToken tenant token) ∧
        UniqueTokens tokens := by
    rw [foldlM_checkToken_eq_ok, nodup_visit_snd]
    refine and_congr_left fun _ => ⟨fun h tenant token ht => ?_, fun h t ht => ?_⟩
    · exact (h (tenant, token) ((mem_visit order tokens).mpr ht)).1
    · exact ⟨h t.1 t.2 ((mem_visit order tokens).mp ht), AList.lookup_empty _⟩
  rw [← hloop]
  unfold loadTenantTokens
  simp only [result_bind_eq_ok, refuse_eq_ok, wrapError_eq_ok, exists_const]
  constructor
  · rintro ⟨hraw, m, hm, hlen, seen, hseen, hret⟩
    cases hret
    exact ⟨hraw, hm, hlen, seen, hseen⟩
  · rintro ⟨hraw, hm, hlen, seen, hseen⟩
    exact ⟨hraw, tokens, hm, hlen, seen, hseen, rfl⟩

end Load

/-! ## Tenants of tokens -/

section Resolve

variable {tokens : GoMap GoString} {tenant token : GoString}

theorem tenantIDForToken_cases (order : KeyOrder) (tokens : GoMap GoString) (candidate : GoString) :
    tenantIDForToken order tokens candidate = [] ∨
      tokens.lookup (tenantIDForToken order tokens candidate) = some candidate := by
  unfold tenantIDForToken
  cases hfind : (GoMap.visit order tokens).find? fun t => t.2 = candidate with
  | none => exact .inl rfl
  | some t =>
    have hmem := List.mem_of_find?_eq_some hfind
    have hcandidate : t.2 = candidate := by simpa using List.find?_some hfind
    rw [← hcandidate]
    exact .inr ((mem_visit order tokens).mp hmem)

/-- **A token has at most one tenant**, which every visit finds. -/
theorem tenantIDForToken_eq (hu : UniqueTokens tokens) (h : tokens.lookup tenant = some token)
    (order : KeyOrder) : tenantIDForToken order tokens token = tenant := by
  have hfound : ((GoMap.visit order tokens).find? fun t => t.2 = token).isSome := by
    rw [List.find?_isSome]
    exact ⟨(tenant, token), (mem_visit order tokens).mpr h, by simp⟩
  obtain ⟨t, ht⟩ := Option.isSome_iff_exists.mp hfound
  have hmem := (mem_visit order tokens).mp (List.mem_of_find?_eq_some ht)
  have htoken : t.2 = token := by simpa using List.find?_some ht
  rw [tenantIDForToken, ht]
  exact hu t.1 tenant token (htoken ▸ hmem) h

theorem tenantIDForToken_eq_nil {candidate : GoString} (h : ∀ t, tokens.lookup t ≠ some candidate)
    (order : KeyOrder) : tenantIDForToken order tokens candidate = [] :=
  (tenantIDForToken_cases order tokens candidate).resolve_right (h _)

end Resolve

/-! ## Headers on receipt -/

/-- The bytes that HTTP removes around the value of a header. -/
def isFieldBlank (c : UInt8) : Bool := c = byte ' ' ∨ c = byte '\t'

/-- What a server receives of the value of a header. -/
def trimField (value : GoString) : GoString := (value.dropWhile isFieldBlank).rdropWhile isFieldBlank

/-- What a client that sends a token is compared with. -/
def receivedToken (token : GoString) : GoString := token.rdropWhile isFieldBlank

/-- The request was sent with the header `Authorization: Bearer` and the token. -/
def LogCall.SentWith (c : LogCall) (token : GoString) : Prop :=
  c.request.header.get (str "Authorization") = trimField (str "Bearer " ++ token)

theorem trimWords_spaces_eq_nil {n : ℕ} {s : GoString} (hn : s.length ≤ n)
    (h : ∀ c ∈ s, isFieldBlank c = true) : trimWords spaces n s = [] := by
  induction n generalizing s with
  | zero => exact List.eq_nil_of_length_eq_zero (Nat.le_zero.mp hn)
  | succ n ih =>
    cases s with
    | nil =>
      have hnone : spaces.find? (fun w => hasPrefix [] w) = none := by decide
      rw [trimWords, hnone]
    | cons c s =>
      -- a blank starts no other word than itself
      have hfind : ∃ w, spaces.find? (fun w => hasPrefix (c :: s) w) = some w ∧ w.length = 1 := by
        have hc : c = byte '\t' ∨ c = byte ' ' := by
          simpa [isFieldBlank, or_comm] using h c List.mem_cons_self
        rcases hc with rfl | rfl
        · exact ⟨[0x09], by simp [spaces, hasPrefix, byte], rfl⟩
        · exact ⟨[0x20], by simp [spaces, hasPrefix, byte], rfl⟩
      obtain ⟨w, hw, hlen⟩ := hfind
      simp only [trimWords, hw, hlen, List.drop_one, List.tail_cons]
      refine ih ?_ fun x hx => h x (List.mem_cons_of_mem _ hx)
      simpa using hn

theorem GoodToken.exists_not_blank {tenant token : GoString} (h : GoodToken tenant token) :
    ∃ c ∈ token, isFieldBlank c = false := by
  by_contra hblank
  push Not at hblank
  have hnil : trimSpace token = [] := by
    have hleft := trimWords_spaces_eq_nil le_rfl fun c hc => by simpa using hblank c hc
    simp [trimSpace, hleft, trimWords]
  have hlen := h.2.2
  rw [hnil] at hlen
  exact absurd hlen (by decide)

/-- **What is left of a header** with a token that is not blank. -/
theorem trimField_bearer {token : GoString} (h : ∃ c ∈ token, isFieldBlank c = false) :
    trimField (str "Bearer " ++ token) = str "Bearer " ++ receivedToken token := by
  have hhead : (str "Bearer " ++ token).dropWhile isFieldBlank = str "Bearer " ++ token := by
    have hstr : str "Bearer " = byte 'B' :: str "earer " := by decide
    have hb : isFieldBlank (byte 'B') = false := by decide
    rw [hstr, List.cons_append, List.dropWhile_cons_of_neg (by simp [hb])]
  have hrest : (token.reverse.dropWhile isFieldBlank).isEmpty = false := by
    obtain ⟨c, hc, hblank⟩ := h
    rw [List.isEmpty_eq_false_iff, ne_eq, List.dropWhile_eq_nil_iff]
    exact fun hall => by simp [hall c (List.mem_reverse.mpr hc)] at hblank
  rw [trimField, hhead, receivedToken, List.rdropWhile, List.reverse_append, List.dropWhile_append,
    hrest, if_neg (by simp), List.reverse_append, List.reverse_reverse]
  rfl

section Call

variable {lib : ReceiverLib} {lr : LogReceiver} {c : LogCall} {token : GoString}

theorem LogCall.SentWith.header (h : c.SentWith token) (ht : ∃ b ∈ token, isFieldBlank b = false) :
    c.request.header.get (str "Authorization") = str "Bearer " ++ receivedToken token :=
  h.trans (trimField_bearer ht)

theorem LogCall.SentWith.tenantID (h : c.SentWith token)
    (ht : ∃ b ∈ token, isFieldBlank b = false) :
    c.tenantID lib lr = tenantIDForToken lib.tokenOrder lr.tokens (receivedToken token) := by
  rw [LogCall.tenantID, h.header ht, List.drop_left]

/-! ## The tenant of a request -/

/-- The tenant whose state an operation changes. -/
def ReceiverOp.tenant? : ReceiverOp → Option GoString
  | .allowRequest tenant _ _ => some tenant
  | .store tenant _ _ _ _ => some tenant
  | _ => none

/-- The operation changes the state of no tenant but that of the token. -/
def LogCall.ServesOwn (lib : ReceiverLib) (lr : LogReceiver) (c : LogCall) (o : ReceiverOp) : Prop :=
  ∀ tenant, o.tenant? = some tenant → tenant = c.tenantID lib lr ∧ tenant ≠ []

theorem LogCall.Accepting.servesOwn {o : ReceiverOp} (h : c.Accepting lib lr o) :
    c.ServesOwn lib lr o := by
  cases h with
  | check => exact nofun
  | record => exact nofun
  | allow hne =>
    rintro tenant ⟨⟩
    exact ⟨rfl, hne⟩

/-- **A request changes the state of the tenant of its token**, or of none. -/
theorem handleLogs_tenant :
    (handleLogs lib lr c).Ensures (fun _ => True) (fun o _ => c.ServesOwn lib lr o)
      (fun _ => True) := by
  refine (acceptLogs_spec.mono (fun _ _ h => h.servesOwn) fun _ h => h).bind fun res hres => ?_
  cases res with
  | error reply => trivial
  | ok accepted =>
    intro s _
    refine ⟨?_, trivial⟩
    rintro tenant ⟨⟩
    exact ⟨hres.1.1, hres.2 accepted rfl⟩

end Call

/-! ## Isolation -/

/-- A request that was sent with the token of a tenant changes the state of no other tenant, whatever
the limits of the receiver, its libraries, the orders of its maps, and the other requests are. -/
def Isolated (tokens : GoMap GoString) : Prop :=
  ∀ (lib : ReceiverLib) (lr : LogReceiver) (c : LogCall) (tenant token : GoString),
    lr.tokens = tokens → tokens.lookup tenant = some token → c.SentWith token →
      ∀ steps q, Path (handleLogs lib lr c) steps q →
        ∀ e ∈ steps, ∀ other, e.1.tenant? = some other → other = tenant

/-- No token is what HTTP leaves of the token of another tenant. -/
def TrimmedApart (tokens : GoMap GoString) : Prop :=
  ∀ tenant other token, tenant ≠ other → tokens.lookup tenant = some token →
    tokens.lookup other ≠ some (receivedToken token)

/-- A request as a client with this token sends it. -/
def sentCall (token : GoString) : LogCall :=
  { tinyCall "1" .clean with
    request.header := fun name =>
      if name = str "Authorization" then [trimField (str "Bearer " ++ token)]
      else if name = str "Content-Type" then [str "application/x-ndjson"]
      else [] }

theorem sentCall_sentWith (token : GoString) : (sentCall token).SentWith token := rfl

/-- The request is taken for that of the tenant whose token is left of the header. -/
theorem sentCall_serves {tokens : GoMap GoString} {token other : GoString}
    (ht : ∃ b ∈ token, isFieldBlank b = false) (hu : UniqueTokens tokens) (hne : other ≠ [])
    (ho : tokens.lookup other = some (receivedToken token)) :
    ∃ e ∈ (handleLogs tinyLib ⟨tokens, 0, 0, 0⟩ (sentCall token)).steps .start,
      e.1.tenant? = some other := by
  have hheader := (sentCall_sentWith token).header ht
  have htenant : (sentCall token).tenantID tinyLib ⟨tokens, 0, 0, 0⟩ = other := by
    rw [(sentCall_sentWith token).tenantID ht]
    exact tenantIDForToken_eq hu ho _
  have hbearer : hasPrefix ((sentCall token).request.header.get (str "Authorization"))
      (str "Bearer ") = true := by
    rw [hheader, hasPrefix, List.isPrefixOf_iff_prefix]
    exact List.prefix_append _ _
  have hmedia : (sentCall token).request.header.get (str "Content-Type") =
      str "application/x-ndjson" := rfl
  refine ⟨(.allowRequest other 0 600, .start), ?_, rfl⟩
  have haccept : acceptLogs tinyLib ⟨tokens, 0, 0, 0⟩ (sentCall token) =
      .act (.blocked (remoteIP (sentCall token).request) 0) fun (isBlocked : Bool) =>
        if isBlocked then .ret (.error (.error 429 (str "Too Many Requests")))
        else readLogs tinyLib ⟨tokens, 0, 0, 0⟩ (sentCall token) other
          (str "application/x-ndjson") := by
    have hpost : ¬ (sentCall token).request.method ≠ str "POST" := not_not.mpr rfl
    have hparse : tinyLib.parseMediaType (str "application/x-ndjson") =
        some (str "application/x-ndjson") := rfl
    have hlength : ¬ LogReceiver.maxRequestBytes (LogReceiver.limits ⟨tokens, 0, 0, 0⟩) <
        (sentCall token).request.contentLength := by
      change ¬ (10 * 1024 * 1024 : ℤ) < -1
      decide
    simp only [acceptLogs, if_neg hpost, hbearer, htenant, hmedia, hparse, if_neg hne, if_neg hlength]
    rfl
  rw [handleLogs, haccept]
  exact List.mem_cons_of_mem _ List.mem_cons_self

/-- **Tenants are isolated** exactly if no token is that of another tenant without the blanks at its
end. A token has at most one tenant in any case. -/
theorem isolated_iff {lib : TokenLib} {order : KeyOrder} {raw : GoString} {tokens : GoMap GoString}
    (h : loadTenantTokens lib order raw = .ok tokens) :
    (∀ candidate tenant other, tokens.lookup tenant = some candidate →
      tokens.lookup other = some candidate → tenant = other) ∧
    (∀ candidate order order',
      tenantIDForToken order tokens candidate = tenantIDForToken order' tokens candidate) ∧
    (Isolated tokens ↔ TrimmedApart tokens) := by
  obtain ⟨-, -, -, hgood, hu⟩ := loadTenantTokens_eq_ok.mp h
  refine ⟨fun candidate tenant other => hu tenant other candidate, fun candidate order order' => ?_,
    ?_, ?_⟩
  · by_cases hex : ∃ t, tokens.lookup t = some candidate
    · obtain ⟨t, ht⟩ := hex
      rw [tenantIDForToken_eq hu ht, tenantIDForToken_eq hu ht]
    · push Not at hex
      rw [tenantIDForToken_eq_nil hex, tenantIDForToken_eq_nil hex]
  · intro hiso tenant other token hne ht ho
    have hother : other ≠ [] := by
      rintro rfl
      exact absurd (hgood _ _ ho).1 (by decide)
    obtain ⟨e, he, hserves⟩ :=
      sentCall_serves (hgood _ _ ht).exists_not_blank hu hother ho
    exact hne (hiso tinyLib ⟨tokens, 0, 0, 0⟩ (sentCall token) tenant token rfl ht
      (sentCall_sentWith token) _ _ (Prog.path_steps _ _) e he other hserves).symm
  · intro hapart lib lr c tenant token htokens ht hsent steps q hpath e he other hother
    subst htokens
    obtain ⟨hid, hne⟩ := (handleLogs_tenant.path hpath fun _ _ => trivial).2 e he other hother
    rw [hsent.tenantID (hgood _ _ ht).exists_not_blank] at hid
    have hfound := (tenantIDForToken_cases lib.tokenOrder lr.tokens (receivedToken token)).resolve_left
      (hid ▸ hne)
    rw [← hid] at hfound
    by_contra hdiff
    exact hapart tenant other token (Ne.symm hdiff) ht hfound

/-- The tokens of two tenants. -/
def pairTokens (x y : GoString) : GoMap GoString :=
  ((∅ : GoMap GoString).insert (str "a") x).insert (str "b") y

theorem pairTokens_lookup {x y tenant token : GoString}
    (h : (pairTokens x y).lookup tenant = some token) :
    tenant = str "a" ∧ token = x ∨ tenant = str "b" ∧ token = y := by
  by_cases hb : tenant = str "b"
  · subst hb
    rw [pairTokens, AList.lookup_insert] at h
    exact .inr ⟨rfl, (Option.some.inj h).symm⟩
  rw [pairTokens, AList.lookup_insert_ne hb] at h
  by_cases ha : tenant = str "a"
  · subst ha
    rw [AList.lookup_insert] at h
    exact .inl ⟨rfl, (Option.some.inj h).symm⟩
  · rw [AList.lookup_insert_ne ha] at h
    cases h

/-- A library that reads these tokens from every text. -/
def pairLib (x y : GoString) : TokenLib := ⟨id, fun _ => .ok (pairTokens x y)⟩

/-- A token of 32 equal letters. -/
def letters (c : Char) : GoString := List.replicate 32 (byte c)

theorem isolated_iff_letters :
    loadTenantTokens (pairLib (letters 'x') (letters 'y')) insertionOrder (str "tokens") =
        .ok (pairTokens (letters 'x') (letters 'y')) ∧
      Isolated (pairTokens (letters 'x') (letters 'y')) := by
  have h : loadTenantTokens (pairLib (letters 'x') (letters 'y')) insertionOrder (str "tokens") =
      .ok (pairTokens (letters 'x') (letters 'y')) := rfl
  refine ⟨h, (isolated_iff h).2.2.mpr ?_⟩
  intro tenant other token hne ht ho
  have hdiff : receivedToken (letters 'x') ≠ letters 'y' ∧ receivedToken (letters 'y') ≠ letters 'x' := by
    decide
  obtain ⟨rfl, rfl⟩ | ⟨rfl, rfl⟩ := pairTokens_lookup ht <;>
    obtain ⟨rfl, heq⟩ | ⟨rfl, heq⟩ := pairTokens_lookup ho
  · exact hne rfl
  · exact hdiff.1 heq
  · exact hdiff.2 heq
  · exact hne rfl

/-- A run of a request with a padded token. -/
def paddedRun : LogReply × ReceiverState :=
  (handleLogs tinyLib ⟨pairTokens (letters 'x' ++ str " ") (letters 'x'), 0, 0, 0⟩
    (sentCall (letters 'x' ++ str " "))).run .start

/-- **A padded token crosses over.** Two tokens that differ in a blank at the end are accepted; a
request with the one of `a` is stored for `b`. -/
theorem padded_token_crosses :
    loadTenantTokens (pairLib (letters 'x' ++ str " ") (letters 'x')) insertionOrder (str "tokens") =
        .ok (pairTokens (letters 'x' ++ str " ") (letters 'x')) ∧
      (pairTokens (letters 'x' ++ str " ") (letters 'x')).lookup (str "a") =
        some (letters 'x' ++ str " ") ∧
      (sentCall (letters 'x' ++ str " ")).SentWith (letters 'x' ++ str " ") ∧
      paddedRun.1 = .ok ∧ paddedRun.2.file (str "b") (str "day.log") = str "1\n" ∧
      paddedRun.2.file (str "a") (str "day.log") = [] := by
  refine ⟨rfl, rfl, rfl, ?_⟩
  decide +kernel

end SynitWaf
