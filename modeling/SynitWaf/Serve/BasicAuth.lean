import SynitWaf.Atomic.Ensures
import SynitWaf.Go.Json
import SynitWaf.Serve.Checks

/-!
# The Basic Auth cache is transparent

Requests share a cache of the comparisons that succeeded. Its keys are authentication codes of a
text that is made of user, password and hash; the lengths of the parts make it unambiguous.

* `basicAuthCacheText_injective`: the text determines its parts;
* `Authenticates`: what a call should answer; `VerifiedKeys`: what the cache may hold;
* `authLoop_ensures`, `checkBasicAuth_ensures`: one call;
* **`basicAuthCache_transparent`**: under any interleaving of calls, evictions and purges every call
  answers as it would without the cache.
-/

namespace SynitWaf

open Atomic Go

/-! ## Keys -/

/-- One part of the text of a key. -/
def authPart (part : GoString) : GoString := itoa part.length ++ 0 :: part

theorem basicAuthCacheText_eq (user pass hash : GoString) :
    basicAuthCacheText user pass hash = authPart user ++ (authPart pass ++ (authPart hash ++ [])) := rfl

/-- A part followed by anything can be read back. -/
theorem authPart_append_inj {p q r s : GoString} (h : authPart p ++ r = authPart q ++ s) :
    p = q ∧ r = s := by
  have hread (p r : GoString) : readNumber (authPart p ++ r) = (p.length, 0 :: (p ++ r)) := by
    rw [authPart, List.append_assoc]
    exact readNumber_itoa p.length (by rintro c ⟨⟩; decide)
  have hboth := congrArg readNumber h
  rw [hread, hread, Prod.mk.injEq, List.cons.injEq] at hboth
  exact List.append_inj hboth.2.2 hboth.1

/-- **The text of a key determines its parts.** -/
theorem basicAuthCacheText_injective {user pass hash user' pass' hash' : GoString}
    (h : basicAuthCacheText user pass hash = basicAuthCacheText user' pass' hash') :
    user = user' ∧ pass = pass' ∧ hash = hash' := by
  rw [basicAuthCacheText_eq, basicAuthCacheText_eq] at h
  obtain ⟨hu, h⟩ := authPart_append_inj h
  obtain ⟨hp, h⟩ := authPart_append_inj h
  exact ⟨hu, hp, (authPart_append_inj h).1⟩

/-! ## One call -/

section Call

variable (lib : AuthLib)

/-- Some credential has the name of the user and a hash that matches the password. -/
def Matches (user pass : GoString) (credentials : List BasicAuthCredentials) : Prop :=
  ∃ cred ∈ credentials, cred.user = user ∧ lib.bcryptMatches cred.password pass = true

/-- The request has credentials that match. -/
def Authenticates (r : Request) (credentials : List BasicAuthCredentials) : Prop :=
  ∃ user pass, lib.parseBasicAuth (r.header.get (str "Authorization")) = some (user, pass) ∧
    Matches lib user pass credentials

/-- The keys in the cache are those of comparisons that succeed. -/
def VerifiedKeys (s : BasicAuthState) : Prop :=
  ∀ user pass hash, s.cache (lib.mac (basicAuthCacheText user pass hash)) = true →
    lib.bcryptMatches hash pass = true

/-- The operation adds no other key. -/
def AddsVerified (o : BasicAuthOp) (_ : BasicAuthState) : Prop :=
  ∀ key, o = .cacheAdd key → ∀ user pass hash, lib.mac (basicAuthCacheText user pass hash) = key →
    lib.bcryptMatches hash pass = true

variable {lib}

theorem verifiedKeys_exec (o : BasicAuthOp) (s : BasicAuthState) (ho : AddsVerified lib o s)
    (hs : VerifiedKeys lib s) : VerifiedKeys lib (o.exec s).2 := by
  intro user pass hash h
  cases o with
  | cacheGet key => exact hs user pass hash h
  | purge => cases h
  | cacheAdd key =>
    by_cases hk : lib.mac (basicAuthCacheText user pass hash) = key
    · exact ho key rfl user pass hash hk
    · exact hs user pass hash (by simpa [BasicAuthOp.exec, hk] using h)
  | evict key =>
    by_cases hk : lib.mac (basicAuthCacheText user pass hash) = key
    · simp [BasicAuthOp.exec, hk] at h
    · exact hs user pass hash (by simpa [BasicAuthOp.exec, hk] using h)

theorem matches_cons {user pass : GoString} {cred : BasicAuthCredentials}
    {credentials : List BasicAuthCredentials} : Matches lib user pass (cred :: credentials) ↔
      (cred.user = user ∧ lib.bcryptMatches cred.password pass = true) ∨
        Matches lib user pass credentials := by
  simp [Matches]

/-- **The loop over the credentials**, with a cache of verified keys. -/
theorem authLoop_ensures (hmac : Function.Injective lib.mac) (user pass : GoString)
    (credentials : List BasicAuthCredentials) :
    (authLoop lib user pass credentials).Ensures (VerifiedKeys lib) (AddsVerified lib)
      fun ok => ok = true ↔ Matches lib user pass credentials := by
  induction credentials with
  | nil => simp [authLoop, Matches]
  | cons cred credentials ih =>
    unfold authLoop
    split
    next hne =>
      refine ih.mono (fun _ _ h => h) fun ok hok => ?_
      rw [hok, matches_cons]
      simp [Ne.symm hne]
    next huser =>
      have huser : user = cred.user := Decidable.not_not.mp huser
      intro s hs
      refine ⟨nofun, ?_⟩
      simp only [BasicAuthOp.exec]
      split
      next hcached =>
        have hmatch := hs _ _ _ hcached
        simp [matches_cons, huser, hmatch]
      split
      next hmatch =>
        refine fun s _ => ⟨?_, by simp [matches_cons, huser, hmatch]⟩
        rintro key ⟨⟩ user' pass' hash' hkey
        obtain ⟨-, rfl, rfl⟩ := basicAuthCacheText_injective (hmac hkey)
        exact hmatch
      next hmatch =>
        refine ih.mono (fun _ _ h => h) fun ok hok => ?_
        rw [hok, matches_cons]
        simp [hmatch]

theorem checkBasicAuth_ensures (hmac : Function.Injective lib.mac) (r : Request)
    (credentials : List BasicAuthCredentials) :
    (checkBasicAuth lib r credentials).Ensures (VerifiedKeys lib) (AddsVerified lib)
      fun user => user.isSome = true ↔ Authenticates lib r credentials := by
  unfold checkBasicAuth Authenticates
  cases hparse : lib.parseBasicAuth (r.header.get (str "Authorization")) with
  | none => simp
  | some up =>
    obtain ⟨user, pass⟩ := up
    refine (authLoop_ensures hmac user pass credentials).bind fun ok hok => ?_
    cases ok
    · simpa using hok
    · simpa using hok

theorem authLoop_within (user pass : GoString) (credentials : List BasicAuthCredentials) :
    (authLoop lib user pass credentials).Within (fun _ => True) (2 * credentials.length) := by
  induction credentials with
  | nil => trivial
  | cons cred credentials ih =>
    have hlen : 2 * (cred :: credentials).length = 2 * credentials.length + 1 + 1 := by
      simp only [List.length_cons]
      omega
    unfold authLoop
    split
    · exact ih.le (by omega)
    · rw [hlen]
      intro cached
      dsimp only
      split
      · simp
      split
      · exact fun _ => by simp
      · exact ih.le (by omega)

theorem checkBasicAuth_within (r : Request) (credentials : List BasicAuthCredentials) :
    (checkBasicAuth lib r credentials).Within (fun _ => True) (2 * credentials.length) := by
  unfold checkBasicAuth
  split
  · simp
  · refine (authLoop_within _ _ credentials).bind (m := 0) fun ok _ => ?_
    cases ok <;> trivial

end Call

/-! ## All calls -/

/-- A thread: a call with its credentials, or something that drops keys from the cache. -/
inductive AuthThread where
  | call (r : Request) (credentials : List BasicAuthCredentials)
  | drop (keys : List GoString)
  | purge

/-- Drop keys one by one. -/
def dropKeys : List GoString → Prog basicAuthSig (Option GoString)
  | [] => .ret none
  | key :: keys => .act (.evict key) fun _ => dropKeys keys

/-- The program of a thread. -/
def AuthThread.prog (lib : AuthLib) : AuthThread → Prog basicAuthSig (Option GoString)
  | .call r credentials => checkBasicAuth lib r credentials
  | .drop keys => dropKeys keys
  | .purge => .act .purge fun _ => .ret none

/-- What a thread returns. -/
def AuthThread.Returns (lib : AuthLib) : AuthThread → Option GoString → Prop
  | .call r credentials, user => user.isSome = true ↔ Authenticates lib r credentials
  | _, _ => True

theorem dropKeys_ensures {lib : AuthLib} (keys : List GoString) :
    (dropKeys keys).Ensures (VerifiedKeys lib) (AddsVerified lib) fun _ => True := by
  induction keys with
  | nil => trivial
  | cons key keys ih => exact fun s _ => ⟨nofun, ih⟩

theorem AuthThread.ensures {lib : AuthLib} (hmac : Function.Injective lib.mac) (t : AuthThread) :
    (t.prog lib).Ensures (VerifiedKeys lib) (AddsVerified lib) (t.Returns lib) := by
  cases t with
  | call r credentials => exact checkBasicAuth_ensures hmac r credentials
  | drop keys => exact dropKeys_ensures keys
  | purge => exact fun s _ => ⟨nofun, trivial⟩

/-- The calls and the upkeep of the cache, in the order of a schedule, with an empty cache at the
beginning. -/
def authenticateAll {ι : Type} [DecidableEq ι] (lib : AuthLib) (threads : ι → AuthThread)
    (sched : List ι) : Pool basicAuthSig ι (Option GoString) :=
  (Pool.start (fun i => (threads i).prog lib) ⟨fun _ => false⟩).runs sched

/-- **The cache never changes a decision.** The text of a key determines user, password and hash.
Whatever calls, evictions and purges come between its steps, a call that is scheduled often enough
returns, and it authenticates the user if and only if one of its credentials has the name of the user
and a hash that matches the password. -/
theorem basicAuthCache_transparent {ι : Type} [DecidableEq ι] (lib : AuthLib)
    (hmac : Function.Injective lib.mac) (threads : ι → AuthThread) (sched : List ι) (i : ι)
    (r : Request) (credentials : List BasicAuthCredentials)
    (hi : threads i = .call r credentials) :
    (∀ user pass hash user' pass' hash', basicAuthCacheText user pass hash =
      basicAuthCacheText user' pass' hash' → user = user' ∧ pass = pass' ∧ hash = hash') ∧
    (2 * credentials.length ≤ sched.count i →
      ∃ user, (authenticateAll lib threads sched).threads i = .ret user) ∧
    ∀ user, (authenticateAll lib threads sched).threads i = .ret user →
      (user.isSome = true ↔ ∃ name pass,
        lib.parseBasicAuth (r.header.get (str "Authorization")) = some (name, pass) ∧
          ∃ cred ∈ credentials, cred.user = name ∧ lib.bcryptMatches cred.password pass = true) := by
  refine ⟨fun _ _ _ _ _ _ => basicAuthCacheText_injective, fun hcount => ?_, fun user huser => ?_⟩
  · refine returns_of_within (fun _ _ => rfl) (Q := fun _ => True) ?_ hcount
    rw [hi]
    exact checkBasicAuth_within r credentials
  · have hempty : VerifiedKeys lib ⟨fun _ => false⟩ := fun _ _ _ h => by cases h
    have hall := Pool.ensures (fun i => (threads i).ensures hmac) hempty
      (fun o s ho hs => verifiedKeys_exec o s ho hs) sched
    have hret := hall.2.2 i user huser
    rw [hi] at hret
    exact hret

/-! ## A rotated password -/

/-- A library with passwords in the clear; the header is the password of `alice`. -/
def clearLib : AuthLib where
  parseBasicAuth header := some (str "alice", header)
  bcryptMatches hash pass := hash = pass
  mac := id

/-- A request with the password `old`. -/
def oldPassword : Request where
  method := str "GET"
  host := []
  path := str "/"
  query _ := []
  header _ := [str "old"]
  remoteAddr := []
  tls := false
  contentLength := 0
  body := .noBody

/-- The request before and after the password of `alice` changes. -/
def rotated (i : Fin 2) : AuthThread :=
  .call oldPassword [⟨str "alice", if i = 0 then str "old" else str "new"⟩]

theorem basicAuthCache_transparent_rotated :
    (authenticateAll clearLib rotated [0, 0, 1]).threads 0 = .ret (some (str "alice")) ∧
      (authenticateAll clearLib rotated [0, 0, 1]).threads 1 = .ret none ∧
      ¬ ∃ name pass, clearLib.parseBasicAuth (oldPassword.header.get (str "Authorization")) =
          some (name, pass) ∧ ∃ cred ∈ [(⟨str "alice", str "new"⟩ : BasicAuthCredentials)],
            cred.user = name ∧ clearLib.bcryptMatches cred.password pass = true := by
  have h0 : ((authenticateAll clearLib rotated [0, 0, 1]).threads 0).result? =
      some (some (str "alice")) := by decide +kernel
  have h1 : ((authenticateAll clearLib rotated [0, 0, 1]).threads 1).result? = some none := by
    decide +kernel
  have h1 := Prog.result?_eq_some.mp h1
  have hiff := (basicAuthCache_transparent clearLib Function.injective_id rotated [0, 0, 1] 1
    oldPassword _ rfl).2.2 none h1
  exact ⟨Prog.result?_eq_some.mp h0, h1, fun h => nomatch hiff.mpr h⟩

end SynitWaf
