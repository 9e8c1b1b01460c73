import SynitWaf.BigEndian
import SynitWaf.Jwks.Model

/-!
# Parsing a published key

* `KeyLib`: what the standard library does; `PublicKey`;
* `decodeBase64URL`, `decodeBase64UrlUint`, `uncompressedPoint`, `parseJWK`;
* `uncompressedPoint_eq`: the point is the two coordinates, padded to their width;
* `Denotes`: a key is the one that was published; `ExponentFits`;
* **`parseJWK_denotes_iff`**: a key that is accepted is the published one, unless it is an RSA key
  with an exponent that no `int` holds; `exponent_wraps_around`: such a key.
-/

namespace SynitWaf

open Go BigEndian

/-! ## Keys -/

/-- The curves that are supported. -/
inductive Curve where
  | p256
  | p384
  | p521
  deriving DecidableEq

/-- `rsa.PublicKey`, `ecdsa.PublicKey`, given by its curve and its uncompressed point, and
`ed25519.PublicKey`. -/
inductive PublicKey where
  | rsa (n : ℕ) (e : ℤ)
  | ecdsa (curve : Curve) (point : GoString)
  | ed25519 (x : GoString)
  deriving DecidableEq

/-- The functions of the standard library: the two decoders of Base64, and the error of
`ecdsa.ParseUncompressedPublicKey`, if it returns one. -/
structure KeyLib where
  rawURLEncoding : GoString → Result GoString
  urlEncoding : GoString → Result GoString
  parseUncompressedPublicKey : Curve → GoString → Option GoString

/-- The member if it is a string, and the empty string otherwise. -/
def stringMember (jwkMap : GoMap JsonValue) (name : String) : GoString :=
  match jwkMap.lookup (str name) with
  | some (.string s) => s
  | _ => []

/-- `elliptic.P256` and so on, with `coordinateSize`. -/
def curveNamed (crv : GoString) : Option (Curve × ℕ) :=
  if crv = str "P-256" then some (.p256, 32)
  else if crv = str "P-384" then some (.p384, 48)
  else if crv = str "P-521" then some (.p521, 66)
  else none

/-- `copy(dst[lo:hi], src)`. -/
def copySlice (dst : GoString) (lo hi : ℕ) (src : GoString) : GoString :=
  dst.take lo ++ src.take (hi - lo) ++ dst.drop (lo + min (hi - lo) src.length)

/-- `publicKey`, made from the coordinates. -/
def uncompressedPoint (coordinateSize : ℕ) (x y : GoString) : GoString :=
  let publicKey := (List.replicate (1 + 2 * coordinateSize) (0 : UInt8)).set 0 4
  let publicKey := copySlice publicKey (1 + coordinateSize - x.length) (1 + coordinateSize) x
  copySlice publicKey (1 + 2 * coordinateSize - y.length) publicKey.length y

/-- The loop over the bytes of the exponent, on an `int` of 64 bits. -/
def readExponent (eBytes : GoString) : ℤ :=
  (eBytes.foldl (fun (e : BitVec 64) b => e <<< 8 ||| b.toBitVec.setWidth 64) 0).toInt

section Parse

variable (lib : KeyLib)

/-- `decodeBase64URL`. -/
def decodeBase64URL (s : GoString) : Result GoString :=
  match lib.rawURLEncoding s with
  | .error _ => lib.urlEncoding s
  | .ok b => .ok b

/-- `decodeBase64UrlUint`. -/
def decodeBase64UrlUint (s : GoString) : Result ℕ := do
  let b ← decodeBase64URL lib s
  return ofBytes b

/-- The case of RSA. The source writes the decoding of the exponent out. -/
def parseRSA (jwkMap : GoMap JsonValue) : Result PublicKey := do
  let nStr := stringMember jwkMap "n"
  let eStr := stringMember jwkMap "e"
  refuse (nStr = [] ∨ eStr = []) (str "missing n or e in RSA JWK")
  let n ← decodeBase64UrlUint lib nStr
  let eBytes ← decodeBase64URL lib eStr
  return .rsa n (readExponent eBytes)

/-- The case of an elliptic curve. -/
def parseEC (jwkMap : GoMap JsonValue) : Result PublicKey := do
  let crv := stringMember jwkMap "crv"
  let xStr := stringMember jwkMap "x"
  let yStr := stringMember jwkMap "y"
  refuse (crv = [] ∨ xStr = [] ∨ yStr = []) (str "missing crv, x, or y in EC JWK")
  match curveNamed crv with
  | none => .error (str "unsupported EC curve: " ++ crv)
  | some (curve, coordinateSize) => do
    let x ← decodeBase64URL lib xStr
    let y ← decodeBase64URL lib yStr
    refuse (x.length > coordinateSize ∨ y.length > coordinateSize)
      (str "invalid EC coordinate size")
    let publicKey := uncompressedPoint coordinateSize x y
    checkError (str "parse EC public key: ") (lib.parseUncompressedPublicKey curve publicKey)
    return .ecdsa curve publicKey

/-- The case of Ed25519. -/
def parseOKP (jwkMap : GoMap JsonValue) : Result PublicKey := do
  let crv := stringMember jwkMap "crv"
  let xStr := stringMember jwkMap "x"
  refuse (crv ≠ str "Ed25519") (str "unsupported OKP curve: " ++ crv)
  let x ← decodeBase64URL lib xStr
  refuse (x.length ≠ 32) (str "invalid Ed25519 public key size")
  return .ed25519 x

/-- `parseJWK`. -/
def parseJWK (jwkMap : GoMap JsonValue) : Result PublicKey :=
  let kty := stringMember jwkMap "kty"
  if kty = str "RSA" then parseRSA lib jwkMap
  else if kty = str "EC" then parseEC lib jwkMap
  else if kty = str "OKP" then parseOKP lib jwkMap
  else .error (str "unsupported key type: " ++ kty)

end Parse

/-! ## The point -/

/-- A source that is copied to the end of a block of zeros. -/
theorem copySlice_padded {n lo hi : ℕ} {src : GoString} (pre post : GoString)
    (h : src.length ≤ n) (hlo : lo + src.length = hi) (hhi : hi = pre.length + n) :
    copySlice (pre ++ List.replicate n 0 ++ post) lo hi src =
      pre ++ (List.replicate (n - src.length) 0 ++ src) ++ post := by
  obtain ⟨a, rfl⟩ := Nat.exists_eq_add_of_le' h
  have hstart : lo = (pre ++ List.replicate a (0 : UInt8)).length := by
    rw [List.length_append, List.length_replicate]
    omega
  have hsplit : pre ++ List.replicate (a + src.length) 0 ++ post =
      pre ++ List.replicate a 0 ++ (List.replicate src.length 0 ++ post) := by
    rw [← List.replicate_append_replicate]
    simp only [List.append_assoc]
  have hdrop : (List.replicate src.length (0 : UInt8) ++ post).drop src.length = post :=
    List.drop_left' List.length_replicate
  rw [copySlice, ← hlo, Nat.add_sub_cancel_left, Nat.min_self, List.take_length, hsplit, hstart,
    List.take_left, ← List.drop_drop, List.drop_left, hdrop, Nat.add_sub_cancel, List.append_assoc pre]

/-- Each coordinate stands at the end of its half. -/
theorem uncompressedPoint_eq {size : ℕ} {x y : GoString} (hx : x.length ≤ size)
    (hy : y.length ≤ size) :
    uncompressedPoint size x y =
      4 :: (List.replicate (size - x.length) 0 ++ x) ++
        (List.replicate (size - y.length) 0 ++ y) := by
  have hbuffer : (List.replicate (1 + 2 * size) (0 : UInt8)).set 0 4 =
      [4] ++ List.replicate size 0 ++ List.replicate size 0 := by
    rw [Nat.add_comm 1, List.replicate_succ, List.set_cons_zero, Nat.two_mul,
      ← List.replicate_append_replicate]
    rfl
  have hfirst : copySlice ([4] ++ List.replicate size 0 ++ List.replicate size 0)
      (1 + size - x.length) (1 + size) x =
      [4] ++ (List.replicate (size - x.length) 0 ++ x) ++ List.replicate size 0 :=
    copySlice_padded _ _ hx (by omega) rfl
  have hhalf : ([4] ++ (List.replicate (size - x.length) 0 ++ x)).length = 1 + size := by
    simp
    omega
  have hsecond : copySlice ([4] ++ (List.replicate (size - x.length) 0 ++ x) ++
      List.replicate size 0 ++ []) (1 + 2 * size - y.length) (1 + size + size) y =
      [4] ++ (List.replicate (size - x.length) 0 ++ x) ++
        (List.replicate (size - y.length) 0 ++ y) ++ [] :=
    copySlice_padded _ _ hy (by omega) (by rw [hhalf])
  unfold uncompressedPoint
  simp only [hbuffer, hfirst]
  rw [List.length_append, hhalf, List.length_replicate]
  rwa [List.append_nil, List.append_nil] at hsecond

/-! ## The published key -/

/-- The exponent of an RSA key, if it has one, fits into an `int`. -/
def ExponentFits (lib : KeyLib) (jwkMap : GoMap JsonValue) : Prop :=
  stringMember jwkMap "kty" = str "RSA" →
    ∀ eBytes, decodeBase64URL lib (stringMember jwkMap "e") = .ok eBytes → ofBytes eBytes < 2 ^ 63

/-- The key is the published one. -/
def Denotes (lib : KeyLib) (jwkMap : GoMap JsonValue) : PublicKey → Prop
  | .rsa n e =>
    ∃ nBytes eBytes, decodeBase64URL lib (stringMember jwkMap "n") = .ok nBytes ∧
      decodeBase64URL lib (stringMember jwkMap "e") = .ok eBytes ∧
      n = ofBytes nBytes ∧ e = ofBytes eBytes
  | .ecdsa curve point =>
    ∃ coordinateSize x y xBytes yBytes,
      curveNamed (stringMember jwkMap "crv") = some (curve, coordinateSize) ∧
      decodeBase64URL lib (stringMember jwkMap "x") = .ok x ∧
      decodeBase64URL lib (stringMember jwkMap "y") = .ok y ∧
      point = 4 :: xBytes ++ yBytes ∧
      Encodes coordinateSize (ofBytes x) xBytes ∧ Encodes coordinateSize (ofBytes y) yBytes ∧
      lib.parseUncompressedPublicKey curve point = none
  | .ed25519 x =>
    decodeBase64URL lib (stringMember jwkMap "x") = .ok x ∧ x.length = 32

section Denotes

variable {lib : KeyLib} {jwkMap : GoMap JsonValue} {key : PublicKey}

theorem parseRSA_eq_ok (h : parseRSA lib jwkMap = .ok key) :
    ∃ nBytes eBytes, decodeBase64URL lib (stringMember jwkMap "n") = .ok nBytes ∧
      decodeBase64URL lib (stringMember jwkMap "e") = .ok eBytes ∧
      key = .rsa (ofBytes nBytes) (readExponent eBytes) := by
  obtain ⟨-, -, h⟩ := result_bind_eq_ok.mp h
  obtain ⟨n, hn, h⟩ := result_bind_eq_ok.mp h
  obtain ⟨nBytes, hnBytes, hn⟩ := result_bind_eq_ok.mp hn
  obtain ⟨eBytes, heBytes, h⟩ := result_bind_eq_ok.mp h
  cases hn
  cases h
  exact ⟨nBytes, eBytes, hnBytes, heBytes, rfl⟩

theorem parseEC_eq_ok (h : parseEC lib jwkMap = .ok key) :
    ∃ curve point, key = .ecdsa curve point ∧ Denotes lib jwkMap (.ecdsa curve point) := by
  obtain ⟨-, -, h⟩ := result_bind_eq_ok.mp h
  split at h
  next => cases h
  next curve size hcurve =>
    obtain ⟨x, hx, h⟩ := result_bind_eq_ok.mp h
    obtain ⟨y, hy, h⟩ := result_bind_eq_ok.mp h
    obtain ⟨_, hsize, h⟩ := result_bind_eq_ok.mp h
    obtain ⟨_, hpoint, h⟩ := result_bind_eq_ok.mp h
    cases h
    obtain ⟨hxs, hys⟩ := not_or.mp (refuse_eq_ok.mp hsize)
    rw [not_lt] at hxs hys
    exact ⟨curve, _, rfl, size, x, y, _, _, hcurve, hx, hy, uncompressedPoint_eq hxs hys,
      encodes_padded hxs, encodes_padded hys, checkError_eq_ok.mp hpoint⟩

theorem parseOKP_eq_ok (h : parseOKP lib jwkMap = .ok key) :
    ∃ x, key = .ed25519 x ∧ Denotes lib jwkMap (.ed25519 x) := by
  obtain ⟨-, -, h⟩ := result_bind_eq_ok.mp h
  obtain ⟨x, hx, h⟩ := result_bind_eq_ok.mp h
  obtain ⟨_, hsize, h⟩ := result_bind_eq_ok.mp h
  cases h
  exact ⟨x, rfl, hx, not_not.mp (refuse_eq_ok.mp hsize)⟩

theorem readExponent_eq_iff (eBytes : GoString) :
    readExponent eBytes = ofBytes eBytes ↔ ofBytes eBytes < 2 ^ 63 :=
  foldl_shiftIn_toInt_eq_iff (by decide) eBytes

end Denotes

/-- **Published keys.** A key that `parseJWK` accepts is the published one, for encodings of any
length, if and only if it is not an RSA key whose exponent needs more than 63 bits. -/
theorem parseJWK_denotes_iff {lib : KeyLib} {jwkMap : GoMap JsonValue} {key : PublicKey}
    (h : parseJWK lib jwkMap = .ok key) :
    Denotes lib jwkMap key ↔ ExponentFits lib jwkMap := by
  have hfits : stringMember jwkMap "kty" ≠ str "RSA" → ExponentFits lib jwkMap :=
    fun hkty hrsa => absurd hrsa hkty
  unfold parseJWK at h
  dsimp only at h
  split at h
  next hkty =>
    obtain ⟨nBytes, eBytes, hn, he, rfl⟩ := parseRSA_eq_ok h
    constructor
    · rintro ⟨-, eBytes', -, he', -, hexp⟩ - eBytes'' he''
      cases he.symm.trans he'
      cases he.symm.trans he''
      exact (readExponent_eq_iff eBytes).mp hexp
    · intro hlt
      exact ⟨nBytes, eBytes, hn, he, rfl, (readExponent_eq_iff eBytes).mpr (hlt hkty eBytes he)⟩
  next hkty =>
    split at h
    next =>
      obtain ⟨curve, point, rfl, hkey⟩ := parseEC_eq_ok h
      exact iff_of_true hkey (hfits hkty)
    next =>
      split at h
      next =>
        obtain ⟨x, rfl, hkey⟩ := parseOKP_eq_ok h
        exact iff_of_true hkey (hfits hkty)
      next => cases h

/-! ## Two keys -/

/-- The value of a character of Base64 for URLs. -/
def sextet? (b : UInt8) : Option ℕ :=
  (str "ABCDEFGHIJKLMNOPQRSTUVWXYZabcdefghijklmnopqrstuvwxyz0123456789-_").idxOf? b

/-- Four characters make three bytes, and at the end three or two characters make two bytes or one. -/
def joinSextets : List ℕ → Option GoString
  | [] => some []
  | [_] => none
  | [a, b] => some [UInt8.ofNat (4 * a + b / 16)]
  | [a, b, c] => some [UInt8.ofNat (4 * a + b / 16), UInt8.ofNat (16 * b + c / 4)]
  | a :: b :: c :: d :: rest => (joinSextets rest).map fun bytes =>
    UInt8.ofNat (4 * a + b / 16) :: UInt8.ofNat (16 * b + c / 4) :: UInt8.ofNat (64 * c + d) :: bytes

/-- A library that decodes Base64 without padding and accepts every point. -/
def unpaddedLib : KeyLib where
  rawURLEncoding s :=
    match (s.mapM sextet?).bind joinSextets with
    | some bytes => .ok bytes
    | none => .error (str "illegal base64 data")
  urlEncoding _ := .error (str "illegal base64 data")
  parseUncompressedPublicKey _ _ := none

/-- An RSA key with modulus 65537. -/
def rsaJWK (e : String) : GoMap JsonValue :=
  (((∅ : GoMap JsonValue).insert (str "kty") (.string (str "RSA"))).insert (str "n")
    (.string (str "AQAB"))).insert (str "e") (.string (str e))

theorem parseJWK_denotes_iff_three_bytes :
    Denotes unpaddedLib (rsaJWK "AQAB") (.rsa 65537 65537) := by
  have heval : decodeBase64URL unpaddedLib (str "AQAB") = .ok [1, 0, 1] := by rfl
  refine (parseJWK_denotes_iff (by rfl)).mpr fun _ eBytes he => ?_
  cases heval.symm.trans he
  decide

/-- **An exponent that wraps around.** The key is published with the exponent `2 ^ 64 + 65537`, and
accepted with the exponent 65537. -/
theorem exponent_wraps_around :
    decodeBase64URL unpaddedLib (str "AQAAAAAAAQAB") = .ok [1, 0, 0, 0, 0, 0, 1, 0, 1] ∧
      ofBytes [1, 0, 0, 0, 0, 0, 1, 0, 1] = 2 ^ 64 + 65537 ∧
      parseJWK unpaddedLib (rsaJWK "AQAAAAAAAQAB") = .ok (.rsa 65537 65537) := by
  refine ⟨by rfl, by decide, by rfl⟩

end SynitWaf
