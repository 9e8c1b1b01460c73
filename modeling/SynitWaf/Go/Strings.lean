import Mathlib.Algebra.Group.Int.Defs
import Mathlib.Algebra.Group.Nat.Defs

/-!
# Go strings

A Go string is a sequence of bytes, with no claim that it is UTF-8.

* `GoString`, `str`, `byte`;
* `strings.Split` (at one byte), `strings.Join`, `strings.TrimSpace`, `strings.HasPrefix`,
  `strings.HasSuffix`, `strings.ReplaceAll` and the index functions; `Unicode`: those that need
  tables;
* `Header`: `Get` reads the first field line, `Values` all of them;
* `splitHostPort`: `net.SplitHostPort`;
* **`split_join`**: the elements of joined field lines are the elements of all the lines.
-/

namespace Go

/-- A Go string. -/
abbrev GoString := List UInt8

instance : LawfulBEq GoString := List.instLawfulBEq

/-- What is said of every byte of a string is decided byte by byte, not for all bytes there are. -/
instance (s : GoString) (p : UInt8 → Prop) [DecidablePred p] : Decidable (∀ c ∈ s, p c) :=
  List.decidableBAll p s

/-- The bytes of a string literal. -/
def str (s : String) : GoString := s.toList.flatMap String.utf8EncodeChar

/-- The byte of an ASCII character. -/
def byte (c : Char) : UInt8 := UInt8.ofNat c.toNat

/-! ## Package strings -/

/-- `strings.Split` at a separator of one byte. -/
def split (s : GoString) (sep : UInt8) : List GoString := s.splitOn sep

/-- `strings.Join` with a separator of one byte. -/
def join (elems : List GoString) (sep : UInt8) : GoString := [sep].intercalate elems

/-- `strings.IndexByte`. -/
def indexByte (s : GoString) (c : UInt8) : Option ℕ := s.idxOf? c

/-- `strings.LastIndexByte`. -/
def lastIndexByte (s : GoString) (c : UInt8) : Option ℕ :=
  (s.reverse.idxOf? c).map (s.length - 1 - ·)

/-- `strings.Index`. -/
def index (sub : GoString) : GoString → Option ℕ
  | [] => if sub = [] then some 0 else none
  | c :: s => if sub.isPrefixOf (c :: s) then some 0 else (index sub s).map (· + 1)

/-- The lower-case form of an ASCII letter. -/
def lowerByte (c : UInt8) : UInt8 := if byte 'A' ≤ c ∧ c ≤ byte 'Z' then c + 32 else c

/-- `strings.ToLower` and `strings.EqualFold` on ASCII text: the lower-case form. -/
def lowerASCII (s : GoString) : GoString := s.map lowerByte

/-- `strconv.Itoa`. -/
def itoa (n : ℤ) : GoString := str (toString n)

/-- A lower-case hexadecimal digit. -/
def hexDigit (d : ℕ) : UInt8 := if d < 10 then UInt8.ofNat (48 + d) else UInt8.ofNat (87 + d)

/-- `strings.HasPrefix`. -/
def hasPrefix (s pre : GoString) : Bool := pre.isPrefixOf s

/-- `strings.HasSuffix`. -/
def hasSuffix (s suf : GoString) : Bool := suf.isSuffixOf s

/-- `strings.TrimPrefix`. -/
def trimPrefix (s pre : GoString) : GoString := if hasPrefix s pre then s.drop pre.length else s

/-- `strings.CutPrefix`; `none` if there is no such prefix. -/
def cutPrefix (s pre : GoString) : Option GoString :=
  if hasPrefix s pre then some (s.drop pre.length) else none

/-- `strings.TrimSuffix`. -/
def trimSuffix (s suf : GoString) : GoString :=
  if hasSuffix s suf then s.take (s.length - suf.length) else s

/-- `strings.Contains`. -/
def contains (s sub : GoString) : Bool := (index sub s).isSome

/-- Replace the words `old` of a string, of which `skip` bytes belong to a word already replaced. -/
def replaceFrom (old new : GoString) : ℕ → GoString → GoString
  | _, [] => []
  | skip + 1, _ :: s => replaceFrom old new skip s
  | 0, c :: s =>
    if hasPrefix (c :: s) old then new ++ replaceFrom old new (old.length - 1) s
    else c :: replaceFrom old new 0 s

/-- `strings.ReplaceAll` of a word that is not empty. -/
def replaceAll (s old new : GoString) : GoString := replaceFrom old new 0 s

/-- Replace the words of `pairs`, the first one that matches at each position, of which `skip` bytes
belong to a word already replaced. -/
def replacerFrom (pairs : List (GoString × GoString)) : ℕ → GoString → GoString
  | _, [] => []
  | skip + 1, _ :: s => replacerFrom pairs skip s
  | 0, c :: s =>
    match pairs.find? fun pair => hasPrefix (c :: s) pair.1 with
    | some pair => pair.2 ++ replacerFrom pairs (pair.1.length - 1) s
    | none => c :: replacerFrom pairs 0 s

/-- `strings.NewReplacer(pairs).Replace(s)` for words that are not empty. -/
def replaceWords (pairs : List (GoString × GoString)) (s : GoString) : GoString := replacerFrom pairs 0 s

/-- The functions of package `strings` that need the tables of Unicode. -/
structure Unicode where
  toLower : GoString → GoString
  toUpper : GoString → GoString
  equalFold : GoString → GoString → Bool
  deriving Inhabited

/-- The encodings of the runes of `unicode.IsSpace`. -/
def spaces : List GoString :=
  [[0x09], [0x0A], [0x0B], [0x0C], [0x0D], [0x20], [0xC2, 0x85], [0xC2, 0xA0], [0xE1, 0x9A, 0x80],
    [0xE2, 0x80, 0x80], [0xE2, 0x80, 0x81], [0xE2, 0x80, 0x82], [0xE2, 0x80, 0x83],
    [0xE2, 0x80, 0x84], [0xE2, 0x80, 0x85], [0xE2, 0x80, 0x86], [0xE2, 0x80, 0x87],
    [0xE2, 0x80, 0x88], [0xE2, 0x80, 0x89], [0xE2, 0x80, 0x8A], [0xE2, 0x80, 0xA8],
    [0xE2, 0x80, 0xA9], [0xE2, 0x80, 0xAF], [0xE2, 0x81, 0x9F], [0xE3, 0x80, 0x80]]

/-- Strip words of `ws` from the left, at most `n` times. -/
def trimWords (ws : List GoString) : ℕ → GoString → GoString
  | 0, s => s
  | n + 1, s =>
    match ws.find? fun w => hasPrefix s w with
    | none => s
    | some w => trimWords ws n (s.drop w.length)

/-- `strings.TrimSpace`. -/
def trimSpace (s : GoString) : GoString :=
  let t := trimWords spaces s.length s
  (trimWords (spaces.map List.reverse) t.length t.reverse).reverse

theorem mem_trimWords {ws : List GoString} {c : UInt8} (hc : ∀ w ∈ ws, c ∉ w) (n : ℕ)
    (s : GoString) : c ∈ trimWords ws n s ↔ c ∈ s := by
  induction n generalizing s with
  | zero => exact Iff.rfl
  | succ n ih =>
    unfold trimWords
    split
    next => exact Iff.rfl
    next w hw =>
      have hprefix : hasPrefix s w = true := by simpa using List.find?_some hw
      obtain ⟨t, rfl⟩ := List.isPrefixOf_iff_prefix.mp hprefix
      have hcw := hc w (List.mem_of_find?_eq_some hw)
      rw [List.drop_left, ih, List.mem_append, or_iff_right hcw]

/-- Stripping white space strips no other byte. -/
theorem mem_trimSpace {c : UInt8} (hc : ∀ w ∈ spaces, c ∉ w) (s : GoString) :
    c ∈ trimSpace s ↔ c ∈ s := by
  have hrev : ∀ w ∈ spaces.map List.reverse, c ∉ w := by
    intro w hw
    obtain ⟨v, hv, rfl⟩ := List.mem_map.mp hw
    rw [List.mem_reverse]
    exact hc v hv
  rw [trimSpace, List.mem_reverse, mem_trimWords hrev, List.mem_reverse, mem_trimWords hc]
theorem index_length {sub s : GoString} {i : ℕ} (h : index sub s = some i) :
    i + sub.length ≤ s.length := by
  induction s generalizing i with
  | nil =>
    simp only [index] at h
    split at h
    next hsub => cases h; simp [hsub]
    next => cases h
  | cons c s ih =>
    simp only [index] at h
    split at h
    next hp =>
      cases h
      simpa using (List.isPrefixOf_iff_prefix.mp hp).length_le
    next =>
      obtain ⟨j, hj, rfl⟩ := Option.map_eq_some_iff.mp h
      have := ih hj
      simp only [List.length_cons]
      omega

/-- Text behind an occurrence does not move the first one. -/
theorem index_append {sub s : GoString} {i : ℕ} (h : index sub s = some i) (t : GoString) :
    index sub (s ++ t) = some i := by
  induction s generalizing i with
  | nil =>
    simp only [index] at h
    split at h
    next hsub =>
      cases h
      cases t <;> simp [index, hsub]
    next => cases h
  | cons c s ih =>
    simp only [index] at h
    rw [List.cons_append, index]
    split at h
    next hp =>
      have hp' : sub <+: c :: (s ++ t) :=
        (List.isPrefixOf_iff_prefix.mp hp).trans (List.prefix_append (c :: s) t)
      rw [if_pos (List.isPrefixOf_iff_prefix.mpr hp')]
      exact h
    next hp =>
      obtain ⟨j, hj, rfl⟩ := Option.map_eq_some_iff.mp h
      have hp' : ¬ sub.isPrefixOf (c :: (s ++ t)) = true := by
        intro hp'
        have hlen := index_length hj
        refine hp (List.isPrefixOf_iff_prefix.mpr (List.prefix_of_prefix_length_le
          (List.isPrefixOf_iff_prefix.mp hp') (List.prefix_append (c :: s) t) ?_))
        simp only [List.length_cons]
        omega
      rw [if_neg hp', ih hj]
      rfl

theorem cutPrefix_append (w s : GoString) : cutPrefix (w ++ s) w = some s := by
  have h : hasPrefix (w ++ s) w = true := List.isPrefixOf_iff_prefix.mpr (List.prefix_append w s)
  simp [cutPrefix, h]

/-- A field line split at its commas and put together again has the elements of both parts. -/
theorem split_append_sep (s t : GoString) (sep : UInt8) :
    split (s ++ sep :: t) sep = split s sep ++ split t sep :=
  List.splitOnP_append_cons s t (by simp)

theorem split_of_not_mem {s : GoString} {sep : UInt8} (h : sep ∉ s) : split s sep = [s] :=
  List.splitOnP_eq_singleton fun c hc => by simpa using fun hsep : c = sep => h (hsep ▸ hc)

theorem not_mem_of_mem_split {s e : GoString} {sep : UInt8} (h : e ∈ split s sep) : sep ∉ e := by
  induction hn : s.length using Nat.strongRecOn generalizing s with
  | ind n ih =>
    by_cases hmem : sep ∈ s
    · obtain ⟨a, b, rfl⟩ := List.append_of_mem hmem
      rw [split_append_sep] at h
      simp only [List.length_append, List.length_cons] at hn
      rcases List.mem_append.mp h with h | h
      · exact ih _ (by omega) h rfl
      · exact ih _ (by omega) h rfl
    · rw [split_of_not_mem hmem, List.mem_singleton] at h
      exact h ▸ hmem

theorem join_cons_cons (x y : GoString) (xs : List GoString) (sep : UInt8) :
    join (x :: y :: xs) sep = x ++ sep :: join (y :: xs) sep := by
  simp [join, List.intercalate, List.intersperse]

theorem join_singleton (x : GoString) (sep : UInt8) : join [x] sep = x := by
  simp [join, List.intercalate, List.intersperse]

/-- **The elements of joined lines** are the elements of the lines, in order. -/
theorem split_join (lines : List GoString) (sep : UInt8) (h : lines ≠ []) :
    split (join lines sep) sep = lines.flatMap (split · sep) := by
  induction lines with
  | nil => exact absurd rfl h
  | cons l lines ih =>
    cases lines with
    | nil => simp [join_singleton]
    | cons l' lines =>
      rw [join_cons_cons, split_append_sep, ih (by simp)]
      rfl

/-! ## Headers -/

/-- `http.Header`: the field lines under a canonical name, in order. -/
abbrev Header := GoString → List GoString

/-- `Header.Get`: the first field line, or the empty string. -/
def Header.get (h : Header) (name : GoString) : GoString := (h name).headD []

/-! ## Package net -/

/-- `net.SplitHostPort`; `none` is any of its errors. -/
def splitHostPort (hostport : GoString) : Option (GoString × GoString) :=
  match lastIndexByte hostport (byte ':') with
  | none => none
  | some i =>
    if hostport.head? = some (byte '[') then
      match indexByte hostport (byte ']') with
      | none => none
      | some e =>
        -- the bracket must stand just before the last colon
        if e + 1 ≠ i then none
        else if byte '[' ∈ hostport.drop 1 then none
        else if byte ']' ∈ hostport.drop (e + 1) then none
        else some ((hostport.take e).drop 1, hostport.drop (i + 1))
    else if byte ':' ∈ hostport.take i then none
    else if byte '[' ∈ hostport then none
    else if byte ']' ∈ hostport then none
    else some (hostport.take i, hostport.drop (i + 1))

/-! ## Package path -/

/-- The elements of a cleaned rooted path, the last one first: empty and `.` elements are dropped,
`..` removes the element before it. -/
def cleanElements : List GoString → List GoString → List GoString
  | [], out => out
  | e :: es, out =>
    if e = [] ∨ e = str "." then cleanElements es out
    else if e = str ".." then cleanElements es out.tail
    else cleanElements es (e :: out)

/-- `path.Clean("/" + p)`. -/
def cleanRooted (p : GoString) : GoString :=
  byte '/' :: join (cleanElements (split p (byte '/')) []).reverse (byte '/')

example : cleanRooted (str "a/..//./graphql/") = str "/graphql" := by decide

example : replaceAll (str "aabab") (str "ab") (str "-") = str "a--" := by decide

example : splitHostPort (str "[::1]:80") = some (str "::1", str "80") := by decide

end Go
