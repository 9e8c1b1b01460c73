import SynitWaf.Config.Directives
import SynitWaf.Config.Validate
import SynitWaf.Go.Path
import SynitWaf.Go.Regexp
import SynitWaf.Request

/-!
# The paths that are inspected

The built-in detection rules are limited to the inspected paths by a generated regular expression
over the normalized path, the sidecar by prefix tests on the path and on its cleaned form.

* `normalizePath`, `scopeArgument`, `detectionRulesRun`: what the engine does with the rules;
* `scopePattern`, **`rx_scopePattern`**: the generated expression finds the paths at or below
  an entry without its trailing slash; `scopeArgument_rules`: it is what the engine reads;
* `ScopesAgree`, **`detectionRulesRun_eq_iff`**: when the two layers inspect the same path.
-/

namespace SynitWaf

open Go

/-! ## The engine -/

/-- The scoping rule up to the argument of its operator. -/
def scopeHead : GoString := str "SecRule REQUEST_FILENAME \"!@rx "

/-- The argument of the operator of the scoping rule, which ends at the closing quote. -/
def scopeArgument (rules : GoString) : Option GoString :=
  (index scopeHead rules).map fun i =>
    (rules.drop (i + scopeHead.length)).takeWhile (· ≠ byte '"')

/-- `t:normalizePath`: the cleaned path keeps a trailing slash, and the path `.` is empty. -/
def normalizePath (path : GoString) : GoString :=
  if clean path = str "." then []
  else if hasSuffix path (str "/") ∧ ¬ hasSuffix (clean path) (str "/") then clean path ++ str "/"
  else clean path

/-- `@rx`; no rule runs with an expression that is refused. -/
def rx (expr text : GoString) : Bool :=
  match compile expr with
  | none => false
  | some re => re.test text

/-- Do the detection rules run for a request? The scoping rule skips them if its expression is not
found in the path. -/
def detectionRulesRun (rules path : GoString) : Bool :=
  match scopeArgument rules with
  | none => true
  | some expr => rx expr (normalizePath path)

/-! ## The generated expression -/

/-- The expression that `buildLLMProtectionRules` generates. -/
def scopePattern (paths : List GoString) : GoString :=
  str "^(?:" ++ (join (paths.map fun path => quoteMeta (trimSuffix path (str "/"))) (byte '|') ++
    str ")(?:/|$)")

/-- The path `t` is `q`, or below it. -/
def Under (q t : GoString) : Prop := t = q ∨ q ++ str "/" <+: t

section Pattern

theorem quoteMeta_cons (c : UInt8) (w : GoString) :
    quoteMeta (c :: w) = (if special c then [byte '\\', c] else [c]) ++ quoteMeta w := by
  simp [quoteMeta, special, show byte '\\' = 0x5C by decide]

theorem run_quoteMeta (w : GoString) (f : Frame) (outer : List Frame) :
    Machine.run readByte ⟨.plain, f, outer⟩ (quoteMeta w) =
      some ⟨.plain, { f with current := f.current.word w }, outer⟩ := by
  induction w generalizing f with
  | nil => rfl
  | cons c w ih =>
    rw [quoteMeta_cons, Machine.run_append_list]
    cases hc : special c with
    | false =>
      rw [if_neg (by simp), readByte_plain f outer hc]
      exact ih _
    | true =>
      rw [if_pos rfl, read_escaped f outer hc]
      exact ih _

theorem run_alternatives (w : GoString) (ws : List GoString) (f : Frame) (outer : List Frame)
    (hf : f.current = .empty) :
    (Machine.run readByte ⟨.plain, f, outer⟩ (join ((w :: ws).map quoteMeta) (byte '|'))).map
        (fun st => (st.mode, st.frame.close, st.outer)) =
      some (.plain, Regex.anyOf ({ f with current := .word .empty w } : Frame).close ws, outer) := by
  induction ws generalizing w f with
  | nil =>
    rw [List.map_singleton, join_singleton, run_quoteMeta, hf]
    rfl
  | cons v ws ih =>
    rw [List.map_cons, List.map_cons, join_cons_cons, Machine.run_append_list, run_quoteMeta, hf]
    exact ih v (Frame.next _) rfl

/-- What the generated expression means: one of the words, and then a slash or the end. -/
def scopeRegex (w : GoString) (ws : List GoString) : Regex UInt8 :=
  .seq (.seq (.seq .empty .atBegin) (.anyOf (.word .empty w) ws))
    (.alt (.seq .empty (.char (byte '/'))) (.seq .empty .atEnd))

theorem run_scopePattern (w : GoString) (ws : List GoString) :
    (Machine.run readByte ⟨.plain, .start, []⟩
      (str "^(?:" ++ (join ((w :: ws).map quoteMeta) (byte '|') ++ str ")(?:/|$)"))).bind
        Reading.result = some (scopeRegex w ws) := by
  have hopen : Machine.run readByte ⟨.plain, .start, []⟩ (str "^(?:") =
      some ⟨.plain, .start, [Frame.start.push .atBegin]⟩ := rfl
  have halts := run_alternatives w ws .start [Frame.start.push .atBegin] rfl
  obtain ⟨⟨mode, frame, outer⟩, hrun, hst⟩ := Option.map_eq_some_iff.mp halts
  simp only [Prod.mk.injEq] at hst
  obtain ⟨rfl, hclose, rfl⟩ := hst
  rw [Machine.run_append_list, hopen, Option.bind_some, Machine.run_append_list, hrun,
    Option.bind_some]
  have htail : Machine.run readByte ⟨.plain, frame, [Frame.start.push .atBegin]⟩
      (str ")(?:/|$)") = some ⟨.plain, ((Frame.start.push .atBegin).push frame.close).push
        (.alt (.seq .empty (.char (byte '/'))) (.seq .empty .atEnd)), []⟩ := rfl
  rw [htail, hclose]
  rfl

theorem under_iff {q t : GoString} :
    Under q t ↔ ∃ rest, t = q ++ rest ∧ (rest = [] ∨ ∃ r, rest = byte '/' :: r) := by
  have hslash : str "/" = [byte '/'] := by decide
  constructor
  · rintro (rfl | ⟨r, rfl⟩)
    · exact ⟨[], by simp, .inl rfl⟩
    · exact ⟨byte '/' :: r, by simp [hslash], .inr ⟨r, rfl⟩⟩
  · rintro ⟨rest, rfl, rfl | ⟨r, rfl⟩⟩
    · exact .inl (by simp)
    · exact .inr ⟨r, by simp [hslash]⟩

theorem test_scopeRegex (w : GoString) (ws : List GoString) (t : GoString) :
    (scopeRegex w ws).test t = true ↔ ∃ q ∈ w :: ws, Under q t := by
  have hanchored : (scopeRegex w ws).Anchored :=
    (Regex.anchored_empty_seq Regex.anchored_atBegin).seq.seq
  have htail (m : Regex.Position UInt8) :
      (∃ e, e ∈ Regex.ends (.alt (.seq .empty (.char (byte '/'))) (.seq .empty .atEnd)) m) ↔
        m.rest = [] ∨ ∃ r, m.rest = byte '/' :: r := by
    constructor
    · rintro ⟨e, he⟩
      simp only [Regex.mem_ends_alt, Regex.mem_ends_seq, Regex.mem_ends_empty, exists_eq_left,
        Regex.mem_ends_char, Regex.mem_ends_atEnd] at he
      rcases he with ⟨he, -⟩ | ⟨-, he⟩
      · exact .inr ⟨_, he⟩
      · exact .inl he
    · rintro (h | ⟨r, h⟩)
      · exact ⟨m, by simp [h]⟩
      · exact ⟨⟨false, r⟩, by simp [h]⟩
  rw [Regex.test_anchored hanchored]
  constructor
  · rintro ⟨e, he⟩
    obtain ⟨m, hm, he⟩ := Regex.mem_ends_seq.mp he
    obtain ⟨n, hn, hm⟩ := Regex.mem_ends_seq.mp hm
    obtain rfl : n = ⟨true, t⟩ := by simpa using hn
    obtain ⟨q, hq, ht, -⟩ := Regex.mem_ends_words.mp hm
    exact ⟨q, hq, under_iff.mpr ⟨m.rest, ht, (htail m).mp ⟨e, he⟩⟩⟩
  · rintro ⟨q, hq, hunder⟩
    obtain ⟨rest, ht, hrest⟩ := under_iff.mp hunder
    obtain ⟨e, he⟩ := (htail ⟨q.isEmpty, rest⟩).mpr hrest
    refine ⟨e, Regex.mem_ends_seq.mpr ⟨⟨q.isEmpty, rest⟩, ?_, he⟩⟩
    exact Regex.mem_ends_seq.mpr ⟨⟨true, t⟩, by simp, Regex.mem_ends_words.mpr ⟨q, hq, ht, rfl⟩⟩

end Pattern

/-! ## Valid expressions -/

theorem special_ascii {c : UInt8} (h : special c = true) : c < 0x80 := by
  have hall : ∀ c ∈ str "\\.+*?()|[]\x7b\x7d^$", c < 0x80 := by decide +kernel
  exact hall c (by simpa [special] using h)

theorem validString_append_quoteMeta (a w : GoString) :
    validString (a ++ quoteMeta w) = validString (a ++ w) := by
  induction w generalizing a with
  | nil => rfl
  | cons c w ih =>
    rw [quoteMeta_cons]
    cases hc : special c with
    | false => simpa using ih (a ++ [c])
    | true =>
      have hempty : validString ([] ++ c :: quoteMeta w) = validString (quoteMeta w) :=
        (validString_append_ascii [] _ (special_ascii hc)).trans (by rfl)
      have hw : validString (quoteMeta w) = validString w := ih []
      rw [if_pos rfl, List.cons_append, List.cons_append, List.nil_append,
        validString_append_ascii a _ (by decide), validString_append_ascii a _ (special_ascii hc)]
      exact congrArg _ (hempty.trans hw)

theorem validString_trimSuffix (path : GoString) :
    validString (trimSuffix path (str "/")) = validString path := by
  unfold trimSuffix
  split
  next h =>
    obtain ⟨q, rfl⟩ := List.isSuffixOf_iff_suffix.mp h
    have hslash : str "/" = [byte '/'] := by decide
    rw [hslash, validString_append_ascii q [] (by decide)]
    simp [validString]
  next => rfl

theorem validString_join (ws : List GoString) {sep : UInt8} (hsep : sep < 0x80) :
    validString (join ws sep) = ws.all validString := by
  induction ws with
  | nil => rfl
  | cons w ws ih =>
    cases ws with
    | nil => simp [join_singleton]
    | cons v ws =>
      rw [join_cons_cons, validString_append_ascii _ _ hsep, ih]
      rfl

theorem validString_scopePattern (paths : List GoString) :
    validString (scopePattern paths) = paths.all validString := by
  have htail : str ")(?:/|$)" = byte ')' :: str "(?:/|$)" := by decide
  rw [scopePattern, validString_ascii_append (by decide +kernel), htail,
    validString_append_ascii _ _ (by decide), validString_join _ (by decide)]
  have hword (path : GoString) :
      validString (quoteMeta (trimSuffix path (str "/"))) = validString path :=
    (validString_append_quoteMeta [] _).trans (validString_trimSuffix path)
  have hrest : validString (str "(?:/|$)") = true := by decide
  simp [hrest, hword, Function.comp_def]

/-- **The generated expression** finds the paths at or below one of the entries without its
trailing slash. An entry that is not valid UTF-8 is refused with the whole rule set. -/
theorem rx_scopePattern {paths : List GoString} (hne : paths ≠ []) (t : GoString) :
    rx (scopePattern paths) t = true ↔ (∀ path ∈ paths, validString path = true) ∧
      ∃ path ∈ paths, Under (trimSuffix path (str "/")) t := by
  obtain ⟨path, paths, rfl⟩ := List.exists_cons_of_ne_nil hne
  have hpattern : scopePattern (path :: paths) = str "^(?:" ++
      (join ((trimSuffix path (str "/") :: paths.map fun path => trimSuffix path (str "/")).map
        quoteMeta) (byte '|') ++ str ")(?:/|$)") := by
    simp [scopePattern, Function.comp_def]
  have hvalid := validString_scopePattern (path :: paths)
  unfold rx compile
  split_ifs with hv
  · rw [hvalid, List.all_eq_true] at hv
    rw [hpattern, run_scopePattern, and_iff_right hv]
    simp [test_scopeRegex]
  · rw [hvalid, List.all_eq_true] at hv
    exact iff_of_false (by simp) fun h => hv h.1

/-! ## Reading the rule set -/

theorem contains_singleton {s : GoString} {c : UInt8} : contains s [c] = true ↔ c ∈ s := by
  induction s with
  | nil => simp [contains, index]
  | cons x s ih =>
    unfold contains at ih ⊢
    simp only [index]
    split
    next hp =>
      have hx : c = x := by simpa using hp
      simp [hx]
    next hp =>
      have hx : c ≠ x := by simpa using hp
      simpa [hx] using ih

/-- An accepted entry has a root and no quotes. -/
theorem accepted_entry {lib : ConfigLib} {name : GoString} {paths : List GoString}
    (hok : validateInspectionPaths lib name paths = .ok ()) {path : GoString} (hp : path ∈ paths) :
    hasPrefix path (str "/") = true ∧ byte '"' ∉ path := by
  have hcheck := forM_eq_ok.mp hok path hp
  obtain ⟨_, hroot, hrunes⟩ := result_bind_eq_ok.mp hcheck
  rw [refuse_eq_ok, not_not] at hroot
  rw [refuse_eq_ok, List.any_eq_true] at hrunes
  refine ⟨hroot, fun hquote => hrunes ⟨[byte '"'], by decide, contains_singleton.mpr hquote⟩⟩

theorem mem_join {ws : List GoString} {sep c : UInt8} (h : c ∈ join ws sep) :
    c = sep ∨ ∃ w ∈ ws, c ∈ w := by
  induction ws with
  | nil => cases h
  | cons w ws ih =>
    cases ws with
    | nil =>
      rw [join_singleton] at h
      exact .inr ⟨w, List.mem_singleton_self w, h⟩
    | cons v ws =>
      rw [join_cons_cons, List.mem_append, List.mem_cons] at h
      rcases h with h | h | h
      · exact .inr ⟨w, List.mem_cons_self, h⟩
      · exact .inl h
      · exact (ih h).imp_right fun ⟨x, hx, hc⟩ => ⟨x, List.mem_cons_of_mem _ hx, hc⟩

theorem mem_quoteMeta {w : GoString} {c : UInt8} (h : c ∈ quoteMeta w) :
    c = byte '\\' ∨ c ∈ w := by
  induction w with
  | nil => cases h
  | cons x w ih =>
    rw [quoteMeta_cons, List.mem_append] at h
    rcases h with h | h
    · have hx : c = byte '\\' ∨ c = x := by
        split at h <;> simp_all
      exact hx.imp_right fun (hx : c = x) => hx ▸ List.mem_cons_self
    · exact (ih h).imp_right (List.mem_cons_of_mem _)

theorem quote_notMem_scopePattern {paths : List GoString} (h : ∀ path ∈ paths, byte '"' ∉ path) :
    byte '"' ∉ scopePattern paths := by
  intro hmem
  rw [scopePattern, List.mem_append, List.mem_append] at hmem
  rcases hmem with hmem | hmem | hmem
  · exact absurd hmem (by decide)
  · obtain hsep | ⟨w, hw, hmem⟩ := mem_join hmem
    · exact absurd hsep (by decide)
    · obtain ⟨path, hpath, rfl⟩ := List.mem_map.mp hw
      obtain hslash | hmem := mem_quoteMeta hmem
      · exact absurd hslash (by decide)
      · refine h path hpath ?_
        unfold trimSuffix at hmem
        split at hmem
        · exact List.mem_of_mem_take hmem
        · exact hmem
  · exact absurd hmem (by decide)

/-- The text before the scoping rule. -/
def scopePreamble : GoString :=
  str "\nSecRequestBodyAccess On\n" ++
    str "SecRule REQUEST_HEADERS:Content-Type \"(?i)application/json\" \\\n    \"id:440010," ++
    str "phase:1,pass,nolog,ctl:requestBodyProcessor=JSON\"\n" ++ str "\n"

theorem buildLLMProtectionRules_eq {paths : List GoString} (hne : paths ≠ []) :
    ∃ rest, buildLLMProtectionRules paths =
      (scopePreamble ++ scopeHead) ++ (scopePattern paths ++ byte '"' :: rest) := by
  have hhead : str "\nSecRule REQUEST_FILENAME \"!@rx ^(?:" =
      str "\n" ++ scopeHead ++ str "^(?:" := by decide +kernel
  have htail : str ")(?:/|$)\" \\\n    \"id:440011,phase:2,pass,nolog,t:none,t:normalizePath," =
      str ")(?:/|$)" ++ byte '"' ::
        str " \\\n    \"id:440011,phase:2,pass,nolog,t:none,t:normalizePath," := by decide +kernel
  simp only [buildLLMProtectionRules, if_neg hne, hhead, htail, scopePreamble, scopePattern,
    List.append_assoc, List.cons_append]
  exact ⟨_, rfl⟩

theorem index_scopeHead :
    index scopeHead (scopePreamble ++ scopeHead) = some scopePreamble.length := by
  decide +kernel

/-- The engine reads the generated expression from the rule set. -/
theorem scopeArgument_rules {paths : List GoString} (hne : paths ≠ [])
    (h : ∀ path ∈ paths, byte '"' ∉ path) :
    scopeArgument (buildLLMProtectionRules paths) = some (scopePattern paths) := by
  obtain ⟨rest, hrules⟩ := buildLLMProtectionRules_eq hne
  rw [scopeArgument, hrules, index_append index_scopeHead, Option.map_some, ← List.length_append,
    List.drop_left]
  have hplain : ∀ c ∈ scopePattern paths, decide (c ≠ byte '"') = true := by
    intro c hc
    refine decide_eq_true fun hquote => quote_notMem_scopePattern h ?_
    rwa [← hquote]
  rw [List.takeWhile_append_of_pos hplain]
  simp

theorem detectionRulesRun_rules {paths : List GoString} (hne : paths ≠ [])
    (h : ∀ path ∈ paths, byte '"' ∉ path) (path : GoString) :
    detectionRulesRun (buildLLMProtectionRules paths) path =
      rx (scopePattern paths) (normalizePath path) := by
  rw [detectionRulesRun, scopeArgument_rules hne h]

/-! ## Comparing the two layers -/

section Compare

variable {path t : GoString}

theorem pathHasPrefix_iff : pathHasPrefix t path = true ↔
    Under path t ∨ hasSuffix path (str "/") = true ∧ path <+: t := by
  rw [under_iff]
  by_cases hp : path <+: t
  · obtain ⟨rest, rfl⟩ := hp
    have hpre : hasPrefix (path ++ rest) path = true :=
      List.isPrefixOf_iff_prefix.mpr (List.prefix_append _ _)
    have hrest : (∃ rest', path ++ rest = path ++ rest' ∧
        (rest' = [] ∨ ∃ r, rest' = byte '/' :: r)) ↔ rest = [] ∨ ∃ r, rest = byte '/' :: r := by
      simp
    rw [hrest]
    cases rest with
    | nil => simpa [pathHasPrefix] using hpre
    | cons c rest => cases hs : hasSuffix path (str "/") <;> simp [pathHasPrefix, hpre, hs]
  · have hpre : hasPrefix t path = false := by
      rw [Bool.eq_false_iff]
      exact fun h => hp (List.isPrefixOf_iff_prefix.mp h)
    refine iff_of_false (by simp [pathHasPrefix, hpre]) ?_
    rintro (⟨rest, rfl, -⟩ | ⟨-, h⟩)
    · exact hp (List.prefix_append _ _)
    · exact hp h

theorem append_slash_prefix_iff {q c : GoString} :
    q ++ str "/" <+: c ++ str "/" ↔ q = c ∨ q ++ str "/" <+: c := by
  have hslash : str "/" = [byte '/'] := by decide
  rw [hslash, List.prefix_concat_iff, List.append_left_inj]

/-- The expression compared with the prefix test, on a path and the same path with a trailing
slash. -/
theorem under_trimSuffix_iff {c n : GoString} (hn : n = c ∨ n = c ++ str "/") :
    Under (trimSuffix path (str "/")) n ↔
      pathHasPrefix c path = true ∨ path = c ++ str "/" ∨ path = n ++ str "/" := by
  rw [pathHasPrefix_iff]
  by_cases hs : hasSuffix path (str "/") = true
  · obtain ⟨q, rfl⟩ := List.isSuffixOf_iff_suffix.mp hs
    have htrim : trimSuffix (q ++ str "/") (str "/") = q := by simp [trimSuffix, hs]
    have hunder : Under (q ++ str "/") c → q ++ str "/" <+: c := by
      rintro (rfl | h)
      · exact List.prefix_refl _
      · exact (List.prefix_append _ _).trans h
    rw [htrim, and_iff_right hs, or_iff_right_of_imp hunder, List.append_left_inj,
      List.append_left_inj, Under]
    rcases hn with rfl | rfl
    · grind
    · rw [append_slash_prefix_iff]
      grind
  · have htrim : trimSuffix path (str "/") = path := by simp [trimSuffix, hs]
    have hne (d : GoString) : path ≠ d ++ str "/" := by
      rintro rfl
      exact hs (List.isSuffixOf_iff_suffix.mpr (List.suffix_append _ _))
    rw [htrim]
    simp only [hs, hne, Bool.false_eq_true, false_and, or_false, Under]
    rcases hn with rfl | rfl
    · rfl
    · rw [append_slash_prefix_iff]
      have := hne c
      grind

end Compare

/-- One of the entries covers the path. -/
def Covered (paths : List GoString) (path : GoString) : Prop :=
  ∃ entry ∈ paths, pathHasPrefix path entry = true

/-- One of the entries is the cleaned or the normalized path with one more slash. -/
def Slashed (paths : List GoString) (path : GoString) : Prop :=
  ∃ entry ∈ paths, entry = cleanRooted path ++ str "/" ∨ entry = normalizePath path ++ str "/"

/-- When the rules and the sidecar agree on a path. An entry that is not valid UTF-8 leaves no rules.
On a path with a root, an entry has to cover the cleaned path, or else to cover the path as it was
sent exactly if an entry is the path with one more slash. A path without a root must not lead to a
covered one unless it leads nowhere. -/
def ScopesAgree (paths : List GoString) (path : GoString) : Prop :=
  if ¬ ∀ entry ∈ paths, validString entry = true then
    ¬ Covered paths path ∧ ¬ Covered paths (cleanRooted path)
  else if hasPrefix path (str "/") then
    Covered paths (cleanRooted path) ∨ (Slashed paths path ↔ Covered paths path)
  else Covered paths (cleanRooted path) → normalizePath path = []

theorem pathMatchesAny_iff {paths : List GoString} {path : GoString} :
    pathMatchesAny paths path = true ↔ Covered paths path ∨ Covered paths (cleanRooted path) := by
  simp only [pathMatchesAny, List.any_eq_true, Bool.or_eq_true, Covered]
  grind

theorem normalizePath_rooted {path : GoString} (h : hasPrefix path (str "/") = true) :
    normalizePath path = cleanRooted path ∨
      normalizePath path = cleanRooted path ++ str "/" := by
  obtain ⟨p, rfl⟩ := List.isPrefixOf_iff_prefix.mp h
  have hslash : str "/" ++ p = byte '/' :: p := rfl
  have hdot : cleanRooted p ≠ str "." := by
    intro hdot
    cases hdot
  unfold normalizePath
  rw [hslash, clean_slash, cleanRooted_slash, if_neg hdot]
  split
  · exact .inr rfl
  · exact .inl rfl

theorem under_rooted {paths : List GoString} {path : GoString}
    (h : hasPrefix path (str "/") = true) :
    (∃ entry ∈ paths, Under (trimSuffix entry (str "/")) (normalizePath path)) ↔
      Covered paths (cleanRooted path) ∨ Slashed paths path := by
  simp only [under_trimSuffix_iff (normalizePath_rooted h), Covered, Slashed]
  grind

theorem normalizePath_relative {path : GoString} (h : hasPrefix path (str "/") = false) :
    normalizePath path = [] ∧ cleanRooted path = str "/" ∨
      ∃ c t, c ≠ byte '/' ∧ normalizePath path = c :: t := by
  rcases clean_relative h with ⟨hdot, hroot⟩ | ⟨hdot, c, t, hc, hclean⟩
  · exact .inl ⟨by rw [normalizePath, if_pos hdot], hroot⟩
  · rw [normalizePath, if_neg hdot, hclean]
    split
    · exact .inr ⟨c, t ++ str "/", hc, rfl⟩
    · exact .inr ⟨c, t, hc, rfl⟩

theorem prefix_of_pathHasPrefix {path entry : GoString} (h : pathHasPrefix path entry = true) :
    entry <+: path := by
  rcases pathHasPrefix_iff.mp h with (rfl | h) | h
  · exact List.prefix_refl _
  · exact (List.prefix_append _ _).trans h
  · exact h.2

theorem trimSuffix_rooted {entry : GoString} (h : hasPrefix entry (str "/") = true) :
    entry = str "/" ∨ ∃ w, trimSuffix entry (str "/") = byte '/' :: w := by
  obtain ⟨e, rfl⟩ := List.isPrefixOf_iff_prefix.mp h
  cases e with
  | nil => exact .inl rfl
  | cons c e =>
    right
    have hslash : str "/" ++ c :: e = byte '/' :: c :: e := rfl
    rw [hslash, trimSuffix]
    split
    · exact ⟨(c :: e).take e.length, rfl⟩
    · exact ⟨c :: e, rfl⟩

/-- Without a root, a path is found below no entry, and at the root if it leads nowhere. -/
theorem under_relative {paths : List GoString} {path : GoString}
    (hroot : ∀ entry ∈ paths, hasPrefix entry (str "/") = true)
    (h : hasPrefix path (str "/") = false) :
    (∃ entry ∈ paths, Under (trimSuffix entry (str "/")) (normalizePath path)) ↔
      Covered paths (cleanRooted path) ∧ normalizePath path = [] := by
  have hslash : str "/" = [byte '/'] := by decide
  rcases normalizePath_relative h with ⟨hn, hc⟩ | ⟨c, t, hc, hn⟩
  · rw [hn, hc, and_iff_left rfl]
    constructor
    · rintro ⟨entry, hmem, hunder⟩
      rcases trimSuffix_rooted (hroot entry hmem) with rfl | ⟨w, hw⟩
      · exact ⟨_, hmem, by decide⟩
      · rw [hw] at hunder
        rcases hunder with hunder | hunder
        · cases hunder
        · simp at hunder
    · rintro ⟨entry, hmem, hcovered⟩
      refine ⟨entry, hmem, ?_⟩
      obtain rfl : entry = str "/" := by
        obtain ⟨e, rfl⟩ := List.isPrefixOf_iff_prefix.mp (hroot entry hmem)
        have hlen := (prefix_of_pathHasPrefix hcovered).length_le
        rw [List.length_append] at hlen
        have he : e = [] := List.length_eq_zero_iff.mp (by omega)
        simp [he]
      exact .inl (by decide)
  · rw [hn]
    refine iff_of_false ?_ (by simp)
    rintro ⟨entry, hmem, hunder⟩
    rcases trimSuffix_rooted (hroot entry hmem) with rfl | ⟨w, hw⟩
    · rcases hunder with hunder | hunder
      · cases hunder
      · exact hc (List.cons_prefix_cons.mp hunder).1.symm
    · rw [hw] at hunder
      rcases hunder with hunder | hunder
      · exact hc (List.cons.inj hunder).1
      · exact hc (List.cons_prefix_cons.mp hunder).1.symm

theorem not_covered_relative {paths : List GoString} {path : GoString}
    (hroot : ∀ entry ∈ paths, hasPrefix entry (str "/") = true)
    (h : hasPrefix path (str "/") = false) : ¬ Covered paths path := by
  rintro ⟨entry, hmem, hcovered⟩
  have hentry := List.isPrefixOf_iff_prefix.mp (hroot entry hmem)
  have hpath := hentry.trans (prefix_of_pathHasPrefix hcovered)
  rw [hasPrefix, List.isPrefixOf_iff_prefix.mpr hpath] at h
  cases h

/-- **The rules and the sidecar inspect the same path** exactly if `ScopesAgree` holds. -/
theorem detectionRulesRun_eq_iff {lib : ConfigLib} {name : GoString} {paths : List GoString}
    (hne : paths ≠ []) (hok : validateInspectionPaths lib name paths = .ok ()) (path : GoString) :
    detectionRulesRun (buildLLMProtectionRules paths) path = pathMatchesAny paths path ↔
      ScopesAgree paths path := by
  have hroot : ∀ entry ∈ paths, hasPrefix entry (str "/") = true :=
    fun entry h => (accepted_entry hok h).1
  have hrun := detectionRulesRun_rules hne fun entry h => (accepted_entry hok h).2
  rw [Bool.eq_iff_iff, hrun, rx_scopePattern hne, pathMatchesAny_iff, ScopesAgree]
  split_ifs with hvalid hrooted
  · rw [under_rooted hrooted]
    grind
  · rw [Bool.not_eq_true] at hrooted
    rw [under_relative hroot hrooted]
    have := not_covered_relative hroot hrooted
    grind
  · grind

theorem detectionRulesRun_eq_chat :
    validateInspectionPaths default (str "llm_protection.inspect_paths") [str "/v1/chat"] =
        .ok () ∧
      detectionRulesRun (buildLLMProtectionRules [str "/v1/chat"]) (str "//v1/./chat/x") =
        pathMatchesAny [str "/v1/chat"] (str "//v1/./chat/x") := by
  have hok : validateInspectionPaths default (str "llm_protection.inspect_paths")
      [str "/v1/chat"] = .ok () := by
    rfl
  refine ⟨hok, (detectionRulesRun_eq_iff (by simp) hok _).mpr ?_⟩
  rw [ScopesAgree, if_neg (by decide), if_pos (by decide)]
  exact .inl ⟨_, List.mem_singleton_self _, by decide⟩

/-- The rules run for `/api` although the entry `/api/` does not cover it, and they do not run for
`/api/../x`, which the sidecar inspects. -/
theorem detectionRulesRun_ne_api :
    validateInspectionPaths default (str "llm_protection.inspect_paths")
        [str "/api/"] = .ok () ∧
      detectionRulesRun (buildLLMProtectionRules [str "/api/"]) (str "/api") = true ∧
      pathMatchesAny [str "/api/"] (str "/api") = false ∧
      detectionRulesRun (buildLLMProtectionRules [str "/api/"]) (str "/api/../x") = false ∧
      pathMatchesAny [str "/api/"] (str "/api/../x") = true := by
  have hrun : ∀ path, detectionRulesRun (buildLLMProtectionRules [str "/api/"]) path =
      rx (scopePattern [str "/api/"]) (normalizePath path) :=
    detectionRulesRun_rules (by simp) (by decide)
  rw [hrun, hrun]
  exact ⟨rfl, by decide +kernel⟩

end SynitWaf
