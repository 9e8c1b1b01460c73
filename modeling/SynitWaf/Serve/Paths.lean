import SynitWaf.Llm.Scope
import SynitWaf.Reload.Model

/-!
# The scope of a configured path

A control is bound to configured paths, and applies to a request if one of them is a prefix of its
path, as it was sent or cleaned. A configured path that is not clean itself is not a prefix of the
paths it stands for.

* `OnSegment`: a prefix that ends on a segment boundary; `pathMatchesAny_singleton`;
* `clean_of_onSegment`: a prefix of a cleaned path is clean, but for a slash at its end;
* **`pathMatchesAny_scope_iff`**: a configured path matches all paths that lead below it exactly if it
  is clean; `slashed_path_sidestepped`: a configured path that ends with a slash.
-/

namespace SynitWaf

open Go

/-- The prefix ends on a segment boundary of the path. -/
def OnSegment (pre path : GoString) : Prop :=
  path = pre ∨ pre ++ str "/" <+: path ∨ str "/" <:+ pre ∧ pre <+: path

section Segments

variable {pre path : GoString}

theorem pathHasPrefix_iff_onSegment : pathHasPrefix path pre = true ↔ OnSegment pre path := by
  rw [pathHasPrefix_iff, Under, OnSegment, or_assoc, hasSuffix, List.isSuffixOf_iff_suffix]

theorem pathMatchesAny_singleton :
    pathMatchesAny [pre] path = true ↔ OnSegment pre path ∨ OnSegment pre (cleanRooted path) := by
  simp [pathMatchesAny, pathHasPrefix_iff_onSegment]

theorem onSegment_refl (path : GoString) : OnSegment path path := .inl rfl

theorem OnSegment.isPrefix (h : OnSegment pre path) : pre <+: path := by
  obtain rfl | h | ⟨-, h⟩ := h
  · exact List.prefix_refl _
  · exact (List.prefix_append _ _).trans h
  · exact h

theorem not_onSegment_of_slash (h : pre = path ++ str "/") : ¬ OnSegment pre path := by
  intro hseg
  have hlen := hseg.isPrefix.length_le
  have hone : (str "/").length = 1 := by decide
  rw [h, List.length_append] at hlen
  omega

end Segments

/-! ## Configured paths -/

section Configured

variable {pre path : GoString}

theorem str_slash : str "/" = [byte '/'] := by decide

/-- A prefix of a cleaned path is clean, or has one more slash. -/
theorem clean_of_onSegment (hroot : str "/" <+: pre) (h : OnSegment pre (cleanRooted path)) :
    clean pre = pre ∨ pre = clean pre ++ str "/" ∧ clean pre ≠ str "/" := by
  obtain ⟨q, rfl⟩ := hroot
  rw [str_slash, List.singleton_append] at h ⊢
  rw [clean_slash]
  obtain heq | hbelow | ⟨⟨r, hr⟩, hpre⟩ := h
  · left
    rw [← cleanRooted_slash q, ← heq, cleanRooted_cleanRooted]
  · left
    exact (cleanRooted_of_isPrefix (by simpa [str_slash] using hbelow)).2
  · -- the part before the slash is empty, or a path of its own
    cases r with
    | nil =>
      obtain rfl : q = [] := by simpa [str_slash] using hr.symm
      left
      decide
    | cons c r =>
      obtain ⟨rfl, rfl⟩ : c = byte '/' ∧ r ++ [byte '/'] = q := by simpa [str_slash] using hr
      obtain ⟨hne, hclean⟩ := cleanRooted_of_isPrefix hpre
      right
      rw [cleanRooted_append_slash, hclean]
      exact ⟨rfl, by simpa using hne⟩

/-- A cleaned path that ends with a slash is the root. -/
theorem cleanRooted_eq_slash (h : str "/" <:+ cleanRooted path) : cleanRooted path = str "/" := by
  obtain ⟨r, hr⟩ := h
  cases r with
  | nil => exact hr.symm
  | cons c r =>
    obtain ⟨names, -, hnames⟩ := exists_cleanRooted path
    obtain rfl : c = byte '/' := (List.cons.inj (hr.trans hnames)).1
    have hclean : cleanRooted path = byte '/' :: (r ++ [byte '/']) := hr.symm
    obtain ⟨-, hr'⟩ := cleanRooted_of_isPrefix (p := path) (by rw [hclean])
    -- cleaned once more, the path would lose its last slash
    have hagain := cleanRooted_cleanRooted path
    rw [hclean, cleanRooted_slash, cleanRooted_append_slash, hr'] at hagain
    simp at hagain

/-- How a configured path fails to match a path below it. -/
theorem pathMatchesAny_below_iff (hroot : str "/" <+: pre)
    (hbelow : OnSegment (clean pre) (cleanRooted path)) :
    pathMatchesAny [pre] path = true ↔ clean pre = pre ∨ OnSegment pre path ∨
      pre = clean pre ++ str "/" ∧ clean pre ≠ str "/" ∧ cleanRooted path ≠ clean pre := by
  rw [pathMatchesAny_singleton]
  constructor
  · rintro (hpath | hclean)
    · exact .inr (.inl hpath)
    · obtain heq | ⟨hslash, hne⟩ := clean_of_onSegment hroot hclean
      · exact .inl heq
      · refine .inr (.inr ⟨hslash, hne, fun hself => ?_⟩)
        rw [hself] at hclean
        exact not_onSegment_of_slash hslash hclean
  · rintro (heq | hpath | ⟨hslash, hne, hself⟩)
    · rw [heq] at hbelow
      exact .inr hbelow
    · exact .inl hpath
    · right
      obtain heq | hunder | ⟨hroot', -⟩ := hbelow
      · exact absurd heq hself
      · rw [← hslash] at hunder
        exact .inr (.inr ⟨⟨clean pre, hslash.symm⟩, hunder⟩)
      · obtain ⟨q, rfl⟩ := hroot
        have hq : clean (str "/" ++ q) = cleanRooted q := clean_slash q
        rw [hq] at hroot' hne
        exact absurd (cleanRooted_eq_slash hroot') hne

end Configured

/-- **The scope of a configured path.** A configured path that is accepted matches no path of which it
is not a prefix, as it was sent or cleaned, that ends on a segment boundary. It matches all paths that
lead to it or below it if and only if it is clean. -/
theorem pathMatchesAny_scope_iff {lib : ConfigLib} {name pre : GoString}
    (hvalid : validateInspectionPaths lib name [pre] = .ok ()) :
    (∀ path, ¬ OnSegment pre path → ¬ OnSegment pre (cleanRooted path) →
        pathMatchesAny [pre] path = false) ∧
      ((∀ path, OnSegment (clean pre) (cleanRooted path) → pathMatchesAny [pre] path = true) ↔
        clean pre = pre) ∧
      ∀ path, OnSegment (clean pre) (cleanRooted path) →
        (pathMatchesAny [pre] path = true ↔ clean pre = pre ∨ OnSegment pre path ∨
          pre = clean pre ++ str "/" ∧ clean pre ≠ str "/" ∧ cleanRooted path ≠ clean pre) := by
  have hroot : str "/" <+: pre := by
    obtain ⟨_, hslash, -⟩ := result_bind_eq_ok.mp (forM_eq_ok.mp hvalid pre List.mem_cons_self)
    exact List.isPrefixOf_iff_prefix.mp (not_not.mp (refuse_eq_ok.mp hslash))
  refine ⟨fun path hpath hclean => ?_, ⟨fun h => ?_, fun heq path hbelow => ?_⟩,
    fun path => pathMatchesAny_below_iff hroot⟩
  · rw [Bool.eq_false_iff, ne_eq, pathMatchesAny_singleton]
    exact not_or.mpr ⟨hpath, hclean⟩
  · -- a request for the cleaned path itself
    obtain ⟨q, rfl⟩ := hroot
    have hclean : clean (str "/" ++ q) = cleanRooted q := clean_slash q
    have hself : cleanRooted (clean (str "/" ++ q)) = clean (str "/" ++ q) := by
      rw [hclean, cleanRooted_cleanRooted]
    have hmatch := h (clean (str "/" ++ q)) (hself.symm ▸ onSegment_refl _)
    rw [pathMatchesAny_singleton, hself, or_self] at hmatch
    obtain heq | ⟨hslash, -⟩ := clean_of_onSegment (List.prefix_append _ _) (hclean ▸ hmatch)
    · exact heq
    · exact absurd hmatch (not_onSegment_of_slash hslash)
  · exact (pathMatchesAny_below_iff hroot hbelow).mpr (.inl heq)

/-- The path of the endpoint is clean, and no path sidesteps it. -/
theorem pathMatchesAny_scope_iff_graphql :
    validateInspectionPaths siteLib (str "paths") [str "/graphql"] = .ok () ∧
      ∀ path, OnSegment (clean (str "/graphql")) (cleanRooted path) →
        pathMatchesAny [str "/graphql"] path = true :=
  have hvalid : validateInspectionPaths siteLib (str "paths") [str "/graphql"] = .ok () := rfl
  ⟨hvalid, (pathMatchesAny_scope_iff hvalid).2.1.mpr (by decide)⟩

/-- **A path that is sidestepped.** The configured path ends with a slash; a request for it with a
doubled slash is not inspected, although it leads there. -/
theorem slashed_path_sidestepped :
    validateInspectionPaths siteLib (str "paths") [str "/graphql/"] = .ok () ∧
      cleanRooted (str "//graphql/") = clean (str "/graphql/") ∧
      pathMatchesAny [str "/graphql/"] (str "//graphql/") = false := by
  exact ⟨rfl, by decide, by decide⟩

end SynitWaf
