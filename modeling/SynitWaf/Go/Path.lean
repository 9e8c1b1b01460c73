import Mathlib.Data.List.Basic
import SynitWaf.Go.Strings

/-!
# Package path

* `cleanRelative`, `clean`: `path.Clean`;
* `cleanRelative_cleanElements`: cleaning with and without a root compared;
* **`clean_relative`**: what becomes of a path without a root;
* `ProperName`, `exists_cleanRooted`: a cleaned path with a root is made of proper names;
  **`cleanRooted_cleanRooted`**, `cleanRooted_of_isPrefix`: it is clean, and so is what stands before
  one of its slashes.
-/

namespace Go

/-- The elements of a cleaned path without a root, the last one first: `..` removes the element
before it, if there is one that is not `..` as well. -/
def cleanRelative : List GoString → List GoString → List GoString
  | [], out => out
  | e :: es, out =>
    if e = [] ∨ e = str "." then cleanRelative es out
    else if e = str ".." ∧ out.headD (str "..") ≠ str ".." then cleanRelative es out.tail
    else cleanRelative es (e :: out)

/-- `path.Clean`. -/
def clean (p : GoString) : GoString :=
  if hasPrefix p (str "/") then cleanRooted (p.drop 1)
  else if cleanRelative (split p (byte '/')) [] = [] then str "."
  else join (cleanRelative (split p (byte '/')) []).reverse (byte '/')

theorem cleanRooted_slash (p : GoString) : cleanRooted (byte '/' :: p) = cleanRooted p := by
  have hsplit : split (byte '/' :: p) (byte '/') = [] :: split p (byte '/') :=
    split_append_sep [] p (byte '/')
  simp [cleanRooted, hsplit, cleanElements]

theorem clean_slash (p : GoString) : clean (byte '/' :: p) = cleanRooted p := by
  have hroot : hasPrefix (byte '/' :: p) (str "/") = true := by
    simp [hasPrefix, show str "/" = [byte '/'] by decide]
  simp [clean, hroot]

theorem mem_cleanRelative {es out : List GoString} {e : GoString} (h : e ∈ cleanRelative es out) :
    e ∈ out ∨ e ∈ es ∧ e ≠ [] ∧ e ≠ str "." := by
  induction es generalizing out with
  | nil => exact .inl h
  | cons x es ih =>
    rw [cleanRelative] at h
    split at h
    · rcases ih h with h | h
      · exact .inl h
      · exact .inr ⟨List.mem_cons_of_mem _ h.1, h.2⟩
    next hx =>
    split at h
    · rcases ih h with h | h
      · exact .inl (List.mem_of_mem_tail h)
      · exact .inr ⟨List.mem_cons_of_mem _ h.1, h.2⟩
    · rcases ih h with h | h
      · rcases List.mem_cons.mp h with rfl | h
        · exact .inr ⟨List.mem_cons_self, not_or.mp hx⟩
        · exact .inl h
      · exact .inr ⟨List.mem_cons_of_mem _ h.1, h.2⟩

/-- Cleaned from the root, a path loses the elements `..` at its beginning. -/
theorem cleanRelative_cleanElements (es names : List GoString) (k : ℕ)
    (hnames : ∀ e ∈ names, e ≠ str "..") :
    ∃ k', cleanRelative es (names ++ List.replicate k (str "..")) =
      cleanElements es names ++ List.replicate k' (str "..") := by
  induction es generalizing names k with
  | nil => exact ⟨k, rfl⟩
  | cons e es ih =>
    simp only [cleanRelative, cleanElements]
    split
    · exact ih names k hnames
    by_cases he : e = str ".."
    · cases names with
      | nil =>
        have hhead : (List.replicate k (str "..")).headD (str "..") = str ".." := by
          cases k <;> rfl
        have hpush := ih [] (k + 1) (by simp)
        rw [List.replicate_succ] at hpush
        rw [List.nil_append, hhead, he, if_neg (by simp), if_pos rfl]
        exact hpush
      | cons n names =>
        have hn : n ≠ str ".." := hnames n List.mem_cons_self
        simpa [he, hn] using ih names k fun e h => hnames e (List.mem_cons_of_mem _ h)
    · have hcons : ∀ n ∈ e :: names, n ≠ str ".." := List.forall_mem_cons.mpr ⟨he, hnames⟩
      simpa [he] using ih (e :: names) k hcons

/-- Elements that are proper do not make up `.` or a path with a root. -/
theorem join_proper {e : GoString} {es : List GoString} (hne : e ≠ []) (hdot : e ≠ str ".")
    (hslash : byte '/' ∉ e) :
    join (e :: es) (byte '/') ≠ str "." ∧
      ∃ c t, c ≠ byte '/' ∧ join (e :: es) (byte '/') = c :: t := by
  obtain ⟨c, w, rfl⟩ := List.exists_cons_of_ne_nil hne
  have hc : c ≠ byte '/' := fun hc => hslash (by rw [hc]; exact List.mem_cons_self)
  cases es with
  | nil =>
    rw [join_singleton]
    exact ⟨hdot, c, w, hc, rfl⟩
  | cons y ys =>
    rw [join_cons_cons]
    refine ⟨fun h => ?_, c, _, hc, rfl⟩
    have hmem : byte '/' ∈ str "." := by rw [← h]; simp
    exact absurd hmem (by decide)

/-- **Cleaning a path without a root** does not give it one. If the result is `.`, the path leads
from the root to the root. -/
theorem clean_relative {p : GoString} (hp : hasPrefix p (str "/") = false) :
    clean p = str "." ∧ cleanRooted p = str "/" ∨
      clean p ≠ str "." ∧ ∃ c t, c ≠ byte '/' ∧ clean p = c :: t := by
  by_cases hout : cleanRelative (split p (byte '/')) [] = []
  · left
    obtain ⟨k, hk⟩ := cleanRelative_cleanElements (split p (byte '/')) [] 0 (by simp)
    rw [List.replicate_zero, List.append_nil, hout, eq_comm, List.append_eq_nil_iff] at hk
    refine ⟨by simp [clean, hp, hout], ?_⟩
    rw [cleanRooted, hk.1]
    rfl
  · right
    have hrev : (cleanRelative (split p (byte '/')) []).reverse ≠ [] := by simpa using hout
    obtain ⟨e, es, hees⟩ := List.exists_cons_of_ne_nil hrev
    have he : e ∈ cleanRelative (split p (byte '/')) [] := by
      rw [← List.mem_reverse, hees]
      exact List.mem_cons_self
    obtain ⟨hmem, hne, hdot⟩ := (mem_cleanRelative he).resolve_left (by simp)
    have hclean : clean p = join (e :: es) (byte '/') := by simp [clean, hp, hout, hees]
    rw [hclean]
    exact join_proper hne hdot (not_mem_of_mem_split hmem)

example : clean (str "a/../../b//./c/") = str "../b/c" := by decide

/-! ## Cleaned paths -/

/-- An element of a cleaned path. -/
structure ProperName (e : GoString) : Prop where
  ne_nil : e ≠ []
  ne_dot : e ≠ str "."
  ne_dots : e ≠ str ".."
  no_slash : byte '/' ∉ e

theorem cleanElements_append (es es' out : List GoString) :
    cleanElements (es ++ es') out = cleanElements es' (cleanElements es out) := by
  induction es generalizing out with
  | nil => rfl
  | cons e es ih =>
    rw [List.cons_append, cleanElements, cleanElements]
    split
    · exact ih out
    · split
      · exact ih out.tail
      · exact ih (e :: out)

theorem cleanElements_of_proper {es : List GoString} (h : ∀ e ∈ es, ProperName e)
    (out : List GoString) : cleanElements es out = es.reverse ++ out := by
  induction es generalizing out with
  | nil => rfl
  | cons e es ih =>
    obtain ⟨he, hes⟩ := List.forall_mem_cons.mp h
    rw [cleanElements, if_neg (not_or.mpr ⟨he.ne_nil, he.ne_dot⟩), if_neg he.ne_dots, ih hes,
      List.reverse_cons, List.append_assoc]
    rfl

theorem properName_of_mem_cleanElements {es out : List GoString}
    (hes : ∀ e ∈ es, byte '/' ∉ e) (hout : ∀ e ∈ out, ProperName e) :
    ∀ e ∈ cleanElements es out, ProperName e := by
  induction es generalizing out with
  | nil => exact hout
  | cons x es ih =>
    obtain ⟨hx, hes⟩ := List.forall_mem_cons.mp hes
    rw [cleanElements]
    split
    next => exact ih hes hout
    next hdot =>
      obtain ⟨hnil, hdot⟩ := not_or.mp hdot
      split
      next => exact ih hes fun e he => hout e (List.mem_of_mem_tail he)
      next hdots => exact ih hes (List.forall_mem_cons.mpr ⟨⟨hnil, hdot, hdots, hx⟩, hout⟩)

theorem split_join_proper {names : List GoString} (h : ∀ e ∈ names, ProperName e)
    (hne : names ≠ []) : split (join names (byte '/')) (byte '/') = names := by
  rw [split_join _ _ hne]
  calc names.flatMap (split · (byte '/')) = names.flatMap ([·]) :=
        List.flatMap_congr fun e he => split_of_not_mem (h e he).no_slash
    _ = names := List.flatMap_singleton' names

theorem cleanRooted_join {names : List GoString} (h : ∀ e ∈ names, ProperName e) :
    cleanRooted (join names (byte '/')) = byte '/' :: join names (byte '/') := by
  by_cases hne : names = []
  · subst hne
    decide
  · rw [cleanRooted, split_join_proper h hne, cleanElements_of_proper h, List.append_nil,
      List.reverse_reverse]

theorem exists_cleanRooted (p : GoString) :
    ∃ names, (∀ e ∈ names, ProperName e) ∧ cleanRooted p = byte '/' :: join names (byte '/') := by
  refine ⟨_, fun e he => ?_, rfl⟩
  exact properName_of_mem_cleanElements (fun e he => not_mem_of_mem_split he) (by simp) e
    (List.mem_reverse.mp he)

theorem cleanRooted_cleanRooted (p : GoString) : cleanRooted (cleanRooted p) = cleanRooted p := by
  obtain ⟨names, hnames, hclean⟩ := exists_cleanRooted p
  rw [hclean, cleanRooted_slash, cleanRooted_join hnames]

theorem cleanRooted_append_slash (p : GoString) :
    cleanRooted (p ++ [byte '/']) = cleanRooted p := by
  rw [cleanRooted, split_append_sep p [], cleanElements_append]
  rfl

/-- A cleaned path up to one of its slashes. -/
theorem cleanRooted_of_isPrefix {p q : GoString}
    (h : byte '/' :: (q ++ [byte '/']) <+: cleanRooted p) :
    q ≠ [] ∧ cleanRooted q = byte '/' :: q := by
  obtain ⟨names, hnames, hclean⟩ := exists_cleanRooted p
  obtain ⟨rest, hrest⟩ := h
  have hjoin : join names (byte '/') = q ++ byte '/' :: rest := by
    rw [hclean] at hrest
    simpa using (List.cons.inj hrest).2.symm
  have hne : names ≠ [] := by
    rintro rfl
    simp [join, List.intercalate] at hjoin
  have hnames' : names = split q (byte '/') ++ split rest (byte '/') := by
    rw [← split_append_sep, ← hjoin, split_join_proper hnames hne]
  have hproper : ∀ e ∈ split q (byte '/'), ProperName e := fun e he =>
    hnames e (hnames' ▸ List.mem_append_left _ he)
  constructor
  · rintro rfl
    exact (hproper [] (by decide)).ne_nil rfl
  · have hq : join (split q (byte '/')) (byte '/') = q := List.intercalate_splitOn (byte '/')
    rw [← hq, cleanRooted_join hproper]
end Go
