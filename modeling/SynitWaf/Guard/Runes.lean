import SynitWaf.Guard.Chunks
import SynitWaf.Llm.Runes

/-!
# Whole runes in the chunks of the guard

`runeBoundary` looks for the start of a rune at positive positions only. A position inside the first
rune of the text is returned as it is, and the second chunk can start there.

* `WholeChunks`: what the chunks should be; `LastBoundary`, `PastFirstRune`: when they are;
* `runeBoundary_valid`: the boundary of a position in valid text;
* `chunkStep_aligned`: a round keeps to boundaries; `chunkLoop_valid`: so does the loop;
* **`wholeChunks_iff`**; `second_chunk_cut_in_rune`: two characters of four bytes.
-/

namespace SynitWaf.Guard

open Go Cover

/-- The text is split, and no rune is cut. -/
def WholeChunks (text : GoString) (chunkBytes overlapBytes : ℤ) : Prop :=
  ∃ chunks, splitChunks text chunkBytes overlapBytes = some chunks ∧
    ∀ chunk ∈ chunks, validString chunk = true

/-- The last boundary of the text at or before position `n`. -/
def LastBoundary (text : GoString) (n e : ℕ) : Prop :=
  e ≤ n ∧ boundaryAt text e = true ∧ ∀ j, e < j → j ≤ n → boundaryAt text j = false

/-- If there is more than one chunk, the overlap does not reach back from the end of the first one
into the inside of the first rune. -/
def PastFirstRune (text : GoString) (chunkBytes overlapBytes : ℤ) : Prop :=
  chunkBytes < text.length → ∀ e, LastBoundary text chunkBytes.toNat e →
    (e : ℤ) ≤ overlapBytes ∨ overlapBytes + (decodeRuneInString text).2 ≤ e

section

variable {text : GoString}

/-! ## The boundary of a position -/

theorem boundaryLoop_valid {index i j n : ℕ} (hi : i < text.length) (hji : j ≤ i) (hn : i < j + n)
    (hj : boundaryAt text j = true) (hbetween : ∀ k, j < k → k ≤ i → boundaryAt text k = false) :
    boundaryLoop text index n i = some (if j = 0 then (index : ℤ) else j) := by
  induction n generalizing i with
  | zero => omega
  | succ n ih =>
    unfold boundaryLoop
    by_cases hzero : i = 0
    · rw [if_pos (by omega), if_pos (by omega)]
    rw [if_neg (by omega), Int.toNat_natCast, List.getElem?_eq_getElem hi]
    dsimp only
    have hstart : runeStart text[i] = boundaryAt text i := by
      rw [boundaryAt, List.getElem?_eq_getElem hi, Option.all_some]
    rw [hstart]
    by_cases hij : j = i
    · subst hij
      rw [if_pos hj, if_neg hzero]
    · rw [hbetween i (by omega) (le_refl i), if_neg Bool.false_ne_true]
      have hprev : ((i : ℤ) - 1) = ((i - 1 : ℕ) : ℤ) := by omega
      rw [hprev]
      exact ih (by omega) (by omega) (by omega) fun k hk hki => hbetween k hk (by omega)

/-- The boundary of a position is the start of its rune, unless that is the first rune. -/
theorem runeBoundary_valid (hv : validString text = true) (index : ℕ) (hi : index < text.length) :
    ∃ j, LastBoundary text index j ∧ index < j + utfMax ∧
      index < j + (decodeRuneInString (text.drop j)).2 ∧
      runeBoundary text index = some (if j = 0 then (index : ℤ) else j) := by
  obtain ⟨j, hji, hrune, hmax, hj, hbetween⟩ := exists_runeAt hv hi
  exact ⟨j, ⟨hji, hj, hbetween⟩, hmax, hrune, boundaryLoop_valid hi hji hmax hj hbetween⟩

theorem runeBoundary_of_nonpos {index : ℤ} (h : index ≤ 0) :
    runeBoundary text index = some index :=
  if_pos h

theorem LastBoundary.unique {n e e' : ℕ} (h : LastBoundary text n e) (h' : LastBoundary text n e') :
    e = e' := by
  obtain ⟨hle, he, hlast⟩ := h
  obtain ⟨hle', he', hlast'⟩ := h'
  rcases Nat.lt_trichotomy e e' with hlt | heq | hgt
  · rw [hlast e' hlt hle'] at he'
    cases he'
  · exact heq
  · rw [hlast' e hgt hle] at he
    cases he

/-! ## One round -/

variable {chunkBytes overlapBytes : ℤ}

theorem chunkStep_cases {start stop next : ℤ}
    (h : chunkStep text chunkBytes overlapBytes start = some (stop, next)) :
    ∃ boundary back, runeBoundary text (start + chunkBytes) = some boundary ∧
      stop = (if boundary ≤ start then start + chunkBytes else boundary) ∧
      runeBoundary text (stop - overlapBytes) = some back ∧
      (next = back ∧ start < back ∨ back ≤ start ∧ ∃ rest, slice text start text.length = some rest ∧
        next = min (start + (decodeRuneInString rest).2) stop) := by
  unfold chunkStep at h
  obtain ⟨boundary, hb, h⟩ := Option.bind_eq_some_iff.mp h
  obtain ⟨back, hback, h⟩ := Option.bind_eq_some_iff.mp h
  refine ⟨boundary, back, hb, ?_⟩
  by_cases hle : back ≤ start
  · rw [if_pos hle] at h
    obtain ⟨rest, hrest, h⟩ := Option.bind_eq_some_iff.mp h
    obtain ⟨rfl, rfl⟩ := Prod.mk.inj (Option.some.inj h)
    exact ⟨rfl, hback, .inr ⟨hle, rest, hrest, rfl⟩⟩
  · rw [if_neg hle] at h
    obtain ⟨rfl, rfl⟩ := Prod.mk.inj (Option.some.inj h)
    exact ⟨rfl, hback, .inl ⟨rfl, by omega⟩⟩

/-- The end of a chunk is the last boundary in reach. -/
theorem chunkStep_stop (hv : validString text = true) (hc : 4 ≤ chunkBytes) {start : ℕ} {stop next : ℤ}
    (hmore : text.length - start > chunkBytes)
    (h : chunkStep text chunkBytes overlapBytes start = some (stop, next)) :
    ∃ e : ℕ, stop = e ∧ start < e ∧ LastBoundary text (start + chunkBytes.toNat) e := by
  obtain ⟨boundary, -, hb, hstop, -⟩ := chunkStep_cases h
  have hindex : (start : ℤ) + chunkBytes = ((start + chunkBytes.toNat : ℕ) : ℤ) := by omega
  obtain ⟨j, hlast, hmax, -, hj⟩ := runeBoundary_valid hv (start + chunkBytes.toNat) (by omega)
  rw [utfMax] at hmax
  rw [hindex, hj, if_neg (by omega)] at hb
  obtain rfl := Option.some.inj hb
  rw [if_neg (by omega)] at hstop
  exact ⟨j, hstop, by omega, hlast⟩

/-- **A round keeps to boundaries**, except that the first one may start the next chunk inside the
first rune. -/
theorem chunkStep_aligned (hv : validString text = true) (ho : 0 < overlapBytes) {start e next : ℕ}
    (hstart : boundaryAt text start = true) (hlt : start < e) (hlen : e < text.length)
    (he : boundaryAt text e = true)
    (h : chunkStep text chunkBytes overlapBytes start = some ((e : ℤ), (next : ℤ))) :
    boundaryAt text next = true ↔
      ¬ (start = 0 ∧ overlapBytes < e ∧ (e : ℤ) < overlapBytes + (decodeRuneInString text).2) := by
  obtain ⟨-, back, -, -, hback, hnext⟩ := chunkStep_cases h
  -- the step by one rune ends at a boundary
  have hrune : back ≤ start → boundaryAt text next = true := by
    intro hle
    obtain ⟨rest, hrest, hnext⟩ := (hnext.resolve_left (by omega)).2
    rw [slice_eq_some (by omega) (by omega) (le_refl _), Int.toNat_natCast, Int.toNat_natCast,
      List.take_length] at hrest
    obtain rfl := Option.some.inj hrest
    rcases Nat.le_total (start + (decodeRuneInString (text.drop start)).2) e with hle' | hle'
    · obtain rfl : next = start + (decodeRuneInString (text.drop start)).2 := by omega
      exact boundaryAt_next hv hstart
    · obtain rfl : next = e := by omega
      exact he
  by_cases hpos : (e : ℤ) ≤ overlapBytes
  · rw [runeBoundary_of_nonpos (by omega)] at hback
    obtain rfl := Option.some.inj hback
    exact iff_of_true (hrune (by omega)) (by omega)
  obtain ⟨o, rfl⟩ : ∃ o : ℕ, overlapBytes = o := ⟨overlapBytes.toNat, by omega⟩
  have hindex : (e : ℤ) - o = ((e - o : ℕ) : ℤ) := by omega
  obtain ⟨j, ⟨hje, hj, hbetween⟩, -, hin, hj'⟩ := runeBoundary_valid hv (e - o) (by omega)
  rw [hindex, hj'] at hback
  obtain rfl := Option.some.inj hback
  by_cases hzero : j = 0
  · subst hzero
    rw [if_pos rfl] at hnext hrune
    rw [List.drop_zero] at hin
    by_cases hs : start = 0
    · -- the position is inside the first rune, and the next chunk starts there
      obtain rfl : next = e - o := by omega
      rw [boundaryAt_inside hv (by omega) (by omega)]
      exact iff_of_false Bool.false_ne_true (by omega)
    · -- a later chunk starts behind the first rune
      refine iff_of_true (hrune ?_) (by omega)
      by_contra hgt
      rw [hbetween start (by omega) (by omega)] at hstart
      cases hstart
  · rw [if_neg hzero] at hnext hrune
    have hw : (decodeRuneInString text).2 ≤ j := by
      by_contra hlt
      rw [boundaryAt_inside hv (by omega) (by omega)] at hj
      cases hj
    refine iff_of_true ?_ (by omega)
    rcases hnext with ⟨hnext, -⟩ | ⟨hle, -⟩
    · obtain rfl : next = j := by omega
      exact hj
    · exact hrune hle

/-! ## The loop -/

theorem chunkLoop_more (ho : 0 < overlapBytes) (hc : overlapBytes < chunkBytes) {fuel start : ℕ}
    {chunks : List GoString} (hmore : text.length - start > chunkBytes)
    (h : chunkLoop text chunkBytes overlapBytes (fuel + 1) start = some chunks) :
    ∃ (stop next : ℕ) (rest : List GoString),
      chunkStep text chunkBytes overlapBytes start = some ((stop : ℤ), (next : ℤ)) ∧
      start < next ∧ next ≤ stop ∧ stop < text.length ∧
      chunkLoop text chunkBytes overlapBytes fuel next = some rest ∧
      chunks = (text.take stop).drop start :: rest := by
  obtain ⟨stop, next, hstep, hstop, hnext, hle, -⟩ :=
    chunkStep_spec ho hc (Int.natCast_nonneg start) hmore
  lift stop to ℕ using by omega
  lift next to ℕ using by omega
  rw [chunkLoop, if_pos hmore, hstep, Option.bind_eq_bind, Option.bind_some] at h
  dsimp only at h
  rw [slice_eq_some (by omega) (by omega) (by omega), Option.bind_eq_bind, Option.bind_some] at h
  obtain ⟨rest, hrest, h⟩ := Option.bind_eq_some_iff.mp h
  refine ⟨stop, next, rest, hstep, by omega, by omega, by omega, hrest, ?_⟩
  exact (Option.some.inj h).symm

theorem chunkLoop_last {fuel start : ℕ} {chunks : List GoString}
    (hmore : ¬ text.length - start > chunkBytes)
    (h : chunkLoop text chunkBytes overlapBytes (fuel + 1) start = some chunks) :
    chunks = [text.drop start] := by
  rw [chunkLoop, if_neg hmore] at h
  obtain ⟨rest, hrest, rfl⟩ := Option.map_eq_some_iff.mp h
  rw [slice] at hrest
  split at hrest
  · rw [← Option.some.inj hrest, Int.toNat_natCast, Int.toNat_natCast, List.take_length]
  · cases hrest

theorem chunkLoop_valid (hv : validString text = true) (ho : 0 < overlapBytes)
    (hc : overlapBytes < chunkBytes) (hmin : 4 ≤ chunkBytes) {fuel start : ℕ}
    (hstart : boundaryAt text start = true)
    (hfirst : start = 0 → PastFirstRune text chunkBytes overlapBytes) {chunks : List GoString}
    (h : chunkLoop text chunkBytes overlapBytes fuel start = some chunks) :
    ∀ chunk ∈ chunks, validString chunk = true := by
  induction fuel generalizing start chunks with
  | zero => cases h
  | succ fuel ih =>
    by_cases hmore : (text.length : ℤ) - start > chunkBytes
    · obtain ⟨e, next, rest, hstep, hnext, hle, hlen, hrest, rfl⟩ := chunkLoop_more ho hc hmore h
      obtain ⟨e', he', hlt, hlast⟩ := chunkStep_stop hv hmin hmore hstep
      obtain rfl : e = e' := by omega
      have haligned := (chunkStep_aligned hv ho hstart hlt hlen hlast.2.1 hstep).mpr fun hbad => by
        obtain ⟨rfl, hlo, hhi⟩ := hbad
        rw [Nat.zero_add] at hlast
        have := hfirst rfl (by omega) e hlast
        omega
      rw [List.forall_mem_cons]
      exact ⟨validString_between hv hstart hlast.2.1,
        ih haligned (fun hzero => by omega) hrest⟩
    · rw [chunkLoop_last hmore h, List.forall_mem_singleton]
      exact (validString_cut hv hstart).2

/-- The first chunk of the loop starts where the loop does. -/
theorem boundaryAt_of_chunkLoop (ho : 0 < overlapBytes) (hc : overlapBytes < chunkBytes)
    {fuel start : ℕ} (hlt : start < text.length) (hfuel : text.length - start ≤ fuel)
    {chunks : List GoString} (h : chunkLoop text chunkBytes overlapBytes fuel start = some chunks)
    (hvalid : ∀ chunk ∈ chunks, validString chunk = true) : boundaryAt text start = true := by
  obtain ⟨spans, hspans, hcovers, hfits⟩ := chunkLoop_covers ho hc fuel start hlt hfuel
  obtain rfl := Option.some.inj (hspans.symm.trans h)
  obtain ⟨s, hs, rfl⟩ := hcovers.first
  have hmem : s ∈ spans := List.mem_of_mem_head? hs
  have hcut := boundaryAt_of_validString_drop (hvalid _ (List.mem_map_of_mem hmem))
  rwa [boundaryAt, List.getElem?_take_of_lt (hfits s hmem).1] at hcut

/-! ## The chunks of a text -/

/-- **When the chunks are valid text.** For every valid text, every chunk size of at least four
bytes and every smaller overlap, no chunk begins or ends inside a rune exactly if the text fits into
one chunk or the overlap does not reach back from the end of the first chunk into the inside of the
first rune. -/
theorem wholeChunks_iff (hv : validString text = true) (hmin : 4 ≤ chunkBytes)
    (ho : 0 < overlapBytes) (hc : overlapBytes < chunkBytes) :
    WholeChunks text chunkBytes overlapBytes ↔ PastFirstRune text chunkBytes overlapBytes := by
  have hzero := boundaryAt_zero hv
  have hloop (hlong : chunkBytes < text.length) : splitChunks text chunkBytes overlapBytes =
      chunkLoop text chunkBytes overlapBytes (text.length + 1) (0 : ℕ) := if_neg (by omega)
  constructor
  · rintro ⟨chunks, hsplit, hvalid⟩ hlong e he
    rw [hloop hlong] at hsplit
    have hmore : (text.length : ℤ) - (0 : ℕ) > chunkBytes := by omega
    obtain ⟨e', next, rest, hstep, hnext, hle, hlen, hrest, rfl⟩ := chunkLoop_more ho hc hmore hsplit
    obtain ⟨e'', he'', hlt, hlast⟩ := chunkStep_stop hv hmin hmore hstep
    obtain rfl : e' = e'' := by omega
    rw [Nat.zero_add] at hlast
    obtain rfl := he.unique hlast
    have haligned := boundaryAt_of_chunkLoop ho hc (by omega) (by omega) hrest
      (List.forall_mem_cons.mp hvalid).2
    have := (chunkStep_aligned hv ho hzero hlt hlen hlast.2.1 hstep).mp haligned
    omega
  · intro hpast
    by_cases hlong : chunkBytes < text.length
    · have hpos : 0 < text.length := by omega
      obtain ⟨spans, hspans, -⟩ := chunkLoop_covers ho hc (text.length + 1) 0 hpos (by omega)
      refine ⟨_, (hloop hlong).trans hspans, ?_⟩
      exact chunkLoop_valid hv ho hc hmin hzero (fun _ => hpast) hspans
    · refine ⟨[text], if_pos (.inr (by omega)), ?_⟩
      rw [List.forall_mem_singleton]
      exact hv

/-- Three letters of the second chunk are in the first one. -/
theorem wholeChunks_iff_letters : WholeChunks (str "über alles") 5 3 := by
  refine (wholeChunks_iff (by decide) (by decide) (by decide) (by decide)).mpr fun _ e he => ?_
  obtain rfl : e = 5 := he.unique ⟨by decide, by decide, fun j hj hj' => by omega⟩
  exact .inr (by decide)

/-- **A chunk that begins inside a rune**: two characters of four bytes, in chunks of four bytes
with an overlap of three. -/
theorem second_chunk_cut_in_rune : validString (str "😀😀") = true ∧
    splitChunks (str "😀😀") 4 3 =
      some [str "😀", [0x9F, 0x98, 0x80], [0x98, 0x80], [0x80], str "😀"] ∧
    ¬ WholeChunks (str "😀😀") 4 3 := by
  have hsplit : splitChunks (str "😀😀") 4 3 =
      some [str "😀", [0x9F, 0x98, 0x80], [0x98, 0x80], [0x80], str "😀"] := by decide
  refine ⟨by decide, hsplit, ?_⟩
  rintro ⟨chunks, hchunks, hvalid⟩
  obtain rfl := Option.some.inj (hsplit.symm.trans hchunks)
  exact absurd (hvalid [0x9F, 0x98, 0x80] (by simp)) (by decide)

end

end SynitWaf.Guard
