import SynitWaf.Cover
import SynitWaf.Llm.Chunks

/-!
# When the chunks of a text end

The end of a chunk is walked back over continuation bytes. If nothing else stands between the start
of a chunk and its largest end, the end is walked back to the start, the chunk is empty and the next
one starts at the same place.

* `IterationAt`: the starts the loop comes to; `SplitsText`: what the chunks should be;
* `Boundaries`: no `maxBytes` continuation bytes follow each other behind the first byte;
* `splitLoop_covers`: the chunks of a loop that ends leave no gap; `splitLoop_returns`,
  `splitLoop_never_returns`: when it ends;
* **`splitsText_iff`**; `splitLLMText_hangs`: one character of two bytes.
-/

namespace SynitWaf

open Go Cover

/-- The overlap of the chunks. -/
def chunkOverlap (maxBytes : ℤ) : ℕ := min llmTextChunkOverlapBytes (maxBytes.toNat / 4)

/-- The bytes of a span. -/
def spanText (text : GoString) (s : Span) : GoString := (text.take s.stop).drop s.start

/-- The loop begins a round at `start`. -/
inductive IterationAt (text : GoString) (maxBytes overlap : ℕ) : ℕ → Prop
  | first : 0 < text.length → IterationAt text maxBytes overlap 0
  | next {start : ℕ} : IterationAt text maxBytes overlap start →
      (splitStep text maxBytes overlap start).1 ≠ text.length →
      (splitStep text maxBytes overlap start).2 < text.length →
      IterationAt text maxBytes overlap (splitStep text maxBytes overlap start).2

/-- Every round that does not end the loop moves on, and the chunks are spans of the text without a
gap between them, none of them empty or too long. -/
structure SplitsText (text : GoString) (maxBytes : ℤ) : Prop where
  progress : maxBytes < text.length → ∀ start,
    IterationAt text maxBytes.toNat (chunkOverlap maxBytes) start →
    (splitStep text maxBytes.toNat (chunkOverlap maxBytes) start).1 ≠ text.length →
    start < (splitStep text maxBytes.toNat (chunkOverlap maxBytes) start).2
  covers : ∃ spans, splitLLMText text maxBytes = some (spans.map (spanText text)) ∧
    Covers text.length 0 0 spans
  bounded : text ≠ [] → ∀ chunks, splitLLMText text maxBytes = some chunks →
    ∀ c ∈ chunks, c ≠ [] ∧ (c.length : ℤ) ≤ maxBytes

/-- Among `maxBytes` bytes behind the first one there is always the start of a character. -/
def Boundaries (text : GoString) (maxBytes : ℕ) : Prop :=
  ∀ i, i + maxBytes < text.length → ∃ j, i < j ∧ j ≤ i + maxBytes ∧ boundaryAt text j = true

section Loop

variable {text : GoString} {maxBytes overlap : ℕ}

/-! ## Walking back -/

/-- A boundary behind the start is not walked over. -/
theorem backTo_boundary {start i j : ℕ} (hstart : start < j) (hji : j ≤ i)
    (hj : boundaryAt text j = true) :
    j ≤ backTo text start i ∧ boundaryAt text (backTo text start i) = true := by
  induction i with
  | zero => omega
  | succ i ih =>
    unfold backTo
    split
    next h =>
      have hne : j ≠ i + 1 := by
        rintro rfl
        rw [hj] at h
        cases h.2
      exact ih (by omega)
    next h =>
      refine ⟨hji, ?_⟩
      by_contra hno
      exact h ⟨by omega, eq_false_of_ne_true hno⟩

theorem backTo_le_of_forall {start i k : ℕ} (hstart : start ≤ k)
    (hk : ∀ j, k < j → j ≤ i → boundaryAt text j = false) : backTo text start i ≤ k := by
  induction i with
  | zero => exact Nat.zero_le k
  | succ i ih =>
    unfold backTo
    split
    next => exact ih fun j hkj hji => hk j hkj (by omega)
    next h =>
      by_contra hlt
      exact h ⟨by omega, hk (i + 1) (by omega) (Nat.le_refl _)⟩

/-! ## One round -/

/-- A round moves on if there is a boundary to cut at. -/
theorem lt_splitStep (hb : Boundaries text maxBytes) (overlap : ℕ) {start : ℕ}
    (hlt : start < text.length) : start < (splitStep text maxBytes overlap start).1 := by
  unfold splitStep
  dsimp only
  by_cases hend : start + maxBytes < text.length
  · obtain ⟨j, hij, hj, hboundary⟩ := hb start hend
    rw [Nat.min_eq_left hend.le]
    exact hij.trans_le (backTo_boundary hij hj hboundary).1
  · rw [Nat.min_eq_right (by omega)]
    -- the end of the text is a boundary
    exact hlt.trans_le (backTo_boundary hlt (Nat.le_refl _) (by simp [boundaryAt])).1

theorem splitStep_next_le (text : GoString) (maxBytes overlap start : ℕ) :
    (splitStep text maxBytes overlap start).2 ≤ (splitStep text maxBytes overlap start).1 := by
  unfold splitStep
  dsimp only
  split
  · exact Nat.le_refl _
  · exact (backTo_le _ _ _).trans (Nat.sub_le _ _)

theorem splitStep_stop_le (text : GoString) (maxBytes overlap start : ℕ) :
    (splitStep text maxBytes overlap start).1 ≤ text.length :=
  (backTo_le _ _ _).trans (Nat.min_le_right _ _)

theorem lt_splitStep_next {start : ℕ} (h : start < (splitStep text maxBytes overlap start).1) :
    start < (splitStep text maxBytes overlap start).2 := by
  unfold splitStep at h ⊢
  dsimp only at h ⊢
  split
  · exact h
  · omega

/-- A round cannot get over a stretch without a boundary. -/
theorem splitStep_stop_le_of_stretch {i : ℕ} (hlen : i + maxBytes < text.length)
    (hi : ∀ j, i < j → j ≤ i + maxBytes → boundaryAt text j = false) (overlap : ℕ) {start : ℕ}
    (hstart : start ≤ i) : (splitStep text maxBytes overlap start).1 ≤ i := by
  unfold splitStep
  dsimp only
  rw [Nat.min_eq_left (by omega)]
  exact backTo_le_of_forall hstart fun j hij hj => hi j hij (by omega)

/-! ## The loop -/

/-- **The chunks of a loop that ends.** If every round keeps `P` of the start and lets the next chunk
begin `k` bytes before the end of its own, the chunks cover the text with that overlap. -/
theorem splitLoop_covers {k : ℕ} {P : ℕ → Prop}
    (hP : ∀ start, P start → start < text.length →
      (splitStep text maxBytes overlap start).1 ≠ text.length →
      P (splitStep text maxBytes overlap start).2 ∧
        (splitStep text maxBytes overlap start).2 + k ≤ (splitStep text maxBytes overlap start).1)
    {fuel start : ℕ} {chunks : List GoString} (hstart : P start) (hlt : start < text.length)
    (h : splitLoop text maxBytes overlap fuel start = some chunks) :
    ∃ spans, chunks = spans.map (spanText text) ∧ Covers text.length k start spans ∧
      ∀ s ∈ spans, P s.start ∧ s.start < text.length ∧
        s.stop = (splitStep text maxBytes overlap s.start).1 := by
  induction fuel generalizing start chunks with
  | zero => cases h
  | succ fuel ih =>
    by_cases hs : (splitStep text maxBytes overlap start).1 = text.length
    · rw [splitLoop, if_neg (by omega)] at h
      dsimp only at h
      rw [if_pos hs, hs] at h
      refine ⟨[⟨start, text.length⟩], (Option.some.inj h).symm, .single .., ?_⟩
      rw [List.forall_mem_singleton]
      exact ⟨hstart, hlt, hs.symm⟩
    · have hstop := splitStep_stop_le text maxBytes overlap start
      obtain ⟨hnext, hover⟩ := hP start hstart hlt hs
      have hprogress : start < (splitStep text maxBytes overlap start).2 := by
        refine Nat.lt_of_le_of_ne (le_splitStep hlt) fun hstuck => ?_
        rw [splitLoop_stuck hlt hs hstuck.symm] at h
        cases h
      rw [splitLoop_succ _ hlt hs] at h
      obtain ⟨rest, hrest, rfl⟩ := Option.map_eq_some_iff.mp h
      obtain ⟨spans, rfl, hcovers, hspans⟩ := ih hnext (by omega) hrest
      let s : Span := ⟨start, (splitStep text maxBytes overlap start).1⟩
      refine ⟨s :: spans, rfl, hcovers.cons (s := s) hprogress hover, ?_⟩
      rw [List.forall_mem_cons]
      exact ⟨⟨hstart, hlt, rfl⟩, hspans⟩

theorem splitLoop_returns (hb : Boundaries text maxBytes) (overlap : ℕ) {fuel start : ℕ}
    (hle : start ≤ text.length) (hfuel : text.length < fuel + start) :
    ∃ chunks, splitLoop text maxBytes overlap fuel start = some chunks := by
  induction fuel generalizing start with
  | zero => omega
  | succ fuel ih =>
    by_cases hlt : start < text.length
    · by_cases hs : (splitStep text maxBytes overlap start).1 = text.length
      · rw [splitLoop, if_neg (by omega)]
        dsimp only
        rw [if_pos hs]
        exact ⟨_, rfl⟩
      · have hprogress := lt_splitStep_next (lt_splitStep hb overlap hlt)
        obtain ⟨chunks, hchunks⟩ := ih (splitStep_le text maxBytes overlap start) (by omega)
        rw [splitLoop_succ _ hlt hs, hchunks]
        exact ⟨_, rfl⟩
    · rw [splitLoop, if_pos (by omega)]
      exact ⟨_, rfl⟩

theorem splitLoop_never_returns {i : ℕ} (hlen : i + maxBytes < text.length)
    (hi : ∀ j, i < j → j ≤ i + maxBytes → boundaryAt text j = false) (fuel : ℕ) {start : ℕ}
    (hstart : start ≤ i) : splitLoop text maxBytes overlap fuel start = none := by
  induction fuel generalizing start with
  | zero => rfl
  | succ fuel ih =>
    have hstop := splitStep_stop_le_of_stretch hlen hi overlap hstart
    have hnext := splitStep_next_le text maxBytes overlap start
    rw [splitLoop_succ _ (by omega) (by omega), ih (hnext.trans hstop), Option.map_none]

end Loop

/-! ## The chunks of a text -/

theorem splitLLMText_long {text : GoString} {maxBytes : ℤ} (hmax : 0 < maxBytes)
    (hlong : maxBytes < text.length) : splitLLMText text maxBytes =
      splitLoop text maxBytes.toNat (chunkOverlap maxBytes) (text.length + 1) 0 :=
  if_neg (by omega)

theorem splitsText_of_boundaries {text : GoString} {maxBytes : ℤ} (hmax : 0 < maxBytes)
    (hb : Boundaries text maxBytes.toNat) : SplitsText text maxBytes where
  progress hlong start hstart hs := by
    have hlt : start < text.length := by
      cases hstart with
      | first h => exact h
      | next _ _ h => exact h
    exact lt_splitStep_next (lt_splitStep hb _ hlt)
  covers := by
    by_cases hlong : maxBytes < text.length
    · rw [splitLLMText_long hmax hlong]
      obtain ⟨chunks, hchunks⟩ :=
        splitLoop_returns hb (chunkOverlap maxBytes) (Nat.zero_le _) (Nat.lt_succ_self _)
      obtain ⟨spans, rfl, hcovers, -⟩ := splitLoop_covers (k := 0) (P := fun _ => True)
        (fun start _ _ _ => ⟨trivial, splitStep_next_le _ _ _ start⟩) trivial (by omega) hchunks
      exact ⟨spans, hchunks, hcovers⟩
    · refine ⟨[⟨0, text.length⟩], ?_, .single ..⟩
      rw [splitLLMText, if_pos (.inr (by omega))]
      simp [spanText]
  bounded hne chunks hchunks c hc := by
    obtain ⟨hlen, hnil⟩ := splitLLMText_chunks hmax hchunks
    refine ⟨?_, hlen c hc⟩
    rintro rfl
    exact hne (hnil.mp hc)

/-- **When a text is split.** For every text and every size of at least one byte, the loop ends with
chunks that cover the text exactly if no `maxBytes` continuation bytes follow each other behind the
first byte. -/
theorem splitsText_iff {text : GoString} {maxBytes : ℤ} (hmax : 1 ≤ maxBytes) :
    SplitsText text maxBytes ↔ Boundaries text maxBytes.toNat := by
  constructor
  · intro h i hlen
    by_contra hno
    have hstretch : ∀ j, i < j → j ≤ i + maxBytes.toNat → boundaryAt text j = false := by
      intro j hij hj
      by_contra hboundary
      exact hno ⟨j, hij, hj, eq_true_of_ne_false hboundary⟩
    obtain ⟨spans, hspans, -⟩ := h.covers
    rw [splitLLMText_long hmax (by omega),
      splitLoop_never_returns hlen hstretch _ (Nat.zero_le i)] at hspans
    cases hspans
  · exact splitsText_of_boundaries hmax

/-- A text of characters of up to two bytes, cut at two bytes. -/
theorem splitsText_iff_two : SplitsText (str "aéa") 2 := by
  refine (splitsText_iff (by decide)).mpr fun i hi => ?_
  have hlen : (str "aéa").length = 4 := by decide
  rw [hlen] at hi
  have hi' : i = 0 ∨ i = 1 := by omega
  obtain rfl | rfl := hi'
  · exact ⟨1, by omega, by decide, by decide⟩
  · exact ⟨3, by omega, by decide, by decide⟩

/-- **A loop that never ends**: a character of two bytes, cut at one byte. -/
theorem splitLLMText_hangs : splitLLMText (str "é") 1 = none ∧
    (∀ fuel, splitLoop (str "é") 1 (chunkOverlap 1) fuel 0 = none) ∧
    splitStep (str "é") 1 (chunkOverlap 1) 0 = (0, 0) := by
  refine ⟨by decide, fun fuel => ?_, by decide⟩
  refine splitLoop_never_returns (i := 0) (by decide) (fun j hj hj' => ?_) fuel (Nat.le_refl 0)
  obtain rfl : j = 1 := by omega
  decide

end SynitWaf
