import Mathlib.Tactic.Lift
import SynitWaf.Cover
import SynitWaf.Go.Time
import SynitWaf.Go.Utf8
import SynitWaf.Llm.Chunks

/-!
# Chunks of a text in the guard

The guard cuts a text that is longer than the window of its model. Positions are integers, as in
the source: the overlap may reach back before the beginning of the text. An index out of range is a
panic, and then there is no result.

* `runeBoundary`, `chunkStep`: one round of the loop;
* `splitChunks`;
* `runeBoundary_spec`, `chunkStep_spec`: what a round can do;
* **`splitChunks_covers`**: the chunks are spans of the text that follow each other, and a stretch
  no longer than the overlap lies in one of them.
-/

namespace SynitWaf.Guard

open Go Cover

/-- The text from position `i` up to position `j`; `none` if the positions are out of range. -/
def slice (text : GoString) (i j : ℤ) : Option GoString :=
  if 0 ≤ i ∧ i ≤ j ∧ j ≤ text.length then some ((text.take j.toNat).drop i.toNat) else none

/-- The loop of `runeBoundary` at position `i`, with `n` rounds to go. -/
def boundaryLoop (text : GoString) (index : ℤ) : ℕ → ℤ → Option ℤ
  | 0, _ => some index
  | n + 1, i =>
    if i ≤ 0 then some index
    else
      match text[i.toNat]? with
      | none => none
      | some b => if runeStart b then some i else boundaryLoop text index n (i - 1)

/-- `runeBoundary`. -/
def runeBoundary (text : GoString) (index : ℤ) : Option ℤ := boundaryLoop text index utfMax index

/-- One round of the loop of `splitChunks`: the end of the chunk, and the start of the next one. -/
def chunkStep (text : GoString) (chunkBytes overlapBytes start : ℤ) : Option (ℤ × ℤ) := do
  let boundary ← runeBoundary text (start + chunkBytes)
  let stop := if boundary ≤ start then start + chunkBytes else boundary
  let next ← runeBoundary text (stop - overlapBytes)
  if next ≤ start then
    let rest ← slice text start text.length
    return (stop, min (start + (decodeRuneInString rest).2) stop)
  else return (stop, next)

/-- The loop of `splitChunks`, for at most `fuel` rounds. -/
def chunkLoop (text : GoString) (chunkBytes overlapBytes : ℤ) : ℕ → ℤ → Option (List GoString)
  | 0, _ => none
  | fuel + 1, start =>
    if text.length - start > chunkBytes then do
      let (stop, next) ← chunkStep text chunkBytes overlapBytes start
      let chunk ← slice text start stop
      let chunks ← chunkLoop text chunkBytes overlapBytes fuel next
      return chunk :: chunks
    else (slice text start text.length).map fun rest => [rest]

/-- `splitChunks`; `none` if an index is out of range or the loop takes more than one round for
every byte. -/
def splitChunks (text : GoString) (chunkBytes overlapBytes : ℤ) : Option (List GoString) :=
  if chunkBytes ≤ 0 ∨ text.length ≤ chunkBytes then some [text]
  else chunkLoop text chunkBytes overlapBytes (text.length + 1) 0

example : splitChunks (str "abcdef") 3 1 = some [str "abc", str "cde", str "ef"] := by decide

/-! ## One round -/

section

variable {text : GoString}

theorem slice_eq_some {i j : ℤ} (hi : 0 ≤ i) (hij : i ≤ j) (hj : j ≤ text.length) :
    slice text i j = some ((text.take j.toNat).drop i.toNat) :=
  if_pos ⟨hi, hij, hj⟩

theorem boundaryLoop_spec {index : ℤ} (n : ℕ) {i : ℤ} (hi : i ≤ index) (hlt : index < text.length) :
    ∃ b, boundaryLoop text index n i = some b ∧ b ≤ index ∧ (b = index ∨ i - n < b ∧ 0 < b) := by
  induction n generalizing i with
  | zero => exact ⟨index, rfl, le_refl _, .inl rfl⟩
  | succ n ih =>
    unfold boundaryLoop
    by_cases hpos : i ≤ 0
    · exact ⟨index, if_pos hpos, le_refl _, .inl rfl⟩
    rw [if_neg hpos]
    have hget : i.toNat < text.length := by omega
    rw [List.getElem?_eq_getElem hget]
    dsimp only
    by_cases hs : runeStart text[i.toNat] = true
    · rw [if_pos hs]
      exact ⟨i, rfl, hi, .inr ⟨by push_cast; omega, by omega⟩⟩
    · rw [if_neg hs]
      obtain ⟨b, hb, hle, hor⟩ := ih (i := i - 1) (by omega)
      refine ⟨b, hb, hle, ?_⟩
      push_cast
      omega

/-- The boundary is at most three bytes before the position. -/
theorem runeBoundary_spec (index : ℤ) (hlt : index < text.length) :
    ∃ b, runeBoundary text index = some b ∧ b ≤ index ∧ index - 4 < b := by
  obtain ⟨b, hb, hle, hor⟩ := boundaryLoop_spec utfMax (le_refl index) hlt
  refine ⟨b, hb, hle, ?_⟩
  rw [show ((utfMax : ℕ) : ℤ) = 4 from rfl] at hor
  omega

variable {chunkBytes overlapBytes : ℤ}

/-- A round moves both ends forward, and keeps the overlap if the chunk has room for it. -/
theorem chunkStep_spec {start : ℤ} (ho : 0 < overlapBytes) (hc : overlapBytes < chunkBytes)
    (h0 : 0 ≤ start) (hmore : text.length - start > chunkBytes) :
    ∃ stop next, chunkStep text chunkBytes overlapBytes start = some (stop, next) ∧
      stop ≤ start + chunkBytes ∧ start < next ∧ next ≤ stop ∧
      (overlapBytes + 7 ≤ chunkBytes → next + overlapBytes ≤ stop) := by
  obtain ⟨boundary, hb, hble, hbgt⟩ := runeBoundary_spec (start + chunkBytes)
    (show start + chunkBytes < text.length by omega)
  obtain ⟨stop, hstop⟩ : ∃ stop, stop = if boundary ≤ start then start + chunkBytes else boundary :=
    ⟨_, rfl⟩
  have hstops : start < stop ∧ stop ≤ start + chunkBytes ∧
      (overlapBytes + 7 ≤ chunkBytes → start + chunkBytes - 4 < stop) := by
    rw [hstop]
    split <;> omega
  obtain ⟨next, hn, hnle, hngt⟩ := runeBoundary_spec (stop - overlapBytes)
    (show stop - overlapBytes < text.length by omega)
  have hstep : chunkStep text chunkBytes overlapBytes start =
      if next ≤ start then (slice text start text.length).map fun rest =>
        (stop, min (start + (decodeRuneInString rest).2) stop)
      else some (stop, next) := by
    unfold chunkStep
    rw [hb, Option.bind_eq_bind, Option.bind_some]
    dsimp only
    rw [← hstop, hn, Option.bind_eq_bind, Option.bind_some]
    split <;> cases slice text start text.length <;> rfl
  rw [hstep]
  by_cases hback : next ≤ start
  · -- the overlap reaches back to the start of the chunk: one rune forward
    rw [if_pos hback, slice_eq_some h0 (by omega) (by omega), Option.map_some]
    refine ⟨stop, _, rfl, hstops.2.1, ?_, min_le_right _ _, by omega⟩
    have hne : (text.take (text.length : ℤ).toNat).drop start.toNat ≠ [] := by
      rw [← List.length_pos_iff, List.length_drop, List.length_take]
      omega
    have hsize := decodeRune_size_pos hne
    omega
  · rw [if_neg hback]
    exact ⟨stop, next, rfl, hstops.2.1, by omega, by omega, by omega⟩

/-! ## The loop -/

/-- The chunk of a span. -/
def cut (text : GoString) (s : Span) : GoString := (text.take s.stop).drop s.start

/-- The span is not empty, lies in the text and is no longer than a chunk may be. -/
def Fits (text : GoString) (chunkBytes : ℤ) (s : Span) : Prop :=
  s.start < s.stop ∧ s.stop ≤ text.length ∧ (s.stop - s.start : ℤ) ≤ chunkBytes

/-- The overlap of consecutive chunks that is certain. -/
def sureOverlap (chunkBytes overlapBytes : ℤ) : ℕ :=
  if overlapBytes + 7 ≤ chunkBytes then overlapBytes.toNat else 0

/-- The loop ends, within one round for every byte that is left, and its chunks cover that part. -/
theorem chunkLoop_covers (ho : 0 < overlapBytes) (hc : overlapBytes < chunkBytes) (fuel start : ℕ)
    (hlt : start < text.length) (hfuel : text.length - start ≤ fuel) :
    ∃ spans, chunkLoop text chunkBytes overlapBytes fuel start = some (spans.map (cut text)) ∧
      Covers text.length (sureOverlap chunkBytes overlapBytes) start spans ∧
      ∀ s ∈ spans, Fits text chunkBytes s := by
  induction fuel generalizing start with
  | zero => omega
  | succ fuel ih =>
    unfold chunkLoop
    by_cases hmore : (text.length : ℤ) - start > chunkBytes
    · obtain ⟨stop, next, hstep, hstop, hnext, hle, hover⟩ :=
        chunkStep_spec ho hc (Int.natCast_nonneg start) hmore
      lift stop to ℕ using by omega
      lift next to ℕ using by omega
      obtain ⟨spans, hloop, hcov, hfits⟩ := ih next (by omega) (by omega)
      refine ⟨⟨start, stop⟩ :: spans, ?_, ?_, ?_⟩
      · rw [if_pos hmore, hstep, Option.bind_eq_bind, Option.bind_some]
        dsimp only
        rw [slice_eq_some (by omega) (by omega) (by omega), Option.bind_eq_bind, Option.bind_some,
          hloop]
        rfl
      · have hstart : (⟨start, stop⟩ : Span).start < next := by dsimp only; omega
        refine hcov.cons hstart ?_
        unfold sureOverlap
        split <;> dsimp only <;> omega
      · rw [List.forall_mem_cons]
        refine ⟨⟨?_, ?_, ?_⟩, hfits⟩ <;> dsimp only <;> omega
    · rw [if_neg hmore, slice_eq_some (by omega) (by omega) (by omega)]
      refine ⟨[⟨start, text.length⟩], rfl, .single _ _ _, ?_⟩
      rw [List.forall_mem_singleton]
      refine ⟨hlt, le_refl _, ?_⟩
      dsimp only
      omega

/-- The chunks of a text, as spans. -/
theorem splitChunks_spans (text : GoString) (ho : 0 < overlapBytes) (hc : overlapBytes < chunkBytes) :
    ∃ spans, splitChunks text chunkBytes overlapBytes = some (spans.map (cut text)) ∧
      Covers text.length (sureOverlap chunkBytes overlapBytes) 0 spans ∧
      (text ≠ [] → ∀ s ∈ spans, Fits text chunkBytes s) ∧ spans.length ≤ max 1 text.length := by
  unfold splitChunks
  by_cases hshort : chunkBytes ≤ 0 ∨ (text.length : ℤ) ≤ chunkBytes
  · refine ⟨[⟨0, text.length⟩], ?_, .single _ _ _, fun hne => ?_, by simp⟩
    · rw [if_pos hshort]
      simp [cut]
    · have hpos := List.length_pos_iff.mpr hne
      rw [List.forall_mem_singleton]
      refine ⟨hpos, le_refl _, ?_⟩
      dsimp only
      omega
  · rw [if_neg hshort]
    have hpos : 0 < text.length := by omega
    obtain ⟨spans, hloop, hcov, hfits⟩ :=
      chunkLoop_covers ho hc (text.length + 1) 0 hpos (by omega)
    refine ⟨spans, hloop, hcov, fun _ => hfits, ?_⟩
    have hlen := hcov.length_le fun s hs => by
      have := hfits s hs
      exact lt_of_lt_of_le this.1 this.2.1
    omega

/-- **The chunks cover the text.** The loop never indexes out of range and ends. Its chunks are
spans of the text, at most one for every byte, that follow each other from the first byte to the
last one; and with room for the overlap, a stretch of the text no longer than the overlap lies in
one of them. -/
theorem splitChunks_covers (text : GoString) (chunkBytes overlapBytes : ℤ) (ho : 0 < overlapBytes)
    (hc : overlapBytes < chunkBytes) :
    ∃ spans : List Span,
      splitChunks text chunkBytes overlapBytes = some (spans.map (cut text)) ∧
      spans.length ≤ max 1 text.length ∧
      (text ≠ [] → ∀ s ∈ spans, Fits text chunkBytes s) ∧
      (∃ s, spans.head? = some s ∧ s.start = 0) ∧
      spans.IsChain (fun s t => s.start < t.start ∧ t.start ≤ s.stop) ∧
      (∃ s, spans.getLast? = some s ∧ s.stop = text.length) ∧
      (overlapBytes + 7 ≤ chunkBytes → ∀ i len : ℕ, (len : ℤ) ≤ overlapBytes →
        i + len ≤ text.length → ∃ s ∈ spans, s.start ≤ i ∧ i + len ≤ s.stop) := by
  obtain ⟨spans, hsplit, hcov, hfits, hlen⟩ := splitChunks_spans text ho hc
  have hchain := (hcov.mono (Nat.zero_le _)).follow
  refine ⟨spans, hsplit, hlen, hfits, hcov.first, hchain, hcov.last, fun hroom i len hl hi => ?_⟩
  rw [sureOverlap, if_pos hroom] at hcov
  exact hcov.contains (Nat.zero_le i) (by omega) hi

theorem splitChunks_covers_hello : ∃ spans : List Span,
    splitChunks (str "hello, world") 9 2 = some (spans.map (cut (str "hello, world"))) ∧
      spans.length ≤ 12 :=
  let ⟨spans, h, hlen, _⟩ := splitChunks_covers (str "hello, world") 9 2 (by decide) (by decide)
  ⟨spans, h, hlen⟩

end

end SynitWaf.Guard
