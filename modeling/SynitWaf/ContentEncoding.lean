import SynitWaf.Request

/-!
# Codings of a body

The lines of `Content-Encoding` are one list of codings, separated by commas. The proxy looks at the
first line only.

* `codings`, `Encoded`: the list of all lines, and whether a coding other than `identity` is in it;
* `rejectsEncoding`: what the proxy looks at;
* `FirstLineTells`, **`encoded_rejected_iff`**: when this is enough.
-/

namespace SynitWaf

open Go

/-- The codings that the lines list together. -/
def codings (lines : List GoString) : List GoString :=
  ((split (join lines (byte ',')) (byte ',')).map trimSpace).filter (· ≠ [])

/-- A coding other than `identity` is listed. -/
def Encoded (lines : List GoString) : Prop := ∃ coding ∈ codings lines, lowerASCII coding ≠ str "identity"

instance (lines : List GoString) : Decidable (Encoded lines) :=
  inferInstanceAs (Decidable (∃ coding ∈ codings lines, lowerASCII coding ≠ str "identity"))

/-- The first line is neither empty nor `identity`. -/
def rejectsEncoding (lines : List GoString) : Bool :=
  let encoding := trimSpace (lines.headD [])
  encoding ≠ [] && lowerASCII encoding ≠ str "identity"

/-- The first line is rejected, or the others list no coding. -/
def FirstLineTells (lines : List GoString) : Prop :=
  rejectsEncoding lines = true ∨ ¬ Encoded lines.tail

theorem hasUnsupportedContentEncoding_eq (r : Request) :
    hasUnsupportedContentEncoding r = rejectsEncoding (r.header (str "Content-Encoding")) := rfl

theorem codings_cons (line : GoString) (lines : List GoString) :
    codings (line :: lines) = codings [line] ++ codings lines := by
  have hcons : split (join (line :: lines) (byte ',')) (byte ',') =
      split line (byte ',') ++ lines.flatMap (split · (byte ',')) := by
    rw [split_join _ _ (List.cons_ne_nil _ _), List.flatMap_cons]
  have hrest : codings lines =
      ((lines.flatMap (split · (byte ','))).map trimSpace).filter (· ≠ []) := by
    cases lines with
    | nil => decide
    | cons l lines => rw [codings, split_join _ _ (List.cons_ne_nil _ _)]
  have hline : codings [line] = ((split line (byte ',')).map trimSpace).filter (· ≠ []) := by
    rw [codings, split_join _ _ (List.cons_ne_nil _ _), List.flatMap_singleton]
  rw [hrest, hline, codings, hcons, List.map_append, List.filter_append]

theorem encoded_cons (line : GoString) (lines : List GoString) :
    Encoded (line :: lines) ↔ Encoded [line] ∨ Encoded lines := by
  unfold Encoded
  rw [codings_cons]
  simp only [List.mem_append, or_and_right, exists_or]

/-- A line that is not rejected lists no coding. -/
theorem not_encoded_line {line : GoString} {lines : List GoString}
    (h : rejectsEncoding (line :: lines) = false) : ¬ Encoded [line] := by
  have hfirst : trimSpace line = [] ∨ lowerASCII (trimSpace line) = str "identity" := by
    simpa [rejectsEncoding, or_iff_not_imp_left] using h
  have hcomma : byte ',' ∉ line := by
    rw [← mem_trimSpace (by decide)]
    intro hmem
    obtain hnil | hid := hfirst
    · rw [hnil] at hmem
      cases hmem
    · have hlower : lowerByte (byte ',') ∈ lowerASCII (trimSpace line) := List.mem_map_of_mem hmem
      rw [hid] at hlower
      exact absurd hlower (by decide)
  rintro ⟨coding, hcoding, hother⟩
  have hsplit : split (join [line] (byte ',')) (byte ',') = [line] := by
    rw [split_join _ _ (List.cons_ne_nil _ _), List.flatMap_singleton, split_of_not_mem hcomma]
  rw [codings, hsplit, List.map_singleton, List.mem_filter, List.mem_singleton] at hcoding
  obtain ⟨rfl, hne⟩ := hcoding
  obtain hnil | hid := hfirst
  · simp [hnil] at hne
  · exact hother hid

/-- **The first line is enough** if it is rejected itself, or the others list no coding. -/
theorem encoded_rejected_iff (lines : List GoString) :
    (Encoded lines → rejectsEncoding lines = true) ↔ FirstLineTells lines := by
  unfold FirstLineTells
  cases hreject : rejectsEncoding lines with
  | true => simp
  | false =>
    simp only [Bool.false_eq_true, imp_false, false_or]
    cases lines with
    | nil => rfl
    | cons line lines =>
      rw [encoded_cons, or_iff_right (not_encoded_line hreject), List.tail_cons]

end SynitWaf
