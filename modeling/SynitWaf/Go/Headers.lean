import Mathlib.Logic.Function.Basic
import SynitWaf.Go.Strings

/-!
# Changing headers

`http.Header` under canonical names: a change under any spelling of a name is a change under its
canonical form.

* `canonicalMIMEHeaderKey`, `Header.set`, `Header.del`;
* `Header.foldl_apply`: a loop that never changes a name; `Header.foldl_del_mem`,
  **`Header.foldl_set_agree`**, `Header.foldl_set_mem`: what a loop of changes leaves under a name.
-/

namespace Go

/-- A letter, a digit or one of the signs a field name may have. -/
def validHeaderFieldByte (c : UInt8) : Bool :=
  (byte 'a' ≤ c && c ≤ byte 'z') || (byte 'A' ≤ c && c ≤ byte 'Z') || (byte '0' ≤ c && c ≤ byte '9') ||
    c ∈ str "!#$%&'*+-.^_`|~"

/-- The upper-case form of an ASCII letter. -/
def upperByte (c : UInt8) : UInt8 := if byte 'a' ≤ c ∧ c ≤ byte 'z' then c - 32 else c

/-- The first letter and those behind a hyphen are upper case, the others lower case. -/
def canonicalLetters : Bool → GoString → GoString
  | _, [] => []
  | upper, c :: s =>
    let c := if upper then upperByte c else lowerByte c
    c :: canonicalLetters (c = byte '-') s

/-- `textproto.CanonicalMIMEHeaderKey`; a text that is no field name stays as it is. -/
def canonicalMIMEHeaderKey (s : GoString) : GoString :=
  if s.all validHeaderFieldByte then canonicalLetters true s else s

example : canonicalMIMEHeaderKey (str "x-real-IP") = str "X-Real-Ip" := by decide

namespace Header

/-- `Header.Set`. -/
def set (h : Header) (key value : GoString) : Header :=
  Function.update h (canonicalMIMEHeaderKey key) [value]

/-- `Header.Del`. -/
def del (h : Header) (key : GoString) : Header :=
  Function.update h (canonicalMIMEHeaderKey key) []

variable {h : Header} {name : GoString}

@[simp] theorem set_self (h : Header) (key value : GoString) :
    h.set key value (canonicalMIMEHeaderKey key) = [value] := Function.update_self ..

theorem set_of_ne {key : GoString} (hne : canonicalMIMEHeaderKey key ≠ name) (value : GoString) :
    h.set key value name = h name := Function.update_of_ne hne.symm ..

theorem del_of_ne {key : GoString} (hne : canonicalMIMEHeaderKey key ≠ name) :
    h.del key name = h name := Function.update_of_ne hne.symm ..

theorem del_eq_nil (hnil : h name = []) (key : GoString) : h.del key name = [] := by
  by_cases hname : canonicalMIMEHeaderKey key = name
  · rw [← hname]
    exact Function.update_self ..
  · rw [del_of_ne hname, hnil]

/-! ## Loops -/

variable {α : Type}

/-- A loop none of whose steps changes what stands under `name`. -/
theorem foldl_apply {step : Header → α → Header} {l : List α}
    (hstep : ∀ x ∈ l, ∀ h, step h x name = h name) : (l.foldl step h) name = h name := by
  induction l generalizing h with
  | nil => rfl
  | cons x l ih =>
    rw [List.foldl_cons, ih fun y hy => hstep y (List.mem_cons_of_mem _ hy)]
    exact hstep x List.mem_cons_self h

theorem foldl_del_eq_nil (hnil : h name = []) (keys : List GoString) :
    (keys.foldl del h) name = [] := by
  induction keys generalizing h with
  | nil => exact hnil
  | cons key keys ih => exact ih (del_eq_nil hnil key)

theorem foldl_del_mem {keys : List GoString} {key : GoString} (hkey : key ∈ keys) :
    (keys.foldl del h) (canonicalMIMEHeaderKey key) = [] := by
  obtain ⟨l, l', rfl⟩ := List.append_of_mem hkey
  rw [List.foldl_append, List.foldl_cons]
  exact foldl_del_eq_nil (Function.update_self ..) l'

/-- **A loop that sets headers** leaves the value on which all settings of a name agree. -/
theorem foldl_set_agree {key value : α → GoString} {l : List α} {v : GoString}
    (hex : ∃ x ∈ l, canonicalMIMEHeaderKey (key x) = name)
    (hagree : ∀ x ∈ l, canonicalMIMEHeaderKey (key x) = name → value x = v) :
    (l.foldl (fun h y => h.set (key y) (value y)) h) name = [v] := by
  induction l generalizing h with
  | nil => obtain ⟨x, hx, -⟩ := hex; cases hx
  | cons y l ih =>
    obtain ⟨hy, hl⟩ := List.forall_mem_cons.mp hagree
    rw [List.foldl_cons]
    by_cases hlater : ∃ x ∈ l, canonicalMIMEHeaderKey (key x) = name
    · exact ih hlater hl
    · have hname : canonicalMIMEHeaderKey (key y) = name := by
        obtain ⟨x, hx, hname⟩ := hex
        obtain rfl | hx := List.mem_cons.mp hx
        · exact hname
        · exact absurd ⟨x, hx, hname⟩ hlater
      rw [foldl_apply fun z hz h => set_of_ne (fun heq => hlater ⟨z, hz, heq⟩) _, ← hname, set_self,
        hy hname]

end Header

end Go
