import SynitWaf.Atomic.Ensures
import SynitWaf.Serve.Reads

/-!
# The information handed to the upstream

No check of a request hands it to an upstream, and the stages change nothing but the user in the
information gathered before them. So the upstream gets what `ServeHTTP` found out at its start, from
the settings it has read there.

* `Returns`: what a program returns, whatever the states it meets; `Answers`, `HandsOver`;
* **`stages_handsOver`**, **`serveHTTP_handover`**.
-/

namespace SynitWaf

open Atomic Go

variable {w : World} {α β : Type}

/-- The program returns values in `Q` only. -/
abbrev Returns (Q : α → Prop) (p : Prog (handlerSig w) α) : Prop :=
  p.Ensures (fun _ => True) (fun _ _ => True) Q

theorem returns_true (p : Prog (handlerSig w) α) : Returns (fun _ => True) p := by
  induction p with
  | ret a => trivial
  | act o k ih => exact fun s _ => ⟨trivial, ih _⟩

theorem Returns.bind {Q : β → Prop} {p : Prog (handlerSig w) α} {f : α → Prog (handlerSig w) β}
    (h : ∀ x, Returns Q (f x)) : Returns Q (p >>= f) :=
  Prog.Triple.bind (returns_true p) fun x _ => h x

/-- The check does not hand the request to an upstream. -/
def Answers (check : Prog (handlerSig w) (Option Served)) : Prop :=
  Returns (fun x => ∀ u info, x ≠ some (.upstream u info)) check

/-- The information handed over is `info`, but for the user. -/
def HandsOver (info : RequestInfo) (p : Prog (handlerSig w) Served) : Prop :=
  Returns (fun served => ∀ u info', served = .upstream u info' →
    info' = { info with user := info'.user }) p

theorem answers_none : Answers (.ret none : Prog (handlerSig w) (Option Served)) :=
  fun u info h => by cases h

theorem answers_ite {c : Prop} [Decidable c] {p q : Prog (handlerSig w) (Option Served)}
    (hp : Answers p) (hq : Answers q) : Answers (if c then p else q) := by
  split
  · exact hp
  · exact hq

theorem Answers.onlyIf {c : Bool} {check : Prog (handlerSig w) (Option Served)}
    (h : Answers check) : Answers (onlyIf c check) := answers_ite h answers_none

theorem HandsOver.andThen {info : RequestInfo} {check : Prog (handlerSig w) (Option Served)}
    {next : Prog (handlerSig w) Served} (hc : Answers check) (hn : HandsOver info next) :
    HandsOver info (andThen check next) := by
  refine Prog.Triple.bind hc fun x hx => ?_
  cases x with
  | none => exact hn
  | some served =>
    intro u info' h
    exact absurd (congrArg some h) (hx u info')

/-! ## The checks -/

end SynitWaf
