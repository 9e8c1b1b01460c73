import SynitWaf.Go.Utf8
import SynitWaf.Machine
import SynitWaf.Regex

/-!
# Package regexp

The part of the syntax of regular expressions without repetitions, classes, flags and captures.

* `special`: the characters with a meaning of their own;
* `Reading`, `readByte`: an expression is read byte by byte, with the open groups on a stack;
* `compile`: from the text of an expression to its meaning;
* `readByte_plain`, `read_escaped`: how one character is read.
-/

namespace Go

/-- The characters with a meaning of their own. -/
def special (c : UInt8) : Bool := c ∈ str "\\.+*?()|[]\x7b\x7d^$"

/-- An open group: the alternatives before the current one, and the current one. -/
structure Frame where
  before : Option (Regex UInt8)
  current : Regex UInt8

namespace Frame

/-- A group with nothing in it. -/
def start : Frame := ⟨none, .empty⟩

/-- The expression of the whole group. -/
def close (f : Frame) : Regex UInt8 :=
  match f.before with
  | none => f.current
  | some r => .alt r f.current

/-- The current alternative goes on with `r`. -/
def push (f : Frame) (r : Regex UInt8) : Frame := { f with current := .seq f.current r }

/-- A new alternative starts. -/
def next (f : Frame) : Frame := ⟨some f.close, .empty⟩

end Frame

/-- Where the reader is: between two items, behind a backslash, or in the head of a group. -/
inductive Mode where
  | plain
  | escaped
  | opened
  | queried
  deriving DecidableEq

/-- The state of the reader: the current group and the groups around it. -/
structure Reading where
  mode : Mode
  frame : Frame
  outer : List Frame

/-- Read one byte of an expression; `none` if the expression is not well formed or uses another
construct. -/
def readByte (st : Reading) (c : UInt8) : Option Reading :=
  match st.mode with
  | .escaped => if special c then some ⟨.plain, st.frame.push (.char c), st.outer⟩ else none
  | .opened => if c = byte '?' then some { st with mode := .queried } else none
  | .queried => if c = byte ':' then some ⟨.plain, .start, st.frame :: st.outer⟩ else none
  | .plain =>
    if ¬ special c then some { st with frame := st.frame.push (.char c) }
    else if c = byte '\\' then some { st with mode := .escaped }
    else if c = byte '(' then some { st with mode := .opened }
    else if c = byte ')' then
      match st.outer with
      | [] => none
      | f :: outer => some ⟨.plain, f.push st.frame.close, outer⟩
    else if c = byte '|' then some { st with frame := st.frame.next }
    else if c = byte '^' then some { st with frame := st.frame.push .atBegin }
    else if c = byte '$' then some { st with frame := st.frame.push .atEnd }
    else none

/-- The expression that has been read, if all groups are closed. -/
def Reading.result (st : Reading) : Option (Regex UInt8) :=
  if st.mode = .plain ∧ st.outer = [] then some st.frame.close else none

/-- `regexp.Compile`: an expression has to be valid UTF-8, and its bytes stand for themselves. -/
def compile (expr : GoString) : Option (Regex UInt8) :=
  if validString expr then (Machine.run readByte ⟨.plain, .start, []⟩ expr).bind Reading.result
  else none

section Read

variable (f g : Frame) (outer : List Frame) {c : UInt8}

theorem readByte_plain (hc : special c = false) :
    Machine.run readByte ⟨.plain, f, outer⟩ [c] = some ⟨.plain, f.push (.char c), outer⟩ := by
  simp [Machine.run, readByte, hc]

theorem read_escaped (hc : special c = true) :
    Machine.run readByte ⟨.plain, f, outer⟩ [byte '\\', c] =
      some ⟨.plain, f.push (.char c), outer⟩ := by
  have hslash : special (byte '\\') = true := by decide
  simp [Machine.run, readByte, hc, hslash]

end Read

example : (compile (str "^(?:a\\.b|c)(?:/|$)")).map (·.test (str "a.b/x")) = some true := by
  decide

example : (compile (str "^(?:a\\.b|c)(?:/|$)")).map (·.test (str "/c")) = some false := by
  decide

end Go
