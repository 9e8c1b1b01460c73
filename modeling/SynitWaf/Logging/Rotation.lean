import Mathlib.Data.List.Induction
import SynitWaf.Go.Errors
import SynitWaf.Go.Time

/-!
# Log files that rotate

A `rotatingFile` appends to the file whose path is a pattern with date and time. The path is resolved
again by the first write of a second, and the file before is kept if the new one cannot be opened.

* `resolvePathPattern`, **`resolvePathPattern_unix`**: the path depends on the second only;
* `RotatingFile`, `rotateLocked`, `openRotatingFile`, `write`, `close`;
* `FileEvent`: what the operating system is asked for; `lastOpened`, `openFiles`: the files it knows;
* `Rotating`: the invariant, with the instant of the last check; `Rotating.check`, **`Rotating.write`**:
  what one write does; **`rotating_run`**: the invariant in every run;
* **`written_of_run`**: every write of a run reaches the file that is open.
-/

namespace SynitWaf

open Go

/-! ## Paths -/

/-- The placeholders of `resolvePathPattern`, in the order in which they are tried. -/
def placeholders : List (GoString × Layout) :=
  [(str "%yyyy", .longYear), (str "%yy", .year), (str "%MM", .zeroMonth), (str "%M", .month),
    (str "%dd", .zeroDay), (str "%d", .day), (str "%HH", .hour), (str "%hh", .zeroHour12),
    (str "%mm", .zeroMinute), (str "%ss", .zeroSecond)]

/-- `resolvePathPattern`. -/
def resolvePathPattern (zone : Zone) (path : GoString) (now : ℤ) : GoString :=
  if contains path (str "%") = false then path
  else replaceWords (placeholders.map fun p => (p.1, (civilIn zone now).format p.2)) path

example : resolvePathPattern utc (str "access-%yyyy-%MM-%dd.log") (1790035199 * second) =
    str "access-2026-09-21.log" := by decide +kernel

/-- **A path lasts for a second.** -/
theorem resolvePathPattern_unix (zone : Zone) (path : GoString) {t u : ℤ} (h : unix t = unix u) :
    resolvePathPattern zone path t = resolvePathPattern zone path u := by
  unfold resolvePathPattern civilIn
  rw [h]

/-! ## Files -/

/-- `os.File`: a number that no file opened before has, and the path. -/
structure OsFile where
  id : ℕ
  name : GoString
  deriving DecidableEq

/-- What the operating system is asked for. -/
inductive FileEvent where
  | opened (file : OsFile)
  | failed (path : GoString)
  | written (file : OsFile) (bytes : GoString)
  | closed (file : OsFile)
  deriving DecidableEq

/-- The files opened, in order. -/
def openedFiles (events : List FileEvent) : List OsFile :=
  events.filterMap fun
    | .opened file => some file
    | _ => none

/-- The bytes written, in order. -/
def writtenBytes (events : List FileEvent) : List GoString :=
  events.filterMap fun
    | .written _ bytes => some bytes
    | _ => none

/-- The file opened last. -/
def lastOpened (events : List FileEvent) : Option OsFile := (openedFiles events).getLast?

/-- The files that are open once an event has happened. -/
def FileEvent.apply (files : List OsFile) : FileEvent → List OsFile
  | .opened file => file :: files
  | .closed file => files.erase file
  | _ => files

/-- The files that are open. -/
def openFiles (events : List FileEvent) : List OsFile := events.foldl FileEvent.apply []

/-- `rotatingFile`. -/
structure RotatingFile where
  pattern : GoString
  path : GoString
  file : Option OsFile
  nextCheck : ℤ

/-- `rotateLocked`, with the answer of `os.OpenFile`. -/
def RotatingFile.rotateLocked (zone : Zone) (rf : RotatingFile) (now : ℤ) (answer : Result Unit)
    (events : List FileEvent) : Result Unit × RotatingFile × List FileEvent :=
  let rf := { rf with nextCheck := truncate now second + second }
  let path := resolvePathPattern zone rf.pattern now
  if rf.file.isSome ∧ path = rf.path then (.ok (), rf, events)
  else
    match answer with
    | .error err =>
      (.error (str "failed to open log file " ++ path ++ str ": " ++ err), rf,
        events ++ [.failed path])
    | .ok () =>
      let file := ⟨(openedFiles events).length, path⟩
      let closed := rf.file.toList.map FileEvent.closed
      (.ok (), { rf with file := some file, path }, events ++ .opened file :: closed)

/-- `openRotatingFile`. -/
def openRotatingFile (zone : Zone) (pattern : GoString) (now : ℤ) (answer : Result Unit) :
    Result RotatingFile × List FileEvent :=
  let rotated := RotatingFile.rotateLocked zone ⟨pattern, [], none, 0⟩ now answer []
  (rotated.1.map fun _ => rotated.2.1, rotated.2.2)

/-- A write: the time at which it is made, the bytes, and the answers of `os.OpenFile` and
`File.Write`, should they be asked. -/
structure WriteCall where
  now : ℤ
  bytes : GoString
  opening : Result Unit
  writing : ℕ × Option GoString

/-- `os.ErrClosed`. -/
def errClosed : GoString := str "file already closed"

/-- `os.ErrInvalid`. -/
def errInvalid : GoString := str "invalid argument"

/-- The check before a write. An error is dropped. -/
def RotatingFile.check (zone : Zone) (rf : RotatingFile) (call : WriteCall) (events : List FileEvent) :
    RotatingFile × List FileEvent :=
  if contains rf.pattern (str "%") = true ∧ rf.nextCheck ≤ call.now then
    (rf.rotateLocked zone call.now call.opening events).2
  else (rf, events)

/-- `Write`. -/
def RotatingFile.write (zone : Zone) (rf : RotatingFile) (call : WriteCall) (events : List FileEvent) :
    (ℕ × Option GoString) × RotatingFile × List FileEvent :=
  match rf.file with
  | none => ((0, some errClosed), rf, events)
  | some _ =>
    let checked := rf.check zone call events
    match checked.1.file with
    | none => ((0, some errInvalid), checked)
    | some file => (call.writing, checked.1, checked.2 ++ [.written file call.bytes])

/-- `Close`, with the answer of `File.Close`. -/
def RotatingFile.close (rf : RotatingFile) (answer : Option GoString) (events : List FileEvent) :
    Option GoString × RotatingFile × List FileEvent :=
  match rf.file with
  | none => (none, rf, events)
  | some file => (answer, { rf with file := none }, events ++ [.closed file])

/-- Writes one after the other. -/
def writeRun (zone : Zone) (start : RotatingFile × List FileEvent) (calls : List WriteCall) :
    RotatingFile × List FileEvent :=
  calls.foldl (fun s call => (s.1.write zone call s.2).2) start

theorem writeRun_snoc (zone : Zone) (start : RotatingFile × List FileEvent) (calls : List WriteCall)
    (call : WriteCall) : writeRun zone start (calls ++ [call]) =
      ((writeRun zone start calls).1.write zone call (writeRun zone start calls).2).2 := by
  simp [writeRun]

/-! ## The invariant -/

/-- The files of a trace: one is open, and it was opened last. -/
structure Current (events : List FileEvent) (file : OsFile) : Prop where
  last : lastOpened events = some file
  only : openFiles events = [file]
  older : ∀ f ∈ openedFiles events, f.id < (openedFiles events).length

namespace Current

variable {events : List FileEvent} {file : OsFile}

theorem open_first (name : GoString) : Current [.opened ⟨0, name⟩] ⟨0, name⟩ :=
  ⟨rfl, rfl, by simp [openedFiles]⟩

/-- An event that opens or closes no file. -/
theorem idle (h : Current events file) {e : FileEvent}
    (he : (∃ path, e = .failed path) ∨ ∃ f bytes, e = .written f bytes) :
    Current (events ++ [e]) file := by
  have hopened : openedFiles (events ++ [e]) = openedFiles events := by
    obtain ⟨path, rfl⟩ | ⟨f, bytes, rfl⟩ := he <;> simp [openedFiles]
  have hopen : openFiles (events ++ [e]) = openFiles events := by
    obtain ⟨path, rfl⟩ | ⟨f, bytes, rfl⟩ := he <;> simp [openFiles, FileEvent.apply]
  refine ⟨?_, ?_, ?_⟩
  · rw [lastOpened, hopened]
    exact h.last
  · rw [hopen]
    exact h.only
  · rw [hopened]
    exact h.older

/-- A new file takes the place of the one before. -/
theorem rotate (h : Current events file) (name : GoString) :
    Current (events ++ [.opened ⟨(openedFiles events).length, name⟩, .closed file])
      ⟨(openedFiles events).length, name⟩ := by
  have hopened : ∀ new, openedFiles (events ++ [.opened new, .closed file]) =
      openedFiles events ++ [new] := by
    intro new
    simp [openedFiles]
  have hmem : file ∈ openedFiles events := List.mem_of_getLast? h.last
  have hne : (⟨(openedFiles events).length, name⟩ : OsFile) ≠ file := by
    rintro rfl
    exact absurd (h.older _ hmem) (Nat.lt_irrefl _)
  refine ⟨?_, ?_, ?_⟩
  · rw [lastOpened, hopened]
    exact List.getLast?_concat
  · have hbefore := h.only
    unfold openFiles at hbefore ⊢
    rw [List.foldl_append, hbefore]
    simp [FileEvent.apply, hne]
  · rw [hopened, List.forall_mem_append, List.length_append, List.length_singleton,
      List.forall_mem_singleton]
    exact ⟨fun f hf => Nat.lt_succ_of_lt (h.older f hf), Nat.lt_succ_self _⟩

end Current

/-- **The invariant.** The instant `last` of the last check is one of `times`, and the file was opened
at the path of that instant unless this failed. -/
structure Rotating (zone : Zone) (pattern : GoString) (times : List ℤ) (rf : RotatingFile)
    (events : List FileEvent) (last : ℤ) (file : OsFile) : Prop where
  pattern_eq : rf.pattern = pattern
  file_eq : rf.file = some file
  name_eq : file.name = rf.path
  current : Current events file
  last_mem : last ∈ times
  next : rf.nextCheck = truncate last second + second
  resolved : file.name = resolvePathPattern zone pattern last ∨
    .failed (resolvePathPattern zone pattern last) ∈ events
  plain : contains pattern (str "%") = false → file.name = pattern

/-- **What a check does** with the file `old` and the path `path`: it keeps the file, fails to open
another one, or opens it and closes `old`. -/
inductive OpenAttempt (path : GoString) (old : OsFile) : List FileEvent → OsFile → Prop
  | kept : old.name = path → OpenAttempt path old [] old
  | failed : old.name ≠ path → OpenAttempt path old [.failed path] old
  | opened {new : OsFile} : old.name ≠ path → new.name = path →
      OpenAttempt path old [.opened new, .closed old] new

theorem OpenAttempt.writtenBytes {path : GoString} {old new : OsFile} {attempts : List FileEvent}
    (h : OpenAttempt path old attempts new) : writtenBytes attempts = [] := by
  cases h <;> rfl

namespace Rotating

variable {zone : Zone} {pattern : GoString} {times : List ℤ} {rf : RotatingFile}
  {events : List FileEvent} {last : ℤ} {file : OsFile}

theorem opened (zone : Zone) (pattern : GoString) (now : ℤ) :
    ∃ rf file, openRotatingFile zone pattern now (.ok ()) = (.ok rf, [.opened file]) ∧
      Rotating zone pattern [now] rf [.opened file] now file := by
  refine ⟨_, _, rfl, rfl, rfl, rfl, .open_first _, List.mem_singleton_self now, rfl, .inl rfl, ?_⟩
  exact fun hplain => if_pos hplain

/-- A check of the path. -/
theorem rotate (h : Rotating zone pattern times rf events last file) (now : ℤ)
    (answer : Result Unit) : ∃ attempts new,
      (rf.rotateLocked zone now answer events).2.2 = events ++ attempts ∧
      OpenAttempt (resolvePathPattern zone pattern now) file attempts new ∧
      Rotating zone pattern (times ++ [now]) (rf.rotateLocked zone now answer events).2.1
        (events ++ attempts) now new := by
  obtain ⟨pat, path, openFile, nextCheck⟩ := rf
  obtain ⟨rfl, rfl, hname, hcurrent, hlast, -, -, hplain⟩ := h
  have hmem : now ∈ times ++ [now] := by simp
  unfold RotatingFile.rotateLocked
  by_cases hpath : resolvePathPattern zone pat now = path
  · dsimp only
    rw [if_pos ⟨rfl, hpath⟩]
    have hkept : file.name = resolvePathPattern zone pat now := hname.trans hpath.symm
    refine ⟨[], file, (List.append_nil events).symm, .kept hkept, ?_⟩
    rw [List.append_nil]
    exact ⟨rfl, rfl, hname, hcurrent, hmem, rfl, .inl hkept, hplain⟩
  · dsimp only
    rw [if_neg fun hsame => hpath hsame.2]
    have hother : file.name ≠ resolvePathPattern zone pat now :=
      fun h => hpath (h.symm.trans hname)
    cases answer with
    | error err =>
      exact ⟨_, file, rfl, .failed hother, rfl, rfl, hname, hcurrent.idle (.inl ⟨_, rfl⟩), hmem, rfl,
        .inr (by simp), hplain⟩
    | ok =>
      exact ⟨_, _, rfl, .opened hother rfl, rfl, rfl, rfl, hcurrent.rotate _, hmem, rfl, .inl rfl,
        fun hplain => if_pos hplain⟩

/-- A write that resolves no path: the pattern has no placeholders, or the second of the last check
has not ended. -/
theorem unchecked (h : Rotating zone pattern times rf events last file) {now : ℤ}
    (hnow : ∀ t ∈ times, t ≤ now)
    (hcheck : ¬ (contains rf.pattern (str "%") = true ∧ rf.nextCheck ≤ now)) :
    file.name = resolvePathPattern zone pattern now ∨ unix last = unix now := by
  by_cases hplain : contains pattern (str "%") = false
  · exact .inl ((h.plain hplain).trans (if_pos hplain).symm)
  · have hearly : now < truncate last second + second := by
      rw [← h.next, ← Int.not_le]
      intro hnext
      rw [h.pattern_eq] at hcheck
      exact hcheck ⟨Bool.eq_true_of_not_eq_false hplain, hnext⟩
    have hlast : unix last ≤ unix now := Int.ediv_le_ediv (by decide) (hnow last h.last_mem)
    exact .inr (Int.le_antisymm hlast (lt_truncate_iff.mp hearly))

/-- **The check before a write.** -/
theorem check (h : Rotating zone pattern times rf events last file) (call : WriteCall)
    (hnow : ∀ t ∈ times, t ≤ call.now) : ∃ attempts new last',
      (rf.check zone call events).2 = events ++ attempts ∧
      Rotating zone pattern (times ++ [call.now]) (rf.check zone call events).1 (events ++ attempts)
        last' new ∧
      (new.name = resolvePathPattern zone pattern call.now ∨
        .failed (resolvePathPattern zone pattern call.now) ∈ events ++ attempts) ∧
      (attempts = [] ∨ OpenAttempt (resolvePathPattern zone pattern call.now) file attempts new) ∧
      ((∀ t ∈ times, unix t < unix call.now) →
        OpenAttempt (resolvePathPattern zone pattern call.now) file attempts new) := by
  by_cases hcheck : contains rf.pattern (str "%") = true ∧ rf.nextCheck ≤ call.now
  · obtain ⟨attempts, new, hevents, hattempt, hnew⟩ := h.rotate call.now call.opening
    refine ⟨attempts, new, call.now, ?_⟩
    rw [RotatingFile.check, if_pos hcheck]
    exact ⟨hevents, hnew, hnew.resolved, .inr hattempt, fun _ => hattempt⟩
  · refine ⟨[], file, last, ?_⟩
    rw [RotatingFile.check, if_neg hcheck, List.append_nil]
    have hkept : Rotating zone pattern (times ++ [call.now]) rf events last file :=
      { h with last_mem := List.mem_append_left _ h.last_mem }
    refine ⟨rfl, hkept, ?_, .inl rfl, ?_⟩
    · obtain hname | hsecond := h.unchecked hnow hcheck
      · exact .inl hname
      · rw [← resolvePathPattern_unix zone pattern hsecond]
        exact h.resolved
    · intro hfirst
      refine .kept ((h.unchecked hnow hcheck).resolve_right fun hsecond => ?_)
      exact absurd (hfirst last h.last_mem) (Int.not_lt.mpr (Int.le_of_eq hsecond.symm))

end Rotating

/-! ## Runs -/

/-- **How a write reaches a file** once the events of its check have happened: the file is the one
opened last and the only one open, and if no file has failed to open it has the path of the instant.
The first write of a second tries this path. -/
structure Reached (zone : Zone) (pattern : GoString) (times : List ℤ) (events : List FileEvent)
    (call : WriteCall) (old : OsFile) (attempts : List FileEvent) (file : OsFile) : Prop where
  last : lastOpened (events ++ attempts) = some file
  only : openFiles (events ++ attempts) = [file]
  on_time : (∀ path, .failed path ∉ events ++ attempts) →
    file.name = resolvePathPattern zone pattern call.now
  retried : (∀ t ∈ times, unix t < unix call.now) →
    OpenAttempt (resolvePathPattern zone pattern call.now) old attempts file

section Run

variable {zone : Zone} {pattern : GoString} {times : List ℤ} {rf : RotatingFile}
  {events : List FileEvent} {last : ℤ} {file : OsFile}

/-- **One write.** -/
theorem Rotating.write (h : Rotating zone pattern times rf events last file) (call : WriteCall)
    (hnow : ∀ t ∈ times, t ≤ call.now) : ∃ rf' attempts new last',
      rf.write zone call events =
        (call.writing, rf', events ++ attempts ++ [.written new call.bytes]) ∧
      Reached zone pattern times events call file attempts new ∧ writtenBytes attempts = [] ∧
      Rotating zone pattern (times ++ [call.now]) rf'
        (events ++ attempts ++ [.written new call.bytes]) last' new := by
  obtain ⟨attempts, new, last', hevents, hnew, hresolved, hattempt, hretried⟩ := h.check call hnow
  refine ⟨(rf.check zone call events).1, attempts, new, last', ?_, ?_, ?_, ?_⟩
  · unfold RotatingFile.write
    simp only [h.file_eq, hnew.file_eq, hevents]
  · refine ⟨hnew.current.last, hnew.current.only, fun hopened => ?_, hretried⟩
    exact hresolved.resolve_right (hopened _)
  · obtain rfl | hattempt := hattempt
    · rfl
    · exact hattempt.writtenBytes
  · exact { hnew with
      current := hnew.current.idle (.inr ⟨_, _, rfl⟩)
      resolved := hnew.resolved.imp_right (List.mem_append_left _) }

/-- **After `Close`** no file is open, and a write is refused. -/
theorem Rotating.close (h : Rotating zone pattern times rf events last file)
    (answer : Option GoString) (call : WriteCall) :
    openFiles (rf.close answer events).2.2 = [] ∧
      (rf.close answer events).2.1.write zone call (rf.close answer events).2.2 =
        ((0, some errClosed), (rf.close answer events).2) := by
  have honly := h.current.only
  unfold openFiles at honly ⊢
  unfold RotatingFile.close
  rw [h.file_eq]
  refine ⟨?_, rfl⟩
  rw [List.foldl_append, honly]
  simp [FileEvent.apply]

variable {start : RotatingFile × List FileEvent} {opening : ℤ}

theorem times_snoc {calls : List WriteCall} {call : WriteCall}
    (h : (opening :: (calls ++ [call]).map WriteCall.now).Pairwise (· ≤ ·)) :
    (opening :: calls.map WriteCall.now).Pairwise (· ≤ ·) ∧
      ∀ t ∈ opening :: calls.map WriteCall.now, t ≤ call.now := by
  rw [List.map_append, List.map_singleton, ← List.cons_append, List.pairwise_append] at h
  exact ⟨h.1, fun t ht => h.2.2 t ht _ (List.mem_singleton_self _)⟩

variable (start) in
/-- **The invariant in every run**, and the bytes written in it. -/
theorem rotating_run (hstart : Rotating zone pattern [opening] start.1 start.2 opening file)
    (hnone : writtenBytes start.2 = []) {calls : List WriteCall}
    (htimes : (opening :: calls.map WriteCall.now).Pairwise (· ≤ ·)) : ∃ last file,
      Rotating zone pattern (opening :: calls.map WriteCall.now) (writeRun zone start calls).1
        (writeRun zone start calls).2 last file ∧
      writtenBytes (writeRun zone start calls).2 = calls.map WriteCall.bytes := by
  induction calls using List.reverseRecOn with
  | nil => exact ⟨opening, file, hstart, hnone⟩
  | append_singleton calls call ih =>
    obtain ⟨hbefore, hnow⟩ := times_snoc htimes
    obtain ⟨last, file, hrun, hbytes⟩ := ih hbefore
    obtain ⟨rf', attempts, new, last', hwrite, -, hattempts, hnew⟩ := hrun.write call hnow
    refine ⟨last', new, ?_, ?_⟩ <;> rw [writeRun_snoc, hwrite]
    · simpa using hnew
    · simp only [writtenBytes, List.filterMap_append] at hbytes hattempts ⊢
      rw [hbytes, hattempts]
      simp

end Run

/-- **Log rotation.** A log file is opened and written to at times that do not decrease. Every write is
passed on with its bytes and answered by the file, after all writes before it, to the file that was
opened last and is the only one open. If no file failed to open it has the path of the pattern at
the time of the write, and the first write of a second tries to open that path unless it is open. -/
theorem written_of_run (zone : Zone) (pattern : GoString) (opening : ℤ) (calls : List WriteCall)
    (call : WriteCall)
    (htimes : (opening :: (calls ++ [call]).map WriteCall.now).Pairwise (· ≤ ·)) :
    ∃ rf events, openRotatingFile zone pattern opening (.ok ()) = (.ok rf, events) ∧
      let run := writeRun zone (rf, events) calls
      ∃ rf' old attempts file,
        run.1.write zone call run.2 =
          (call.writing, rf', run.2 ++ attempts ++ [.written file call.bytes]) ∧
        writtenBytes run.2 = calls.map WriteCall.bytes ∧ writtenBytes attempts = [] ∧
        lastOpened run.2 = some old ∧
        Reached zone pattern (opening :: calls.map WriteCall.now) run.2 call old attempts file := by
  obtain ⟨hbefore, hnow⟩ := times_snoc htimes
  obtain ⟨rf, first, hopened, hstart⟩ := Rotating.opened zone pattern opening
  obtain ⟨last, old, hrun, hbytes⟩ := rotating_run (rf, [.opened first]) hstart rfl hbefore
  obtain ⟨rf', attempts, file, -, hwrite, hreached, hattempts, -⟩ := hrun.write call hnow
  exact ⟨rf, _, hopened, rf', old, attempts, file, hwrite, hbytes, hattempts, hrun.current.last,
    hreached⟩

theorem written_of_run_midnight :
    ∃ rf events rf' file trace,
      openRotatingFile utc (str "access-%yyyy-%MM-%dd.log") (1790035199 * second) (.ok ()) =
        (.ok rf, events) ∧
      let run := writeRun utc (rf, events)
        [⟨1790035200 * second, str "midnight", .error (str "permission denied"), (8, none)⟩]
      run.1.write utc ⟨1790035201 * second, str "later", .ok (), (5, none)⟩ run.2 =
        ((5, none), rf', trace ++ [.written file (str "later")]) ∧
      lastOpened trace = some file ∧ openFiles trace = [file] := by
  obtain ⟨rf, events, hopened, rf', old, attempts, file, hwrite, -, -, -, hreached⟩ :=
    written_of_run utc (str "access-%yyyy-%MM-%dd.log") (1790035199 * second)
      [⟨1790035200 * second, str "midnight", .error (str "permission denied"), (8, none)⟩]
      ⟨1790035201 * second, str "later", .ok (), (5, none)⟩ (by decide)
  exact ⟨rf, events, rf', file, _, hopened, hwrite, hreached.last, hreached.only⟩

end SynitWaf
