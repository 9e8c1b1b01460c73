import Mathlib.Algebra.BigOperators.Group.Finset.Piecewise
import Mathlib.Algebra.GroupWithZero.Nat
import Mathlib.Algebra.Order.BigOperators.Group.Finset
import Mathlib.Data.List.DropRight
import SynitWaf.Config.Validate
import SynitWaf.Receiver.Store

/-!
# Retention

`cleanupExpiredLogs` goes through the directories of the tenants. Under the lock of a tenant it
removes the log files that are too old, and counts again what is left.

* `removeExpiredLogs`, `sweepTenant`: the section under the lock, with the places where the disk may
  fail; `cleanupExpiredLogs`: the sweep;
* `retentionSig`: the operations of requests and sweeps; `RetentionThread.prog`: their programs;
* `Directory.totalSize`: the size of the regular files; `totalSize_append`, `totalSize_le`;
* `Expired`; **`removeExpiredLogs_lookup`**: what a sweep leaves of a directory.
-/

namespace SynitWaf

open Atomic Go

/-! ## The section under the lock -/

/-- `filepath.Ext`. -/
def ext (path : GoString) : GoString :=
  let name := path.rtakeWhile (· ≠ byte '/')
  if byte '.' ∈ name then byte '.' :: name.rtakeWhile (· ≠ byte '.') else []

/-- The directory of a tenant during a sweep: the order in which it is read, the directories in it, the
times of its files, and the errors of `os.ReadDir`, `Info`, `os.Remove` and `directoryBytes`. -/
structure SweepDisk where
  order : KeyOrder
  isDir : GoString → Bool
  modTime : GoString → ℤ
  readDir : Option GoString
  info : GoString → Option GoString
  remove : GoString → Option GoString
  usage : Option GoString

/-- The entry is a log file that was modified before the cutoff. -/
def Expired (disk : SweepDisk) (cutoff : ℤ) (name : GoString) (entry : LogDirEntry) : Prop :=
  ext name = str ".log" ∧ entry.regular = true ∧ disk.modTime name < cutoff

/-- The loop of `removeExpiredLogs`, with what is left of the directory. -/
def removeLoop (disk : SweepDisk) (cutoff : ℤ) :
    List (GoString × LogDirEntry) → Directory → Option GoString × Directory
  | [], dir => (none, dir)
  | (name, entry) :: entries, dir =>
    if disk.isDir name ∨ ext name ≠ str ".log" then removeLoop disk cutoff entries dir
    else
      match disk.info name with
      | some e => (some e, dir)
      | none =>
        if entry.regular ∧ disk.modTime name < cutoff then
          match disk.remove name with
          | some e => (some e, dir)
          | none => removeLoop disk cutoff entries (dir.erase name)
        else removeLoop disk cutoff entries dir

/-- `removeExpiredLogs`. -/
def removeExpiredLogs (disk : SweepDisk) (dir : Directory) (cutoff : ℤ) :
    Option GoString × Directory :=
  match disk.readDir with
  | some e => (some e, dir)
  | none => removeLoop disk cutoff (GoMap.visit disk.order dir) dir

/-- `errors.Join`, nil if there is no error. -/
def joinAll : List GoString → Option GoString
  | [] => none
  | e :: errs => some (joinErrors e errs)

/-- The part of `cleanupExpiredLogs` under the lock of a tenant. -/
def sweepTenant (disk : SweepDisk) (cutoff : ℤ) (s : TenantReceiverState) (dir : Directory) :
    Option GoString × TenantReceiverState × Directory :=
  let removed := removeExpiredLogs disk dir cutoff
  let usedBytes := if disk.usage.isSome then 0 else directoryBytes removed.2
  (joinAll (removed.1.toList ++ disk.usage.toList),
    { s with usedBytes := usedBytes, usedKnown := disk.usage.isNone }, removed.2)

/-! ## Requests and sweeps -/

/-- The operations of requests and sweeps. -/
inductive RetentionOp where
  | request (o : ReceiverOp)
  | sweep (tenant : GoString) (cutoff : ℤ) (disk : SweepDisk)

/-- The answer of an operation. -/
@[reducible] def RetentionOp.Res : RetentionOp → Type
  | .request o => o.Res
  | .sweep _ _ _ => Option GoString

/-- What an operation does. -/
def RetentionOp.exec (order : KeyOrder) : (o : RetentionOp) → ReceiverState → o.Res × ReceiverState
  | .request o, s => o.exec order s
  | .sweep tenant cutoff disk, s =>
    let swept := sweepTenant disk cutoff (s.tenants tenant) (s.disk tenant)
    (swept.1,
      { s with
        tenants := Function.update s.tenants tenant swept.2.1
        disk := Function.update s.disk tenant swept.2.2 })

/-- The signature of the receiver with its sweeps. -/
@[reducible] def retentionSig (order : KeyOrder) : Sig ReceiverState where
  Op := RetentionOp
  Res := RetentionOp.Res
  exec := RetentionOp.exec order

/-- The operations of requests among them. -/
def requestPart (order : KeyOrder) : Embed (receiverSig order) (retentionSig order) where
  view := id
  put _ s := s
  op := .request
  ans _ r := r
  ans_exec _ _ := rfl
  exec_put _ _ := rfl
  view_put _ _ := rfl
  put_view _ := rfl
  put_put _ _ _ := rfl

/-- `defaultLogRetention`. -/
def defaultLogRetention : ℤ := 30 * 24 * 60 * minute

/-- One sweep: what `os.ReadDir` finds, and the clock and the disk at each tenant. -/
structure SweepCall where
  logsDir : DirListing
  now : GoString → ℤ
  disk : GoString → SweepDisk

/-- The cutoff of a sweep at a tenant. -/
def SweepCall.cutoff (retention : ℤ) (c : SweepCall) (tenant : GoString) : ℤ :=
  c.now tenant - orDefault retention defaultLogRetention

section Sweep

variable (order : KeyOrder) (retention : ℤ) (c : SweepCall)

/-- The loop of `cleanupExpiredLogs`. -/
def cleanupLoop : List DirEntry → List GoString → Prog (retentionSig order) (Option GoString)
  | [], errs => .ret (joinAll errs)
  | entry :: entries, errs =>
    if !entry.isDir then cleanupLoop entries errs
    else
      .act (.sweep entry.name (c.cutoff retention entry.name) (c.disk entry.name))
        fun (err : Option GoString) => cleanupLoop entries
          (errs ++ (err.map fun e => str "tenant " ++ entry.name ++ str ": " ++ e).toList)

/-- `cleanupExpiredLogs`, with the error that it returns. -/
def cleanupExpiredLogs : Prog (retentionSig order) (Option GoString) :=
  match c.logsDir with
  | .missing => .ret none
  | .failed e => .ret (some e)
  | .entries entries => cleanupLoop order retention c entries []

end Sweep

/-- A request or a sweep. -/
inductive RetentionThread where
  | request (c : LogCall)
  | cleanup (c : SweepCall)

/-- What a thread returns. -/
inductive RetentionReply where
  | answered (reply : LogReply)
  | swept (err : Option GoString)

/-- The program of a thread. -/
def RetentionThread.prog (lib : ReceiverLib) (lr : LogReceiver) (retention : ℤ) :
    RetentionThread → Prog (retentionSig lib.evictOrder) RetentionReply
  | .request c => do return .answered (← (handleLogs lib lr c).lift (requestPart lib.evictOrder))
  | .cleanup c => do return .swept (← cleanupExpiredLogs lib.evictOrder retention c)

/-! ## Sizes -/

namespace Directory

/-- The size of a regular file. -/
def sizeAt (dir : Directory) (name : GoString) : ℕ :=
  match dir.lookup name with
  | some entry => if entry.regular then entry.content.length else 0
  | none => 0

/-- The total size of the regular files. -/
def totalSize (dir : Directory) : ℕ := (dir.keys.map dir.sizeAt).sum

theorem sizeAt_of_notMem {dir : Directory} {name : GoString} (h : name ∉ dir.keys) :
    dir.sizeAt name = 0 := by
  rw [sizeAt, AList.lookup_eq_none.mpr h]

/-- The total size is the sum over any names that contain those of the directory. -/
theorem totalSize_eq_sum {dir : Directory} {names : Finset GoString}
    (h : ∀ name ∈ dir.keys, name ∈ names) : dir.totalSize = ∑ name ∈ names, dir.sizeAt name := by
  rw [totalSize, ← List.sum_toFinset _ dir.keys_nodup]
  refine Finset.sum_subset (fun name hname => h name (List.mem_toFinset.mp hname)) fun name _ hname => ?_
  exact sizeAt_of_notMem fun hmem => hname (List.mem_toFinset.mpr hmem)

/-- **What is appended to a regular file** counts in full. -/
theorem totalSize_append {dir : Directory} {name : GoString} (data : GoString)
    (h : ∀ entry, dir.lookup name = some entry → entry.regular = true) :
    (dir.append name data).totalSize = dir.totalSize + data.length := by
  have hsize : ∀ k, (dir.append name data).sizeAt k =
      dir.sizeAt k + if k = name then data.length else 0 := by
    intro k
    by_cases hk : k = name
    · subst hk
      cases hentry : dir.lookup k with
      | none => simp [sizeAt, append, content, hentry]
      | some entry => simp [sizeAt, append, content, hentry, h entry hentry]
    · simp [sizeAt, append, AList.lookup_insert_ne hk, hk]
  have hnew : ∀ k ∈ (dir.append name data).keys, k ∈ insert name dir.keys.toFinset := by
    intro k hk
    rw [Finset.mem_insert, List.mem_toFinset, ← AList.mem_keys]
    exact (AList.mem_insert _).mp (AList.mem_keys.mpr hk)
  have hold : ∀ k ∈ dir.keys, k ∈ insert name dir.keys.toFinset := fun k hk => by simp [hk]
  rw [totalSize_eq_sum hnew, totalSize_eq_sum hold, Finset.sum_congr rfl fun k _ => hsize k,
    Finset.sum_add_distrib, Finset.sum_ite_eq', if_pos (Finset.mem_insert_self _ _)]

/-- A directory with fewer files is not larger. -/
theorem totalSize_le {dir dir' : Directory}
    (h : ∀ name, dir'.lookup name = dir.lookup name ∨ dir'.lookup name = none) :
    dir'.totalSize ≤ dir.totalSize := by
  have hkeys : ∀ k ∈ dir'.keys, k ∈ dir.keys.toFinset := by
    intro k hk
    obtain ⟨entry, hentry⟩ := Option.isSome_iff_exists.mp (AList.lookup_isSome.mpr hk)
    rw [List.mem_toFinset]
    refine AList.mem_keys.mp (AList.lookup_isSome.mp ?_)
    rw [← (h k).resolve_right (by simp [hentry]), hentry]
    rfl
  rw [totalSize_eq_sum hkeys, totalSize_eq_sum fun k hk => List.mem_toFinset.mpr hk]
  refine Finset.sum_le_sum fun k _ => ?_
  rcases h k with hk | hk
  · rw [sizeAt, hk, sizeAt]
  · rw [sizeAt, hk]
    exact Nat.zero_le _

end Directory

/-- `directoryBytes` is right as long as the sizes fit. -/
theorem directoryBytes_eq {dir : Directory} (h : dir.totalSize < 2 ^ 63) :
    directoryBytes dir = dir.totalSize := by
  have hsum : ∀ names : List GoString, ((names.filterMap dir.lookup).map fun e =>
      if e.regular then (e.content.length : ℤ) else 0).sum = ((names.map dir.sizeAt).sum : ℕ) := by
    intro names
    induction names with
    | nil => rfl
    | cons name names ih =>
      cases hentry : dir.lookup name with
      | none => simp [hentry, ih, Directory.sizeAt]
      | some entry => cases hr : entry.regular <;> simp [hentry, ih, hr, Directory.sizeAt]
  rw [directoryBytes, hsum]
  exact int64_eq (by omega) (by exact_mod_cast h)

/-! ## What a sweep removes -/

theorem removeLoop_lookup (disk : SweepDisk) (cutoff : ℤ) (entries : List (GoString × LogDirEntry))
    (dir : Directory) (name : GoString) :
    (removeLoop disk cutoff entries dir).2.lookup name = dir.lookup name ∨
      (removeLoop disk cutoff entries dir).2.lookup name = none ∧
        ∃ entry, (name, entry) ∈ entries ∧ Expired disk cutoff name entry := by
  induction entries generalizing dir with
  | nil => exact .inl rfl
  | cons e entries ih =>
    obtain ⟨file, entry⟩ := e
    have later : ∀ dir : Directory,
        (removeLoop disk cutoff entries dir).2.lookup name = dir.lookup name ∨
        (removeLoop disk cutoff entries dir).2.lookup name = none ∧
          ∃ x, (name, x) ∈ (file, entry) :: entries ∧ Expired disk cutoff name x := by
      refine fun dir => (ih dir).imp_right ?_
      rintro ⟨hnone, x, hx, hexpired⟩
      exact ⟨hnone, x, List.mem_cons_of_mem _ hx, hexpired⟩
    rw [removeLoop]
    split
    · exact later dir
    next hlog =>
    split
    · exact .inl rfl
    split
    next hold =>
      split
      · exact .inl rfl
      by_cases hname : name = file
      · subst hname
        have hexpired : Expired disk cutoff name entry :=
          ⟨not_not.mp (not_or.mp hlog).2, hold.1, hold.2⟩
        refine .inr ⟨?_, entry, List.mem_cons_self, hexpired⟩
        rcases later (dir.erase name) with h | h
        · rw [h, AList.lookup_erase]
        · exact h.1
      · refine (later (dir.erase file)).imp_left fun h => ?_
        rw [h, AList.lookup_erase_ne hname]
    · exact later dir

/-- **A sweep removes expired logs only.** -/
theorem removeExpiredLogs_lookup (disk : SweepDisk) (dir : Directory) (cutoff : ℤ) (name : GoString) :
    (removeExpiredLogs disk dir cutoff).2.lookup name = dir.lookup name ∨
      (removeExpiredLogs disk dir cutoff).2.lookup name = none ∧
        ∃ entry, dir.lookup name = some entry ∧ Expired disk cutoff name entry := by
  unfold removeExpiredLogs
  split
  · exact .inl rfl
  · refine (removeLoop_lookup disk cutoff _ dir name).imp_right ?_
    rintro ⟨hnone, entry, hmem, hexpired⟩
    exact ⟨hnone, entry, (mem_visit disk.order dir).mp hmem, hexpired⟩

end SynitWaf
