import Mathlib.Data.List.DropRight
import SynitWaf.Machine
import SynitWaf.Reload.Transaction

/-!
# The watcher of the configuration

`watchConfig` waits for events of the file system. An event that concerns the main file, the directory
of the tenant shards or a shard sets a timer, and when the timer fires the configuration is loaded
again. Meanwhile other processes change the files, at any moment, also between two reads of a reload.

* `GoTimer`: a timer of the runtime and its channel;
* `ConfigDisk`: the files; `Attempt.onDisk`: an attempt that reads them;
* `FsEvent`, `FsEvent.relevant`: the events of the file system;
* `Watch`: the loop, the files and the queue of events between them;
* `environmentStep`, `loopStep`, `reloadStep`, **`watchStep`**: the steps.
-/

namespace SynitWaf

open Atomic Go

/-! ## Timers -/

/-- A `time.Timer`: when it will fire, and whether its channel holds a value. -/
structure GoTimer where
  deadline : Option ℤ
  ready : Bool
  deriving DecidableEq

/-- `time.NewTimer`, and `Reset` of a timer that is stopped. -/
def GoTimer.arm (deadline : ℤ) (t : GoTimer) : GoTimer := { t with deadline := some deadline }

/-- `if !timer.Stop()`, then the channel is drained. -/
def GoTimer.stopAndDrain (t : GoTimer) : GoTimer :=
  if t.deadline.isSome then { t with deadline := none } else { t with ready := false }

/-! ## Paths -/

/-- `filepath.Dir` of a clean absolute path. -/
def filepathDir (path : GoString) : GoString :=
  let dir := (path.rdropWhile (· ≠ byte '/')).dropLast
  if dir = [] then str "/" else dir

/-- `filepath.Join` of a clean directory and a name. -/
def filepathJoin (dir name : GoString) : GoString :=
  if dir = str "/" then byte '/' :: name else dir ++ byte '/' :: name

/-- The directory of the tenant shards. -/
def tenantsDir (mainPath : GoString) : GoString := filepathJoin (filepathDir mainPath) (str "tenants.d")

/-- The names `LoadConfig` takes for shards. -/
def isShardName (name : GoString) : Bool := hasSuffix name (str ".yml") || hasSuffix name (str ".yaml")

theorem filepathDir_append {dir name : GoString} (hdir : dir ≠ []) (hname : byte '/' ∉ name) :
    filepathDir (dir ++ byte '/' :: name) = dir := by
  have hdrop : (dir ++ byte '/' :: name).rdropWhile (· ≠ byte '/') = dir ++ [byte '/'] := by
    have hall : ∀ c ∈ name.reverse, decide (c ≠ byte '/') = true := fun c hc =>
      decide_eq_true fun heq => hname (heq ▸ List.mem_reverse.mp hc)
    rw [List.rdropWhile, List.reverse_append, List.reverse_cons, List.append_assoc,
      List.dropWhile_append_of_pos hall]
    simp
  simp only [filepathDir, hdrop, List.dropLast_concat, if_neg hdir]

theorem tenantsDir_cases (mainPath : GoString) :
    tenantsDir mainPath ≠ [] ∧ tenantsDir mainPath ≠ str "/" := by
  have hlong : 2 ≤ (tenantsDir mainPath).length := by
    have hname : (str "tenants.d").length = 9 := by decide +kernel
    unfold tenantsDir filepathJoin
    split
    · simp [hname]
    · simp only [List.length_append, List.length_cons, hname]
      omega
  constructor <;> intro h <;> rw [h] at hlong
  · simp at hlong
  · exact absurd hlong (by decide +kernel)

theorem filepathDir_shard (mainPath : GoString) {name : GoString} (hname : byte '/' ∉ name) :
    filepathDir (filepathJoin (tenantsDir mainPath) name) = tenantsDir mainPath := by
  obtain ⟨hne, hroot⟩ := tenantsDir_cases mainPath
  rw [filepathJoin, if_neg hroot, filepathDir_append hne hname]

/-- A suffix without a separator is one of the name of a file already. -/
theorem hasSuffix_filepathJoin (dir : GoString) {name suffix : GoString} (h : byte '/' ∉ suffix) :
    hasSuffix (filepathJoin dir name) suffix = hasSuffix name suffix := by
  have hpath : ∀ front : GoString,
      suffix <:+ front ++ byte '/' :: name ↔ suffix <:+ name := fun front => by
    refine ⟨fun hs => ?_, fun hs => hs.trans ((List.suffix_cons _ _).trans (List.suffix_append _ _))⟩
    obtain hlt | hle := Nat.lt_or_ge name.length suffix.length
    · -- a longer suffix would contain the separator
      have hcons : byte '/' :: name <:+ suffix :=
        List.suffix_of_suffix_length_le (List.suffix_append _ _) hs hlt
      exact absurd (hcons.subset List.mem_cons_self) h
    · exact List.suffix_of_suffix_length_le hs
        ((List.suffix_cons _ _).trans (List.suffix_append _ _)) hle
  unfold hasSuffix filepathJoin
  rw [Bool.eq_iff_iff, List.isSuffixOf_iff_suffix, List.isSuffixOf_iff_suffix]
  split
  · exact hpath []
  · exact hpath dir

theorem isShardName_filepathJoin (dir name : GoString) :
    isShardName (filepathJoin dir name) = isShardName name := by
  unfold isShardName
  rw [hasSuffix_filepathJoin dir (by decide +kernel), hasSuffix_filepathJoin dir (by decide +kernel)]

/-! ## The files -/

/-- A file of the shard directory, with what `os.ReadFile` finds. -/
structure ShardFile where
  name : GoString
  isDir : Bool
  content : Result GoString
  deriving DecidableEq

/-- The shard directory; `os.ReadDir` sorts by name. -/
structure ShardDir where
  files : List ShardFile
  sorted : files.Pairwise fun f g => f.name < g.name

/-- The files with names of shards. -/
def ShardDir.shards (dir : ShardDir) : List ShardFile := dir.files.filter fun f => isShardName f.name

/-- The files but one. -/
def ShardDir.without (dir : ShardDir) (name : GoString) : List ShardFile :=
  dir.files.filter fun f => f.name ≠ name

/-- The directory with the content of one file read again. -/
def ShardDir.reread (dir : ShardDir) (name : GoString) (content : Result GoString) : ShardDir where
  files := dir.files.map fun f => if f.name = name then { f with content := content } else f
  sorted := by
    rw [List.pairwise_map]
    refine dir.sorted.imp fun {f g} h => ?_
    have hname : ∀ f : ShardFile,
        (if f.name = name then { f with content := content } else f).name = f.name := fun f => by
      split <;> rfl
    rwa [hname, hname]

/-- The files of the configuration. -/
structure ConfigDisk where
  main : Result GoString
  tenants : Option ShardDir

/-- `os.ReadFile` of a shard. -/
def ConfigDisk.readShard (disk : ConfigDisk) (name : GoString) : Result GoString :=
  match (disk.tenants.map ShardDir.files).bind (List.find? fun f => f.name = name) with
  | some f => f.content
  | none => .error (str "no such file or directory")

/-- What `LoadConfig` makes use of. -/
def ConfigDisk.view (disk : ConfigDisk) : Result GoString × Option (List ShardFile) :=
  (disk.main, disk.tenants.map ShardDir.shards)

/-- The surroundings of an attempt with these files. -/
def ConfigDisk.surroundings (disk : ConfigDisk) (env : Surroundings) : Surroundings where
  getenv := env.getenv
  readFile use path :=
    match use with
    | .config => disk.main
    | .shard name => disk.readShard name
    | use => env.readFile use path
  stat := env.stat
  shards :=
    match disk.tenants with
    | none => .missing
    | some dir => .entries (dir.files.map fun f => ⟨f.name, f.isDir⟩)
  order := env.order

/-- The attempt `registry.Reload(mainPath, h)` that reads these files. -/
def Attempt.onDisk (a : Attempt) (mainPath : GoString) (disk : ConfigDisk) : Attempt :=
  { a with configPath := mainPath, env := disk.surroundings a.env }

/-! ## Events -/

/-- `fsnotify.Op`: a bit for each kind of change. -/
structure FsOp where
  create : Bool
  write : Bool
  remove : Bool
  rename : Bool
  chmod : Bool
  deriving DecidableEq

/-- `event.Op&(fsnotify.Write|fsnotify.Create|fsnotify.Rename|fsnotify.Remove) != 0`. -/
def FsOp.changes (op : FsOp) : Bool := op.write || op.create || op.rename || op.remove

/-- `event.Op&(fsnotify.Remove|fsnotify.Rename) != 0`. -/
def FsOp.leaves (op : FsOp) : Bool := op.remove || op.rename

/-- `fsnotify.Create` alone. -/
def FsOp.created : FsOp := ⟨true, false, false, false, false⟩

/-- An event, with its absolute path. -/
structure FsEvent where
  name : GoString
  op : FsOp
  deriving DecidableEq

/-- The event is about the main file or a shard. -/
def FsEvent.isFile (mainPath : GoString) (e : FsEvent) : Bool :=
  e.name = mainPath || (filepathDir e.name = tenantsDir mainPath && isShardName e.name)

/-- The event sets the timer. -/
def FsEvent.relevant (mainPath : GoString) (e : FsEvent) : Bool :=
  (e.name = tenantsDir mainPath || e.isFile mainPath) && e.op.changes

/-! ## The state -/

/-- Where the loop is: at its `select`, in a call of `Reload`, or returned. -/
inductive WatchPc where
  | select
  | readMain
  | readDir
  | readShards (names : List GoString)
  | returned
  deriving DecidableEq

/-- The loop and its surroundings. `live` says whether the kernel watches the directory that is now at
the path of the shards; `events` is the queue of the kernel and the channel of the watcher; `seen` is
what the last call of `Reload` has read, and before the first one the files at the beginning; `last`
is the result of the last reload. -/
structure Watch where
  now : ℤ
  disk : ConfigDisk
  live : Bool
  events : List FsEvent
  watched : Bool
  timer : Option GoTimer
  timerC : Bool
  pc : WatchPc
  seen : ConfigDisk
  runtime : Runtime
  last : Option (Result Unit)

/-- The loop when it begins: the directories that exist are watched. -/
def Watch.start (now : ℤ) (disk : ConfigDisk) (runtime : Runtime) : Watch where
  now := now
  disk := disk
  live := disk.tenants.isSome
  events := []
  watched := disk.tenants.isSome
  timer := none
  timerC := false
  pc := .select
  seen := disk
  runtime := runtime
  last := none

/-! ## Steps -/

/-- The time after which a change is loaded. -/
def reloadDelay : ℤ := 100 * millisecond

/-- `scheduleReload`. -/
def Watch.scheduleReload (s : Watch) : Watch :=
  let deadline := s.now + reloadDelay
  { s with
    timer := some (match s.timer with
      | none => ⟨some deadline, false⟩
      | some t => t.stopAndDrain.arm deadline)
    timerC := true }

/-- `addWatch(tenantsDir)`: `watcher.Add` fails if there is no directory, or for another reason. -/
def Watch.addWatch (s : Watch) (fails : Bool) : Watch :=
  if s.watched ∨ fails ∨ s.disk.tenants.isNone then s else { s with watched := true, live := true }

/-- What other processes do. -/
inductive EnvironmentStep where
  | advance (d : ℕ)
  /-- The main file is written, replaced or removed, or its permissions change. -/
  | changeMain (content : Result GoString) (op : FsOp)
  /-- So is one file of the shard directory, and the others stay as they are. -/
  | changeShard (name : GoString) (dir : ShardDir) (op : FsOp)
  /-- The shard directory is removed or moved away. -/
  | removeTenants (op : FsOp)
  /-- A shard directory is made or moved into its place, which is free. -/
  | createTenants (dir : ShardDir)
  /-- A link to another directory is moved over the shard directory. -/
  | replaceTenants (dir : ShardDir)
  /-- An event that is not about the shard directory coming or going. -/
  | otherEvent (e : FsEvent)
  /-- The queue of the kernel is full, and its events are lost. -/
  | overflow

/-- Another directory is at the path of the shards. -/
def Watch.putTenants (mainPath : GoString) (dir : ShardDir) (s : Watch) : Watch :=
  { s with
    disk.tenants := some dir
    live := false
    events := s.events ++ [⟨tenantsDir mainPath, .created⟩] }

/-- A step of other processes. The kernel watches the directory of the main file all the time. -/
def environmentStep (mainPath : GoString) (s : Watch) : EnvironmentStep → Option Watch
  | .advance d => some { s with now := s.now + d }
  | .changeMain content op =>
    some { s with disk.main := content, events := s.events ++ [⟨mainPath, op⟩] }
  | .changeShard name dir op =>
    match s.disk.tenants with
    | none => none
    | some old =>
      if byte '/' ∉ name ∧ dir.without name = old.without name then
        let event : FsEvent := ⟨filepathJoin (tenantsDir mainPath) name, op⟩
        some { s with
          disk.tenants := some dir
          events := if s.live then s.events ++ [event] else s.events }
      else none
  | .removeTenants op =>
    if op.leaves ∧ op.create = false ∧ s.disk.tenants.isSome then
      -- the directory and the one it is in report it, if they are watched
      let event : FsEvent := ⟨tenantsDir mainPath, op⟩
      some { s with
        disk.tenants := none
        live := false
        events := s.events ++ (if s.live then [event, event] else [event]) }
    else none
  | .createTenants dir =>
    if s.disk.tenants.isNone then some (s.putTenants mainPath dir) else none
  | .replaceTenants dir =>
    if s.disk.tenants.isSome then some (s.putTenants mainPath dir) else none
  | .otherEvent e =>
    if e.name = tenantsDir mainPath ∧ (e.op.leaves ∨ e.op.create) then none
    else some { s with events := s.events ++ [e] }
  | .overflow => some { s with events := [] }

/-- The steps of the loop; `expire` is the runtime sending the tick. -/
inductive LoopStep where
  | expire
  | event (addFails : Bool)
  | watcherError
  | tick
  | stop
  deriving DecidableEq

/-- `case event, ok := <-watcher.Events`. -/
def Watch.handle (mainPath : GoString) (addFails : Bool) (e : FsEvent) (s : Watch) : Watch :=
  if e.name = tenantsDir mainPath then
    let s := if e.op.leaves then { s with watched := false } else s
    let s := if e.op.create then s.addWatch addFails else s
    if e.op.changes then s.scheduleReload else s
  else if e.isFile mainPath ∧ e.op.changes then s.scheduleReload
  else s

/-- A step of the loop, or of its timer. -/
def loopStep (mainPath : GoString) (s : Watch) : LoopStep → Option Watch
  | .expire =>
    match s.timer with
    | some ⟨some deadline, _⟩ =>
      if deadline ≤ s.now then some { s with timer := some ⟨none, true⟩ } else none
    | _ => none
  | .event addFails =>
    match s.pc, s.events with
    | .select, e :: events => some ({ s with events := events }.handle mainPath addFails e)
    | _, _ => none
  | .watcherError => if s.pc = .select then some s else none
  -- case <-timerC
  | .tick =>
    match s.pc, s.timerC, s.timer with
    | .select, true, some ⟨deadline, true⟩ =>
      some { s with timer := some ⟨deadline, false⟩, timerC := false, pc := .readMain }
    | _, _, _ => none
  | .stop => if s.pc = .select then some { s with pc := .returned } else none

/-- The steps of `Reload`. A load that fails reads less; it may then look at the rest at once. -/
inductive ReloadStep where
  | read
  | finish (a : Attempt)

/-- A step of the reload. -/
def reloadStep (w : World) (mainPath : GoString) (s : Watch) : ReloadStep → Option Watch
  | .read =>
    match s.pc with
    | .readMain => some { s with seen.main := s.disk.main, pc := .readDir }
    | .readDir =>
      some { s with
        seen.tenants := s.disk.tenants
        pc := .readShards ((s.disk.tenants.map ShardDir.shards).getD [] |>.map ShardFile.name) }
    | .readShards (name :: names) =>
      some { s with
        seen.tenants := s.seen.tenants.map (·.reread name (s.disk.readShard name))
        pc := .readShards names }
    | _ => none
  | .finish a =>
    if s.pc = .readShards [] then
      let out := runReload w (a.onDisk mainPath s.seen) s.runtime
      some { s with pc := .select, last := some out.1, runtime := out.2 }
    else none

/-- The steps of all. -/
inductive WatchStep where
  | environment (step : EnvironmentStep)
  | loop (step : LoopStep)
  | reload (step : ReloadStep)

/-- One step of the watcher or of other processes. -/
def watchStep (w : World) (mainPath : GoString) (s : Watch) : WatchStep → Option Watch
  | .environment step => environmentStep mainPath s step
  | .loop step => loopStep mainPath s step
  | .reload step => reloadStep w mainPath s step

/-- The step is missed: it loses events or leaves a directory that exists unwatched, only permissions
change, or the shard directory is replaced without having been away. -/
def WatchStep.missed : WatchStep → Bool
  | .environment (.changeMain _ op) | .environment (.changeShard _ _ op) => !op.changes
  | .environment (.replaceTenants _) | .environment .overflow => true
  | .loop (.event addFails) => addFails
  | _ => false

/-- Nothing is under way. -/
def Watch.Quiescent (s : Watch) : Prop := s.pc = .select ∧ s.events = [] ∧ s.timerC = false

instance quiescentDecidable (s : Watch) : Decidable s.Quiescent :=
  inferInstanceAs (Decidable (_ ∧ _))

end SynitWaf
