import SynitWaf.Reload.Watch

/-!
# What the watcher has loaded

A change of the files is reported by an event, by one about the directory if the directory was not
watched yet, or it happens before a reload reads the file. So no change gets lost: once nothing is
pending, the last reload has read the files as they are.

* `Watch.Timing`: the timer;
* `Watch.Watching`, `Watch.Pending`, `Watch.Read`, `Watch.Loaded`: the invariant `Watch.Inv`;
* **`watch_converges`**: what the last reload has read is what is on the disk;
* **`reload_waits_for_events`**: a reload waits for the last event;
* `Watch.work`: a bound for the steps that are left; **`watch_comes_to_rest`**.
-/

namespace SynitWaf

open Atomic Go Machine

/-! ## The timer -/

/-- The timer is set while `timerC` is not nil, and was set at a time `since` or later. -/
inductive Watch.Timing (since : ℤ) (s : Watch) : Prop
  | idle (hnow : since ≤ s.now) (ht : s.timer = none ∨ s.timer = some ⟨none, false⟩)
      (hc : s.timerC = false)
  | armed (hnow : since ≤ s.now) (t : ℤ) (hle : since ≤ t) (hpast : t ≤ s.now)
      (ht : s.timer = some ⟨some (t + reloadDelay), false⟩) (hc : s.timerC = true)
  | fired (hnow : since ≤ s.now) (ht : s.timer = some ⟨none, true⟩) (hc : s.timerC = true)
      (hdue : since + reloadDelay ≤ s.now)

section Watching

variable {w : World} {mainPath : GoString} {s s' : Watch} {since : ℤ}

theorem Watch.Timing.now_le (h : s.Timing since) : since ≤ s.now := by cases h <;> assumption

/-- No tick of an earlier setting is left in the channel. -/
theorem timing_scheduleReload (h : s.Timing since) {t : ℤ} (hnow : t ≤ s.now) :
    s.scheduleReload.Timing t := by
  refine .armed hnow s.now hnow le_rfl ?_ rfl
  unfold Watch.scheduleReload
  cases h with
  | idle _ ht => rcases ht with ht | ht <;> simp [ht, GoTimer.stopAndDrain, GoTimer.arm]
  | armed _ t _ _ ht => simp [ht, GoTimer.stopAndDrain, GoTimer.arm]
  | fired _ ht => simp [ht, GoTimer.stopAndDrain, GoTimer.arm]

theorem Watch.Timing.congr (h : s.Timing since) (ht : s'.timer = s.timer) (hc : s'.timerC = s.timerC)
    (hnow : s.now ≤ s'.now) : s'.Timing since := by
  have hle := h.now_le.trans hnow
  cases h with
  | idle _ ht' hc' => exact .idle hle (by rwa [ht]) (by rwa [hc])
  | armed _ t hle' hpast ht' hc' =>
    exact .armed hle t hle' (hpast.trans hnow) (by rwa [ht]) (by rwa [hc])
  | fired _ ht' hc' hdue => exact .fired hle (by rwa [ht]) (by rwa [hc]) (hdue.trans hnow)

/-- A tick that can be received is the one of the last setting. -/
theorem Watch.Timing.of_tick (h : s.Timing since) {deadline : Option ℤ} (hc : s.timerC = true)
    (ht : s.timer = some ⟨deadline, true⟩) : deadline = none ∧ since + reloadDelay ≤ s.now := by
  rcases h with ⟨-, -, hc'⟩ | ⟨-, t, -, -, harmed, -⟩ | ⟨-, hfired, -, hdue⟩
  · simp [hc] at hc'
  · simp [ht] at harmed
  · simpa [ht, hdue] using hfired

/-! ## The watch on the shard directory -/

/-- The flag `watched` after an event, if the watch can be added. -/
def nextWatched (mainPath : GoString) (watched : Bool) (e : FsEvent) : Bool :=
  if e.name = tenantsDir mainPath then e.op.create || (watched && !e.op.leaves) else watched

theorem nextWatched_of_ne {e : FsEvent} (h : e.name ≠ tenantsDir mainPath) (b : Bool) :
    nextWatched mainPath b e = b := if_neg h

theorem foldl_nextWatched_mono {b b' : Bool} (events : List FsEvent) (h : b = true → b' = true) :
    events.foldl (nextWatched mainPath) b = true → events.foldl (nextWatched mainPath) b' = true := by
  induction events generalizing b b' with
  | nil => exact h
  | cons e events ih =>
    refine ih ?_
    unfold nextWatched
    split_ifs
    · cases b <;> simp_all
    · exact h

/-- An event in the queue will add the watch. -/
def WillWatch (mainPath : GoString) (watched : Bool) (events : List FsEvent) : Prop :=
  ∃ front e back, events = front ++ e :: back ∧ e.name = tenantsDir mainPath ∧ e.op.create = true ∧
    (front.foldl (nextWatched mainPath) watched && !e.op.leaves) = false

theorem WillWatch.append {watched : Bool} {events : List FsEvent} (h : WillWatch mainPath watched events)
    (more : List FsEvent) : WillWatch mainPath watched (events ++ more) := by
  obtain ⟨front, e, back, rfl, h⟩ := h
  exact ⟨front, e, back ++ more, by simp, h⟩

theorem relevant_of_dir {e : FsEvent} (hname : e.name = tenantsDir mainPath)
    (hop : e.op.changes = true) : e.relevant mainPath = true := by
  simp [FsEvent.relevant, hname, hop]

theorem WillWatch.exists_relevant {watched : Bool} {events : List FsEvent}
    (h : WillWatch mainPath watched events) : ∃ e ∈ events, e.relevant mainPath = true := by
  obtain ⟨front, e, back, rfl, hname, hcreate, -⟩ := h
  exact ⟨e, by simp, relevant_of_dir hname (by simp [FsOp.changes, hcreate])⟩

/-- The directory is watched, or it will be. -/
structure Watch.Watching (mainPath : GoString) (s : Watch) : Prop where
  absent : s.disk.tenants = none →
    s.live = false ∧ s.events.foldl (nextWatched mainPath) s.watched = false
  present : s.disk.tenants.isSome = true → s.live = true ∨ WillWatch mainPath s.watched s.events

/-- More events, none of them about the directory coming or going. -/
theorem Watch.Watching.more (h : s.Watching mainPath) (more : List FsEvent)
    (hdisk : s'.disk.tenants.isSome = s.disk.tenants.isSome) (hlive : s'.live = s.live)
    (hwatched : s'.watched = s.watched) (hevents : s'.events = s.events ++ more)
    (hmore : ∀ b, more.foldl (nextWatched mainPath) b = b) : s'.Watching mainPath where
  absent hnone := by
    have hold : s.disk.tenants = none := by
      rw [← Option.isNone_iff_eq_none, ← Option.not_isSome, ← hdisk, hnone]
      rfl
    rw [hlive, hwatched, hevents, List.foldl_append, hmore]
    exact h.absent hold
  present hsome := by
    rw [hlive, hwatched, hevents]
    exact (h.present (hdisk ▸ hsome)).imp_right (·.append more)

/-- What an event does besides setting the timer. -/
def Watch.noteDir (mainPath : GoString) (addFails : Bool) (e : FsEvent) (s : Watch) : Watch :=
  if e.name = tenantsDir mainPath then
    let s := if e.op.leaves then { s with watched := false } else s
    if e.op.create then s.addWatch addFails else s
  else s

theorem handle_eq (addFails : Bool) (e : FsEvent) (s : Watch) :
    s.handle mainPath addFails e =
      if e.relevant mainPath then (s.noteDir mainPath addFails e).scheduleReload
      else s.noteDir mainPath addFails e := by
  unfold Watch.handle Watch.noteDir
  by_cases hname : e.name = tenantsDir mainPath
  · simp only [FsEvent.relevant, hname, if_true, decide_true, Bool.true_or, Bool.true_and]
  · simp only [FsEvent.relevant, hname, if_false, decide_false, Bool.false_or, Bool.and_eq_true]

/-- An event changes the flags of the watch and the timer only. -/
theorem noteDir_eq (mainPath : GoString) (addFails : Bool) (e : FsEvent) (s : Watch) : ∃ watched live,
    s.noteDir mainPath addFails e = { s with watched := watched, live := live } := by
  unfold Watch.noteDir Watch.addWatch
  dsimp only
  split_ifs <;> exact ⟨_, _, rfl⟩

theorem watching_noteDir {e : FsEvent} {events : List FsEvent}
    (h : Watch.Watching mainPath { s with events := e :: events }) :
    (Watch.noteDir mainPath false e { s with events := events }).Watching mainPath := by
  obtain ⟨b, live, heq⟩ := noteDir_eq mainPath false e { s with events := events }
  cases htenants : s.disk.tenants with
  | none =>
    obtain ⟨hlive, hwatched⟩ := h.absent htenants
    -- without the directory the watch is not added, and the flag is lower than `nextWatched` has it
    have hnote : live = s.live ∧ (b = true → nextWatched mainPath s.watched e = true) := by
      simp only [Watch.noteDir, Watch.addWatch] at heq
      unfold nextWatched
      split_ifs at heq ⊢ <;> simp_all
    rw [heq]
    refine ⟨fun _ => ⟨hnote.1.trans hlive, ?_⟩, fun hsome => by simp [htenants] at hsome⟩
    rw [Bool.eq_false_iff] at hwatched ⊢
    exact mt (foldl_nextWatched_mono events hnote.2) hwatched
  | some dir =>
    have hnote : b = nextWatched mainPath s.watched e ∧ (s.live = true → live = true) ∧
        (e.name = tenantsDir mainPath → e.op.create = true → (s.watched && !e.op.leaves) = false →
          live = true) := by
      simp only [Watch.noteDir, Watch.addWatch] at heq
      unfold nextWatched
      split_ifs at heq ⊢ <;> simp_all
    rw [heq]
    refine ⟨fun hnone => by simp [htenants] at hnone, fun _ => ?_⟩
    obtain hlive | ⟨front, e', back, hsplit, hname, hcreate, hfold⟩ := h.present (by simp [htenants])
    · exact .inl (hnote.2.1 hlive)
    · cases front with
      | nil =>
        cases hsplit
        exact .inl (hnote.2.2 hname hcreate hfold)
      | cons e₀ front =>
        cases hsplit
        exact .inr ⟨front, e', back, rfl, hname, hcreate, hnote.1 ▸ hfold⟩

/-! ## What has been read -/

/-- A reload will follow. -/
def Watch.Pending (mainPath : GoString) (s : Watch) : Prop :=
  s.timerC = true ∨ ∃ e ∈ s.events, e.relevant mainPath = true

theorem Watch.Pending.mono (h : s.Pending mainPath) (hc : s'.timerC = s.timerC)
    (hevents : ∀ e ∈ s.events, e.relevant mainPath = true → e ∈ s'.events) : s'.Pending mainPath := by
  refine h.imp hc.trans ?_
  rintro ⟨e, he, hrel⟩
  exact ⟨e, hevents e he hrel, hrel⟩

/-- What has been read is what is on the disk. -/
def Watch.Read (s : Watch) : Prop :=
  match s.pc with
  | .readMain => True
  | .readDir => s.seen.main = s.disk.main
  | _ => s.seen.view = s.disk.view

theorem shards_eq_of_without {dir old : ShardDir} {name : GoString} (hname : isShardName name = false)
    (h : dir.without name = old.without name) : dir.shards = old.shards := by
  have hfilter : ∀ dir : ShardDir,
      dir.shards = (dir.without name).filter fun f => isShardName f.name := fun dir => by
    rw [ShardDir.without, List.filter_filter, ShardDir.shards]
    refine List.filter_congr fun f _ => ?_
    by_cases hf : f.name = name
    · simp [hf, hname]
    · simp [hf]
  rw [hfilter, hfilter, h]

theorem readShard_of_mem {disk : ConfigDisk} {dir : ShardDir} {f : ShardFile}
    (hdir : disk.tenants = some dir) (hf : f ∈ dir.files) : disk.readShard f.name = f.content := by
  have hfind : dir.files.find? (fun g => g.name = f.name) = some f := by
    obtain ⟨front, back, hsplit⟩ := List.append_of_mem hf
    have hsorted := dir.sorted
    rw [hsplit, List.pairwise_append] at hsorted
    rw [hsplit, List.find?_append, List.find?_eq_none.mpr, Option.none_or, List.find?_cons_of_pos]
    · simp
    · intro g hg heq
      have hlt := hsorted.2.2 g hg f List.mem_cons_self
      rw [of_decide_eq_true heq] at hlt
      exact absurd hlt (List.lt_irrefl _)
  simp [ConfigDisk.readShard, hdir, hfind]

/-- Reading a file again changes nothing as long as the files are the same. -/
theorem view_reread {seen disk : ConfigDisk} (h : seen.view = disk.view) (name : GoString) :
    ConfigDisk.view { seen with tenants := seen.tenants.map (·.reread name (disk.readShard name)) } =
      disk.view := by
  have htenants : seen.tenants.map ShardDir.shards = disk.tenants.map ShardDir.shards :=
    congrArg Prod.snd h
  rw [← h]
  unfold ConfigDisk.view
  cases hseen : seen.tenants with
  | none => rfl
  | some dir =>
    rw [hseen, Option.map_some, eq_comm, Option.map_eq_some_iff] at htenants
    obtain ⟨dir', hdir', hshards⟩ := htenants
    simp only [Option.map_some, Prod.mk.injEq, Option.some.injEq, true_and]
    unfold ShardDir.shards ShardDir.reread
    rw [List.filter_map]
    have hname : ((fun f : ShardFile => isShardName f.name) ∘ fun f : ShardFile =>
        if f.name = name then { f with content := disk.readShard name } else f) =
        fun f => isShardName f.name := by
      funext f
      simp only [Function.comp_apply]
      split <;> rfl
    rw [hname]
    refine (List.map_congr_left fun f hf => ?_).trans (List.map_id _)
    split_ifs with heq
    · have hmem : f ∈ dir'.files := List.mem_of_mem_filter (hshards ▸ hf : f ∈ dir'.shards)
      rw [← heq, readShard_of_mem hdir' hmem]
      rfl
    · rfl

/-! ## The invariant -/

/-- The state is the one after the last reload, which has read the files `seen`. Before the first
reload they are those of the beginning. -/
def Watch.Loaded (w : World) (mainPath : GoString) (first : ConfigDisk) (s : Watch) : Prop :=
  match s.last with
  | none => s.seen = first
  | some result => ∃ (a : Attempt) (before : Runtime),
      runReload w (a.onDisk mainPath s.seen) before = (result, s.runtime)

/-- What holds at every moment. -/
structure Watch.Inv (w : World) (mainPath : GoString) (first : ConfigDisk) (s : Watch) : Prop where
  watching : s.Watching mainPath
  fresh : s.Pending mainPath ∨ s.Read
  loaded : s.pc = .select ∨ s.pc = .returned → s.Loaded w mainPath first

variable {first : ConfigDisk}

theorem shard_ne_tenantsDir (name : GoString) :
    filepathJoin (tenantsDir mainPath) name ≠ tenantsDir mainPath := by
  intro h
  have hlen := congrArg List.length h
  rw [filepathJoin, if_neg (tenantsDir_cases mainPath).2, List.length_append, List.length_cons] at hlen
  omega

theorem inv_changeShard (h : s.Inv w mainPath first) {name : GoString} {dir : ShardDir} {op : FsOp}
    (hop : op.changes = true) (hl : environmentStep mainPath s (.changeShard name dir op) = some s') :
    s'.Inv w mainPath first := by
  simp only [environmentStep] at hl
  split at hl
  · cases hl
  rename_i old hold
  simp only [Option.ite_none_right_eq_some, Option.some.injEq] at hl
  obtain ⟨⟨hslash, hothers⟩, rfl⟩ := hl
  let e : FsEvent := ⟨filepathJoin (tenantsDir mainPath) name, op⟩
  have hevents : (if s.live then s.events ++ [e] else s.events) =
      s.events ++ if s.live then [e] else [] := by
    split_ifs <;> simp
  refine ⟨h.watching.more _ (by simp [hold]) rfl rfl hevents ?_, ?_, h.loaded⟩
  · intro b
    split_ifs
    · exact nextWatched_of_ne (shard_ne_tenantsDir name) b
    · rfl
  by_cases hname : isShardName name = true
  · refine .inl (.inr ?_)
    -- the event itself, or the one that will add the watch
    cases hlive : s.live with
    | true =>
      refine ⟨e, by simp [e], ?_⟩
      simp [e, FsEvent.relevant, FsEvent.isFile, filepathDir_shard mainPath hslash,
        isShardName_filepathJoin, hname, hop]
    | false =>
      have hwill := (h.watching.present (by simp [hold])).resolve_left (by simp [hlive])
      simpa using hwill.exists_relevant
  · rw [Bool.not_eq_true] at hname
    refine h.fresh.imp (fun hp => ?_) fun hr => ?_
    · refine hp.mono rfl fun e' he _ => ?_
      dsimp only
      rw [hevents]
      exact List.mem_append_left _ he
    · have hview : ConfigDisk.view { s.disk with tenants := some dir } = s.disk.view := by
        simp [ConfigDisk.view, hold, shards_eq_of_without hname hothers]
      unfold Watch.Read at hr ⊢
      dsimp only at hr ⊢
      rw [hview]
      exact hr

theorem inv_environment (h : s.Inv w mainPath first) (hmain : mainPath ≠ tenantsDir mainPath)
    {step : EnvironmentStep} (hmissed : (WatchStep.environment step).missed = false)
    (hl : environmentStep mainPath s step = some s') : s'.Inv w mainPath first := by
  cases step with
  | advance d =>
    cases hl
    exact ⟨⟨h.watching.absent, h.watching.present⟩, h.fresh, h.loaded⟩
  | changeMain content op =>
    cases hl
    have hop : op.changes = true := by simpa [WatchStep.missed] using hmissed
    refine ⟨h.watching.more _ rfl rfl rfl rfl
      (nextWatched_of_ne hmain), .inl (.inr ⟨⟨mainPath, op⟩, by simp, ?_⟩), h.loaded⟩
    simp [FsEvent.relevant, FsEvent.isFile, hop]
  | changeShard name dir op =>
    exact inv_changeShard h (by simpa [WatchStep.missed] using hmissed) hl
  | removeTenants op =>
    simp only [environmentStep, Option.ite_none_right_eq_some, Option.some.injEq] at hl
    obtain ⟨⟨hleaves, hcreate, -⟩, rfl⟩ := hl
    have hnext : ∀ b, nextWatched mainPath b ⟨tenantsDir mainPath, op⟩ = false := fun b => by
      simp [nextWatched, hleaves, hcreate]
    have hop : op.changes = true := by
      rcases Bool.or_eq_true_iff.mp hleaves with h | h <;> simp [FsOp.changes, h]
    refine ⟨⟨fun _ => ⟨rfl, ?_⟩, fun h => by cases h⟩,
      .inl (.inr ⟨⟨tenantsDir mainPath, op⟩, ?_, relevant_of_dir rfl hop⟩), h.loaded⟩
    · dsimp only
      rw [List.foldl_append]
      split_ifs <;> simp [hnext]
    · dsimp only
      split_ifs <;> simp
  | createTenants dir =>
    simp only [environmentStep, Option.ite_none_right_eq_some, Option.some.injEq] at hl
    obtain ⟨hnone, rfl⟩ := hl
    have hwill : WillWatch mainPath s.watched (s.events ++ [⟨tenantsDir mainPath, .created⟩]) :=
      ⟨s.events, _, [], rfl, rfl, rfl, by
        rw [(h.watching.absent (Option.isNone_iff_eq_none.mp hnone)).2]
        rfl⟩
    exact ⟨⟨fun h => (by cases h), fun _ => .inr hwill⟩,
      .inl (.inr hwill.exists_relevant), h.loaded⟩
  | otherEvent e =>
    simp only [environmentStep, Option.ite_none_left_eq_some, Option.some.injEq] at hl
    obtain ⟨hother, rfl⟩ := hl
    refine ⟨h.watching.more _ rfl rfl rfl rfl fun b => ?_,
      h.fresh.imp_left fun hp => hp.mono rfl fun _ he _ => List.mem_append_left _ he, h.loaded⟩
    change nextWatched mainPath b e = b
    by_cases hname : e.name = tenantsDir mainPath
    · have hop := not_or.mp fun ho => hother ⟨hname, ho⟩
      simp [nextWatched, hname, hop.1, hop.2]
    · exact nextWatched_of_ne hname b
  | replaceTenants dir => cases hmissed
  | overflow => cases hmissed

theorem inv_handle (h : s.Inv w mainPath first) {e : FsEvent} {events : List FsEvent}
    (hevents : s.events = e :: events) :
    (Watch.handle mainPath false e { s with events := events }).Inv w mainPath first := by
  have hnote : (Watch.noteDir mainPath false e { s with events := events }).Watching mainPath :=
    watching_noteDir (by rw [← hevents]; exact h.watching)
  obtain ⟨b, live, heq⟩ := noteDir_eq mainPath false e { s with events := events }
  rw [handle_eq]
  rw [heq] at hnote ⊢
  split_ifs with hrel
  · exact ⟨⟨hnote.absent, hnote.present⟩, .inl (.inl rfl), h.loaded⟩
  · refine ⟨hnote, h.fresh.imp_left fun hp => hp.mono rfl fun e' he' hrel' => ?_, h.loaded⟩
    rw [hevents] at he'
    rcases List.mem_cons.mp he' with rfl | he'
    · exact absurd hrel' hrel
    · exact he'

theorem inv_loop (h : s.Inv w mainPath first) {step : LoopStep}
    (hmissed : (WatchStep.loop step).missed = false) (hl : loopStep mainPath s step = some s') :
    s'.Inv w mainPath first := by
  cases step <;> simp only [loopStep] at hl
  case expire =>
    split at hl
    · rename_i deadline ready ht
      simp only [Option.ite_none_right_eq_some, Option.some.injEq] at hl
      obtain ⟨-, rfl⟩ := hl
      exact ⟨⟨h.watching.absent, h.watching.present⟩, h.fresh, h.loaded⟩
    · cases hl
  case event addFails =>
    split at hl
    · rename_i e events _ hevents
      cases hl
      rw [show addFails = false from hmissed]
      exact inv_handle h hevents
    · cases hl
  case watcherError =>
    simp only [Option.ite_none_right_eq_some, Option.some.injEq] at hl
    exact hl.2 ▸ h
  case tick =>
    split at hl
    · cases hl
      exact ⟨⟨h.watching.absent, h.watching.present⟩, .inr trivial, by simp⟩
    · cases hl
  case stop =>
    simp only [Option.ite_none_right_eq_some, Option.some.injEq] at hl
    obtain ⟨hpc, rfl⟩ := hl
    refine ⟨⟨h.watching.absent, h.watching.present⟩,
      h.fresh.imp_right fun hr => ?_, fun _ => h.loaded (.inl hpc)⟩
    simpa [Watch.Read, hpc] using hr

theorem inv_reload (h : s.Inv w mainPath first) {step : ReloadStep}
    (hl : reloadStep w mainPath s step = some s') : s'.Inv w mainPath first := by
  cases step <;> simp only [reloadStep] at hl
  case read =>
    split at hl <;> cases hl <;>
      refine ⟨⟨h.watching.absent, h.watching.present⟩,
        h.fresh.imp_right fun hr => ?_, by simp⟩
    · rfl
    · rename_i hpc
      rw [Watch.Read, hpc] at hr
      exact Prod.ext hr rfl
    · rename_i name names hpc
      rw [Watch.Read, hpc] at hr
      exact view_reread hr name
  case finish a =>
    simp only [Option.ite_none_right_eq_some, Option.some.injEq] at hl
    obtain ⟨hpc, rfl⟩ := hl
    refine ⟨⟨h.watching.absent, h.watching.present⟩,
      h.fresh.imp_right fun hr => ?_, fun _ => ⟨a, s.runtime, rfl⟩⟩
    simpa [Watch.Read, hpc] using hr

theorem Watch.Inv.step (h : s.Inv w mainPath first) (hmain : mainPath ≠ tenantsDir mainPath)
    {l : WatchStep} (hmissed : l.missed = false) (hl : watchStep w mainPath s l = some s') :
    s'.Inv w mainPath first := by
  cases l with
  | environment step => exact inv_environment h hmain hmissed hl
  | loop step => exact inv_loop h hmissed hl
  | reload step => exact inv_reload h hl

theorem Watch.Inv.run (h : s.Inv w mainPath first) (hmain : mainPath ≠ tenantsDir mainPath)
    {labels : List WatchStep} (hmissed : ∀ l ∈ labels, l.missed = false)
    (hrun : run (watchStep w mainPath) s labels = some s') : s'.Inv w mainPath first := by
  refine run_induction (P := fun labels s => (∀ l ∈ labels, l.missed = false) →
    s.Inv w mainPath first) (fun _ => h) (fun labels s₁ l s₂ _ hI hl hf => ?_) hrun hmissed
  have hI₁ := hI fun l' hl' => hf l' (List.mem_append_left _ hl')
  exact hI₁.step hmain (hf l (by simp)) hl

end Watching

/-- The path of a main file. -/
def samplePath : GoString := str "/etc/c.yml"

/-- A watcher of an empty file. -/
def sampleStart : Watch := Watch.start 0 ⟨.ok [], none⟩ newRuntime

/-- The main file is replaced, and the watcher loads it. -/
def replaceSteps : List WatchStep :=
  [.environment (.changeMain (.ok (str "moved")) ⟨true, false, false, false, false⟩),
    .environment (.otherEvent ⟨str "/etc/passwd", ⟨false, true, false, false, false⟩⟩),
    .loop (.event false), .loop (.event false), .environment (.advance 100000000), .loop .expire,
    .loop .tick, .reload .read, .reload .read, .reload (.finish siteAttempt)]

section Timing

variable {w : World} {mainPath : GoString} {s s' : Watch} {since : ℤ}

theorem timing_start (now : ℤ) (disk : ConfigDisk) (runtime : Runtime) :
    (Watch.start now disk runtime).Timing now :=
  .idle le_rfl (.inl rfl) rfl

/-- Other processes do not touch the timer. -/
theorem environment_timer {step : EnvironmentStep}
    (hl : environmentStep mainPath s step = some s') :
    s'.timer = s.timer ∧ s'.timerC = s.timerC ∧ s.now ≤ s'.now := by
  cases step <;> simp only [environmentStep] at hl
  case advance d =>
    cases hl
    exact ⟨rfl, rfl, by simp⟩
  all_goals
    (repeat' split at hl) <;> cases hl <;> exact ⟨rfl, rfl, le_rfl⟩

/-- An event that concerns the configuration sets the timer anew. -/
theorem timing_handle (h : s.Timing since) {t : ℤ} (hnow : t ≤ s.now) {e : FsEvent}
    (ht : e.relevant mainPath = true ∨ t = since) (addFails : Bool) (events : List FsEvent) :
    (Watch.handle mainPath addFails e { s with events := events }).Timing t := by
  obtain ⟨b, live, heq⟩ := noteDir_eq mainPath addFails e { s with events := events }
  have htiming : Watch.Timing since { s with events := events, watched := b, live := live } :=
    h.congr rfl rfl le_rfl
  rw [handle_eq, heq]
  split_ifs with hrel
  · exact timing_scheduleReload htiming hnow
  · exact ht.resolve_left hrel ▸ htiming

theorem timing_loop (h : s.Timing since) {step : LoopStep} (hl : loopStep mainPath s step = some s') :
    s'.Timing since := by
  cases step <;> simp only [loopStep] at hl
  case expire =>
    split at hl
    · rename_i deadline ready ht
      simp only [Option.ite_none_right_eq_some, Option.some.injEq] at hl
      obtain ⟨hdue, rfl⟩ := hl
      rcases h with ⟨-, hidle, -⟩ | ⟨hnow, t, hle, -, harmed, hc⟩ | ⟨-, hfired, -⟩
      · simp [ht] at hidle
      · rw [ht, Option.some.injEq, GoTimer.mk.injEq, Option.some.injEq] at harmed
        exact .fired hnow rfl hc ((Int.add_le_add_right hle _).trans (harmed.1 ▸ hdue))
      · simp [ht] at hfired
    · cases hl
  case event addFails =>
    split at hl
    · cases hl
      exact timing_handle h h.now_le (.inr rfl) addFails _
    · cases hl
  case watcherError =>
    simp only [Option.ite_none_right_eq_some, Option.some.injEq] at hl
    exact hl.2 ▸ h
  case tick =>
    split at hl
    · rename_i deadline hpc hc ht
      cases hl
      exact .idle h.now_le (.inr (by rw [(h.of_tick hc ht).1])) rfl
    · cases hl
  case stop =>
    simp only [Option.ite_none_right_eq_some, Option.some.injEq] at hl
    obtain ⟨-, rfl⟩ := hl
    exact h.congr rfl rfl le_rfl

/-- Every step keeps the order of the timer. -/
theorem Watch.Timing.step (h : s.Timing since) {l : WatchStep}
    (hl : watchStep w mainPath s l = some s') : s'.Timing since := by
  cases l with
  | environment step =>
    obtain ⟨ht, hc, hnow⟩ := environment_timer hl
    exact h.congr ht hc hnow
  | loop step => exact timing_loop h hl
  | reload step =>
    cases step <;> simp only [watchStep, reloadStep] at hl <;> split at hl <;> cases hl <;>
      exact h.congr rfl rfl le_rfl

theorem Watch.Timing.run (h : s.Timing since) {labels : List WatchStep}
    (hrun : run (watchStep w mainPath) s labels = some s') : s'.Timing since :=
  run_invariant h (fun _ _ _ hI hl => hI.step hl) hrun

end Timing

/-- **A reload waits for the events.** After an event that concerns the configuration no reload starts
for 100 milliseconds, whatever else happens: every such event sets the timer again, and no tick of an
earlier setting is left. -/
theorem reload_waits_for_events (w : World) (mainPath : GoString) (now : ℤ) (disk : ConfigDisk)
    (runtime : Runtime) (before since : List WatchStep) (e : FsEvent) (events : List FsEvent)
    (addFails : Bool) (s₁ s₂ s₃ s₄ : Watch)
    (h₁ : run (watchStep w mainPath) (Watch.start now disk runtime) before = some s₁)
    (hevents : s₁.events = e :: events) (hrelevant : e.relevant mainPath = true)
    (h₂ : watchStep w mainPath s₁ (.loop (.event addFails)) = some s₂)
    (h₃ : run (watchStep w mainPath) s₂ since = some s₃)
    (h₄ : watchStep w mainPath s₃ (.loop .tick) = some s₄) : s₁.now + 100 * millisecond ≤ s₃.now := by
  have htiming₁ := (timing_start now disk runtime).run h₁
  have htiming₂ : s₂.Timing s₁.now := by
    simp only [watchStep, loopStep, hevents] at h₂
    split at h₂
    · rename_i heq
      cases heq
      cases h₂
      exact timing_handle htiming₁ le_rfl (.inl hrelevant) addFails events
    · cases h₂
  simp only [watchStep, loopStep] at h₄
  split at h₄
  · rename_i hc ht
    exact ((htiming₂.run h₃).of_tick hc ht).2
  · cases h₄

theorem reload_waits_for_events_replaced :
    ∃ s₁ s₂ s₃ s₄,
      run (watchStep site samplePath) sampleStart (replaceSteps.take 2) = some s₁ ∧
      watchStep site samplePath s₁ (.loop (.event false)) = some s₂ ∧
      run (watchStep site samplePath) s₂ ((replaceSteps.drop 3).take 3) = some s₃ ∧
      watchStep site samplePath s₃ (.loop .tick) = some s₄ ∧ s₁.now + 100 * millisecond ≤ s₃.now := by
  have hend : ((run (watchStep site samplePath) sampleStart (replaceSteps.take 2)).bind fun s₁ =>
      (watchStep site samplePath s₁ (.loop (.event false))).bind fun s₂ =>
      (run (watchStep site samplePath) s₂ ((replaceSteps.drop 3).take 3)).bind fun s₃ =>
      (watchStep site samplePath s₃ (.loop .tick)).map fun _ =>
        decide (s₁.events.head? = some ⟨samplePath, .created⟩)) = some true := by
    decide +kernel
  simp only [Option.bind_eq_some_iff, Option.map_eq_some_iff, decide_eq_true_eq] at hend
  obtain ⟨s₁, h₁, s₂, h₂, s₃, h₃, s₄, h₄, hhead⟩ := hend
  obtain ⟨events, hevents⟩ := List.head?_eq_some_iff.mp hhead
  exact ⟨s₁, s₂, s₃, s₄, h₁, h₂, h₃, h₄, reload_waits_for_events site samplePath
    0 _ _ _ _ _ _ _ _ _ _ _ h₁ hevents (by decide +kernel) h₂ h₃ h₄⟩

/-! ## Coming to rest -/

/-- A step with which the watcher gets on: it receives an event, its timer fires, or a reload starts,
reads or ends. -/
def WatchStep.works : WatchStep → Bool
  | .loop .expire | .loop (.event _) | .loop .tick | .reload _ => true
  | _ => false

/-- Such a step, time going by, or an error of the watcher. -/
def WatchStep.own : WatchStep → Bool
  | .environment (.advance _) | .loop .watcherError => true
  | l => l.works

/-- The number of shards. -/
def Watch.shardCount (s : Watch) : ℕ := ((s.disk.tenants.map ShardDir.shards).getD []).length

/-- The steps a timer still leads to: it fires, and the reload starts, reads everything and ends. -/
def Watch.timerWork (s : Watch) : ℕ :=
  match s.timer with
  | some ⟨some _, _⟩ => s.shardCount + 5
  | some ⟨none, true⟩ => s.shardCount + 4
  | _ => 0

/-- The steps until a call of `Reload` ends. -/
def Watch.reloadWork (s : Watch) : ℕ :=
  match s.pc with
  | .readMain => s.shardCount + 3
  | .readDir => s.shardCount + 2
  | .readShards names => names.length + 1
  | _ => 0

/-- A bound for the steps that are left; every event may set the timer. -/
def Watch.work (s : Watch) : ℕ :=
  s.events.length * (s.shardCount + 6) + s.timerWork + s.reloadWork

/-- The watcher can take a step with which it gets on, at once or within the delay of the timer. -/
def Watch.CanWork (w : World) (mainPath : GoString) (s : Watch) : Prop :=
  ∃ (d : ℕ) (l : WatchStep), (d : ℤ) ≤ reloadDelay ∧ l.works = true ∧
    (run (watchStep w mainPath) s [.environment (.advance d), l]).isSome = true

section Rest

variable {w : World} {mainPath : GoString} {s s' : Watch} {since : ℤ}

theorem timerWork_le (s : Watch) : s.timerWork ≤ s.shardCount + 5 := by
  unfold Watch.timerWork
  split <;> omega

theorem work_handle {addFails : Bool} {e : FsEvent} {events : List FsEvent}
    (hevents : s.events = e :: events) :
    (Watch.handle mainPath addFails e { s with events := events }).work < s.work := by
  obtain ⟨b, live, heq⟩ := noteDir_eq mainPath addFails e { s with events := events }
  obtain ⟨timer, timerC, hhandle⟩ : ∃ timer timerC,
      Watch.handle mainPath addFails e { s with events := events } =
        { s with events := events, watched := b, live := live, timer := timer, timerC := timerC } := by
    rw [handle_eq, heq]
    split_ifs <;> exact ⟨_, _, rfl⟩
  rw [hhandle]
  have htimer := timerWork_le
    { s with events := events, watched := b, live := live, timer := timer, timerC := timerC }
  simp only [Watch.work, Watch.shardCount, Watch.reloadWork, hevents, List.length_cons] at htimer ⊢
  rw [Nat.succ_mul]
  omega

theorem work_loop (h : s.Timing since) {step : LoopStep} (hworks : (WatchStep.loop step).works = true)
    (hl : loopStep mainPath s step = some s') : s'.work < s.work := by
  cases step <;> simp only [loopStep] at hl
  case expire =>
    split at hl
    · rename_i deadline ready ht
      simp only [Option.ite_none_right_eq_some, Option.some.injEq] at hl
      obtain ⟨-, rfl⟩ := hl
      simp [Watch.work, Watch.timerWork, Watch.shardCount, Watch.reloadWork, ht]
    · cases hl
  case event addFails =>
    split at hl
    · rename_i hevents
      cases hl
      exact work_handle hevents
    · cases hl
  case tick =>
    split at hl
    · rename_i deadline hpc hc ht
      cases hl
      obtain rfl : deadline = none := (h.of_tick hc ht).1
      simp [Watch.work, Watch.timerWork, Watch.shardCount, Watch.reloadWork, ht, hpc]
    · cases hl
  all_goals cases hworks

theorem work_reload {step : ReloadStep} (hl : reloadStep w mainPath s step = some s') :
    s'.work < s.work := by
  cases step <;> simp only [reloadStep] at hl
  case read =>
    split at hl <;> cases hl <;> rename_i hpc <;>
      simp [Watch.work, Watch.timerWork, Watch.shardCount, Watch.reloadWork, hpc]
  case finish a =>
    simp only [Option.ite_none_right_eq_some, Option.some.injEq] at hl
    obtain ⟨hpc, rfl⟩ := hl
    simp [Watch.work, Watch.timerWork, Watch.shardCount, Watch.reloadWork, hpc]

/-- **A step that works** leaves less to do, and time and errors leave as much. -/
theorem work_step (h : s.Timing since) {l : WatchStep} (hown : l.own = true)
    (hl : watchStep w mainPath s l = some s') : s'.work + l.works.toNat ≤ s.work := by
  cases l with
  | environment step =>
    cases step with
    | advance d =>
      cases hl
      exact Nat.le_refl _
    | _ => cases hown
  | loop step =>
    change loopStep mainPath s step = some s' at hl
    cases step with
    | watcherError =>
      simp only [loopStep, Option.ite_none_right_eq_some, Option.some.injEq] at hl
      exact hl.2 ▸ Nat.le_refl _
    | stop => cases hown
    | _ => exact work_loop h rfl hl
  | reload step => exact work_reload hl

theorem work_run (h : s.Timing since) {own : List WatchStep} (hown : ∀ l ∈ own, l.own = true)
    (hrun : run (watchStep w mainPath) s own = some s') :
    s'.work + own.countP WatchStep.works ≤ s.work := by
  refine (run_induction (P := fun labels s₁ => (∀ l ∈ labels, l.own = true) →
    s₁.Timing since ∧ s₁.work + labels.countP WatchStep.works ≤ s.work)
    (fun _ => ⟨h, le_rfl⟩) (fun labels s₁ l s₂ _ ih hl hown => ?_) hrun hown).2
  obtain ⟨htiming, hle⟩ := ih fun l' hl' => hown l' (List.mem_append_left _ hl')
  have hstep := work_step htiming (hown l (by simp)) hl
  refine ⟨htiming.step hl, ?_⟩
  rw [List.countP_append, List.countP_singleton]
  cases hw : l.works <;> simp [hw] at hstep ⊢ <;> omega

/-- **A watcher that is not at rest** can get on, at once or when the timer fires. -/
theorem exists_works (w : World) (mainPath : GoString) (h : s.Timing since) (hpc : s.pc ≠ .returned)
    (hrest : ¬ s.Quiescent) : s.CanWork w mainPath := by
  have hstep (d : ℕ) (hd : (d : ℤ) ≤ reloadDelay) (l : WatchStep) (hworks : l.works = true)
      (hl : (watchStep w mainPath { s with now := s.now + d } l).isSome = true) :
      s.CanWork w mainPath :=
    ⟨d, l, hd, hworks, by simpa [run, watchStep, environmentStep] using hl⟩
  have hnow := hstep 0 (by decide)
  cases hs : s.pc with
  | readMain => exact hnow (.reload .read) rfl (by simp [watchStep, reloadStep, hs])
  | readDir => exact hnow (.reload .read) rfl (by simp [watchStep, reloadStep, hs])
  | readShards names =>
    cases names with
    | nil => exact hnow (.reload (.finish siteAttempt)) rfl (by simp [watchStep, reloadStep, hs])
    | cons name names => exact hnow (.reload .read) rfl (by simp [watchStep, reloadStep, hs])
  | returned => exact absurd hs hpc
  | select =>
    cases hevents : s.events with
    | cons e events =>
      exact hnow (.loop (.event false)) rfl (by simp [watchStep, loopStep, hs, hevents])
    | nil =>
      rcases h with ⟨-, -, hc⟩ | ⟨-, t, -, hpast, ht, -⟩ | ⟨-, ht, hc, -⟩
      · exact absurd ⟨hs, hevents, hc⟩ hrest
      · -- what is left of the delay
        have hpos : (0 : ℤ) ≤ reloadDelay := by decide
        have hdue : t + reloadDelay ≤ s.now + (t + reloadDelay - s.now).toNat := by omega
        exact hstep (t + reloadDelay - s.now).toNat (by omega) (.loop .expire) rfl
          (by simp only [watchStep, loopStep, ht, if_pos hdue, Option.isSome_some])
      · exact hnow (.loop .tick) rfl (by simp [watchStep, loopStep, hs, ht, hc])

end Rest

/-- **The watcher comes to rest.** Whatever has happened so far: if there are no more changes, the
watcher takes a bounded number of steps with which it gets on, and as long as it is not at rest and
has not returned such a step is possible, at once or within 100 milliseconds. -/
theorem watch_comes_to_rest (w : World) (mainPath : GoString) (now : ℤ) (disk : ConfigDisk)
    (runtime : Runtime) (labels own : List WatchStep) (s s' : Watch)
    (h : run (watchStep w mainPath) (Watch.start now disk runtime) labels = some s)
    (hown : ∀ l ∈ own, l.own = true) (h' : run (watchStep w mainPath) s own = some s') :
    own.countP WatchStep.works ≤ s.work ∧
      (s'.pc ≠ .returned → ¬ s'.Quiescent → s'.CanWork w mainPath) := by
  have htiming := (timing_start now disk runtime).run h
  have hwork := work_run htiming hown h'
  exact ⟨by omega, exists_works w mainPath (htiming.run h')⟩

theorem watch_comes_to_rest_replaced :
    ∃ s s', run (watchStep site samplePath) sampleStart (replaceSteps.take 2) = some s ∧
      run (watchStep site samplePath) s (replaceSteps.drop 2) = some s' ∧ s'.Quiescent ∧
      (replaceSteps.drop 2).countP WatchStep.works ≤ s.work ∧ s.CanWork site samplePath := by
  have hend : ((run (watchStep site samplePath) sampleStart (replaceSteps.take 2)).bind fun s =>
      (run (watchStep site samplePath) s (replaceSteps.drop 2)).map fun s' =>
        decide (s'.Quiescent ∧ s.pc ≠ .returned ∧ ¬ s.Quiescent)) = some true := by
    decide +kernel
  simp only [Option.bind_eq_some_iff, Option.map_eq_some_iff, decide_eq_true_eq] at hend
  obtain ⟨s, h, s', h', hrest, hpc, hbusy⟩ := hend
  have hrests := watch_comes_to_rest site samplePath 0 _ _ _ _ s s' h (by decide +kernel) h'
  have hmoves := watch_comes_to_rest site samplePath 0 _ _ _ [] s s h (by simp) rfl
  exact ⟨s, s', h, h', hrest, hrests.1, hmoves.2 hpc hbusy⟩

end SynitWaf
