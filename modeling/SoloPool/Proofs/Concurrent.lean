import SoloPool.Mining.Concurrent
import SoloPool.Proofs.EngineLoop

/-!
# Interleaved refreshes

`current_job` is set under one lock, the history pushed under another and the broadcast sent under none. What a task
still has to publish is read off its phase, so that every other step leaves the published state alone.
-/

namespace SoloPool
open Lib

namespace Refreshes

variable {p : Process} {s s' : Refreshes p} {a : Action} {t : Nat}

@[simp] theorem setTask_tasks_self (s : Refreshes p) (t : Nat) (task : Task p) : (s.setTask t task).tasks t = task :=
  Function.update_self ..

theorem setTask_tasks_ne (s : Refreshes p) {t u : Nat} (task : Task p) (other : u ≠ t) :
    (s.setTask t task).tasks u = s.tasks u := Function.update_of_ne other ..

def cleanOf (s : Refreshes p) (cleanJobs : Bool) (minted : Minted p) : Bool :=
  cleanJobs || tipMoved (s.engine.currentJob.map (·.prevHash)) minted.job.prevHash

section
variable (s : Refreshes p) (t : Nat) (caller : Caller) (cleanJobs clean : Bool) (minted : Minted p) (setAt : Nat)

@[simp] theorem setCurrent_tasks : (s.setCurrent t caller cleanJobs minted).tasks =
    (s.setTask t (.refreshing caller (.set minted (s.cleanOf cleanJobs minted) s.sets.length))).tasks := rfl

@[simp] theorem setCurrent_current : (s.setCurrent t caller cleanJobs minted).engine.currentJob = some minted.job := rfl

@[simp] theorem setCurrent_history :
    (s.setCurrent t caller cleanJobs minted).engine.jobHistory = s.engine.jobHistory := rfl

@[simp] theorem setCurrent_sets :
    (s.setCurrent t caller cleanJobs minted).sets = s.sets ++ [(minted, s.cleanOf cleanJobs minted)] := rfl

@[simp] theorem setCurrent_pushes : (s.setCurrent t caller cleanJobs minted).pushes = s.pushes := rfl

@[simp] theorem setCurrent_broadcasts : (s.setCurrent t caller cleanJobs minted).broadcasts = s.broadcasts := rfl

@[simp] theorem pushHistory_tasks : (s.pushHistory t caller minted clean setAt).tasks =
    (s.setTask t (.refreshing caller (.pushed minted clean setAt))).tasks := rfl

@[simp] theorem pushHistory_history : (s.pushHistory t caller minted clean setAt).engine.jobHistory =
    pushBounded jobHistoryDepth s.engine.jobHistory { job := minted.job, clean, supersededByClean := false } := rfl

@[simp] theorem pushHistory_sets : (s.pushHistory t caller minted clean setAt).sets = s.sets := rfl

@[simp] theorem pushHistory_pushes : (s.pushHistory t caller minted clean setAt).pushes = s.pushes + 1 := rfl

@[simp] theorem sendBroadcast_tasks :
    (s.sendBroadcast t caller minted clean).tasks = (s.setTask t caller.afterRefresh).tasks := rfl

@[simp] theorem sendBroadcast_sets : (s.sendBroadcast t caller minted clean).sets = s.sets := rfl

@[simp] theorem sendBroadcast_broadcasts : (s.sendBroadcast t caller minted clean).broadcasts =
    s.broadcasts ++ [{ job := minted.job, clean }] := rfl

end

/-! ### What a step can do -/

def Action.fallible : Action → Bool
  | .readAddress _ | .fetch _ _ | .build _ => true
  | _ => false

/-- The steps, each with the phase it starts from. A failed refresh is one case whatever it fails at: it keeps the jobs
and the history, and ends the call. -/
inductive Step (s : Refreshes p) : Action → Refreshes p → Prop where
  | enter {cleanJobs : Bool} (idle : s.tasks 0 = .idle) :
      Step s (.enter cleanJobs) (s.setTask 0 (.refreshing .engineLoop (.entered cleanJobs)))
  | refused {t : Nat} {admitted : Bool} {coinbaseAddress : String} : Step s (.post t admitted coinbaseAddress) s
  | update {t : Nat} {coinbaseAddress : String} {settings : RuntimeSettings} (idle : s.tasks t = .idle)
      (applied : s.settings.update p.crates (trim coinbaseAddress) = .ok settings) :
      Step s (.post t true coinbaseAddress)
        { s.setTask t (.updated (trim coinbaseAddress) (s.updates + 1)) with
          settings, updates := s.updates + 1, settled := none }
  | save {t : Nat} {persists : Bool} {address : String} {update : Nat} (updated : s.tasks t = .updated address update) :
      Step s (.save t persists)
        { s.setTask t (.refreshing (.settingsPost address update) (.entered true)) with
          persisted := if persists then some address else s.persisted }
  | readAddress {t : Nat} {caller : Caller} {cleanJobs : Bool} {address : String}
      (entered : s.tasks t = .refreshing caller (.entered cleanJobs))
      (valid : s.settings.validCoinbaseAddress = some address) :
      Step s (.readAddress t) (s.setTask t (.refreshing caller (.addressRead cleanJobs address s.updates)))
  | fetch {t : Nat} {caller : Caller} {cleanJobs : Bool} {address : String} {readAt : Nat} {gbt : GbtResult}
      (read : s.tasks t = .refreshing caller (.addressRead cleanJobs address readAt)) :
      Step s (.fetch t (.ok gbt))
        { s.setTask t (.refreshing caller (.fetched cleanJobs address gbt s.fetches)) with fetches := s.fetches + 1 }
  | build {t : Nat} {caller : Caller} {cleanJobs : Bool} {address : String} {gbt : GbtResult} {fetchedAt : Nat}
      {minted : Minted p} (fetched : s.tasks t = .refreshing caller (.fetched cleanJobs address gbt fetchedAt))
      (from_fetch : minted.gbt = gbt ∧ minted.address = address ∧ minted.fetchedAt = fetchedAt) :
      Step s (.build t)
        { s.setTask t (.refreshing caller (.built cleanJobs minted)) with
          engine := { s.engine with jobCounter := s.engine.jobCounter + 1 } }
  | fail {a : Action} {caller : Caller} {task : Task p} {engine : Engine} (fallible : a.fallible = true)
      (waiting : (∃ cleanJobs, s.tasks a.task = .refreshing caller (.entered cleanJobs)) ∨
        (∃ cleanJobs address readAt, s.tasks a.task = .refreshing caller (.addressRead cleanJobs address readAt)) ∨
        ∃ cleanJobs address gbt fetchedAt,
          s.tasks a.task = .refreshing caller (.fetched cleanJobs address gbt fetchedAt))
      (ended : task = .idle ∨ task = caller.afterRefresh)
      (kept : engine.currentJob = s.engine.currentJob ∧ engine.jobHistory = s.engine.jobHistory) :
      Step s a { s.setTask a.task task with engine }
  | set {t : Nat} {caller : Caller} {cleanJobs : Bool} {minted : Minted p}
      (built : s.tasks t = .refreshing caller (.built cleanJobs minted)) :
      Step s (.set t) (s.setCurrent t caller cleanJobs minted)
  | push {t : Nat} {caller : Caller} {minted : Minted p} {clean : Bool} {setAt : Nat}
      (set : s.tasks t = .refreshing caller (.set minted clean setAt)) :
      Step s (.push t) (s.pushHistory t caller minted clean setAt)
  | broadcast {t : Nat} {caller : Caller} {minted : Minted p} {clean : Bool} {setAt : Nat}
      (pushed : s.tasks t = .refreshing caller (.pushed minted clean setAt)) :
      Step s (.broadcast t) (s.sendBroadcast t caller minted clean)
  | respond {t : Nat} {address : String} {update : Nat} (finished : s.tasks t = .finished address update) :
      Step s (.respond t)
        { s.setTask t .idle with settled := if update = s.updates then some address else s.settled }

theorem buildJob_cases (s : Refreshes p) (t : Nat) (caller : Caller) (cleanJobs : Bool) (address : String)
    (gbt : GbtResult) (fetchedAt : Nat) :
    let drawn : Engine := { s.engine with jobCounter := s.engine.jobCounter + 1 }
    let outcome := SoloPool.buildJob p.crates (nextJobId (jobEpoch p.startMillis) s.engine.jobCounter) gbt address
      p.pool.coinbaseTag p.pool.extranonce1Size p.pool.extranonce2Size
    (∃ minted, outcome = .ok minted.job ∧ minted.gbt = gbt ∧ minted.address = address ∧ minted.fetchedAt = fetchedAt ∧
      s.buildJob t caller cleanJobs address gbt fetchedAt =
        { s.setTask t (.refreshing caller (.built cleanJobs minted)) with engine := drawn }) ∨
    (∃ why, outcome = .err why ∧ s.buildJob t caller cleanJobs address gbt fetchedAt =
      { s.setTask t caller.afterRefresh with engine := drawn.noteTemplateFailure (.buildJob why) }) ∨
    (outcome = .panic ∧ s.buildJob t caller cleanJobs address gbt fetchedAt =
      { s.setTask t .idle with engine := drawn }) := by
  unfold buildJob
  dsimp only
  split
  · rename_i built
    exact .inl ⟨_, built, rfl, rfl, rfl, rfl⟩
  · rename_i why built
    exact .inr (.inl ⟨why, built, rfl⟩)
  · rename_i built
    exact .inr (.inr ⟨built, rfl⟩)

theorem step_inv (taken : step s a = some s') : Step s a s' := by
  cases a with
  | enter cleanJobs =>
    simp only [step] at taken
    split at taken
    · obtain rfl := Option.some.inj taken
      exact .enter ‹_›
    · simp at taken
  | post t admitted coinbaseAddress =>
    simp only [step] at taken
    split at taken
    · rename_i idle
      split at taken
      · simp at taken
      · split at taken <;> obtain rfl := Option.some.inj taken
        · rename_i passes
          obtain rfl := passes
          unfold applyUpdate
          split
          · exact .refused
          · exact .update idle ‹_›
        · exact .refused
    · simp at taken
  | save t persists =>
    simp only [step] at taken
    split at taken
    · obtain rfl := Option.some.inj taken
      exact .save ‹_›
    · simp at taken
  | readAddress t =>
    simp only [step] at taken
    split at taken
    · rename_i entered
      split at taken <;> obtain rfl := Option.some.inj taken
      · exact .readAddress entered ‹_›
      · exact .fail (a := .readAddress t) rfl (.inl ⟨_, entered⟩) (.inr rfl) ⟨rfl, rfl⟩
    · simp at taken
  | fetch t reply =>
    simp only [step] at taken
    split at taken
    · rename_i read
      split at taken <;> obtain rfl := Option.some.inj taken
      · exact .fetch read
      · exact .fail (a := .fetch t _) rfl (.inr (.inl ⟨_, _, _, read⟩)) (.inr rfl) ⟨rfl, rfl⟩
    · simp at taken
  | build t =>
    simp only [step] at taken
    split at taken
    · rename_i fetched
      obtain rfl := Option.some.inj taken
      rcases s.buildJob_cases t _ _ _ _ _ with ⟨minted, _, gbt, address, fetchedAt, next⟩ | ⟨_, _, next⟩ | ⟨_, next⟩ <;> rw [next]
      · exact .build fetched ⟨gbt, address, fetchedAt⟩
      · exact .fail (a := .build t) rfl (.inr (.inr ⟨_, _, _, _, fetched⟩)) (.inr rfl) ⟨rfl, rfl⟩
      · exact .fail (a := .build t) rfl (.inr (.inr ⟨_, _, _, _, fetched⟩)) (.inl rfl) ⟨rfl, rfl⟩
    · simp at taken
  | set t =>
    simp only [step] at taken
    split at taken
    · obtain rfl := Option.some.inj taken
      exact .set ‹_›
    · simp at taken
  | push t =>
    simp only [step] at taken
    split at taken
    · obtain rfl := Option.some.inj taken
      exact .push ‹_›
    · simp at taken
  | broadcast t =>
    simp only [step] at taken
    split at taken
    · obtain rfl := Option.some.inj taken
      exact .broadcast ‹_›
    · simp at taken
  | respond t =>
    simp only [step] at taken
    split at taken
    · obtain rfl := Option.some.inj taken
      exact .respond ‹_›
    · simp at taken

theorem step_frame (taken : step s a = some s') {u : Nat} (other : u ≠ a.task) : s'.tasks u = s.tasks u := by
  cases step_inv taken with
  | refused => rfl
  | enter | update | save | readAddress | fetch | build | fail | set | push | broadcast | respond =>
    exact setTask_tasks_ne _ _ other

/-! ### A call that nothing interrupts -/

theorem publishes {caller : Caller} {cleanJobs : Bool} {minted : Minted p}
    (built : s.tasks t = .refreshing caller (.built cleanJobs minted)) :
    ∃ s', Reach step Always s s' ∧ s'.tasks = Function.update s.tasks t caller.afterRefresh ∧ s'.settings = s.settings ∧
      s'.engine = (s.engine.setCurrent minted.job cleanJobs).1.pushHistory minted.job (s.cleanOf cleanJobs minted) ∧
      s'.broadcasts = s.broadcasts ++ [{ job := minted.job, clean := s.cleanOf cleanJobs minted }] := by
  let set := s.setCurrent t caller cleanJobs minted
  let pushed := set.pushHistory t caller minted (s.cleanOf cleanJobs minted) s.sets.length
  have toSet : step s (.set t) = some set := by simp only [step, built, set]
  have toPushed : step set (.push t) = some pushed := by
    simp only [step, set, pushed, setCurrent_tasks, setTask_tasks_self]
  have toSent : step pushed (.broadcast t) = some (pushed.sendBroadcast t caller minted (s.cleanOf cleanJobs minted)) := by
    simp only [step, pushed, pushHistory_tasks, setTask_tasks_self]
  refine ⟨_, .step (.step (.step .start trivial toSet) trivial toPushed) trivial toSent, ?_, rfl, rfl, rfl⟩
  simp only [sendBroadcast_tasks, pushed, set, setTask, pushHistory_tasks, setCurrent_tasks, Function.update_idem]

/-- A call of `refresh` that nothing interrupts does what `Engine.refresh` does. -/
theorem refresh_uninterrupted {caller : Caller} {cleanJobs : Bool}
    (entered : s.tasks t = .refreshing caller (.entered cleanJobs)) (reply : Except PoolError GbtResult) :
    ∃ s' task, Reach step Always s s' ∧ (task = .idle ∨ task = caller.afterRefresh) ∧
      s'.tasks = Function.update s.tasks t task ∧ s'.settings = s.settings ∧
      Publication.mk s'.engine s'.broadcasts =
        Publication.refresh p ⟨s.engine, s.broadcasts⟩ { settings := s.settings, cleanJobs, reply } := by
  cases valid : s.settings.validCoinbaseAddress with
  | none =>
    refine ⟨{ s.setTask t caller.afterRefresh with engine := s.engine.noteTemplateFailure .miningPaused },
      caller.afterRefresh, .step (a := .readAddress t) .start trivial ?_, .inr rfl, rfl, rfl, ?_⟩
    · simp only [step, entered, valid]
    · simp only [Publication.refresh, Engine.refresh, valid, Option.toList_none, List.append_nil]
      rfl
  | some address =>
    have read : step s (.readAddress t) = some (s.setTask t (.refreshing caller (.addressRead cleanJobs address s.updates))) := by
      simp only [step, entered, valid]
    cases reply with
    | error why =>
      refine ⟨{ s.setTask t caller.afterRefresh with engine := s.engine.noteTemplateFailure (.getBlockTemplate why) },
        caller.afterRefresh, .step (a := .fetch t (.error why)) (.step .start trivial read) trivial ?_, .inr rfl, rfl, rfl, ?_⟩
      · simp only [step, setTask_tasks_self]
        simp only [setTask, Function.update_idem]
      · simp only [Publication.refresh, Engine.refresh, valid, Option.toList_none, List.append_nil]
        rfl
    | ok gbt =>
      let fetched : Refreshes p :=
        { s.setTask t (.refreshing caller (.fetched cleanJobs address gbt s.fetches)) with fetches := s.fetches + 1 }
      have toFetched : Reach step Always s fetched := by
        refine .step (a := .fetch t (.ok gbt)) (.step .start trivial read) trivial ?_
        simp only [step, setTask_tasks_self]
        simp only [fetched, setTask, Function.update_idem]
      have toBuilt : Reach step Always s (fetched.buildJob t caller cleanJobs address gbt s.fetches) := by
        refine .step (a := .build t) toFetched trivial ?_
        simp only [step, fetched, setTask_tasks_self]
      let jobId := nextJobId (jobEpoch p.startMillis) s.engine.jobCounter
      let drawn : Engine := { s.engine with jobCounter := s.engine.jobCounter + 1 }
      have built : s.engine.buildNext p gbt address = (SoloPool.buildJob p.crates jobId gbt address p.pool.coinbaseTag
        p.pool.extranonce1Size p.pool.extranonce2Size, drawn) := rfl
      rcases fetched.buildJob_cases t caller cleanJobs address gbt s.fetches with
        ⟨minted, outcome, _, _, _, next⟩ | ⟨why, outcome, next⟩ | ⟨outcome, next⟩ <;>
        rw [show SoloPool.buildJob p.crates jobId gbt address p.pool.coinbaseTag p.pool.extranonce1Size
          p.pool.extranonce2Size = _ from outcome] at built
      · have here : (fetched.buildJob t caller cleanJobs address gbt s.fetches).tasks t =
            .refreshing caller (.built cleanJobs minted) := by
          rw [next]
          exact setTask_tasks_self ..
        obtain ⟨s', run, tasks, settings, engine, broadcasts⟩ := publishes here
        rw [next] at tasks settings engine broadcasts
        refine ⟨s', caller.afterRefresh, toBuilt.trans run, .inr rfl, ?_, settings, ?_⟩
        · rw [tasks]
          simp only [fetched, setTask, Function.update_idem]
        · rw [engine, broadcasts]
          simp only [Publication.refresh, Engine.refresh, valid, built]
          rfl
      · rw [next] at toBuilt
        refine ⟨_, caller.afterRefresh, toBuilt, .inr rfl, ?_, rfl, ?_⟩
        · simp only [fetched, setTask, Function.update_idem]
        · simp only [Publication.refresh, Engine.refresh, valid, built, Option.toList_none, List.append_nil]
          rfl
      · rw [next] at toBuilt
        refine ⟨_, .idle, toBuilt, .inl rfl, ?_, rfl, ?_⟩
        · simp only [fetched, setTask, Function.update_idem]
        · simp only [Publication.refresh, Engine.refresh, valid, built, Option.toList_none, List.append_nil]
          rfl

/-- The engine loop alone reaches what one refresh after the other publishes. -/
theorem runRefreshes_reached (settings : RuntimeSettings) (calls : List (Bool × Except PoolError GbtResult)) :
    ∃ s : Refreshes p, Reach step Always (start settings) s ∧ s.tasks = (fun _ => .idle) ∧ s.settings = settings ∧
      Publication.mk s.engine s.broadcasts =
        runRefreshes p (calls.map fun call => { settings, cleanJobs := call.1, reply := call.2 }) := by
  induction calls using List.reverseRecOn with
  | nil => exact ⟨_, .start, rfl, rfl, rfl⟩
  | append_singleton calls call ih =>
    obtain ⟨s, reached, idle, same, published⟩ := ih
    have entered : Reach step Always (start settings) (s.setTask 0 (.refreshing .engineLoop (.entered call.1))) :=
      .step (a := .enter call.1) reached trivial (by simp only [step, idle])
    obtain ⟨s', task, run, ended, tasks, settings', after⟩ := refresh_uninterrupted
      (setTask_tasks_self s 0 (.refreshing .engineLoop (.entered call.1))) call.2
    have off : task = .idle := by rcases ended with rfl | rfl <;> rfl
    refine ⟨s', entered.trans run, ?_, settings'.trans same, ?_⟩
    · rw [tasks, off, setTask, Function.update_idem, idle]
      exact Function.update_eq_self 0 _
    · rw [after, List.map_append, runRefreshes, List.foldl_append, ← runRefreshes, ← published, ← same]
      rfl

/-! ### What a task has set and not broadcast -/

/-- A job that became `current_job` and has not been broadcast. -/
structure Unsent (p : Process) where
  minted : Minted p
  clean : Bool
  setAt : Nat
  pushed : Bool

def unsent : Task p → Option (Unsent p)
  | .refreshing _ (.set minted clean setAt) => some { minted, clean, setAt, pushed := false }
  | .refreshing _ (.pushed minted clean setAt) => some { minted, clean, setAt, pushed := true }
  | _ => none

@[simp] theorem unsent_afterRefresh (caller : Caller) : unsent (caller.afterRefresh : Task p) = none := by
  cases caller <;> rfl

/-- The steps before a set and after a broadcast leave everything published alone. -/
structure Quiet (s s' : Refreshes p) : Prop where
  current : s'.engine.currentJob = s.engine.currentJob
  history : s'.engine.jobHistory = s.engine.jobHistory
  sets : s'.sets = s.sets
  pushes : s'.pushes = s.pushes
  broadcasts : s'.broadcasts = s.broadcasts
  unsent : ∀ u, unsent (s'.tasks u) = unsent (s.tasks u)

theorem quiet_setTask {task : Task p} {s' : Refreshes p} (before : unsent (s.tasks t) = none)
    (after : unsent task = none) (tasks : s'.tasks = (s.setTask t task).tasks)
    (rest : s'.engine.currentJob = s.engine.currentJob ∧ s'.engine.jobHistory = s.engine.jobHistory ∧
      s'.sets = s.sets ∧ s'.pushes = s.pushes ∧ s'.broadcasts = s.broadcasts) : Quiet s s' where
  current := rest.1
  history := rest.2.1
  sets := rest.2.2.1
  pushes := rest.2.2.2.1
  broadcasts := rest.2.2.2.2
  unsent u := by
    rw [tasks]
    by_cases same : u = t
    · rw [same, setTask_tasks_self, before, after]
    · rw [setTask_tasks_ne _ _ same]

/-- Everything a step can do to the published state. -/
theorem step_published (taken : step s a = some s') :
    Quiet s s' ∨
    (∃ t caller cleanJobs minted, a = .set t ∧ s.tasks t = .refreshing caller (.built cleanJobs minted) ∧
      s' = s.setCurrent t caller cleanJobs minted) ∨
    (∃ t caller minted clean setAt, a = .push t ∧ s.tasks t = .refreshing caller (.set minted clean setAt) ∧
      s' = s.pushHistory t caller minted clean setAt) ∨
    ∃ t caller minted clean setAt, a = .broadcast t ∧ s.tasks t = .refreshing caller (.pushed minted clean setAt) ∧
      s' = s.sendBroadcast t caller minted clean := by
  cases step_inv taken with
  | refused => exact .inl ⟨rfl, rfl, rfl, rfl, rfl, fun _ => rfl⟩
  | enter idle => exact .inl (quiet_setTask (by rw [idle]; rfl) rfl rfl ⟨rfl, rfl, rfl, rfl, rfl⟩)
  | update idle => exact .inl (quiet_setTask (by rw [idle]; rfl) rfl rfl ⟨rfl, rfl, rfl, rfl, rfl⟩)
  | save updated => exact .inl (quiet_setTask (by rw [updated]; rfl) rfl rfl ⟨rfl, rfl, rfl, rfl, rfl⟩)
  | readAddress entered => exact .inl (quiet_setTask (by rw [entered]; rfl) rfl rfl ⟨rfl, rfl, rfl, rfl, rfl⟩)
  | fetch read => exact .inl (quiet_setTask (by rw [read]; rfl) rfl rfl ⟨rfl, rfl, rfl, rfl, rfl⟩)
  | build fetched => exact .inl (quiet_setTask (by rw [fetched]; rfl) rfl rfl ⟨rfl, rfl, rfl, rfl, rfl⟩)
  | fail _ waiting ended kept =>
    refine .inl (quiet_setTask ?_ ?_ rfl ⟨kept.1, kept.2, rfl, rfl, rfl⟩)
    · obtain ⟨_, held⟩ | ⟨_, _, _, held⟩ | ⟨_, _, _, _, held⟩ := waiting <;> rw [held] <;> rfl
    · obtain rfl | rfl := ended
      · rfl
      · simp
  | set built => exact .inr (.inl ⟨_, _, _, _, rfl, built, rfl⟩)
  | push set => exact .inr (.inr (.inl ⟨_, _, _, _, _, rfl, set, rfl⟩))
  | broadcast pushed => exact .inr (.inr (.inr ⟨_, _, _, _, _, rfl, pushed, rfl⟩))
  | respond finished => exact .inl (quiet_setTask (by rw [finished]; rfl) rfl rfl ⟨rfl, rfl, rfl, rfl, rfl⟩)

/-! ### Publishing in the order of the sets -/

def entryOfSet (m : Minted p × Bool) : JobEntry := { job := m.1.job, clean := m.2, supersededByClean := false }

def broadcastOfSet (m : Minted p × Bool) : JobBroadcast := { job := m.1.job, clean := m.2 }

/-- A push and a broadcast come in the order of the sets, and a pushed job's id is not in use. -/
def InOrder (s : Refreshes p) : Action → Prop
  | .push t => ∀ u ∈ unsent (s.tasks t),
      u.setAt = s.pushes ∧ ∀ entry ∈ s.engine.kept, entry.job.jobId ≠ u.minted.job.jobId
  | .broadcast t => ∀ u ∈ unsent (s.tasks t), u.setAt = s.broadcasts.length
  | _ => True

instance (s : Refreshes p) : (a : Action) → Decidable (InOrder s a)
  | .push _ | .broadcast _ => by dsimp only [InOrder]; infer_instance
  | .enter _ | .post _ _ _ | .save _ _ | .readAddress _ | .fetch _ _ | .build _ | .set _ | .respond _ => isTrue trivial

/-- The history and the broadcasts as prefixes of the sets, with a task for each set that is still to be published. -/
structure Ordered (s : Refreshes p) : Prop where
  current : s.engine.currentJob = s.sets.getLast?.map (·.1.job)
  steady : Steady (·.2) (·.1.job.prevHash) s.sets
  history : s.engine.jobHistory = ((s.sets.take s.pushes).map entryOfSet).rtake jobHistoryDepth
  pushes_le : s.pushes ≤ s.sets.length
  broadcasts : s.broadcasts = (s.sets.take s.broadcasts.length).map broadcastOfSet
  distinct : (s.engine.jobHistory.map (·.job.jobId)).Nodup
  placed : ∀ t u, unsent (s.tasks t) = some u → s.sets[u.setAt]? = some (u.minted, u.clean)
  toPush : ∀ i, s.pushes ≤ i → i < s.sets.length → ∃ t u, unsent (s.tasks t) = some u ∧ u.setAt = i ∧ u.pushed = false
  toSend : ∀ i, s.broadcasts.length ≤ i → i < s.sets.length → ∃ t u, unsent (s.tasks t) = some u ∧ u.setAt = i

theorem ordered_start (settings : RuntimeSettings) : Ordered (start settings : Refreshes p) where
  current := rfl
  steady := .nil
  history := rfl
  pushes_le := Nat.le_refl 0
  broadcasts := rfl
  distinct := List.nodup_nil
  placed := by simp [start, unsent]
  toPush := by simp [start]
  toSend := by simp [start]

theorem Quiet.ordered (quiet : Quiet s s') (inv : Ordered s) : Ordered s' where
  current := by rw [quiet.current, quiet.sets, inv.current]
  steady := by rw [quiet.sets]; exact inv.steady
  history := by rw [quiet.history, quiet.sets, quiet.pushes, inv.history]
  pushes_le := by rw [quiet.pushes, quiet.sets]; exact inv.pushes_le
  broadcasts := by rw [quiet.broadcasts, quiet.sets, ← inv.broadcasts]
  distinct := by rw [quiet.history]; exact inv.distinct
  placed t u held := by rw [quiet.sets]; exact inv.placed t u (by rw [← quiet.unsent]; exact held)
  toPush i low high := by
    obtain ⟨t, u, held, rest⟩ := inv.toPush i (by rwa [← quiet.pushes]) (by rwa [← quiet.sets])
    exact ⟨t, u, by rw [quiet.unsent]; exact held, rest⟩
  toSend i low high := by
    obtain ⟨t, u, held, rest⟩ := inv.toSend i (by rwa [← quiet.broadcasts]) (by rwa [← quiet.sets])
    exact ⟨t, u, by rw [quiet.unsent]; exact held, rest⟩

theorem unsent_setTask_ne {task : Task p} {u : Nat} (other : u ≠ t) :
    unsent ((s.setTask t task).tasks u) = unsent (s.tasks u) := by rw [setTask_tasks_ne _ _ other]

theorem Ordered.broadcasts_le (inv : Ordered s) : s.broadcasts.length ≤ s.sets.length := by
  have same := congrArg List.length inv.broadcasts
  rw [List.length_map, List.length_take] at same
  omega

theorem set_ordered (inv : Ordered s) {caller : Caller} {cleanJobs : Bool} {minted : Minted p}
    (built : s.tasks t = .refreshing caller (.built cleanJobs minted)) :
    Ordered (s.setCurrent t caller cleanJobs minted) := by
  have others : ∀ {u held}, unsent (s.tasks u) = some held → u ≠ t := by
    rintro u held some rfl
    rw [built] at some
    cases some
  have waiting : unsent ((s.setCurrent t caller cleanJobs minted).tasks t) =
      some ⟨minted, s.cleanOf cleanJobs minted, s.sets.length, false⟩ := by
    rw [setCurrent_tasks, setTask_tasks_self]
    rfl
  have kept : ∀ {u held}, unsent (s.tasks u) = some held →
      unsent ((s.setCurrent t caller cleanJobs minted).tasks u) = some held := by
    intro u held waits
    rw [setCurrent_tasks, unsent_setTask_ne (others waits), waits]
  refine {
    current := by simp
    steady := inv.steady.concat fun last isLast unclean => ?_
    history := by
      rw [setCurrent_history, setCurrent_sets, setCurrent_pushes, List.take_append_of_le_length inv.pushes_le]
      exact inv.history
    pushes_le := by
      rw [setCurrent_sets, setCurrent_pushes, List.length_append]
      exact Nat.le_add_right_of_le inv.pushes_le
    broadcasts := by
      rw [setCurrent_sets, setCurrent_broadcasts, List.take_append_of_le_length inv.broadcasts_le]
      exact inv.broadcasts
    distinct := inv.distinct
    placed := fun u held waits => ?_
    toPush := fun i low high => ?_
    toSend := fun i low high => ?_ }
  · -- An unclean set found the tip of the set before it.
    simp only [inv.current, Option.mem_def.mp isLast, Option.map_some, tipMoved, Bool.or_eq_false_iff,
      decide_eq_false_iff_not, not_not, Option.some.injEq] at unclean
    exact unclean.2.symm
  · rw [setCurrent_sets]
    by_cases same : u = t
    · rw [same, waiting, Option.some.injEq] at waits
      rw [← waits]
      simp
    · rw [setCurrent_tasks, unsent_setTask_ne same] at waits
      have before := inv.placed u held waits
      obtain ⟨inside, _⟩ := List.getElem?_eq_some_iff.mp before
      rw [List.getElem?_append_left inside, before]
  · by_cases newest : i = s.sets.length
    · exact ⟨t, _, waiting, newest.symm, rfl⟩
    · rw [setCurrent_sets, List.length_append, List.length_singleton] at high
      obtain ⟨u, held, waits, rest⟩ := inv.toPush i low (by omega)
      exact ⟨u, held, kept waits, rest⟩
  · by_cases newest : i = s.sets.length
    · exact ⟨t, _, waiting, newest.symm⟩
    · rw [setCurrent_sets, List.length_append, List.length_singleton] at high
      obtain ⟨u, held, waits, rest⟩ := inv.toSend i low (by omega)
      exact ⟨u, held, kept waits, rest⟩

theorem push_ordered (inv : Ordered s) {caller : Caller} {minted : Minted p} {clean : Bool} {setAt : Nat}
    (set : s.tasks t = .refreshing caller (.set minted clean setAt)) (oldest : setAt = s.pushes)
    (fresh : ∀ entry ∈ s.engine.kept, entry.job.jobId ≠ minted.job.jobId) :
    Ordered (s.pushHistory t caller minted clean setAt) := by
  have held : unsent (s.tasks t) = some ⟨minted, clean, setAt, false⟩ := by rw [set]; rfl
  have waiting : unsent ((s.pushHistory t caller minted clean setAt).tasks t) = some ⟨minted, clean, setAt, true⟩ := by
    rw [pushHistory_tasks, setTask_tasks_self]
    rfl
  have place : s.sets[s.pushes]? = some (minted, clean) := by rw [← oldest]; exact inv.placed t _ held
  have prefixes : s.sets.take (s.pushes + 1) = s.sets.take s.pushes ++ [(minted, clean)] := by
    rw [List.take_add_one, place]
    rfl
  refine {
    current := inv.current
    steady := inv.steady
    history := ?_
    pushes_le := (List.getElem?_eq_some_iff.mp place).1
    broadcasts := inv.broadcasts
    distinct := ?_
    placed := fun u held' waits => ?_
    toPush := fun i low high => ?_
    toSend := fun i low high => ?_ }
  · rw [pushHistory_history, pushHistory_sets, pushHistory_pushes, prefixes, inv.history, jobHistoryDepth,
      pushBounded_rtake, List.map_append]
    rfl
  · change ((s.engine.kept ++ [entryOfSet (minted, clean)]).map (·.job.jobId)).Nodup
    rw [List.map_append, List.nodup_append]
    refine ⟨inv.distinct.sublist ((makeRoom_suffix _ _).sublist.map _), by simp, ?_⟩
    intro a earlier b last same
    obtain ⟨entry, member, rfl⟩ := List.mem_map.mp earlier
    obtain rfl : minted.job.jobId = b := by simpa [entryOfSet, eq_comm] using last
    exact fresh entry member same
  · by_cases same : u = t
    · rw [same, waiting, Option.some.injEq] at waits
      rw [← waits]
      exact inv.placed t ⟨minted, clean, setAt, false⟩ held
    · rw [pushHistory_tasks, unsent_setTask_ne same] at waits
      exact inv.placed u held' waits
  · obtain ⟨u, held', waits, at_i, unpushed⟩ := inv.toPush i (Nat.le_of_succ_le low) high
    have other : u ≠ t := by
      rintro rfl
      rw [held, Option.some.injEq] at waits
      obtain rfl : setAt = i := by rw [← at_i, ← waits]
      rw [pushHistory_pushes] at low
      omega
    exact ⟨u, held', by rw [pushHistory_tasks, unsent_setTask_ne other, waits], at_i, unpushed⟩
  · obtain ⟨u, held', waits, at_i⟩ := inv.toSend i low high
    by_cases same : u = t
    · rw [same, held, Option.some.injEq] at waits
      exact ⟨t, _, waiting, by rw [← at_i, ← waits]⟩
    · exact ⟨u, held', by rw [pushHistory_tasks, unsent_setTask_ne same, waits], at_i⟩

theorem broadcast_ordered (inv : Ordered s) {caller : Caller} {minted : Minted p} {clean : Bool} {setAt : Nat}
    (pushed : s.tasks t = .refreshing caller (.pushed minted clean setAt)) (oldest : setAt = s.broadcasts.length) :
    Ordered (s.sendBroadcast t caller minted clean) := by
  have held : unsent (s.tasks t) = some ⟨minted, clean, setAt, true⟩ := by rw [pushed]; rfl
  have nothing : unsent ((s.sendBroadcast t caller minted clean).tasks t) = none := by
    rw [sendBroadcast_tasks, setTask_tasks_self, unsent_afterRefresh]
  have place : s.sets[s.broadcasts.length]? = some (minted, clean) := by rw [← oldest]; exact inv.placed t _ held
  refine {
    current := inv.current
    steady := inv.steady
    history := inv.history
    pushes_le := inv.pushes_le
    broadcasts := ?_
    distinct := inv.distinct
    placed := fun u held' waits => ?_
    toPush := fun i low high => ?_
    toSend := fun i low high => ?_ }
  · rw [sendBroadcast_broadcasts, sendBroadcast_sets, List.length_append, List.length_singleton, List.take_add_one, place,
      List.map_append, ← inv.broadcasts]
    rfl
  · by_cases same : u = t
    · rw [same, nothing] at waits
      cases waits
    · rw [sendBroadcast_tasks, unsent_setTask_ne same] at waits
      exact inv.placed u held' waits
  · obtain ⟨u, held', waits, at_i, unpushed⟩ := inv.toPush i low high
    have other : u ≠ t := by
      rintro rfl
      rw [held, Option.some.injEq] at waits
      simp [← waits] at unpushed
    exact ⟨u, held', by rw [sendBroadcast_tasks, unsent_setTask_ne other, waits], at_i, unpushed⟩
  · rw [sendBroadcast_broadcasts, List.length_append, List.length_singleton] at low
    obtain ⟨u, held', waits, at_i⟩ := inv.toSend i (Nat.le_of_succ_le low) high
    have other : u ≠ t := by
      rintro rfl
      rw [held, Option.some.injEq] at waits
      obtain rfl : setAt = i := by rw [← at_i, ← waits]
      omega
    exact ⟨u, held', by rw [sendBroadcast_tasks, unsent_setTask_ne other, waits], at_i⟩

theorem step_ordered (inv : Ordered s) (inOrder : InOrder s a) (taken : step s a = some s') : Ordered s' := by
  obtain quiet | ⟨t, caller, cleanJobs, minted, _, built, rfl⟩ | ⟨t, caller, minted, clean, setAt, rfl, set, rfl⟩ |
    ⟨t, caller, minted, clean, setAt, rfl, pushed, rfl⟩ := step_published taken
  · exact quiet.ordered inv
  · exact set_ordered inv built
  · obtain ⟨oldest, fresh⟩ := inOrder ⟨minted, clean, setAt, false⟩ (by rw [set]; rfl)
    exact push_ordered inv set oldest fresh
  · exact broadcast_ordered inv pushed (inOrder ⟨minted, clean, setAt, true⟩ (by rw [pushed]; rfl))

theorem reach_ordered {settings : RuntimeSettings} (reached : Reach step InOrder (start settings) s) : Ordered s :=
  reached.invariant Ordered (ordered_start settings) fun _ _ _ _ inv inOrder taken => step_ordered inv inOrder taken

def Settled (s : Refreshes p) : Prop := ∀ t, unsent (s.tasks t) = none

/-- `current_job`, the newest history entry and the last broadcast are one job, it is found and not superseded, and what
`find_job` reports as not superseded is on its tip. -/
structure Consistent (s : Refreshes p) : Prop where
  newest : s.engine.jobHistory.getLast?.map (·.job) = s.engine.currentJob
  lastSent : s.broadcasts.getLast?.map (·.job) = s.engine.currentJob
  found : ∀ job, s.engine.currentJob = some job →
    ∃ entry, s.engine.findJob job.jobId = some entry ∧ entry.job = job ∧ entry.supersededByClean = false
  tip : ∀ entry ∈ s.engine.jobHistory, ∀ found, s.engine.findJob entry.job.jobId = some found →
    found.supersededByClean = false → s.engine.currentJob.map (·.prevHash) = some found.job.prevHash

theorem Ordered.settled (inv : Ordered s) (settled : Settled s) :
    s.engine.jobHistory = (s.sets.map entryOfSet).rtake jobHistoryDepth ∧ s.broadcasts = s.sets.map broadcastOfSet := by
  have pushed : s.sets.length ≤ s.pushes := by
    by_contra behind
    obtain ⟨t, u, held, _⟩ := inv.toPush s.pushes (Nat.le_refl _) (by omega)
    rw [settled t] at held
    cases held
  have sent : s.sets.length ≤ s.broadcasts.length := by
    by_contra behind
    obtain ⟨t, u, held, _⟩ := inv.toSend s.broadcasts.length (Nat.le_refl _) (by omega)
    rw [settled t] at held
    cases held
  have history := inv.history
  have broadcasts := inv.broadcasts
  rw [List.take_of_length_le pushed] at history
  rw [List.take_of_length_le sent] at broadcasts
  exact ⟨history, broadcasts⟩

/-- In a run that publishes in the order of its sets, everything agrees whenever no refresh is publishing. -/
theorem inOrder_consistent {settings : RuntimeSettings} (reached : Reach step InOrder (start settings) s)
    (settled : Settled s) : Consistent s := by
  have inv := reach_ordered reached
  obtain ⟨history, broadcasts⟩ := inv.settled settled
  have newest : s.engine.jobHistory.getLast?.map (·.job) = s.engine.currentJob := by
    rw [history, jobHistoryDepth, getLast?_rtake_succ, List.getLast?_map, inv.current, Option.map_map]
    rfl
  refine ⟨newest, ?_, ?_, ?_⟩
  · rw [broadcasts, List.getLast?_map, inv.current, Option.map_map]
    rfl
  · intro job current
    rw [current, Option.map_eq_some_iff] at newest
    obtain ⟨entry, last, rfl⟩ := newest
    exact ⟨_, findJob_newest inv.distinct last, rfl, rfl⟩
  · intro entry _ found isFound unsuperseded
    have steady : Steady (·.clean) (·.job.prevHash) s.engine.jobHistory := by
      have whole : Steady (·.clean) (·.job.prevHash) (s.sets.map entryOfSet) := Steady.map inv.steady
      rw [history]
      exact whole.suffix (rtake_suffix _ _)
    exact findJob_tip steady newest isFound unsuperseded

/-! ### Runs of the first tasks -/

def Confined (n : Nat) (good : Refreshes p → Action → Prop) (s : Refreshes p) (a : Action) : Prop :=
  good s a ∧ a.task < n

instance (n : Nat) (good : Refreshes p → Action → Prop) [∀ s a, Decidable (good s a)] (s : Refreshes p) (a : Action) :
    Decidable (Confined n good s a) := inferInstanceAs (Decidable (_ ∧ _))

theorem confined_idle {n : Nat} {good : Refreshes p → Action → Prop} {settings : RuntimeSettings}
    (reached : Reach step (Confined n good) (start settings) s) : ∀ u, n ≤ u → s.tasks u = .idle := by
  refine reached.invariant (fun s => ∀ u, n ≤ u → s.tasks u = .idle) (fun _ _ => rfl) ?_
  intro s a s' _ idle confined taken u high
  have few := confined.2
  rw [step_frame taken (by omega), idle u high]

theorem confined_settled {n : Nat} {good : Refreshes p → Action → Prop} {settings : RuntimeSettings}
    (reached : Reach step (Confined n good) (start settings) s) (held : ∀ t < n, (unsent (s.tasks t)).isNone = true) :
    Settled s := by
  intro t
  by_cases moved : t < n
  · simpa using held t moved
  · rw [confined_idle reached t (by omega)]
    rfl

def nextHash : String := "00000000839a8e6886ab5951d76f411475428afc90947ee320161bbf18eb6048"

def loopRefresh (cleanJobs : Bool) (gbt : GbtResult) : List Action :=
  [.enter cleanJobs, .readAddress 0, .fetch 0 (.ok gbt), .build 0, .set 0, .push 0, .broadcast 0]

/-- A settings request refreshes while the loop does: it sets its job before the loop's is broadcast, and pushes it
after. -/
def sideBySide : List Action :=
  loopRefresh true (testTemplate genesisHash "1d00ffff") ++
  [.enter false, .post 1 true otherAddress, .readAddress 0, .save 1 false, .readAddress 1,
    .fetch 0 (.ok (testTemplate nextHash "1d00ffff")), .fetch 1 (.ok (testTemplate nextHash "1d00ffff")), .build 1,
    .build 0, .set 0, .set 1, .push 0, .broadcast 0, .push 1, .broadcast 1]

theorem inOrder_consistent_sideBySide :
    ∃ s : Refreshes testProcess, Reach step InOrder (start testSettings) s ∧ s.sets.length = 3 ∧
      (step s (.respond 1)).isSome = true ∧ Consistent s := by
  obtain ⟨s, confined, held, published, returns⟩ : ∃ s : Refreshes testProcess,
      Reach step (Confined 2 InOrder) (start testSettings) s ∧
      (∀ t < 2, (unsent (s.tasks t)).isNone = true) ∧ s.sets.length = 3 ∧ (step s (.respond 1)).isSome = true :=
    Reach.of_run sideBySide (by decide +kernel)
  have reached : Reach step InOrder (start testSettings) s := confined.mono fun _ _ _ meets => meets.1
  exact ⟨s, reached, published, returns, inOrder_consistent reached (confined_settled confined held)⟩

/-- An ntime refresh finds a new tip and sets its job; before it pushes, a settings request refreshes from start to end.
The history then ends with the older job, which is clean and supersedes the current one. -/
def race : List Action :=
  loopRefresh true (testTemplate genesisHash "1d00ffff") ++
  [.enter false, .readAddress 0, .fetch 0 (.ok (testTemplate nextHash "1d00ffff")), .build 0, .set 0,
    .post 1 true otherAddress, .save 1 true, .readAddress 1, .fetch 1 (.ok (testTemplate nextHash "1d00ffff")), .build 1,
    .set 1, .push 1, .broadcast 1, .respond 1, .push 0, .broadcast 0]

theorem race_inconsistent :
    ∃ s : Refreshes testProcess, Reach step Always (start testSettings) s ∧ Settled s ∧
      s.engine.jobHistory.getLast?.map (·.job) ≠ s.engine.currentJob ∧
      s.broadcasts.getLast?.map (·.job) ≠ s.engine.currentJob ∧
      ∃ job entry, s.engine.currentJob = some job ∧ s.engine.findJob job.jobId = some entry ∧
        entry.supersededByClean = true := by
  obtain ⟨s, confined, held, newest, lastSent, job, current, entry, found, superseded⟩ :
      ∃ s : Refreshes testProcess, Reach step (Confined 2 Always) (start testSettings) s ∧
        (∀ t < 2, (unsent (s.tasks t)).isNone = true) ∧
        s.engine.jobHistory.getLast?.map (·.job.jobId) ≠ s.engine.currentJob.map (·.jobId) ∧
        s.broadcasts.getLast?.map (·.job.jobId) ≠ s.engine.currentJob.map (·.jobId) ∧
        ∃ job ∈ s.engine.currentJob, ∃ entry ∈ s.engine.findJob job.jobId, entry.supersededByClean = true :=
    Reach.of_run race (by decide +kernel)
  refine ⟨s, confined.mono fun _ _ _ meets => meets.1, confined_settled confined held, ?_, ?_, job, entry, current, found,
    superseded⟩
  · intro same
    exact newest (by rw [← same, Option.map_map]; rfl)
  · intro same
    exact lastSent (by rw [← same, Option.map_map]; rfl)

end Refreshes

end SoloPool
