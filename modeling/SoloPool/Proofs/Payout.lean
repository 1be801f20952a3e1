import SoloPool.Proofs.Concurrent

/-!
# Payout changes

A refresh reads the payout address first and sets `current_job` last. Between the two it carries the address and the
template it fetched, whatever happens to the settings and to `current_job` meanwhile.
-/

namespace SoloPool
open Lib

namespace Refreshes

variable {p : Process} {s s' : Refreshes p} {a : Action} {t : Nat}

/-! ### What a refresh carries to its set -/

/-- The template builds a job that pays the address. -/
def Builds (p : Process) (gbt : GbtResult) (address : String) : Prop :=
  ∃ jobId job, SoloPool.buildJob p.crates jobId gbt address p.pool.coinbaseTag p.pool.extranonce1Size
    p.pool.extranonce2Size = .ok job

/-- The refresh has a job to set, or a template that builds one: the address it pays and the number of its fetch. -/
inductive Carries : Task p → String → Nat → Prop where
  | fetched {caller : Caller} {cleanJobs : Bool} {address : String} {gbt : GbtResult} {fetchedAt : Nat}
      (builds : Builds p gbt address) :
      Carries (.refreshing caller (.fetched cleanJobs address gbt fetchedAt)) address fetchedAt
  | built {caller : Caller} {cleanJobs : Bool} (minted : Minted p) :
      Carries (.refreshing caller (.built cleanJobs minted)) minted.address minted.fetchedAt

theorem build_carries {caller : Caller} {cleanJobs : Bool} {address : String} {gbt : GbtResult} {fetchedAt : Nat}
    {minted : Minted p} (fetched : s.tasks t = .refreshing caller (.fetched cleanJobs address gbt fetchedAt))
    (from_fetch : minted.gbt = gbt ∧ minted.address = address ∧ minted.fetchedAt = fetchedAt) (x : String) (n : Nat)
    (held : Carries (.refreshing caller (.built cleanJobs minted) : Task p) x n) : Carries (s.tasks t) x n := by
  obtain ⟨rfl, rfl, rfl⟩ := from_fetch
  cases held
  rw [fetched]
  exact .fetched ⟨_, _, minted.built⟩

/-- The address a refresh has read, with the number of updates applied by then, while its template is on the way. -/
def addressRead : Task p → Option (String × Nat)
  | .refreshing _ (.addressRead _ address readAt) => some (address, readAt)
  | _ => none

def servedBy : Caller → Option (String × Nat)
  | .engineLoop => none
  | .settingsPost address update => some (address, update)

def servedUpdate : Task p → Option (String × Nat)
  | .idle => none
  | .updated address update => some (address, update)
  | .refreshing caller _ => servedBy caller
  | .finished address update => some (address, update)

@[simp] theorem addressRead_afterRefresh (caller : Caller) : addressRead (caller.afterRefresh : Task p) = none := by
  cases caller <;> rfl

theorem not_carries_afterRefresh {caller : Caller} {address : String} {n : Nat} :
    ¬ Carries (caller.afterRefresh : Task p) address n := by
  cases caller <;> nofun

@[simp] theorem servedUpdate_afterRefresh (caller : Caller) :
    servedUpdate (caller.afterRefresh : Task p) = servedBy caller := by
  cases caller <;> rfl

/-- No refresh that goes on to set has read an older address than the settled one: neither a refresh in flight when the
request of the last update returns, nor one that read the address before that update and gets its template later. And a
refresh sets its job only when no refresh that fetched before it has yet to set. -/
def NoOvertaking (s : Refreshes p) : Action → Prop
  | .respond t => ∀ address update, s.tasks t = .finished address update → update = s.updates →
      ∀ u carried n, Carries (s.tasks u) carried n → carried = address
  | .fetch t (.ok gbt) => ∀ read ∈ addressRead (s.tasks t), read.2 < s.updates → Builds p gbt read.1 →
      ∀ address ∈ s.settled, read.1 = address
  | .set t => ∀ address own, Carries (s.tasks t) address own →
      ∀ u carried other, Carries (s.tasks u) carried other → own ≤ other
  | _ => True

theorem forall_setTask {P : Nat → Task p → Prop} {task : Task p} (own : P t task)
    (others : ∀ u, u ≠ t → P u (s.tasks u)) (u : Nat) : P u ((s.setTask t task).tasks u) := by
  by_cases same : u = t
  · rw [same, setTask_tasks_self]
    exact own
  · rw [setTask_tasks_ne _ _ same]
    exact others u same

/-! ### Requests and the address in force -/

/-- The last update's address is the one in force. -/
def Served (s : Refreshes p) : Prop :=
  ∀ t, ∀ request ∈ servedUpdate (s.tasks t), request.2 ≤ s.updates ∧
    (request.2 = s.updates → s.settings.validCoinbaseAddress = some request.1)

theorem Served.move {task : Task p} (inv : Served s)
    (served : ∀ request ∈ servedUpdate task, request ∈ servedUpdate (s.tasks t)) : Served (s.setTask t task) :=
  forall_setTask (P := fun _ task => ∀ request ∈ servedUpdate task, request.2 ≤ s.updates ∧
    (request.2 = s.updates → s.settings.validCoinbaseAddress = some request.1))
    (fun request held => inv t request (served request held)) fun u _ => inv u

theorem step_served (inv : Served s) (taken : step s a = some s') : Served s' := by
  cases step_inv taken with
  | refused => exact inv
  | enter => exact inv.move (by simp [servedUpdate, servedBy])
  | @update t coinbaseAddress settings _ applied =>
    refine forall_setTask (P := fun _ task => ∀ request ∈ servedUpdate task, request.2 ≤ s.updates + 1 ∧
      (request.2 = s.updates + 1 → settings.validCoinbaseAddress = some request.1)) ?_ ?_
    · rintro _ ⟨⟩
      exact ⟨Nat.le_refl _, fun _ => RuntimeSettings.update_ok applied⟩
    · intro u _ request held
      have older := (inv u request held).1
      exact ⟨by omega, by omega⟩
  | save updated => exact inv.move (by simp [updated, servedUpdate, servedBy])
  | readAddress entered => exact inv.move (by simp [entered, servedUpdate])
  | fetch read => exact inv.move (by simp [read, servedUpdate])
  | build fetched => exact inv.move (by simp [fetched, servedUpdate])
  | @fail _ caller _ _ _ waiting ended =>
    have served : servedUpdate (s.tasks a.task) = servedBy caller := by
      obtain ⟨_, held⟩ | ⟨_, _, _, held⟩ | ⟨_, _, _, _, held⟩ := waiting <;> rw [held] <;> rfl
    obtain rfl | rfl := ended
    · exact inv.move (by simp [servedUpdate])
    · exact inv.move (by simp [served])
  | set built => exact inv.move (by simp [built, servedUpdate])
  | push set => exact inv.move (by simp [set, servedUpdate])
  | @broadcast _ caller _ _ _ pushed =>
    refine inv.move ?_
    rw [servedUpdate_afterRefresh, pushed]
    exact fun _ held => held
  | respond => exact inv.move (by simp [servedUpdate])

/-- An address read since the last update is the one in force. -/
def Reads (s : Refreshes p) : Prop :=
  ∀ t, ∀ read ∈ addressRead (s.tasks t), read.2 ≤ s.updates ∧
    (read.2 = s.updates → s.settings.validCoinbaseAddress = some read.1)

theorem Reads.move {task : Task p} (inv : Reads s) (read : ∀ x ∈ addressRead task, x ∈ addressRead (s.tasks t)) :
    Reads (s.setTask t task) :=
  forall_setTask (P := fun _ task => ∀ read ∈ addressRead task, read.2 ≤ s.updates ∧
    (read.2 = s.updates → s.settings.validCoinbaseAddress = some read.1))
    (fun x held => inv t x (read x held)) fun u _ => inv u

theorem step_reads (inv : Reads s) (taken : step s a = some s') : Reads s' := by
  cases step_inv taken with
  | refused => exact inv
  | enter => exact inv.move (by simp [addressRead])
  | @update t _ settings _ _ =>
    refine forall_setTask (P := fun _ task => ∀ read ∈ addressRead task, read.2 ≤ s.updates + 1 ∧
      (read.2 = s.updates + 1 → settings.validCoinbaseAddress = some read.1)) (by simp [addressRead]) ?_
    intro u _ read held
    have older := (inv u read held).1
    exact ⟨by omega, by omega⟩
  | save => exact inv.move (by simp [addressRead])
  | readAddress _ valid =>
    refine forall_setTask (P := fun _ task => ∀ read ∈ addressRead task, read.2 ≤ s.updates ∧
      (read.2 = s.updates → s.settings.validCoinbaseAddress = some read.1)) ?_ fun u _ => inv u
    rintro _ ⟨⟩
    exact ⟨Nat.le_refl _, fun _ => valid⟩
  | fetch => exact inv.move (by simp [addressRead])
  | build => exact inv.move (by simp [addressRead])
  | fail _ _ ended =>
    refine inv.move ?_
    obtain rfl | rfl := ended
    · simp [addressRead]
    · simp
  | set => exact inv.move (by simp [addressRead])
  | push => exact inv.move (by simp [addressRead])
  | broadcast => exact inv.move (by simp)
  | respond => exact inv.move (by simp [addressRead])

/-- Once the last update's request has returned, every refresh that is about to set carries its address. -/
structure SettledCarried (s : Refreshes p) : Prop where
  served : Served s
  reads : Reads s
  inForce : ∀ address ∈ s.settled, s.settings.validCoinbaseAddress = some address
  carried : ∀ address ∈ s.settled, ∀ t carried n, Carries (s.tasks t) carried n → carried = address

theorem SettledCarried.move {task : Task p} (inv : SettledCarried s) (served : Served s') (reads : Reads s')
    (tasks : s'.tasks = (s.setTask t task).tasks) (settled : s'.settled = s.settled) (settings : s'.settings = s.settings)
    (carries : ∀ x n, Carries task x n → Carries (s.tasks t) x n) : SettledCarried s' where
  served := served
  reads := reads
  inForce := by rw [settled, settings]; exact inv.inForce
  carried := by
    rw [settled, tasks]
    intro x isSettled
    refine forall_setTask (P := fun _ task => ∀ carried n, Carries task carried n → carried = x) ?_
      fun u _ => inv.carried x isSettled u
    exact fun y n held => inv.carried x isSettled t y n (carries y n held)

/-- A template that arrives once the address is settled is paid to it: the refresh read it since, or was not overtaken. -/
theorem SettledCarried.fetch (inv : SettledCarried s) {caller : Caller} {cleanJobs : Bool} {address : String}
    {readAt : Nat} {gbt : GbtResult} (orderly : NoOvertaking s (.fetch t (.ok gbt)))
    (read : s.tasks t = .refreshing caller (.addressRead cleanJobs address readAt)) (builds : Builds p gbt address)
    {x : String} (isSettled : s.settled = some x) : address = x := by
  have held : addressRead (s.tasks t) = some (address, readAt) := by rw [read]; rfl
  obtain ⟨past, current⟩ := inv.reads t _ held
  obtain since | before := Nat.eq_or_lt_of_le past
  · exact Option.some.inj ((current since).symm.trans (inv.inForce x isSettled))
  · exact orderly _ held before builds x isSettled

theorem step_settledCarried (inv : SettledCarried s) (orderly : NoOvertaking s a) (taken : step s a = some s') :
    SettledCarried s' := by
  have served := step_served inv.served taken
  have reads := step_reads inv.reads taken
  cases step_inv taken with
  | refused => exact inv
  | enter => exact inv.move served reads rfl rfl rfl nofun
  | update => exact ⟨served, reads, by simp, by simp⟩
  | save => exact inv.move served reads rfl rfl rfl nofun
  | readAddress => exact inv.move served reads rfl rfl rfl nofun
  | @fetch t _ _ address _ _ read =>
    refine ⟨served, reads, inv.inForce, fun x isSettled => ?_⟩
    refine forall_setTask (P := fun _ task => ∀ carried n, Carries task carried n → carried = x) ?_ fun u _ =>
      inv.carried x isSettled u
    rintro _ _ ⟨builds⟩
    exact inv.fetch orderly read builds isSettled
  | @build t _ _ address gbt fetchedAt minted fetched same =>
    exact inv.move served reads rfl rfl rfl (build_carries fetched same)
  | fail _ _ ended =>
    refine inv.move served reads rfl rfl rfl ?_
    obtain rfl | rfl := ended
    · nofun
    · exact fun _ _ held => absurd held not_carries_afterRefresh
  | set => exact inv.move served reads rfl rfl rfl nofun
  | push => exact inv.move served reads rfl rfl rfl nofun
  | broadcast => exact inv.move served reads rfl rfl rfl fun _ _ held => absurd held not_carries_afterRefresh
  | @respond t address update finished =>
    by_cases last : update = s.updates
    · have inForce := (inv.served t (address, update) (by simp [finished, servedUpdate])).2 last
      have settled : ∀ x ∈ (if update = s.updates then some address else s.settled), address = x := by simp [last]
      refine ⟨served, reads, fun x isSettled => settled x isSettled ▸ inForce, fun x isSettled => ?_⟩
      obtain rfl := settled x isSettled
      exact forall_setTask (P := fun _ task => ∀ carried n, Carries task carried n → carried = address) nofun
        fun u _ => orderly address update finished last u
    · exact inv.move served reads rfl (by simp [last]) rfl nofun

/-! ### The order of the fetches -/

/-- Every refresh that is about to set carries a later template than the current job's, and no two carry the same. -/
structure FetchOrder (s : Refreshes p) : Prop where
  current : ∀ last ∈ s.sets.getLast?, last.1.fetchedAt < s.fetches
  later : ∀ t x n, Carries (s.tasks t) x n → n < s.fetches ∧ ∀ last ∈ s.sets.getLast?, last.1.fetchedAt < n
  distinct : ∀ t u x y n, Carries (s.tasks t) x n → Carries (s.tasks u) y n → t = u

theorem FetchOrder.move {task : Task p} (inv : FetchOrder s) (tasks : s'.tasks = (s.setTask t task).tasks)
    (sets : s'.sets = s.sets) (fetches : s'.fetches = s.fetches)
    (carries : ∀ x n, Carries task x n → Carries (s.tasks t) x n) : FetchOrder s' := by
  have before : ∀ u x n, Carries (s'.tasks u) x n → Carries (s.tasks u) x n := by
    rw [tasks]
    exact forall_setTask (P := fun u task => ∀ x n, Carries task x n → Carries (s.tasks u) x n) carries
      fun _ _ _ _ held => held
  refine ⟨by rw [sets, fetches]; exact inv.current, fun u x n held => ?_, fun u v x y n held held' => ?_⟩
  · rw [sets, fetches]
    exact inv.later u x n (before u x n held)
  · exact inv.distinct u v x y n (before u x n held) (before v y n held')

theorem fetch_fetchOrder (inv : FetchOrder s) {caller : Caller} {cleanJobs : Bool} {address : String} {gbt : GbtResult} :
    FetchOrder { s.setTask t (.refreshing caller (.fetched cleanJobs address gbt s.fetches)) with
      fetches := s.fetches + 1 } where
  current last isLast := Nat.lt_succ_of_lt (inv.current last isLast)
  later := by
    refine forall_setTask (P := fun _ task => ∀ x n, Carries task x n → n < s.fetches + 1 ∧
      ∀ last ∈ s.sets.getLast?, last.1.fetchedAt < n) ?_ fun u _ x n held => ?_
    · rintro _ _ ⟨⟩
      exact ⟨Nat.lt_succ_self _, inv.current⟩
    · exact ⟨Nat.lt_succ_of_lt (inv.later u x n held).1, (inv.later u x n held).2⟩
  distinct := by
    -- The new number is no other task's.
    have fresh : ∀ u x, ¬ Carries (s.tasks u) x s.fetches := fun u x held => absurd (inv.later u x _ held).1 (Nat.lt_irrefl _)
    have own : ∀ {x n}, Carries (.refreshing caller (.fetched cleanJobs address gbt s.fetches) : Task p) x n →
        n = s.fetches := by rintro _ _ ⟨⟩; rfl
    intro u v x y n held held'
    by_cases here : u = t <;> by_cases here' : v = t
    · rw [here, here']
    · rw [here, setTask_tasks_self] at held
      rw [setTask_tasks_ne _ _ here', own held] at held'
      exact absurd held' (fresh v y)
    · rw [here', setTask_tasks_self] at held'
      rw [setTask_tasks_ne _ _ here, own held'] at held
      exact absurd held (fresh u x)
    · rw [setTask_tasks_ne _ _ here] at held
      rw [setTask_tasks_ne _ _ here'] at held'
      exact inv.distinct u v x y n held held'

theorem set_fetchOrder (inv : FetchOrder s) {caller : Caller} {cleanJobs : Bool} {minted : Minted p}
    (built : s.tasks t = .refreshing caller (.built cleanJobs minted))
    (first : ∀ u x other, Carries (s.tasks u) x other → minted.fetchedAt ≤ other) :
    FetchOrder (s.setCurrent t caller cleanJobs minted) := by
  have own : Carries (s.tasks t) minted.address minted.fetchedAt := by rw [built]; exact .built minted
  have newest : ∀ last ∈ (s.setCurrent t caller cleanJobs minted).sets.getLast?, last.1 = minted := by
    rw [setCurrent_sets, List.getLast?_concat]
    rintro _ ⟨⟩
    rfl
  have remaining : ∀ u x n, Carries ((s.setCurrent t caller cleanJobs minted).tasks u) x n →
      u ≠ t ∧ Carries (s.tasks u) x n := by
    rw [setCurrent_tasks]
    exact forall_setTask (P := fun u task => ∀ x n, Carries task x n → u ≠ t ∧ Carries (s.tasks u) x n) nofun
      fun u other x n held => ⟨other, held⟩
  refine ⟨fun last isLast => ?_, fun u x n held => ?_, fun u v x y n held held' => ?_⟩
  · rw [newest last isLast]
    exact (inv.later t _ _ own).1
  · obtain ⟨other, held⟩ := remaining u x n held
    refine ⟨(inv.later u x n held).1, fun last isLast => ?_⟩
    rw [newest last isLast]
    have apart : minted.fetchedAt ≠ n := by
      rintro rfl
      exact other (inv.distinct u t x _ _ held own)
    have order := first u x n held
    omega
  · exact inv.distinct u v x y n (remaining u x n held).2 (remaining v y n held').2

theorem step_fetchOrder (inv : FetchOrder s) (orderly : NoOvertaking s a) (taken : step s a = some s') :
    FetchOrder s' := by
  cases step_inv taken with
  | refused => exact inv
  | enter => exact inv.move rfl rfl rfl nofun
  | update => exact inv.move rfl rfl rfl nofun
  | save => exact inv.move rfl rfl rfl nofun
  | readAddress => exact inv.move rfl rfl rfl nofun
  | fetch => exact fetch_fetchOrder inv
  | @build t _ _ _ _ _ minted fetched same => exact inv.move rfl rfl rfl (build_carries fetched same)
  | fail _ _ ended =>
    refine inv.move rfl rfl rfl ?_
    obtain rfl | rfl := ended
    · nofun
    · exact fun _ _ held => absurd held not_carries_afterRefresh
  | @set t caller cleanJobs minted built =>
    exact set_fetchOrder inv built fun u => orderly minted.address minted.fetchedAt (by rw [built]; exact .built minted) u
  | push => exact inv.move rfl rfl rfl nofun
  | broadcast => exact inv.move rfl rfl rfl fun _ _ held => absurd held not_carries_afterRefresh
  | respond => exact inv.move rfl rfl rfl nofun

/-! ### Whole runs -/

theorem step_current (inv : s.engine.currentJob = s.sets.getLast?.map (·.1.job)) (taken : step s a = some s') :
    s'.engine.currentJob = s'.sets.getLast?.map (·.1.job) := by
  obtain quiet | ⟨_, _, _, _, _, _, rfl⟩ | ⟨_, _, _, _, _, _, _, rfl⟩ | ⟨_, _, _, _, _, _, _, rfl⟩ := step_published taken
  · rw [quiet.current, quiet.sets, inv]
  · simp
  · exact inv
  · exact inv

theorem reach_payout {settings : RuntimeSettings} (reached : Reach step NoOvertaking (start settings) s) :
    SettledCarried s ∧ FetchOrder s ∧ s.engine.currentJob = s.sets.getLast?.map (·.1.job) := by
  refine reached.invariant (fun s => SettledCarried s ∧ FetchOrder s ∧
    s.engine.currentJob = s.sets.getLast?.map (·.1.job)) ⟨⟨?_, ?_, ?_, ?_⟩, ⟨?_, ?_, ?_⟩, rfl⟩ ?_
  · simp [Served, start, servedUpdate]
  · simp [Reads, start, addressRead]
  · simp [start]
  · simp [start]
  · simp [start]
  · intro u carried own held
    cases held
  · intro u v carried own other held
    cases held
  · intro s a s' _ inv orderly taken
    exact ⟨step_settledCarried inv.1 orderly taken, step_fetchOrder inv.2.1 orderly taken, step_current inv.2.2 taken⟩

/-- In a run where no refresh is overtaken, a job that becomes `current_job` once the request of the last update has
returned pays that update's address, and replaces a job from an earlier template. -/
theorem set_pays_settled {settings : RuntimeSettings} (reached : Reach step NoOvertaking (start settings) s)
    (taken : step s (.set t) = some s') :
    ∃ minted clean, s'.sets.getLast? = some (minted, clean) ∧ s'.engine.currentJob = some minted.job ∧
      (∀ address, s.settled = some address → minted.address = address) ∧
      s.engine.currentJob = s.sets.getLast?.map (·.1.job) ∧
      ∀ previous, s.sets.getLast? = some previous → previous.1.fetchedAt < minted.fetchedAt := by
  obtain ⟨carried, order, current⟩ := reach_payout reached
  cases step_inv taken with
  | fail fallible => simp [Action.fallible] at fallible
  | @set t caller cleanJobs minted built =>
    refine ⟨minted, s.cleanOf cleanJobs minted, by simp, rfl, ?_, current, ?_⟩
    · intro address isSettled
      exact carried.carried address isSettled t minted.address minted.fetchedAt (by rw [built]; exact .built minted)
    · intro previous isLast
      exact (order.later t minted.address minted.fetchedAt (by rw [built]; exact .built minted)).2 previous isLast

/-- The number of a fetch whose template waits for its job or whose job waits for its set. -/
def carriedFetch : Task p → Option Nat
  | .refreshing _ (.fetched _ _ _ fetchedAt) => some fetchedAt
  | .refreshing _ (.built _ minted) => some minted.fetchedAt
  | _ => none

/-- `NoOvertaking` for runs of the first `n` tasks, which can be evaluated. -/
def NoOvertakingBelow (n : Nat) (s : Refreshes p) (a : Action) : Prop :=
  match a with
  | .respond _ => ∀ u < n, (carriedFetch (s.tasks u)).isNone = true
  | .fetch t (.ok _) => s.settled.isNone = true ∨ ∀ read ∈ addressRead (s.tasks t), read.2 = s.updates
  | .set _ => ∀ u < n, u ≠ a.task → (carriedFetch (s.tasks u)).isNone = true
  | _ => True

instance (n : Nat) (s : Refreshes p) : (a : Action) → Decidable (NoOvertakingBelow n s a)
  | .respond _ | .set _ | .fetch _ (.ok _) => by dsimp only [NoOvertakingBelow]; infer_instance
  | .enter _ | .post _ _ _ | .save _ _ | .readAddress _ | .fetch _ (.error _) | .build _ | .push _ | .broadcast _ =>
    isTrue trivial

theorem carriedFetch_of_carries {task : Task p} {x : String} {n : Nat} (held : Carries task x n) :
    carriedFetch task = some n := by
  cases held <;> rfl

theorem noOvertaking_of_below {n : Nat} {settings : RuntimeSettings}
    (reached : Reach step (Confined n (NoOvertakingBelow n)) (start settings) s)
    (meets : Confined n (NoOvertakingBelow n) s a) : NoOvertaking s a := by
  have moved : ∀ {u x m}, Carries (s.tasks u) x m → u < n := by
    intro u x m held
    by_contra idle
    rw [confined_idle reached u (by omega)] at held
    cases held
  cases a with
  | respond t =>
    intro address update _ _ u carried m held
    have none := meets.1 u (moved held)
    simp [carriedFetch_of_carries held] at none
  | fetch t reply =>
    cases reply with
    | error => trivial
    | ok gbt =>
      intro read held before _ address isSettled
      obtain unsettled | since := meets.1
      · simp [Option.mem_def.mp isSettled] at unsettled
      · exact absurd (since read held) before.ne
  | set t =>
    intro address own held u carried other held'
    by_cases same : u = t
    · rw [same] at held'
      exact (Option.some.inj ((carriedFetch_of_carries held).symm.trans (carriedFetch_of_carries held'))).le
    · have none := meets.1 u (moved held') same
      simp [carriedFetch_of_carries held'] at none
  | enter | post | save | readAddress | build | push | broadcast => trivial

/-- The loop has read the old address when the request changes it, and its fetch fails once the request has returned. -/
def overtakenInVain : List Action :=
  [.enter false, .readAddress 0, .post 1 true otherAddress, .save 1 true, .readAddress 1,
    .fetch 1 (.ok (testTemplate genesisHash "1d00ffff")), .build 1, .set 1, .push 1, .broadcast 1, .respond 1,
    .fetch 0 (.error (.rpc .transport)), .enter false, .readAddress 0,
    .fetch 0 (.ok (testTemplate nextHash "1d00ffff")), .build 0]

theorem set_pays_settled_post :
    ∃ s s' : Refreshes testProcess, Reach step NoOvertaking (start testSettings) s ∧ step s (.set 0) = some s' ∧
      s.settled = some otherAddress ∧
      ∃ minted clean, s'.sets.getLast? = some (minted, clean) ∧ minted.address = otherAddress := by
  obtain ⟨s, confined, s', taken, settled⟩ : ∃ s : Refreshes testProcess,
      Reach step (Confined 2 (NoOvertakingBelow 2)) (start testSettings) s ∧
      ∃ s' ∈ step s (.set 0), s.settled = some otherAddress :=
    Reach.of_run overtakenInVain (by decide +kernel)
  have reached : Reach step NoOvertaking (start testSettings) s :=
    confined.mono fun _ _ reached meets => noOvertaking_of_below reached meets
  obtain ⟨minted, clean, isLast, _, pays, _⟩ := set_pays_settled reached taken
  exact ⟨s, s', reached, taken, settled, minted, clean, isLast, pays otherAddress settled⟩

def overtaken : List Action :=
  loopRefresh true (testTemplate genesisHash "1d00ffff") ++
  [.enter false, .readAddress 0, .fetch 0 (.ok (testTemplate genesisHash "1d00ffff")),
    .post 1 true otherAddress, .save 1 true, .readAddress 1, .fetch 1 (.ok (testTemplate nextHash "1d00ffff")), .build 1,
    .set 1, .push 1, .broadcast 1, .respond 1, .build 0]

/-- The overtaken refresh then sets a job that pays the old address, built from an older template than the job it
replaces. -/
theorem overtaken_pays_old :
    ∃ s s' : Refreshes testProcess, Reach step Always (start testSettings) s ∧ step s (.set 0) = some s' ∧
      s.settled = some otherAddress ∧
      ∃ minted clean previous, s'.sets.getLast? = some (minted, clean) ∧ s'.engine.currentJob = some minted.job ∧
        minted.address ≠ otherAddress ∧ s.sets.getLast? = some previous ∧
        s.engine.currentJob = some previous.1.job ∧ minted.fetchedAt < previous.1.fetchedAt := by
  obtain ⟨s, reached, s', taken, settled, last, isLast, old, previous, before, older⟩ :
      ∃ s : Refreshes testProcess, Reach step Always (start testSettings) s ∧
        ∃ s' ∈ step s (.set 0), s.settled = some otherAddress ∧
          ∃ last ∈ s'.sets.getLast?, last.1.address ≠ otherAddress ∧
            ∃ previous ∈ s.sets.getLast?, last.1.fetchedAt < previous.1.fetchedAt :=
    Reach.of_run overtaken (by decide +kernel)
  have current : ∀ s : Refreshes testProcess, Reach step Always (start testSettings) s →
      s.engine.currentJob = s.sets.getLast?.map (·.1.job) := fun s reached =>
    reached.invariant (fun s => s.engine.currentJob = s.sets.getLast?.map (·.1.job)) rfl
      fun _ _ _ _ inv _ taken => step_current inv taken
  refine ⟨s, s', reached, taken, settled, last.1, last.2, previous, isLast, ?_, old, before, ?_, older⟩
  · rw [current s' (.step reached trivial taken), Option.mem_def.mp isLast]
    rfl
  · rw [current s reached, Option.mem_def.mp before]
    rfl

end Refreshes

end SoloPool
