import SoloPool.Proofs.Pool

/-!
# Who is online

The statistics count the sessions of every worker. A session is down for the name that its calls to come start from
(`Thread.current`): its own name while it has nothing to call, nobody's between the release of one name and the claim
of the next. Every call moves the count of a name exactly as it moves the session.
-/

namespace SoloPool
open Lib Stats

/-! ### The name a session is down for -/

def Effect.nameBefore : Effect → Option String → Option String
  | .markWorkerOffline worker, _ => some worker
  | .markWorkerOnline _ _, _ => none
  | _, name => name

/-- The names a session can be down for after a call. -/
def Effect.LeavesName : Effect → Option String → Prop
  | .markWorkerOffline _, name => name = none
  | .markWorkerOnline worker _, name => name = some worker
  | .updateWorkerVardiff worker _, name => name = some worker
  | _, _ => True

/-- The session's current worker, as far as its calls have got. -/
def Thread.current (t : Thread) : Option String := origin Effect.nameBefore t.pending t.destined

/-- The name the statistics have a session down for. -/
def presence : Track where
  before := Effect.nameBefore
  Leaves := Effect.LeavesName
  plain := by
    intro effect plain name
    cases effect with
    | logShare | markWorkerOnline | markWorkerOffline | updateWorkerVardiff | stashShareHistory | takeShareHistory =>
      cases plain
    | _ => exact ⟨rfl, trivial⟩
  log _ _ _ _ := ⟨rfl, trivial⟩
  retarget _ _ := ⟨rfl, rfl⟩
  release := by
    intro worker
    cases worker with
    | none => exact ⟨rfl, trivial⟩
    | some name => exact ⟨rfl, rfl, trivial, trivial⟩
  switch := by
    intro protocol worker name difficulty
    unfold switchIdentity
    split
    · rename_i same
      exact ⟨same.symm, trivial⟩
    · cases worker with
      | none => exact ⟨rfl, rfl, trivial, trivial, trivial⟩
      | some prev => exact ⟨rfl, rfl, trivial, rfl, trivial, trivial, trivial⟩

/-! ### Counts -/

/-- A worker's state shows `n` sessions. -/
def Attends (n : Nat) : Option WorkerState → Prop
  | none => n = 0
  | some state => state.activeSessions.toNat = n ∧ (state.online = true ↔ 0 < n)

theorem Attends.some_of_pos {n : Nat} {state : Option WorkerState} (attends : Attends n state) (some : 0 < n) :
    state.isSome = true := by
  cases state with
  | none =>
    rw [show n = 0 from attends] at some
    cases some
  | some state => rfl

theorem attends_joined {n : Nat} {state : WorkerState} (attends : Attends n (some state)) (room : n + 1 < 2 ^ 64)
    (difficulty now : UInt64) : Attends (n + 1) (some (state.joined difficulty now)) := by
  obtain ⟨count, _⟩ := attends
  have below : ¬ state.activeSessions.toNat = 2 ^ 64 - 1 := by omega
  refine ⟨?_, iff_of_true rfl (Nat.succ_pos n)⟩
  unfold WorkerState.joined
  dsimp only
  rw [if_neg below, UInt64.toNat_add, count]
  exact Nat.mod_eq_of_lt room

theorem attends_left {n : Nat} {state : WorkerState} (attends : Attends (n + 1) (some state)) :
    Attends n (some state.left) := by
  obtain ⟨count, online⟩ := attends
  unfold WorkerState.left
  split
  · rename_i several
    have least : (1 : UInt64) ≤ state.activeSessions := UInt64.le_of_lt several
    have several : 1 < state.activeSessions.toNat := UInt64.lt_iff_toNat_lt.mp several
    refine ⟨?_, online.trans (iff_of_true (Nat.succ_pos n) (by omega))⟩
    dsimp only
    rw [UInt64.toNat_sub_of_le _ _ least, count]
    rfl
  · rename_i last
    have last : ¬ 1 < state.activeSessions.toNat := fun several => last (UInt64.lt_iff_toNat_lt.mpr several)
    obtain rfl : n = 0 := by omega
    exact ⟨rfl, iff_of_false Bool.false_ne_true (Nat.lt_irrefl 0)⟩

theorem attends_update {n : Nat} {p : PoolStats} {worker w : String} {f : WorkerState → WorkerState}
    (attends : Attends n (p.workerStates w))
    (same : ∀ state, (f state).activeSessions = state.activeSessions ∧ (f state).online = state.online) :
    Attends n ((p.updateState worker f).workerStates w) := by
  unfold PoolStats.updateState PoolStats.setState
  dsimp only
  by_cases own : w = worker
  · subst own
    rw [Function.update_self]
    cases known : p.workerStates w with
    | none =>
      rw [known] at attends
      exact attends
    | some state =>
      rw [known] at attends
      obtain ⟨sessions, online⟩ := same state
      rw [Option.map_some, Attends, sessions, online]
      exact attends
  · rw [Function.update_of_ne own]
    exact attends

theorem setState_self (p : PoolStats) (worker : String) (state : Option WorkerState) :
    (p.setState worker state).workerStates worker = state := Function.update_self ..

theorem setState_other (p : PoolStats) {worker w : String} (other : w ≠ worker) (state : Option WorkerState) :
    (p.setState worker state).workerStates w = p.workerStates w := Function.update_of_ne other ..

theorem attends_online {p : PoolStats} {worker : String} {n : Nat} (attends : Attends n (p.workerStates worker))
    (room : n + 1 < 2 ^ 64) (difficulty now : UInt64) :
    Attends (n + 1) ((p.markWorkerOnline worker difficulty now).workerStates worker) := by
  unfold PoolStats.markWorkerOnline
  cases known : p.workerStates worker with
  | none =>
    rw [known] at attends
    obtain rfl : n = 0 := attends
    dsimp only
    rw [setState_self]
    exact ⟨rfl, iff_of_true rfl Nat.one_pos⟩
  | some state =>
    rw [known] at attends
    dsimp only
    rw [setState_self]
    exact attends_joined attends room difficulty now

theorem markWorkerOnline_other (p : PoolStats) {worker w : String} (other : w ≠ worker) (difficulty now : UInt64) :
    (p.markWorkerOnline worker difficulty now).workerStates w = p.workerStates w := by
  unfold PoolStats.markWorkerOnline
  split <;> exact setState_other _ other _

theorem attends_offline {p : PoolStats} {worker : String} {n : Nat} (attends : Attends (n + 1) (p.workerStates worker)) :
    Attends n ((p.markWorkerOffline worker).workerStates worker) := by
  unfold PoolStats.markWorkerOffline PoolStats.updateState
  rw [setState_self]
  cases known : p.workerStates worker with
  | none =>
    rw [known] at attends
    cases attends
  | some state =>
    rw [known] at attends
    exact attends_left attends

theorem attends_vardiff {p : PoolStats} {worker w : String} {n : Nat} (attends : Attends n (p.workerStates w))
    (known : (p.workerStates worker).isSome = true) (difficulty now : UInt64) :
    Attends n ((p.updateWorkerVardiff worker difficulty now).workerStates w) := by
  unfold PoolStats.updateWorkerVardiff
  obtain ⟨state, known⟩ := Option.isSome_iff_exists.mp known
  rw [known]
  dsimp only
  by_cases own : w = worker
  · subst own
    rw [setState_self]
    rw [known] at attends
    exact attends
  · rw [setState_other _ own]
    exact attends

/-- What a session down for `name` adds to the sessions of `w`. -/
def share (name : Option String) (w : String) : Nat := if name = some w then 1 else 0

theorem share_self (w : String) : share (some w) w = 1 := if_pos rfl

theorem share_other {worker w : String} (other : w ≠ worker) : share (some worker) w = 0 :=
  if_neg (fun same => other (Option.some.inj same).symm)

/-- A call moves the counts as it moves the session that makes it. -/
theorem Effect.run_attends {effect : Effect} {name : Option String} {n n' : String → Nat} {shared : Shared}
    (attends : ∀ w, Attends (n w) (shared.stats.workerStates w)) (leaves : effect.LeavesName name)
    (moves : ∀ w, n' w + share (effect.nameBefore name) w = n w + share name w)
    (counted : ∀ w, effect.nameBefore name = some w → 0 < n w) (room : ∀ w, n' w < 2 ^ 64) (clock : Clock) (v : Vardiff)
    (w : String) : Attends (n' w) ((effect.run clock v shared).2.stats.workerStates w) := by
  have moved := moves w
  cases effect with
  | markWorkerOnline worker difficulty =>
    obtain rfl : name = some worker := leaves
    have moved : n' w = n w + share (some worker) w := moved
    by_cases own : w = worker
    · subst own
      rw [share_self] at moved
      have fits := room w
      rw [moved] at fits ⊢
      exact attends_online (attends w) fits difficulty clock.unix
    · rw [share_other own, Nat.add_zero] at moved
      dsimp only [Effect.run]
      rw [moved, markWorkerOnline_other _ own]
      exact attends w
  | markWorkerOffline worker =>
    obtain rfl : name = none := leaves
    have moved : n' w + share (some worker) w = n w := moved
    by_cases own : w = worker
    · subst own
      rw [share_self] at moved
      have before := attends w
      rw [← moved] at before
      exact attends_offline before
    · rw [share_other own, Nat.add_zero] at moved
      dsimp only [Effect.run, PoolStats.markWorkerOffline, PoolStats.updateState]
      rw [moved, setState_other _ own]
      exact attends w
  | updateWorkerVardiff worker difficulty =>
    obtain rfl : name = some worker := leaves
    rw [show n' w = n w from Nat.add_right_cancel moved]
    exact attends_vardiff (attends w) ((attends worker).some_of_pos (counted worker rfl)) difficulty clock.unix
  | workerShareAccepted worker difficulty =>
    rw [show n' w = n w from Nat.add_right_cancel moved]
    have kept : Attends (n w)
        ((shared.stats.updateState worker (fun state => state.shareAccepted difficulty clock.unix)).workerStates w) :=
      attends_update (attends w) (fun _ => ⟨rfl, rfl⟩)
    dsimp only [Effect.run, PoolStats.workerShareAccepted]
    split <;> exact kept
  | workerShareRejected worker reason =>
    rw [show n' w = n w from Nat.add_right_cancel moved]
    refine attends_update (attends w) (fun state => ?_)
    unfold WorkerState.shareRejected
    dsimp only
    split <;> exact ⟨rfl, rfl⟩
  | markWorkerSubmit worker | setWorkerProtocol worker protocol =>
    rw [show n' w = n w from Nat.add_right_cancel moved]
    exact attends_update (attends w) (fun _ => ⟨rfl, rfl⟩)
  | metric | shareRejected | stashShareHistory =>
    rw [show n' w = n w from Nat.add_right_cancel moved]
    exact attends w
  | shareAccepted difficulty credited =>
    rw [show n' w = n w from Nat.add_right_cancel moved]
    dsimp only [Effect.run, PoolStats.shareAccepted]
    split <;> split <;> exact attends w
  | blockFound worker hash height =>
    rw [show n' w = n w from Nat.add_right_cancel moved]
    dsimp only [Effect.run, PoolStats.blockFound]
    split <;> exact attends w
  | logShare worker credited serial =>
    rw [show n' w = n w from Nat.add_right_cancel moved]
    dsimp only [Effect.run, PoolStats.logShare]
    split <;> exact attends w
  | takeShareHistory worker =>
    rw [show n' w = n w from Nat.add_right_cancel moved]
    dsimp only [Effect.run, PoolStats.takeShareHistory]
    split <;> exact attends w

/-! ### Runs of the pool -/

namespace Pool

variable {site : Site} {p q : Pool site} {a : Action} {db : Option Database} {clock : Clock}

/-- The live sessions whose current worker is `w`. -/
def sessionsOf (p : Pool site) (w : String) : Nat :=
  p.threads.countP (fun slot => decide (slot.bind Thread.current = some w))

structure Attended (p : Pool site) : Prop where
  fits : ∀ t, some t ∈ p.threads → presence.Fits t
  room : p.threads.countP Option.isSome ≤ site.maxConnections.toNat
  states : ∀ w, Attends (p.sessionsOf w) (p.shared.stats.workerStates w)

theorem sessionsOf_le (p : Pool site) (w : String) : p.sessionsOf w ≤ p.threads.countP Option.isSome := by
  apply List.countP_mono_left
  intro slot _ held
  cases slot with
  | none => cases of_decide_eq_true held
  | some t => rfl

theorem sessionsOf_set {i : Nat} {t : Thread} {next : Option Thread} (running : p.threads[i]? = some (some t))
    (threads : q.threads = p.threads.set i next) (w : String) :
    q.sessionsOf w + share t.current w = p.sessionsOf w + share (next.bind Thread.current) w := by
  have counted := countP_set running next (P := fun slot => decide (slot.bind Thread.current = some w))
  simp only [decide_eq_true_eq, Option.bind_some] at counted
  unfold sessionsOf
  rw [threads]
  exact counted

theorem pruneIdleWorkers_states (stats : PoolStats) (now : UInt64) (w : String) :
    (stats.pruneIdleWorkers now).workerStates w = if stats.evicted now w = true then none else stats.workerStates w := by
  unfold PoolStats.pruneIdleWorkers
  dsimp only
  split <;> rfl

theorem attends_prune {stats : PoolStats} {w : String} {n : Nat} (attends : Attends n (stats.workerStates w)) (now : UInt64) :
    (0 < n → stats.evicted now w = false) ∧ Attends n ((stats.pruneIdleWorkers now).workerStates w) := by
  have stays : 0 < n → stats.evicted now w = false := by
    intro some
    obtain ⟨state, known⟩ := Option.isSome_iff_exists.mp (attends.some_of_pos some)
    rw [known] at attends
    unfold PoolStats.evicted PoolStats.idle
    rw [known, Option.any_some, attends.2.mpr some]
    rfl
  refine ⟨stays, ?_⟩
  rw [pruneIdleWorkers_states]
  split
  · rename_i gone
    have nobody : ¬ 0 < n := fun some => by simp [stays some] at gone
    exact Nat.eq_zero_of_not_pos nobody
  · exact attends

/-- A step that replaces one session with one down for the same name and leaves the statistics. -/
theorem Attended.set (attended : Attended p) {i : Nat} {t : Thread} {next : Option Thread}
    (running : p.threads[i]? = some (some t)) (threads : q.threads = p.threads.set i next) (shared : q.shared = p.shared)
    (same : next.bind Thread.current = t.current) (own : ∀ t', next = some t' → presence.Fits t') : Attended q where
  fits := by
    intro t' among
    rw [threads] at among
    rcases List.mem_or_eq_of_mem_set among with old | new
    · exact attended.fits t' old
    · exact own t' new.symm
  room := by
    have counted := countP_set running next (P := Option.isSome)
    have room := attended.room
    rw [threads]
    rw [if_pos Option.isSome_some] at counted
    split at counted <;> omega
  states := by
    intro w
    have counted := sessionsOf_set running threads w
    rw [same] at counted
    have kept : q.sessionsOf w = p.sessionsOf w := Nat.add_right_cancel counted
    rw [kept, shared]
    exact attended.states w

/-- A session that comes up is down for nobody. -/
theorem Attended.join (attended : Attended p) (room : p.threads.countP Option.isSome < site.maxConnections.toNat)
    {peer : Peer} (nobody : peer.worker = none)
    (threads : q.threads = p.threads ++ [some { peer, pending := [], ending := false }]) (shared : q.shared = p.shared) :
    Attended q where
  fits := by
    intro t among
    rw [threads] at among
    rcases List.mem_append.mp among with old | new
    · exact attended.fits t old
    · obtain rfl := Option.some.inj (List.mem_singleton.mp new)
      trivial
  room := by
    rw [threads, List.countP_append, List.countP_singleton, if_pos Option.isSome_some]
    omega
  states := by
    intro w
    have current : Thread.current { peer, pending := [], ending := false } = none := nobody
    have same : q.sessionsOf w = p.sessionsOf w := by
      unfold sessionsOf
      rw [threads, List.countP_append, List.countP_singleton, Option.bind_some, current]
      rfl
    rw [same, shared]
    exact attended.states w

theorem called_attended (attended : Attended p) {i : Nat} {t : Thread} {effect : Effect} {rest : List Effect}
    (running : p.threads[i]? = some (some t)) (next : t.pending = effect :: rest) : Attended (p.called i t effect rest) := by
  obtain ⟨before, fits⟩ := presence.called next (effect.run p.clock t.peer.vardiff p.shared).1
  obtain ⟨leaves, later⟩ := fits (attended.fits t (mem_of_running running))
  let after : Thread := { t with peer := t.peer.setVardiff (effect.run p.clock t.peer.vardiff p.shared).1, pending := rest }
  have threads : (p.called i t effect rest).threads = p.threads.set i (some after) := rfl
  have moves : ∀ w, (p.called i t effect rest).sessionsOf w + share (effect.nameBefore after.current) w =
      p.sessionsOf w + share after.current w := by
    intro w
    have moved := sessionsOf_set running threads w
    rw [show t.current = effect.nameBefore after.current from before] at moved
    exact moved
  have room : (p.called i t effect rest).threads.countP Option.isSome ≤ site.maxConnections.toNat := by
    have counted := countP_set running (some after) (P := Option.isSome)
    have room := attended.room
    rw [threads]
    exact (Nat.add_right_cancel counted).trans_le room
  refine ⟨fun other among => ?_, room, ?_⟩
  · rw [threads] at among
    rcases List.mem_or_eq_of_mem_set among with old | new
    · exact attended.fits other old
    · obtain rfl := Option.some.inj new
      exact later
  · refine Effect.run_attends attended.states leaves moves (fun w held => ?_) (fun w => ?_) p.clock t.peer.vardiff
    · apply List.countP_pos_iff.mpr
      exact ⟨some t, mem_of_running running, decide_eq_true (before.trans held)⟩
    · have among := (p.called i t effect rest).sessionsOf_le w
      have bound := site.maxConnections.toNat_lt
      omega

theorem step_attended (clamps : Vardiff.Clamps site.config.vardiff) (sound : Sound p) (attended : Attended p)
    (taken : step p a = some q) : Attended q := by
  cases step_inv taken with
  | @connect sv2 room =>
    refine attended.join room ?_ rfl rfl
    split <;> rfl
  | @handle i reading input t turn counters running idle stays handled =>
    obtain ⟨current, fits⟩ := presence.thread (Peer.handle_turned handled)
    have before : t.current = t.peer.worker := (presence.of_idle idle).trans (t.destined_running stays)
    refine attended.set running rfl rfl (current.trans before.symm) (fun t' same => ?_)
    obtain rfl := Option.some.inj same
    exact fits
  | panic running idle handled fails =>
    obtain ⟨turn, counters, ok⟩ := Peer.handle_ok clamps (sound _ (mem_of_running running)) handled
    exact absurd ok (fails _)
  | call running next => exact called_attended attended running next
  | @disconnect i t running idle stays =>
    obtain ⟨current, fits⟩ := presence.leave stays
    refine attended.set running rfl rfl current (fun t' same => ?_)
    obtain rfl := Option.some.inj same
    exact fits (attended.fits t (mem_of_running running))
  | @close i t running idle ends =>
    have before : t.current = none := (presence.of_idle idle).trans (t.destined_ending ends)
    exact attended.set running rfl rfl before.symm (fun _ same => by cases same)
  | tick => exact ⟨attended.fits, attended.room, attended.states⟩
  | background task =>
    refine ⟨attended.fits, attended.room, fun w => ?_⟩
    have before := attended.states w
    cases task with
    | flushShareLog =>
      have same : (p.shared.stats.flushShareLog p.clock.unix).workerStates = p.shared.stats.workerStates := by
        unfold PoolStats.flushShareLog
        split
        · rfl
        · split <;> rfl
      dsimp only [updateStats]
      rw [same]
      exact before
    | pruneIdleWorkers => exact (attends_prune before p.clock.unix).2
    | recordHashrateSnapshot hps => exact before
    | blockFound worker hash height =>
      have same : (p.shared.stats.blockFound worker hash height p.clock.unix).workerStates = p.shared.stats.workerStates := by
        unfold PoolStats.blockFound
        split <;> rfl
      dsimp only [updateStats]
      rw [same]
      exact before

theorem reach_attended (valid : site.config.validate = .ok ()) (reached : Reach step Always (boot db clock) p) :
    Attended p := by
  have clamps := validateVardiff_clamps (Config.validate_accepted valid).vardiff
  refine reached.invariant Attended ?_ (fun s a t before attended _ taken =>
    step_attended clamps (reach_sound before) attended taken)
  refine ⟨fun _ among => absurd among List.not_mem_nil, Nat.zero_le _, fun w => ?_⟩
  obtain ⟨loaded, ts, store, stats, _⟩ := @boot_stats site db clock
  rw [stats]
  rfl

/-- At every point of every run the statistics show for every worker as many sessions as are down for it, and the worker
online when there is one; it is not pruned then, and no retarget finds its worker unknown. A session with no call to
make is down for its own name. -/
theorem sessions_counted (valid : site.config.validate = .ok ()) (reached : Reach step Always (boot db clock) p)
    (w : String) :
    ((p.shared.stats.workerStates w).map (·.activeSessions.toNat)).getD 0 = p.sessionsOf w ∧
    ((p.shared.stats.workerStates w).any (·.online) = true ↔ 0 < p.sessionsOf w) ∧
    (0 < p.sessionsOf w → ∀ now, (p.shared.stats.pruneIdleWorkers now).workerStates w = p.shared.stats.workerStates w ∧
      (p.shared.stats.workerStates w).isSome = true) ∧
    (∀ t, some t ∈ p.threads → ∀ difficulty rest, t.pending = .updateWorkerVardiff w difficulty :: rest →
      (p.shared.stats.workerStates w).isSome = true) ∧
    ∀ t, some t ∈ p.threads → t.pending = [] → t.ending = false → t.current = t.peer.worker := by
  have attended := reach_attended valid reached
  have attends := attended.states w
  refine ⟨?_, ?_, fun some now => ⟨?_, attends.some_of_pos some⟩, ?_, ?_⟩
  · cases known : p.shared.stats.workerStates w with
    | none =>
      rw [known] at attends
      exact Eq.symm attends
    | some state =>
      rw [known] at attends
      exact attends.1
  · cases known : p.shared.stats.workerStates w with
    | none =>
      rw [known] at attends
      rw [show p.sessionsOf w = 0 from attends]
      exact iff_of_false Bool.false_ne_true (Nat.lt_irrefl 0)
    | some state =>
      rw [known] at attends
      exact attends.2
  · rw [pruneIdleWorkers_states, (attends_prune attends now).1 some]
    rfl
  · intro t among difficulty rest next
    obtain ⟨before, fits⟩ := presence.called next t.peer.vardiff
    have held : t.current = some w := before.trans (fits (attended.fits t among)).1
    apply attends.some_of_pos
    exact List.countP_pos_iff.mpr ⟨some t, among, decide_eq_true held⟩
  · intro t _ idle stays
    exact (presence.of_idle idle).trans (t.destined_running stays)

/-- Two sessions under one name, of which the first has left its loop and is about to make its calls. -/
theorem sessions_counted_twice : exampleConfig.validate = .ok () ∧
    ∃ p : Pool testSite, Reach step Always (boot none testClock) p ∧ p.sessionsOf "miner" = 2 ∧
      ((p.shared.stats.workerStates "miner").map (·.activeSessions.toNat)).getD 0 = 2 := by
  have valid : exampleConfig.validate = .ok () := by decide
  refine ⟨valid, ?_⟩
  obtain ⟨p, reached, sessions⟩ : ∃ p : Pool testSite, Reach step Always (boot none testClock) p ∧
      p.sessionsOf "miner" = 2 :=
    Reach.of_run (joinsAs 0 "miner" ++ joinsAs 1 "miner" ++ [.disconnect 0, .pruneIdleWorkers]) (by decide +kernel)
  exact ⟨p, reached, sessions, (sessions_counted valid reached "miner").1.trans sessions⟩

end Pool

end SoloPool
