import SoloPool.Proofs.Ledgers
import SoloPool.Proofs.Pool

/-!
# Share records that change hands

A share credited to a worker is in one place, the record of a session of that worker or the worker's parked record, as
long as no record is parked over another, no record is read from the share log while the process still has its shares,
and no parked record is evicted with shares that still count. The record of a session is its own until the session has
parked it.
-/

namespace SoloPool
open Lib Stats

/-! ### Places -/

inductive Place where
  | session (i : Nat)
  | parked (worker : String)
  deriving DecidableEq

def Effect.ownerBefore : Effect → Option String → Option String
  | .stashShareHistory worker, _ => some worker
  | .takeShareHistory _, _ => none
  | _, owner => owner

/-- Whose record the session's can be after a call. -/
def Effect.LeavesOwner : Effect → Option String → Prop
  | .takeShareHistory worker, owner => owner = some worker
  | _, _ => True

/-- The worker the record of the session belongs to: its name, or the one it gives up once the record is parked. -/
def Thread.owner (t : Thread) : Option String := origin Effect.ownerBefore t.pending t.destined

def ownership : Track where
  before := Effect.ownerBefore
  Leaves := Effect.LeavesOwner
  plain := by
    intro effect plain name
    cases effect with
    | logShare | markWorkerOnline | markWorkerOffline | updateWorkerVardiff | stashShareHistory | takeShareHistory =>
      cases plain
    | _ => exact ⟨rfl, trivial⟩
  log _ _ _ _ := ⟨rfl, trivial⟩
  retarget _ _ := ⟨rfl, trivial⟩
  release := by
    intro worker
    cases worker with
    | none => exact ⟨rfl, trivial⟩
    | some name => exact ⟨rfl, trivial, trivial, trivial⟩
  switch := by
    intro protocol worker name difficulty
    unfold switchIdentity
    split
    · rename_i same
      exact ⟨same.symm, trivial⟩
    · cases worker with
      | none => exact ⟨rfl, trivial, trivial, rfl, trivial⟩
      | some prev => exact ⟨rfl, trivial, trivial, trivial, trivial, rfl, trivial⟩

def copies (k : Nat) (record : List ShareTime) : Nat := record.countP (fun entry => decide (entry.serial = some k))

theorem copies_eq_zero {k : Nat} {record : List ShareTime} :
    copies k record = 0 ↔ ∀ entry ∈ record, entry.serial ≠ some k := by
  unfold copies
  simp only [List.countP_eq_zero, decide_eq_true_eq, ne_eq]

theorem copies_append (k : Nat) (record later : List ShareTime) :
    copies k (record ++ later) = copies k record + copies k later := List.countP_append

theorem copies_filter {k : Nat} {record : List ShareTime} {keep : ShareTime → Bool}
    (kept : ∀ entry ∈ record, entry.serial = some k → keep entry = true) : copies k (record.filter keep) = copies k record := by
  unfold copies
  rw [List.countP_filter]
  apply List.countP_congr
  intro entry among
  simp only [Bool.and_eq_true, decide_eq_true_eq]
  exact ⟨And.left, fun own => ⟨own, kept entry among own⟩⟩

/-- The serial numbers in the share log and its buffer. -/
def PoolStats.logged (stats : PoolStats) : List (Option Nat) :=
  stats.pendingShares.map (·.serial) ++ ((stats.store.map (·.shareLog)).getD []).map (·.serial)

namespace Pool

variable {site : Site} {p q : Pool site} {a : Action} {db : Option Database} {clock : Clock} {i k : Nat} {t : Thread}

def held (p : Pool site) : Place → List ShareTime
  | .session i => ((p.thread? i).map (·.peer.vardiff.shareTimes)).getD []
  | .parked worker => ((p.shared.stats.workerShareHistory worker).map (·.shareTimes)).getD []

def owner (p : Pool site) : Place → Option String
  | .session i => (p.thread? i).bind Thread.owner
  | .parked worker => some worker

/-- Credited in the last 24 hours. -/
def recent (p : Pool site) (share : CreditedShare) : Bool := decide (elapsed p.clock.instant share.time ≤ shareRetention)

def recentSerial (p : Pool site) (k : Nat) : Bool := p.credited[k]?.any p.recent

/-- Every share credited in the last 24 hours is in one place, and that place is its worker's. -/
def InOnePlace (p : Pool site) : Prop :=
  ∀ k share, p.credited[k]? = some share → p.recent share = true →
    ∃ place, p.owner place = some share.worker ∧ Sole (fun place => copies k (p.held place)) place

/-- The call parks no record over a recent share and reads no recent share from the share log. -/
def Spares (p : Pool site) : Effect → Prop
  | .stashShareHistory worker => ∀ entry ∈ p.held (.parked worker), entry.serial.any p.recentSerial = false
  | .takeShareHistory worker => p.shared.stats.workerShareHistory worker = none →
      ∀ db ∈ p.shared.stats.store, ∀ row ∈ db.getShares worker p.clock.unix, row.serial.any p.recentSerial = false
  | _ => True

def HandsOver (p : Pool site) : Action → Prop
  | .call i => ∀ effect ∈ (p.thread? i).bind (·.pending.head?), p.Spares effect
  | .pruneIdleWorkers =>
    ∀ share ∈ p.credited, p.recent share = true → p.shared.stats.evicted p.clock.unix share.worker = false
  | _ => True

/-! ### What the pool knows of the entries -/

/-- The entry of a recent share has the time at which the share was credited. -/
def Genuine (p : Pool site) (entry : ShareTime) : Prop :=
  ∀ k, entry.serial = some k → k < p.credited.length ∧
    ∀ share, p.credited[k]? = some share → p.recent share = true → entry.time = share.time

structure Kept (p : Pool site) : Prop where
  once : p.InOnePlace
  genuine : ∀ place, ∀ entry ∈ p.held place, p.Genuine entry
  fits : ∀ t, some t ∈ p.threads → ownership.Fits t
  calls : ∀ t, some t ∈ p.threads → ∀ worker credited serial, .logShare worker credited serial ∈ t.pending →
    serial < p.credited.length
  logged : ∀ serial, some serial ∈ p.shared.stats.logged → serial < p.credited.length

theorem recent_later (later : p.clock.instant ≤ q.clock.instant) {share : CreditedShare} (recent : q.recent share = true) :
    p.recent share = true := by
  unfold Pool.recent elapsed at recent ⊢
  rw [decide_eq_true_eq] at recent ⊢
  exact (Int.toNat_le_toNat (Int.sub_le_sub_right later _)).trans recent

theorem recentSerial_iff : p.recentSerial k = true ↔ ∃ share, p.credited[k]? = some share ∧ p.recent share = true := by
  unfold recentSerial
  rw [Option.any_eq_true]

theorem Genuine.later {entry : ShareTime} (genuine : p.Genuine entry) (credited : q.credited = p.credited)
    (later : p.clock.instant ≤ q.clock.instant) : q.Genuine entry := by
  intro k serial
  obtain ⟨known, time⟩ := genuine k serial
  rw [credited]
  exact ⟨known, fun share same recent => time share same (recent_later later recent)⟩

/-- The places after a step in which nothing is credited: what they hold was held before or is of no recent share, and a
recent share that was in one place is in one place of the same worker. -/
structure Carried (p q : Pool site) : Prop where
  credited : q.credited = p.credited
  later : p.clock.instant ≤ q.clock.instant
  entries : ∀ place, ∀ entry ∈ q.held place, (∃ source, entry ∈ p.held source) ∨
    ∀ k, entry.serial = some k → k < p.credited.length ∧ p.recentSerial k = false
  moved : ∀ k share, p.credited[k]? = some share → p.recent share = true → ∀ place, p.owner place = some share.worker →
    Sole (fun place => copies k (p.held place)) place →
      ∃ next, q.owner next = some share.worker ∧ Sole (fun place => copies k (q.held place)) next

theorem Carried.once (carried : Carried p q) (once : p.InOnePlace) : q.InOnePlace := by
  intro k share same recent
  rw [carried.credited] at same
  have recent := recent_later carried.later recent
  obtain ⟨place, owner, sole⟩ := once k share same recent
  exact carried.moved k share same recent place owner sole

theorem Carried.genuine (carried : Carried p q) (genuine : ∀ place, ∀ entry ∈ p.held place, p.Genuine entry) :
    ∀ place, ∀ entry ∈ q.held place, q.Genuine entry := by
  intro place entry among
  rcases carried.entries place entry among with ⟨source, old⟩ | foreign
  · exact (genuine source entry old).later carried.credited carried.later
  · refine Genuine.later (fun k serial => ?_) carried.credited carried.later
    obtain ⟨known, old⟩ := foreign k serial
    refine ⟨known, fun share same recent => ?_⟩
    rw [recentSerial_iff.mpr ⟨share, same, recent⟩] at old
    cases old

theorem Carried.same (held : ∀ place, q.held place = p.held place)
    (owner : ∀ place worker, p.owner place = some worker → q.owner place = some worker) (credited : q.credited = p.credited)
    (later : p.clock.instant ≤ q.clock.instant) : Carried p q where
  credited := credited
  later := later
  entries place entry among := by
    rw [held] at among
    exact .inl ⟨place, among⟩
  moved k share _ _ place own sole := by
    refine ⟨place, owner place share.worker own, ?_⟩
    simp only [held]
    exact sole

/-! ### One session's step -/

theorem thread?_set {next : Option Thread} (running : p.threads[i]? = some (some t))
    (threads : q.threads = p.threads.set i next) (j : Nat) : q.thread? j = if j = i then next else p.thread? j := by
  unfold thread?
  rw [threads, List.getElem?_set]
  by_cases own : j = i
  · subst own
    rw [if_pos rfl, if_pos (List.getElem?_eq_some_iff.mp running).1, if_pos rfl]
    rfl
  · rw [if_neg (Ne.symm own), if_neg own]

theorem held_set {next : Option Thread} (running : p.threads[i]? = some (some t))
    (threads : q.threads = p.threads.set i next) (j : Nat) : q.held (.session j) =
      if j = i then (next.map (·.peer.vardiff.shareTimes)).getD [] else p.held (.session j) := by
  dsimp only [held]
  rw [thread?_set running threads]
  split <;> rfl

theorem owner_set {next : Option Thread} (running : p.threads[i]? = some (some t))
    (threads : q.threads = p.threads.set i next) (j : Nat) : q.owner (.session j) =
      if j = i then next.bind Thread.owner else p.owner (.session j) := by
  dsimp only [owner]
  rw [thread?_set running threads]
  split <;> rfl

theorem held_running (running : p.threads[i]? = some (some t)) : p.held (.session i) = t.peer.vardiff.shareTimes := by
  dsimp only [held]
  rw [thread?_eq_some.mpr running]
  rfl

theorem owner_running (running : p.threads[i]? = some (some t)) : p.owner (.session i) = t.owner := by
  dsimp only [owner]
  rw [thread?_eq_some.mpr running]
  rfl

/-- A step that leaves the session's record and whose it is. -/
theorem Carried.set {next : Option Thread} (running : p.threads[i]? = some (some t))
    (threads : q.threads = p.threads.set i next)
    (history : q.shared.stats.workerShareHistory = p.shared.stats.workerShareHistory)
    (record : (next.map (·.peer.vardiff.shareTimes)).getD [] = t.peer.vardiff.shareTimes)
    (own : ∀ worker, t.owner = some worker → next.bind Thread.owner = some worker) (credited : q.credited = p.credited)
    (later : p.clock.instant ≤ q.clock.instant) : Carried p q := by
  refine .same (fun place => ?_) (fun place worker held => ?_) credited later
  · cases place with
    | session j =>
      rw [held_set running threads, record]
      split
      · rename_i same
        rw [same, held_running running]
      · rfl
    | parked worker =>
      dsimp only [held]
      rw [history]
  · cases place with
    | session j =>
      rw [owner_set running threads]
      split
      · rename_i same
        rw [same, owner_running running] at held
        exact own worker held
      · exact held
    | parked worker => exact held

/-! ### Calls -/

variable {effect : Effect} {rest : List Effect}

theorem run_still (still : effect.movesRecord = false) (clock : Clock) (v : Vardiff) (shared : Shared) :
    (effect.run clock v shared).1 = v ∧
      (effect.run clock v shared).2.stats.workerShareHistory = shared.stats.workerShareHistory := by
  cases effect with
  | stashShareHistory | takeShareHistory => cases still
  | shareAccepted difficulty credited =>
    dsimp only [Effect.run, PoolStats.shareAccepted]
    split <;> split <;> exact ⟨rfl, rfl⟩
  | blockFound worker hash height =>
    dsimp only [Effect.run, PoolStats.blockFound]
    split <;> exact ⟨rfl, rfl⟩
  | logShare worker credited serial =>
    dsimp only [Effect.run, PoolStats.logShare]
    split <;> exact ⟨rfl, rfl⟩
  | workerShareAccepted worker difficulty =>
    dsimp only [Effect.run, PoolStats.workerShareAccepted]
    split <;> exact ⟨rfl, rfl⟩
  | markWorkerOnline worker difficulty =>
    dsimp only [Effect.run, PoolStats.markWorkerOnline]
    split <;> exact ⟨rfl, rfl⟩
  | updateWorkerVardiff worker difficulty =>
    dsimp only [Effect.run, PoolStats.updateWorkerVardiff, PoolStats.markWorkerOnline]
    split
    · exact ⟨rfl, rfl⟩
    · split <;> exact ⟨rfl, rfl⟩
  | _ => exact ⟨rfl, rfl⟩

theorem still_owner (still : effect.movesRecord = false) (owner : Option String) : effect.ownerBefore owner = owner := by
  cases effect with
  | stashShareHistory | takeShareHistory => cases still
  | _ => rfl

/-- The session after its call. -/
def after (p : Pool site) (t : Thread) (effect : Effect) (rest : List Effect) : Thread :=
  { t with peer := t.peer.setVardiff (effect.run p.clock t.peer.vardiff p.shared).1, pending := rest }

theorem called_threads : (p.called i t effect rest).threads = p.threads.set i (some (p.after t effect rest)) := rfl

theorem owner_called (next : t.pending = effect :: rest) : t.owner = effect.ownerBefore (p.after t effect rest).owner :=
  (ownership.called next _).1

theorem held_called (running : p.threads[i]? = some (some t)) : (p.called i t effect rest).held (.session i) =
    (effect.run p.clock t.peer.vardiff p.shared).1.shareTimes := by
  rw [held_set running called_threads, if_pos rfl, Option.map_some, Option.getD_some]
  exact congrArg Vardiff.shareTimes (Peer.setVardiff_vardiff ..)

theorem held_called_other (running : p.threads[i]? = some (some t)) {j : Nat} (other : j ≠ i) :
    (p.called i t effect rest).held (.session j) = p.held (.session j) := by
  rw [held_set running called_threads, if_neg other]

theorem owner_called_other (running : p.threads[i]? = some (some t)) {place : Place} (other : place ≠ .session i) :
    (p.called i t effect rest).owner place = p.owner place := by
  cases place with
  | session j => rw [owner_set running called_threads, if_neg (fun same => other (congrArg _ same))]
  | parked worker => rfl

theorem still_carried (running : p.threads[i]? = some (some t)) (next : t.pending = effect :: rest)
    (still : effect.movesRecord = false) : Carried p (p.called i t effect rest) := by
  obtain ⟨same, history⟩ := run_still still p.clock t.peer.vardiff p.shared
  refine .set running called_threads history ?_ (fun worker own => ?_) rfl le_rfl
  · rw [Option.map_some, Option.getD_some, after, Peer.setVardiff_vardiff, same]
  · rw [owner_called next, still_owner still] at own
    exact own

theorem copies_of_serial {k : Nat} {record : List ShareTime} (old : ∀ entry ∈ record, entry.serial.any p.recentSerial = false)
    (recent : p.recentSerial k = true) : copies k record = 0 := by
  apply copies_eq_zero.mpr
  intro entry among serial
  have none := old entry among
  rw [serial, Option.any_some, recent] at none
  cases none

theorem stash_carried {worker : String} (running : p.threads[i]? = some (some t))
    (next : t.pending = .stashShareHistory worker :: rest) (spares : p.Spares (.stashShareHistory worker)) :
    Carried p (p.called i t (.stashShareHistory worker) rest) := by
  have own : p.owner (.session i) = some worker := by
    rw [owner_running running, @owner_called _ p t _ rest next]
    rfl
  have emptied : (p.called i t (.stashShareHistory worker) rest).held (.session i) = [] := held_called running
  have parked : (p.called i t (.stashShareHistory worker) rest).held (.parked worker) = p.held (.session i) := by
    rw [held_running running]
    dsimp only [held, called, Effect.run, PoolStats.stashShareHistory]
    rw [Function.update_self]
    rfl
  have others : ∀ place, place ≠ .session i → place ≠ .parked worker →
      (p.called i t (.stashShareHistory worker) rest).held place = p.held place := by
    intro place apart other
    cases place with
    | session j => exact held_called_other running (fun same => apart (congrArg _ same))
    | parked w =>
      dsimp only [held, called, Effect.run, PoolStats.stashShareHistory]
      rw [Function.update_of_ne (fun same => other (congrArg _ same))]
  refine ⟨rfl, le_rfl, fun place entry among => ?_, fun k share credit recent place held sole => ?_⟩
  · left
    by_cases first : place = .session i
    · rw [first, emptied] at among
      cases among
    · by_cases second : place = .parked worker
      · rw [second, parked] at among
        exact ⟨_, among⟩
      · rw [others place first second] at among
        exact ⟨_, among⟩
  · have recent := recentSerial_iff.mpr ⟨share, credit, recent⟩
    have moved : Moved (fun place => copies k (p.held place))
        (fun place => copies k ((p.called i t (.stashShareHistory worker) rest).held place)) (.session i) (.parked worker) := by
      refine ⟨nofun, ?_, ?_, fun place first second => ?_⟩
      · rw [emptied]
        rfl
      · rw [parked, copies_of_serial spares recent]
        rfl
      · rw [others place first second]
    by_cases here : place = .session i
    · rw [here] at sole held
      rw [own] at held
      exact ⟨.parked worker, held, sole.arrive moved⟩
    · refine ⟨place, ?_, sole.unmoved moved here⟩
      rw [owner_called_other running here]
      exact held

theorem run_take_parked {worker : String} {history : ShareHistory} {shared : Shared}
    (known : shared.stats.workerShareHistory worker = some history) (clock : Clock) (v : Vardiff) :
    ((Effect.takeShareHistory worker).run clock v shared).1.shareTimes =
      history.shareTimes.filter (fun share => share.recent clock.instant) ++ v.shareTimes ∧
    ((Effect.takeShareHistory worker).run clock v shared).2.stats.workerShareHistory =
      Function.update shared.stats.workerShareHistory worker none := by
  dsimp only [Effect.run, PoolStats.takeShareHistory]
  rw [known]
  exact ⟨rfl, rfl⟩

theorem fromUnixRows_serial {rows : List ShareRow} {nowUnix : UInt64} {now : Instant} {history : ShareHistory}
    (restored : ShareHistory.fromUnixRows rows nowUnix now = some history) :
    ∀ entry ∈ history.shareTimes, ∃ row ∈ rows, entry.serial = row.serial := by
  unfold ShareHistory.fromUnixRows at restored
  obtain ⟨first, _, same⟩ := Option.bind_eq_some_iff.mp restored
  obtain rfl := Option.some.inj same
  intro entry among
  obtain ⟨row, member, read⟩ := List.mem_filterMap.mp among
  dsimp only at read
  split at read
  · cases read
  · obtain rfl := Option.some.inj read
    exact ⟨row, member, rfl⟩

theorem run_take_log {worker : String} {shared : Shared} (unparked : shared.stats.workerShareHistory worker = none)
    (clock : Clock) (v : Vardiff) :
    ∃ read, ((Effect.takeShareHistory worker).run clock v shared).1.shareTimes = read ++ v.shareTimes ∧
      ((Effect.takeShareHistory worker).run clock v shared).2.stats.workerShareHistory = shared.stats.workerShareHistory ∧
      ∀ entry ∈ read, ∃ db ∈ shared.stats.store, ∃ row ∈ db.getShares worker clock.unix, entry.serial = row.serial := by
  dsimp only [Effect.run, PoolStats.takeShareHistory]
  rw [unparked]
  dsimp only
  cases restored : shared.stats.store.bind (fun db =>
      ShareHistory.fromUnixRows (db.getShares worker clock.unix) clock.unix clock.instant) with
  | none => exact ⟨[], rfl, rfl, nofun⟩
  | some history =>
    obtain ⟨db, store, rows⟩ := Option.bind_eq_some_iff.mp restored
    refine ⟨history.shareTimes.filter (fun share => share.recent clock.instant), rfl, rfl, fun entry among => ?_⟩
    exact ⟨db, store, fromUnixRows_serial rows entry (List.mem_filter.mp among).1⟩

theorem logged_of_read {worker : String} {now : UInt64} {stats : PoolStats} {read : List ShareTime} {entry : ShareTime}
    (rows : ∀ entry ∈ read, ∃ db ∈ stats.store, ∃ row ∈ db.getShares worker now, entry.serial = row.serial)
    (among : entry ∈ read) (serial : entry.serial = some k) : some k ∈ stats.logged := by
  obtain ⟨db, store, row, member, same⟩ := rows entry among
  unfold Database.getShares at member
  obtain ⟨logged, sorted, shown⟩ := List.mem_filterMap.mp member
  have stored : logged ∈ db.shareLog := (List.mem_filter.mp ((List.perm_insertionSort _ _).mem_iff.mp sorted)).1
  obtain ⟨_, _, shown⟩ := Option.bind_eq_some_iff.mp shown
  obtain ⟨_, _, shown⟩ := Option.bind_eq_some_iff.mp shown
  obtain rfl := Option.some.inj shown
  unfold PoolStats.logged
  rw [Option.mem_def.mp store, ← serial, same]
  exact List.mem_append_right _ (List.mem_map.mpr ⟨logged, stored, rfl⟩)

/-- A session that takes a record has none of its own that counts. -/
theorem take_owner {worker : String} (running : p.threads[i]? = some (some t))
    (next : t.pending = .takeShareHistory worker :: rest) (fits : ownership.Fits t) :
    p.owner (.session i) = none ∧ (p.called i t (.takeShareHistory worker) rest).owner (.session i) = some worker := by
  obtain ⟨before, leaves⟩ := ownership.called next ((Effect.takeShareHistory worker).run p.clock t.peer.vardiff p.shared).1
  rw [owner_running running, owner_set running called_threads, if_pos rfl]
  exact ⟨before, (leaves fits).1⟩

theorem take_parked_carried {worker : String} {history : ShareHistory} (kept : Kept p)
    (running : p.threads[i]? = some (some t)) (next : t.pending = .takeShareHistory worker :: rest)
    (known : p.shared.stats.workerShareHistory worker = some history) :
    Carried p (p.called i t (.takeShareHistory worker) rest) := by
  obtain ⟨nobody, own⟩ := take_owner running next (kept.fits t (mem_of_running running))
  obtain ⟨times, histories⟩ := run_take_parked known p.clock t.peer.vardiff
  have parked : p.held (.parked worker) = history.shareTimes := by
    dsimp only [held]
    rw [known]
    rfl
  have restored : (p.called i t (.takeShareHistory worker) rest).held (.session i) =
      (p.held (.parked worker)).filter (fun share => share.recent p.clock.instant) ++ p.held (.session i) := by
    rw [held_called running, times, parked, held_running running]
  have emptied : (p.called i t (.takeShareHistory worker) rest).held (.parked worker) = [] := by
    dsimp only [held, called]
    rw [histories, Function.update_self]
    rfl
  have others : ∀ place, place ≠ .parked worker → place ≠ .session i →
      (p.called i t (.takeShareHistory worker) rest).held place = p.held place := by
    intro place other apart
    cases place with
    | session j => exact held_called_other running (fun same => apart (congrArg _ same))
    | parked w =>
      dsimp only [held, called]
      rw [histories, Function.update_of_ne (fun same => other (congrArg _ same))]
  refine ⟨rfl, le_rfl, fun place entry among => ?_, fun k share credit recent place held sole => ?_⟩
  · left
    by_cases first : place = .parked worker
    · rw [first, emptied] at among
      cases among
    · by_cases second : place = .session i
      · rw [second, restored] at among
        rcases List.mem_append.mp among with taken | own
        · exact ⟨_, (List.mem_filter.mp taken).1⟩
        · exact ⟨_, own⟩
      · rw [others place first second] at among
        exact ⟨_, among⟩
  · have lasting : ∀ entry ∈ p.held (.parked worker), entry.serial = some k → entry.recent p.clock.instant = true := by
      intro entry among serial
      have time := (kept.genuine _ entry among k serial).2 share credit recent
      unfold ShareTime.recent
      rw [time]
      exact recent
    have moved : Moved (fun place => copies k (p.held place))
        (fun place => copies k ((p.called i t (.takeShareHistory worker) rest).held place)) (.parked worker) (.session i) := by
      refine ⟨nofun, ?_, ?_, fun place first second => ?_⟩
      · rw [emptied]
        rfl
      · rw [restored, copies_append, copies_filter lasting]
      · rw [others place first second]
    by_cases here : place = .parked worker
    · rw [here] at sole held
      exact ⟨.session i, own.trans held, sole.arrive moved⟩
    · refine ⟨place, ?_, sole.unmoved moved here⟩
      rw [owner_called_other running]
      · exact held
      · rintro rfl
        rw [nobody] at held
        cases held

theorem take_log_carried {worker : String} (kept : Kept p) (running : p.threads[i]? = some (some t))
    (next : t.pending = .takeShareHistory worker :: rest) (spares : p.Spares (.takeShareHistory worker))
    (unparked : p.shared.stats.workerShareHistory worker = none) :
    Carried p (p.called i t (.takeShareHistory worker) rest) := by
  obtain ⟨nobody, own⟩ := take_owner running next (kept.fits t (mem_of_running running))
  obtain ⟨read, times, histories, rows⟩ := run_take_log unparked p.clock t.peer.vardiff
  have restored : (p.called i t (.takeShareHistory worker) rest).held (.session i) = read ++ p.held (.session i) := by
    rw [held_called running, times, held_running running]
  have others : ∀ place, place ≠ .session i →
      (p.called i t (.takeShareHistory worker) rest).held place = p.held place := by
    intro place apart
    cases place with
    | session j => exact held_called_other running (fun same => apart (congrArg _ same))
    | parked w =>
      dsimp only [held, called]
      rw [histories]
  have old : ∀ entry ∈ read, entry.serial.any p.recentSerial = false := by
    intro entry among
    obtain ⟨db, store, row, member, serial⟩ := rows entry among
    rw [serial]
    exact spares unparked db store row member
  refine ⟨rfl, le_rfl, fun place entry among => ?_, fun k share credit recent place held sole => ?_⟩
  · by_cases here : place = .session i
    · rw [here, restored] at among
      rcases List.mem_append.mp among with new | own
      · right
        intro k serial
        have none := old entry new
        rw [serial] at none
        exact ⟨kept.logged k (logged_of_read rows new serial), none⟩
      · exact .inl ⟨_, own⟩
    · rw [others place here] at among
      exact .inl ⟨_, among⟩
  · have recent := recentSerial_iff.mpr ⟨share, credit, recent⟩
    have away : place ≠ .session i := by
      rintro rfl
      rw [nobody] at held
      cases held
    refine ⟨place, ?_, sole.stay ?_ (fun other => ?_)⟩
    · rw [owner_called_other running away]
      exact held
    · rw [others place away]
    · by_cases here : other = .session i
      · rw [here, restored, copies_append, copies_of_serial old recent, Nat.zero_add]
      · rw [others other here]

/-! ### The share log -/

theorem logged_eq {stats stats' : PoolStats} (pending : stats'.pendingShares = stats.pendingShares)
    (log : stats'.store.map (·.shareLog) = stats.store.map (·.shareLog)) : stats'.logged = stats.logged := by
  unfold PoolStats.logged
  rw [pending, log]

theorem map_shareLog {f : Database → Database} (same : ∀ db, (f db).shareLog = db.shareLog) (store : Option Database) :
    (store.map f).map (·.shareLog) = store.map (·.shareLog) := by
  cases store with
  | none => rfl
  | some db => exact congrArg some (same db)

theorem shareAccepted_logged (stats : PoolStats) (difficulty credited : UInt64) :
    (stats.shareAccepted difficulty credited).logged = stats.logged := by
  have best : ∀ db : Database, (db.setBestShareDifficulty difficulty).shareLog = db.shareLog := by
    intro db
    unfold Database.setBestShareDifficulty
    split <;> rfl
  unfold PoolStats.shareAccepted
  dsimp only
  split
  · split <;> exact logged_eq rfl (map_shareLog best stats.store)
  · split <;> rfl

theorem blockFound_logged (stats : PoolStats) (worker hash : String) (height now : UInt64) :
    (stats.blockFound worker hash height now).logged = stats.logged := by
  unfold PoolStats.blockFound
  split
  · rfl
  · refine logged_eq rfl (map_shareLog (fun db => ?_) stats.store)
    unfold Database.setRound Database.insertFoundBlock
    split <;> rfl

theorem workerShareAccepted_logged (stats : PoolStats) (worker : String) (difficulty now : UInt64) :
    (stats.workerShareAccepted worker difficulty now).logged = stats.logged := by
  have best : ∀ db : Database, (db.setWorkerBestShare worker difficulty).shareLog = db.shareLog := by
    intro db
    unfold Database.setWorkerBestShare
    split <;> rfl
  unfold PoolStats.workerShareAccepted
  dsimp only
  split
  · exact logged_eq rfl (map_shareLog best stats.store)
  · rfl

theorem run_logged {clock : Clock} {v : Vardiff} {shared : Shared}
    (among : some k ∈ (effect.run clock v shared).2.stats.logged) :
    some k ∈ shared.stats.logged ∨ ∃ worker credited, effect = .logShare worker credited k := by
  cases effect with
  | logShare worker credited serial =>
    dsimp only [Effect.run, PoolStats.logShare] at among
    split at among
    · exact .inl among
    · unfold PoolStats.logged at among ⊢
      rw [List.map_append, List.append_assoc] at among
      rcases List.mem_append.mp among with old | new
      · exact .inl (List.mem_append_left _ old)
      · rcases List.mem_append.mp new with own | old
        · obtain rfl := Option.some.inj (List.mem_singleton.mp own)
          exact .inr ⟨worker, credited, rfl⟩
        · exact .inl (List.mem_append_right _ old)
  | shareAccepted difficulty credited =>
    rw [← shareAccepted_logged shared.stats difficulty credited]
    exact .inl among
  | blockFound worker hash height =>
    rw [← blockFound_logged shared.stats worker hash height clock.unix]
    exact .inl among
  | workerShareAccepted worker difficulty =>
    rw [← workerShareAccepted_logged shared.stats worker difficulty clock.unix]
    exact .inl among
  | markWorkerOnline worker difficulty =>
    dsimp only [Effect.run, PoolStats.markWorkerOnline] at among
    split at among <;> exact .inl among
  | updateWorkerVardiff worker difficulty =>
    dsimp only [Effect.run, PoolStats.updateWorkerVardiff, PoolStats.markWorkerOnline] at among
    split at among
    · exact .inl among
    · split at among <;> exact .inl among
  | takeShareHistory worker =>
    dsimp only [Effect.run, PoolStats.takeShareHistory] at among
    split at among <;> exact .inl among
  | _ => exact .inl among

theorem flushShareLog_logged {stats : PoolStats} {now : UInt64} (among : some k ∈ (stats.flushShareLog now).logged) :
    some k ∈ stats.logged := by
  unfold PoolStats.flushShareLog at among
  split at among
  · exact among
  · rename_i db store
    split at among
    · exact among
    · obtain ⟨row, member, serial⟩ := List.mem_map.mp among
      unfold PoolStats.logged
      rw [store]
      rcases List.mem_append.mp (List.mem_filter.mp member).1 with old | new
      · exact List.mem_append_right _ (List.mem_map.mpr ⟨row, old, serial⟩)
      · obtain ⟨share, pending, rfl⟩ := List.mem_map.mp new
        exact List.mem_append_left _ (List.mem_map.mpr ⟨share, pending, serial⟩)

theorem pruneIdleWorkers_logged (stats : PoolStats) (now : UInt64) : (stats.pruneIdleWorkers now).logged = stats.logged := by
  unfold PoolStats.pruneIdleWorkers
  dsimp only
  split
  · exact logged_eq rfl
      (map_shareLog (f := (·.pruneWorkerBestShares PoolStats.maxWorkerBestShares)) (fun _ => rfl) stats.store)
  · rfl

theorem recordHashrateSnapshot_logged (stats : PoolStats) (now : UInt64) (hps : F64) :
    (stats.recordHashrateSnapshot now hps).logged = stats.logged := by
  have sample := map_shareLog (f := fun db => (db.insertHashrate now hps).pruneHashrates now) (fun _ => rfl) stats.store
  have round := map_shareLog (f := (·.setRound stats.roundWork stats.roundStartTs)) (fun _ => rfl)
    (stats.store.map (fun db => (db.insertHashrate now hps).pruneHashrates now))
  exact logged_eq rfl (round.trans sample)

theorem task_logged {f : PoolStats → PoolStats} (task : Background clock a f) {stats : PoolStats}
    (among : some k ∈ (f stats).logged) : some k ∈ stats.logged := by
  cases task with
  | flushShareLog => exact flushShareLog_logged among
  | pruneIdleWorkers =>
    rw [pruneIdleWorkers_logged] at among
    exact among
  | recordHashrateSnapshot hps =>
    rw [recordHashrateSnapshot_logged] at among
    exact among
  | blockFound worker hash height =>
    rw [blockFound_logged] at among
    exact among

/-! ### Turns -/

theorem thread_peer (turn : Turn) : turn.thread.peer = turn.peer := by
  unfold Turn.thread
  dsimp only
  split <;> rfl

theorem releaseIdentity_logs {worker : Option String} {name : String} {credited : UInt64} {serial : Nat} :
    Effect.logShare name credited serial ∉ releaseIdentity worker := by
  cases worker <;> simp [releaseIdentity]

theorem switchIdentity_logs {protocol : MinerProtocol} {worker : Option String} {name own : String}
    {difficulty credited : UInt64} {serial : Nat} :
    Effect.logShare name credited serial ∉ switchIdentity protocol worker own difficulty := by
  unfold switchIdentity
  split
  · exact List.not_mem_nil
  · cases worker <;> simp

/-- A turn logs the share it credits and no other. -/
theorem turned_logs {env : Env} {peer : Peer} {turn : Turn} (turned : peer.Turned env turn) {name : String}
    {credited : UInt64} {serial : Nat} (among : Effect.logShare name credited serial ∈ turn.thread.pending) :
    serial = env.serial ∧ turn.credited.isSome = true := by
  have own : Effect.logShare name credited serial ∈ turn.effects := by
    unfold Turn.thread at among
    dsimp only at among
    split at among
    · rcases List.mem_append.mp among with call | release
      · exact call
      · exact absurd release releaseIdentity_logs
    · exact among
  cases turned with
  | quiet worker record plain => cases plain _ own
  | credit _ before after _ _ _ effects plain named =>
    rw [effects] at own
    rcases List.mem_append.mp own with early | own
    · cases plain _ (List.mem_append_left _ early)
    · rcases List.mem_cons.mp own with same | late
      · cases same
        rw [named]
        exact ⟨rfl, rfl⟩
      · cases plain _ (List.mem_append_right _ late)
  | claim _ _ _ _ effects =>
    rw [effects] at own
    exact absurd own switchIdentity_logs
  | retarget _ _ _ effects =>
    rw [effects] at own
    obtain ⟨_, _, same⟩ := List.mem_map.mp own
    cases same

theorem Genuine.credited {entry : ShareTime} (genuine : p.Genuine entry) {share : CreditedShare}
    (credited : q.credited = p.credited ++ [share]) (now : q.clock = p.clock) : q.Genuine entry := by
  intro k serial
  obtain ⟨known, time⟩ := genuine k serial
  rw [credited, List.length_append]
  refine ⟨Nat.lt_add_right _ known, fun other same recent => time other ?_ ?_⟩
  · rw [List.getElem?_append_left known] at same
    exact same
  · exact recent_later (congrArg Clock.instant now).ge recent

/-- The serial number of the next share is on no record. -/
theorem Kept.unused (kept : Kept p) (place : Place) : copies p.credited.length (p.held place) = 0 := by
  apply copies_eq_zero.mpr
  intro entry among serial
  exact Nat.lt_irrefl _ (kept.genuine place entry among _ serial).1

/-- A share recorded by session `i` of its worker, under the next serial number; what has left the record is old. -/
structure Credits (p q : Pool site) (i : Nat) (name : String) (entry : ShareTime) (dropped left : List ShareTime) : Prop where
  clock : q.clock = p.clock
  credited : q.credited = p.credited ++ [{ worker := name, time := p.clock.instant }]
  time : entry.time = p.clock.instant
  serial : entry.serial = some p.credited.length
  before : p.held (.session i) = dropped ++ left
  old : ∀ share ∈ dropped, share.recent p.clock.instant = false
  after : q.held (.session i) = left ++ [entry]
  others : ∀ place, place ≠ .session i → q.held place = p.held place
  owner : p.owner (.session i) = some name
  owners : ∀ place, q.owner place = p.owner place

section Credits

variable {name : String} {entry : ShareTime} {dropped left : List ShareTime}

theorem credits_of_recorded {next : Thread} {credited : UInt64}
    (running : p.threads[i]? = some (some t)) (threads : q.threads = p.threads.set i (some next))
    (history : q.shared.stats.workerShareHistory = p.shared.stats.workerShareHistory) (now : q.clock = p.clock)
    (added : q.credited = p.credited ++ [{ worker := name, time := p.clock.instant }])
    (own : t.owner = some name) (same : next.owner = some name)
    (record : next.peer.vardiff = t.peer.vardiff.recordShare p.clock.instant credited (some p.credited.length)) :
    ∃ entry dropped left, Credits p q i name entry dropped left := by
  obtain ⟨dropped, left, whole, old, recorded⟩ :=
    recordShare_recorded t.peer.vardiff p.clock.instant credited (some p.credited.length)
  refine ⟨{ time := p.clock.instant, credited, serial := some p.credited.length }, dropped, left,
    now, added, rfl, rfl, ?_, old, ?_, fun place apart => ?_, ?_, fun place => ?_⟩
  · rw [held_running running, whole]
  · rw [held_set running threads, if_pos rfl, Option.map_some, Option.getD_some, record, recorded]
  · cases place with
    | session j => rw [held_set running threads, if_neg (fun same => apart (congrArg _ same))]
    | parked w =>
      dsimp only [held]
      rw [history]
  · rw [owner_running running]
    exact own
  · cases place with
    | session j =>
      rw [owner_set running threads]
      split
      · rename_i here
        rw [here, owner_running running, own]
        exact same
      · rfl
    | parked w => rfl

theorem Credits.recent (credits : Credits p q i name entry dropped left) {share : CreditedShare}
    (recent : q.recent share = true) : p.recent share = true :=
  recent_later (congrArg Clock.instant credits.clock).ge recent

/-- The copies of an earlier share that still counts stay where they are. -/
theorem Credits.copies_known (credits : Credits p q i name entry dropped left) (kept : Kept p)
    (known : k < p.credited.length) {share : CreditedShare} (credit : p.credited[k]? = some share)
    (recent : p.recent share = true) (place : Place) : copies k (q.held place) = copies k (p.held place) := by
  by_cases here : place = .session i
  · have gone : copies k dropped = 0 := by
      apply copies_eq_zero.mpr
      intro other among serial
      have inside : other ∈ p.held (.session i) := by
        rw [credits.before]
        exact List.mem_append_left _ among
      have stale := credits.old other among
      unfold ShareTime.recent at stale
      rw [(kept.genuine _ other inside k serial).2 share credit recent] at stale
      exact Bool.false_ne_true (stale.symm.trans recent)
    have apart : copies k [entry] = 0 := by
      apply copies_eq_zero.mpr
      intro only among serial
      rw [List.mem_singleton.mp among, credits.serial] at serial
      exact absurd (Option.some.inj serial) (Nat.ne_of_gt known)
    rw [here, credits.after, credits.before, copies_append, copies_append, gone, apart, Nat.zero_add, Nat.add_zero]
  · rw [credits.others place here]

/-- The new share is on the record of the session and on no other. -/
theorem Credits.sole (credits : Credits p q i name entry dropped left) (kept : Kept p) :
    Sole (fun place => copies p.credited.length (q.held place)) (.session i) where
  here := by
    have none : copies p.credited.length left = 0 := by
      have all := kept.unused (.session i)
      rw [credits.before, copies_append] at all
      omega
    have one : copies p.credited.length [entry] = 1 := by
      unfold copies
      rw [List.countP_singleton, credits.serial]
      exact if_pos (decide_eq_true rfl)
    rw [credits.after, copies_append, none, one]
  elsewhere other apart := by
    rw [credits.others other apart]
    exact kept.unused other

theorem Credits.inOnePlace (credits : Credits p q i name entry dropped left) (kept : Kept p) : q.InOnePlace := by
  intro k share credit recent
  rw [credits.credited] at credit
  have recent := credits.recent recent
  by_cases known : k < p.credited.length
  · rw [List.getElem?_append_left known] at credit
    obtain ⟨place, owner, sole⟩ := kept.once k share credit recent
    have unchanged := credits.copies_known kept known credit recent
    exact ⟨place, (credits.owners place).trans owner, sole.stay (unchanged place) (fun other => (unchanged other).le)⟩
  · have last : k = p.credited.length := by
      have inside := (List.getElem?_eq_some_iff.mp credit).1
      rw [List.length_append, List.length_singleton] at inside
      omega
    rw [last, List.getElem?_concat_length] at credit
    obtain rfl := Option.some.inj credit
    rw [last]
    exact ⟨.session i, (credits.owners _).trans credits.owner, credits.sole kept⟩

theorem Credits.genuine (credits : Credits p q i name entry dropped left) (kept : Kept p) (place : Place) :
    ∀ other ∈ q.held place, q.Genuine other := by
  intro other among
  by_cases here : place = .session i
  · rw [here, credits.after] at among
    rcases List.mem_append.mp among with earlier | new
    · refine (kept.genuine (.session i) other ?_).credited credits.credited credits.clock
      rw [credits.before]
      exact List.mem_append_right _ earlier
    · rw [List.mem_singleton.mp new]
      intro k serial
      rw [credits.serial] at serial
      obtain rfl := Option.some.inj serial
      rw [credits.credited, List.length_append, List.length_singleton, List.getElem?_concat_length]
      refine ⟨Nat.lt_succ_self _, fun share same _ => ?_⟩
      obtain rfl := Option.some.inj same
      exact credits.time
  · rw [credits.others place here] at among
    exact (kept.genuine place other among).credited credits.credited credits.clock

end Credits

/-! ### Runs -/

theorem Kept.calls_set (kept : Kept p) {next : Option Thread} (threads : q.threads = p.threads.set i next)
    (credited : p.credited.length ≤ q.credited.length)
    (own : ∀ t, next = some t → ∀ worker amount serial, .logShare worker amount serial ∈ t.pending →
      serial < q.credited.length) :
    ∀ t, some t ∈ q.threads → ∀ worker amount serial, .logShare worker amount serial ∈ t.pending →
      serial < q.credited.length := by
  intro t among worker amount serial call
  rw [threads] at among
  rcases List.mem_or_eq_of_mem_set among with old | new
  · exact (kept.calls t old worker amount serial call).trans_le credited
  · exact own t new.symm worker amount serial call

theorem Kept.fits_set (kept : Kept p) {next : Option Thread} (threads : q.threads = p.threads.set i next)
    (own : ∀ t, next = some t → ownership.Fits t) : ∀ t, some t ∈ q.threads → ownership.Fits t := by
  intro t among
  rw [threads] at among
  rcases List.mem_or_eq_of_mem_set among with old | new
  · exact kept.fits t old
  · exact own t new.symm

theorem turned_kept {reading : Reading} {input : Input} {turn : Turn} {counters : Sv2.Counters} (sound : Sound p)
    (kept : Kept p) (running : p.threads[i]? = some (some t)) (idle : t.pending = []) (stays : t.ending = false)
    (handled : t.peer.handle (p.env reading) p.counters input = some (.ok (turn, counters))) :
    Kept (p.turned i turn counters) := by
  have turned := Peer.handle_turned handled
  obtain ⟨after, fits⟩ := ownership.thread turned
  have before : t.owner = t.peer.worker := (ownership.of_idle idle).trans (t.destined_running stays)
  have threads : (p.turned i turn counters).threads = p.threads.set i (some turn.thread) := rfl
  have credited : (p.turned i turn counters).credited =
      p.credited ++ turn.credited.toList.map (fun worker => { worker, time := p.clock.instant }) := rfl
  have places : (p.turned i turn counters).InOnePlace ∧
      ∀ place, ∀ entry ∈ (p.turned i turn counters).held place, (p.turned i turn counters).Genuine entry := by
    -- A turn that credits nothing leaves the record and whose it is.
    have quiet : turn.credited = none → turn.peer.vardiff.shareTimes = t.peer.vardiff.shareTimes →
        Carried p (p.turned i turn counters) := by
      intro none record
      refine .set running threads rfl ?_ (fun worker own => ?_) ?_ le_rfl
      · rw [Option.map_some, Option.getD_some, thread_peer]
        exact record
      · exact (after.trans before.symm).trans own
      · rw [credited, none]
        exact List.append_nil _
    cases turned with
    | quiet _ record _ none => exact ⟨(quiet none record).once kept.once, (quiet none record).genuine kept.genuine⟩
    | claim _ _ _ record _ none => exact ⟨(quiet none record).once kept.once, (quiet none record).genuine kept.genuine⟩
    | retarget _ _ record _ none => exact ⟨(quiet none record).once kept.once, (quiet none record).genuine kept.genuine⟩
    | credit amount _ _ active _ record _ _ named =>
      obtain ⟨name, worker⟩ := (sound t (mem_of_running running)).worker active
      rw [worker] at named before after
      have recorded : turn.thread.peer.vardiff =
          t.peer.vardiff.recordShare p.clock.instant amount (some p.credited.length) := by
        rw [thread_peer]
        exact record
      obtain ⟨entry, dropped, left, credits⟩ :=
        credits_of_recorded running threads rfl rfl (by rw [credited, named]; rfl) before after recorded
      exact ⟨credits.inOnePlace kept, credits.genuine kept⟩
  refine ⟨places.1, places.2, kept.fits_set threads (fun t' same => ?_), kept.calls_set threads ?_
    (fun t' same worker amount serial call => ?_), fun serial among => ?_⟩
  · obtain rfl := Option.some.inj same
    exact fits
  · rw [credited, List.length_append]
    exact Nat.le_add_right _ _
  · obtain rfl := Option.some.inj same
    obtain ⟨rfl, credits⟩ := turned_logs turned call
    obtain ⟨name, named⟩ := Option.isSome_iff_exists.mp credits
    rw [credited, named, List.length_append]
    exact Nat.lt_succ_self _
  · rw [credited, List.length_append]
    exact Nat.lt_add_right _ (kept.logged serial among)

theorem called_carried (kept : Kept p) (running : p.threads[i]? = some (some t)) (next : t.pending = effect :: rest)
    (spares : p.Spares effect) : Carried p (p.called i t effect rest) := by
  cases moves : effect.movesRecord with
  | false => exact still_carried running next moves
  | true =>
    cases effect with
    | stashShareHistory worker => exact stash_carried running next spares
    | takeShareHistory worker =>
      cases known : p.shared.stats.workerShareHistory worker with
      | none => exact take_log_carried kept running next spares known
      | some history => exact take_parked_carried kept running next known
    | _ => cases moves

theorem called_kept (kept : Kept p) (running : p.threads[i]? = some (some t)) (next : t.pending = effect :: rest)
    (spares : p.Spares effect) : Kept (p.called i t effect rest) := by
  have carried := called_carried kept running next spares
  have calls := kept.calls t (mem_of_running running)
  rw [next] at calls
  refine ⟨carried.once kept.once, carried.genuine kept.genuine, kept.fits_set called_threads (fun t' same => ?_),
    kept.calls_set called_threads le_rfl (fun t' same worker amount serial call => ?_), fun serial among => ?_⟩
  · obtain rfl := Option.some.inj same
    exact ((ownership.called next _).2 (kept.fits t (mem_of_running running))).2
  · obtain rfl := Option.some.inj same
    exact calls worker amount serial (List.mem_cons_of_mem _ call)
  · rcases run_logged among with old | ⟨worker, amount, rfl⟩
    · exact kept.logged serial old
    · exact calls worker amount serial List.mem_cons_self

theorem left_kept (kept : Kept p) (running : p.threads[i]? = some (some t)) (idle : t.pending = [])
    (stays : t.ending = false) : Kept (p.setThread i (some t.leave)) := by
  obtain ⟨same, fits⟩ := ownership.leave stays
  have threads : (p.setThread i (some t.leave)).threads = p.threads.set i (some t.leave) := rfl
  have carried : Carried p (p.setThread i (some t.leave)) :=
    .set running threads rfl rfl (fun worker own => same.trans own) rfl le_rfl
  refine ⟨carried.once kept.once, carried.genuine kept.genuine, kept.fits_set threads (fun t' new => ?_),
    kept.calls_set threads le_rfl (fun t' new worker amount serial call => ?_), kept.logged⟩
  · obtain rfl := Option.some.inj new
    exact fits (kept.fits t (mem_of_running running))
  · obtain rfl := Option.some.inj new
    unfold Thread.leave at call
    rw [idle] at call
    exact absurd call releaseIdentity_logs

/-- A session that is over has parked its record. -/
theorem closed_kept (kept : Kept p) (running : p.threads[i]? = some (some t)) (idle : t.pending = [])
    (ends : t.ending = true) : Kept (p.setThread i none) := by
  have nobody : p.owner (.session i) = none := by
    rw [owner_running running]
    exact (ownership.of_idle idle).trans (t.destined_ending ends)
  have threads : (p.setThread i none).threads = p.threads.set i none := rfl
  have emptied : (p.setThread i none).held (.session i) = [] := by
    rw [held_set running threads, if_pos rfl]
    rfl
  have others : ∀ place, place ≠ .session i → (p.setThread i none).held place = p.held place := by
    intro place apart
    cases place with
    | session j => rw [held_set running threads, if_neg (fun same => apart (congrArg _ same))]
    | parked worker => rfl
  have carried : Carried p (p.setThread i none) := by
    refine ⟨rfl, le_rfl, fun place entry among => ?_, fun k share _ _ place own sole => ?_⟩
    · left
      by_cases here : place = .session i
      · rw [here, emptied] at among
        cases among
      · rw [others place here] at among
        exact ⟨_, among⟩
    · have away : place ≠ .session i := by
        rintro rfl
        rw [nobody] at own
        cases own
      refine ⟨place, ?_, sole.stay (by rw [others place away]) (fun other => ?_)⟩
      · cases place with
        | session j =>
          rw [owner_set running threads, if_neg (fun same => away (congrArg _ same))]
          exact own
        | parked worker => exact own
      · by_cases here : other = .session i
        · rw [here, emptied]
          exact Nat.zero_le _
        · rw [others other here]
  exact ⟨carried.once kept.once, carried.genuine kept.genuine, kept.fits_set threads (fun _ same => by cases same),
    kept.calls_set threads le_rfl (fun _ same => by cases same), kept.logged⟩

theorem joined_kept (kept : Kept p) {peer : Peer} (record : peer.vardiff.shareTimes = [])
    (threads : q.threads = p.threads ++ [some { peer, pending := [], ending := false }]) (shared : q.shared = p.shared)
    (credited : q.credited = p.credited) (now : q.clock = p.clock) : Kept q := by
  have slot : ∀ j, q.thread? j = p.thread? j ∨
      p.thread? j = none ∧ q.thread? j = some { peer, pending := [], ending := false } := by
    intro j
    unfold thread?
    rw [threads]
    by_cases old : j < p.threads.length
    · rw [List.getElem?_append_left old]
      exact .inl rfl
    · rw [List.getElem?_append_right (Nat.not_lt.mp old), List.getElem?_eq_none (Nat.not_lt.mp old)]
      cases j - p.threads.length with
      | zero => exact .inr ⟨rfl, rfl⟩
      | succ _ => exact .inl rfl
  have carried : Carried p q := by
    refine .same (fun place => ?_) (fun place worker own => ?_) credited (by rw [now])
    · cases place with
      | session j =>
        dsimp only [held]
        rcases slot j with same | ⟨none, new⟩
        · rw [same]
        · rw [none, new]
          exact record
      | parked worker =>
        dsimp only [held]
        rw [shared]
    · cases place with
      | session j =>
        dsimp only [owner] at own ⊢
        rcases slot j with same | ⟨none, _⟩
        · rw [same]
          exact own
        · rw [none] at own
          cases own
      | parked _ => exact own
  have among_old : ∀ t, some t ∈ q.threads → some t ∈ p.threads ∨ t.pending = [] := by
    intro t among
    rw [threads] at among
    rcases List.mem_append.mp among with old | new
    · exact .inl old
    · obtain rfl := Option.some.inj (List.mem_singleton.mp new)
      exact .inr rfl
  refine ⟨carried.once kept.once, carried.genuine kept.genuine, fun t among => ?_, fun t among worker amount serial call => ?_,
    fun serial among => ?_⟩
  · rcases among_old t among with old | idle
    · exact kept.fits t old
    · unfold Track.Fits
      rw [idle]
      trivial
  · rw [credited]
    rcases among_old t among with old | idle
    · exact kept.calls t old worker amount serial call
    · rw [idle] at call
      cases call
  · rw [credited]
    rw [shared] at among
    exact kept.logged serial among

theorem pruneIdleWorkers_history (stats : PoolStats) (now : UInt64) (worker : String) :
    (stats.pruneIdleWorkers now).workerShareHistory worker =
      if stats.evicted now worker = true then none else stats.workerShareHistory worker := by
  unfold PoolStats.pruneIdleWorkers
  dsimp only
  split <;> rfl

theorem pruned_carried (spares : p.HandsOver .pruneIdleWorkers) :
    Carried p (p.updateStats (·.pruneIdleWorkers p.clock.unix)) := by
  have parked : ∀ worker, (p.updateStats (·.pruneIdleWorkers p.clock.unix)).held (.parked worker) =
      if p.shared.stats.evicted p.clock.unix worker = true then [] else p.held (.parked worker) := by
    intro worker
    dsimp only [held, updateStats]
    rw [pruneIdleWorkers_history]
    split <;> rfl
  refine ⟨rfl, le_rfl, fun place entry among => ?_, fun k share credit recent place own sole => ?_⟩
  · left
    cases place with
    | session j => exact ⟨.session j, among⟩
    | parked worker =>
      rw [parked] at among
      split at among
      · cases among
      · exact ⟨_, among⟩
  · refine ⟨place, own, sole.stay ?_ (fun other => ?_)⟩
    · cases place with
      | session j => rfl
      | parked worker =>
        obtain rfl : worker = share.worker := Option.some.inj own
        rw [parked, spares share (List.mem_of_getElem? credit) recent]
        rfl
    · cases other with
      | session j => exact le_rfl
      | parked worker =>
        rw [parked]
        split
        · exact Nat.zero_le _
        · exact le_rfl

theorem task_history {f : PoolStats → PoolStats} (task : Background clock a f) (other : a ≠ .pruneIdleWorkers)
    (stats : PoolStats) : (f stats).workerShareHistory = stats.workerShareHistory := by
  cases task with
  | flushShareLog =>
    dsimp only [PoolStats.flushShareLog]
    split
    · rfl
    · split <;> rfl
  | pruneIdleWorkers => exact absurd rfl other
  | recordHashrateSnapshot hps => rfl
  | blockFound worker hash height =>
    dsimp only [PoolStats.blockFound]
    split <;> rfl

theorem background_carried {f : PoolStats → PoolStats} (task : Background p.clock a f) (spares : p.HandsOver a) :
    Carried p (p.updateStats f) := by
  by_cases prunes : a = .pruneIdleWorkers
  · subst prunes
    cases task
    exact pruned_carried spares
  · refine .same (fun place => ?_) (fun _ _ own => own) rfl le_rfl
    cases place with
    | session j => rfl
    | parked worker =>
      dsimp only [held, updateStats]
      rw [task_history task prunes]

theorem step_kept (clamps : Vardiff.Clamps site.config.vardiff) (sound : Sound p) (kept : Kept p) (spares : p.HandsOver a)
    (taken : step p a = some q) : Kept q := by
  cases step_inv taken with
  | connect room =>
    refine joined_kept kept ?_ rfl rfl rfl rfl
    split <;> rfl
  | handle running idle stays handled => exact turned_kept sound kept running idle stays handled
  | panic running idle handled fails =>
    obtain ⟨turn, counters, ok⟩ := Peer.handle_ok clamps (sound _ (mem_of_running running)) handled
    exact absurd ok (fails _)
  | @call i t effect rest running next =>
    refine called_kept kept running next (spares effect ?_)
    rw [thread?_eq_some.mpr running, Option.bind_some, next]
    rfl
  | disconnect running idle stays => exact left_kept kept running idle stays
  | close running idle ends => exact closed_kept kept running idle ends
  | @tick unix passed =>
    have carried : Carried p { p with clock := { unix, instant := p.clock.instant + passed } } :=
      .same (fun place => by cases place <;> rfl) (fun place _ own => by cases place <;> exact own) rfl
        (Int.le_add_of_nonneg_right (Int.natCast_nonneg passed))
    exact ⟨carried.once kept.once, carried.genuine kept.genuine, kept.fits, kept.calls, kept.logged⟩
  | background task =>
    have carried := background_carried task spares
    exact ⟨carried.once kept.once, carried.genuine kept.genuine, kept.fits, kept.calls,
      fun serial among => kept.logged serial (task_logged task among)⟩

theorem boot_kept (db : Option Database) (clock : Clock) : Kept (boot db clock : Pool site) := by
  obtain ⟨loaded, ts, store, stats, log⟩ := @boot_stats site db clock
  have empty : ∀ place, (boot db clock : Pool site).held place = [] := by
    intro place
    cases place with
    | session j => rfl
    | parked worker =>
      dsimp only [held]
      rw [stats]
      rfl
  refine ⟨nofun, fun place entry among => ?_, fun _ among => absurd among List.not_mem_nil,
    fun _ among => absurd among List.not_mem_nil, fun serial among => ?_⟩
  · rw [empty] at among
    cases among
  · rw [stats] at among
    obtain ⟨row, stored, named⟩ := List.mem_map.mp among
    have unnamed := log row stored
    rw [unnamed] at named
    cases named

/-- In a run that parks no record over a share that still counts, reads none from the share log and evicts none, every
share credited in the last 24 hours is in one place: the record of one session of its worker or the worker's parked
record. -/
theorem history_in_one_place (valid : site.config.validate = .ok ()) (reached : Reach step HandsOver (boot db clock) p) :
    p.InOnePlace := by
  have clamps := validateVardiff_clamps (Config.validate_accepted valid).vardiff
  refine (reached.invariant Kept (boot_kept db clock) (fun s a t before kept spares taken => ?_)).once
  exact step_kept clamps (reach_sound before) kept spares taken

/-! ### A share on the test chain -/

instance (p : Pool site) : (effect : Effect) → Decidable (p.Spares effect)
  | .stashShareHistory _ | .takeShareHistory _ => by dsimp only [Spares]; infer_instance
  | .metric _ | .shareAccepted _ _ | .shareRejected | .blockFound _ _ _ | .logShare _ _ _ | .workerShareAccepted _ _
  | .workerShareRejected _ _ | .markWorkerSubmit _ | .markWorkerOnline _ _ | .markWorkerOffline _ | .setWorkerProtocol _ _
  | .updateWorkerVardiff _ _ => isTrue trivial

instance (p : Pool site) : (a : Action) → Decidable (p.HandsOver a)
  | .call _ | .pruneIdleWorkers => by dsimp only [HandsOver]; infer_instance
  | .connect _ | .handle _ _ _ | .disconnect _ | .close _ | .tick _ _ | .flushShareLog | .recordHashrateSnapshot _
  | .blockFound _ _ _ => isTrue trivial

def testReading : Reading where
  crates := mainnetCrates
  engine := (Engine.refresh testProcess testSettings true (.ok (testTemplate genesisHash "207fffff")) .new).1
  submission := .ok ()

/-- The session is credited a share and makes its calls. -/
def mines (i : Nat) : List Action :=
  .handle i testReading (.line true (.message (.submit
    { jobId := "0000000000000001", extranonce2 := [0, 0, 0, 7], ntime := 1700000000, nonce := 0, versionBits := none }))) ::
      List.replicate 7 (.call i)

def leaves (i : Nat) : List Action := [.disconnect i, .call i, .call i, .close i]

theorem history_in_one_place_reconnect : exampleConfig.validate = .ok () ∧
    ∃ p : Pool testSite, Reach step HandsOver (boot (some .create) testClock) p ∧
      copies 0 (p.held (.session 1)) = 1 ∧ p.InOnePlace := by
  have valid : exampleConfig.validate = .ok () := by decide
  refine ⟨valid, ?_⟩
  obtain ⟨p, reached, restored⟩ : ∃ p : Pool testSite, Reach step HandsOver (boot (some .create) testClock) p ∧
      copies 0 (p.held (.session 1)) = 1 :=
    Reach.of_run (joinsAs 0 "miner" ++ mines 0 ++ [.flushShareLog] ++ leaves 0 ++ [.pruneIdleWorkers] ++ joinsAs 1 "miner")
      (by decide +kernel)
  exact ⟨p, reached, restored, history_in_one_place valid reached⟩

/-- Two sessions of one worker end one after the other: the record of the second, which has no share, is parked over the
record of the first. -/
theorem parked_record_overwritten :
    ∃ p : Pool testSite, Reach step Always (boot none testClock) p ∧ ¬ p.InOnePlace := by
  obtain ⟨p, reached, credited, gone, lost⟩ : ∃ p : Pool testSite, Reach step Always (boot none testClock) p ∧
      (p.credited[0]?.any (fun share => share.worker == "miner" && p.recent share) = true ∧
        (∀ slot ∈ p.threads, slot.isSome = false) ∧ copies 0 (p.held (.parked "miner")) = 0) :=
    Reach.of_run (joinsAs 0 "miner" ++ joinsAs 1 "miner" ++ mines 0 ++ leaves 0 ++ leaves 1) (by decide +kernel)
  refine ⟨p, reached, fun once => ?_⟩
  obtain ⟨share, first, facts⟩ := (Option.any_eq_true _ _).mp credited
  obtain ⟨name, recent⟩ := Bool.and_eq_true_iff.mp facts
  obtain ⟨place, owner, sole⟩ := once 0 share first recent
  rw [beq_iff_eq.mp name] at owner
  cases place with
  | session j =>
    obtain ⟨t, running, _⟩ := Option.bind_eq_some_iff.mp owner
    cases gone (some t) (mem_of_running (thread?_eq_some.mp running))
  | parked worker =>
    obtain rfl := Option.some.inj owner
    have one := sole.here
    rw [lost] at one
    cases one

end Pool

end SoloPool
