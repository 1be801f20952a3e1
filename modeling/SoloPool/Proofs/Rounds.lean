import SoloPool.Stats.Concurrent

/-!
# Rounds under concurrent calls

Work moves from the running round through the `block_found` calls in progress into the list of found blocks and, by two
statements, into the database. `Advance` says once what a step of a call can do to these; what is in transit is read off
the phases of the calls.
-/

namespace SoloPool.Stats
open Lib

def recorded (blocks : List FoundBlock) : Nat := (blocks.map (·.roundWork)).sum

/-! ### Loading the database -/

/-- A column survives loading its rows one by one. -/
theorem mapM_column {α β γ : Type} {load : α → Option β} {column : α → γ} {field : β → γ}
    (kept : ∀ row value, load row = some value → field value = column row) {rows : List α} {values : List β}
    (loaded : rows.mapM load = some values) : values.map field = rows.map column := by
  induction rows generalizing values with
  | nil =>
    obtain rfl : [] = values := by simpa using loaded
    rfl
  | cons row rest ih =>
    simp only [List.mapM_cons, Option.bind_eq_bind, Option.bind_eq_some_iff, Option.pure_def, Option.some.injEq] at loaded
    obtain ⟨value, first, tail, others, rfl⟩ := loaded
    rw [List.map_cons, List.map_cons, kept row value first, ih others]

theorem FoundRow.load_kept {row : FoundRow} {block : FoundBlock} (loaded : row.load = some block) :
    block.hash = row.hash ∧ block.roundWork = row.roundWork := by
  simp only [load, Option.bind_eq_bind, Option.bind_eq_some_iff, Option.pure_def, Option.some.injEq] at loaded
  obtain ⟨height, _, ts, _, rfl⟩ := loaded
  exact ⟨rfl, rfl⟩

def Database.recorded (db : Database) : Nat := (db.foundBlocks.map (·.roundWork)).sum

theorem Database.loadValues_blocks {db : Database} {loaded : LoadedStats} (read : db.loadValues = some loaded) :
    (loaded.foundBlocks.map (·.hash)).Nodup ∧ Stats.recorded loaded.foundBlocks = db.recorded ∧
      loaded.roundWork = db.roundWork ∧ getU64 db.bestShareDifficulty = some loaded.bestShareDifficulty := by
  simp only [loadValues, Option.bind_eq_bind, Option.bind_eq_some_iff, Option.pure_def, Option.some.injEq] at read
  obtain ⟨best, bestRead, start, _, workers, _, blocks, rows, rfl⟩ := read
  have sorted := List.perm_insertionSort FoundRow.before db.foundBlocks
  refine ⟨?_, ?_, rfl, bestRead⟩
  · rw [mapM_column (fun _ _ loaded => (FoundRow.load_kept loaded).1) rows]
    exact (sorted.map _).nodup_iff.mpr db.keyed
  · unfold Stats.recorded recorded
    rw [mapM_column (fun _ _ loaded => (FoundRow.load_kept loaded).2) rows]
    exact (sorted.map _).sum_eq

/-- What a boot finds in the database, in memory and on disk. -/
structure Booted (p : PoolStats) : Prop where
  distinct : (p.foundBlocks.map (·.hash)).Nodup
  counted : p.blocksFound = p.foundBlocks.length
  persisted : ∀ db ∈ p.store, db.recorded = recorded p.foundBlocks ∧ db.roundWork = p.roundWork

theorem newWithStore_booted (db : Option Database) (now : UInt64) : Booted (.newWithStore db now) := by
  have empty : Booted (.ofLoaded .default 0 none) := ⟨List.nodup_nil, rfl, nofun⟩
  cases db with
  | none => exact empty
  | some db =>
    unfold PoolStats.newWithStore
    dsimp only
    split
    · exact empty
    · rename_i loaded read
      obtain ⟨distinct, blocks, work, _⟩ := Database.loadValues_blocks read
      split
      · refine ⟨distinct, rfl, ?_⟩
        rintro _ ⟨rfl⟩
        exact ⟨blocks.symm, rfl⟩
      · refine ⟨distinct, rfl, ?_⟩
        rintro _ ⟨rfl⟩
        exact ⟨blocks.symm, work.symm⟩

/-! ### What a step of a call can do -/

/-- What a call in progress carries: the work it has taken out of the round and not yet listed, the work it has yet to
add, whether it has counted a block it has yet to list, the hash it found to be new, the work it has yet to write as a
row, whether it has yet to reset the persisted round, and the difficulty it has yet to compare or to persist. -/
structure Transit where
  carried : Nat
  owed : Nat
  ahead : Nat
  claims : Option String
  unwritten : Option Nat
  resets : Bool
  raising : Option UInt64
  persisting : Option UInt64
  deriving DecidableEq

namespace Transit

def none : Transit :=
  { carried := 0, owed := 0, ahead := 0, claims := .none, unwritten := .none, resets := false, raising := .none,
    persisting := .none }

def sharing (difficulty : UInt64) (owed : Nat) : Transit := { none with owed, raising := some difficulty }

def closing (hash : String) (work ahead : Nat) : Transit :=
  { none with carried := work, ahead, claims := some hash, unwritten := some work }

end Transit

namespace Call

def transit : Call → Transit
  | .countShare difficulty credited | .loadRound difficulty credited | .addRound difficulty credited _ =>
    .sharing difficulty credited.toNat
  | .loadBest difficulty | .raiseBest difficulty _ => .sharing difficulty 0
  | .persistBest difficulty => { Transit.none with persisting := some difficulty }
  | .swapRound _ hash _ => { Transit.none with claims := some hash }
  | .loadDifficulty _ hash _ _ roundWork => .closing hash roundWork 0
  | .countBlock block => .closing block.hash block.roundWork 0
  | .storeLastWorker block | .storeLastHash block | .storeLastTs block | .storeRoundStart block | .pushBlock block =>
    .closing block.hash block.roundWork 1
  | .insertRow block => { Transit.none with unwritten := some block.roundWork }
  | .resetRound _ => { Transit.none with resets := true }
  | _ => .none

/-- The hash a call is about to look for on the list of found blocks. -/
def checks : Call → Option String
  | .checkHash _ hash _ => some hash
  | _ => none

end Call

/-- The database without the two tables that only grow by a clock. -/
def Database.ledger (db : Database) : Database := { db with hashrateHistory := [], shareLog := [] }

/-- The figures the calls keep, in memory and in the database. -/
structure Figures where
  roundWork : Nat
  foundBlocks : List FoundBlock
  blocksFound : Nat
  best : UInt64
  persisted : Option Database

def figures (p : PoolStats) : Figures where
  roundWork := p.roundWork
  foundBlocks := p.foundBlocks
  blocksFound := p.blocksFound
  best := p.bestShareDifficulty
  persisted := p.store.map Database.ledger

inductive Advance (add : Nat → UInt64 → Nat) (p : PoolStats) : Call → Progress → Prop where
  | idle {call : Call} {progress : Progress} (stats : figures progress.stats = figures p)
      (transit : progress.next.transit = call.transit) (credited : progress.credited = 0)
      (compared : ∀ difficulty prev, progress.next ≠ .raiseBest difficulty prev) : Advance add p call progress
  | added (difficulty credited : UInt64) : Advance add p (.addRound difficulty credited p.roundWork)
      { stats := { p with roundWork := add p.roundWork credited }, next := .loadBest difficulty, credited := credited.toNat }
  | looked {call : Call} (difficulty : UInt64) (transit : call.transit = .sharing difficulty 0) : Advance add p call
      { stats := p, next := .raiseBest difficulty p.bestShareDifficulty, credited := 0 }
  | raised (difficulty : UInt64) (above : p.bestShareDifficulty < difficulty) :
      Advance add p (.raiseBest difficulty p.bestShareDifficulty)
        { stats := { p with bestShareDifficulty := difficulty }, next := .persistBest difficulty, credited := 0 }
  | settled (difficulty prev : UInt64) (below : ¬ prev < difficulty) :
      Advance add p (.raiseBest difficulty prev) { stats := p, next := .loadSessionBest difficulty, credited := 0 }
  | persisted (difficulty : UInt64) : Advance add p (.persistBest difficulty)
      { stats := p.updateStore (·.setBestShareDifficulty difficulty), next := .loadSessionBest difficulty, credited := 0 }
  | checked (worker hash : String) (height : UInt64) (fresh : hash ∉ p.foundBlocks.map (·.hash)) :
      Advance add p (.checkHash worker hash height) { stats := p, next := .swapRound worker hash height, credited := 0 }
  | swapped (worker hash : String) (height now : UInt64) : Advance add p (.swapRound worker hash height)
      { stats := { p with roundWork := 0 }, next := .loadDifficulty worker hash height now p.roundWork, credited := 0 }
  | counted (block : FoundBlock) : Advance add p (.countBlock block)
      { stats := { p with blocksFound := p.blocksFound + 1 }, next := .storeLastWorker block, credited := 0 }
  | pushed (block : FoundBlock) : Advance add p (.pushBlock block)
      { stats := { p with foundBlocks := p.foundBlocks ++ [block] }, next := .insertRow block, credited := 0 }
  | inserted (block : FoundBlock) : Advance add p (.insertRow block)
      { stats := p.updateStore (·.insertFoundBlock block), next := .resetRound block, credited := 0 }
  | reset (block : FoundBlock) : Advance add p (.resetRound block)
      { stats := p.updateStore (·.setRound 0 block.ts), next := .done, credited := 0 }
  | wrote (work : Nat) (start : UInt64) : Advance add p (.writeRound work start)
      { stats := p.updateStore (·.setRound work start), next := .done, credited := 0 }

theorem figures_persisted {p q : PoolStats} (same : figures q = figures p) {α : Type} (read : Database → α)
    (ignores : ∀ db, read db.ledger = read db) : q.store.map read = p.store.map read := by
  have persisted := congrArg Figures.persisted same
  have through : ∀ p : PoolStats, p.store.map read = ((figures p).persisted).map read := by
    intro p
    unfold figures
    cases p.store with
    | none => rfl
    | some db => exact congrArg some (ignores db).symm
  rw [through, through, persisted]

theorem figures_updateStore (p : PoolStats) {f : Database → Database} (same : ∀ db, (f db).ledger = db.ledger) :
    figures (p.updateStore f) = figures p := by
  unfold figures PoolStats.updateStore
  cases p.store with
  | none => rfl
  | some db => simp [same]

variable {add : Nat → UInt64 → Nat} {p : PoolStats} {now : UInt64} {spurious : Bool} {call : Call} {progress : Progress}

theorem advance_inv (taken : call.advance add p now spurious = some progress) : Advance add p call progress := by
  cases call with
  | addRound difficulty credited prev =>
    simp only [Call.advance] at taken
    split at taken
    · rename_i expected
      obtain rfl := Option.some.inj taken
      obtain ⟨rfl, _⟩ := expected
      exact .added difficulty credited
    · obtain rfl := Option.some.inj taken
      exact .idle rfl rfl rfl nofun
  | loadBest difficulty =>
    obtain rfl := Option.some.inj taken
    exact .looked difficulty rfl
  | raiseBest difficulty prev =>
    simp only [Call.advance] at taken
    split at taken
    · rename_i above
      split at taken
      · rename_i expected
        obtain rfl := Option.some.inj taken
        obtain ⟨rfl, _⟩ := expected
        exact .raised difficulty above
      · obtain rfl := Option.some.inj taken
        exact .looked difficulty rfl
    · rename_i below
      obtain rfl := Option.some.inj taken
      exact .settled difficulty prev below
  | persistBest difficulty =>
    obtain rfl := Option.some.inj taken
    exact .persisted difficulty
  | raiseSessionBest difficulty prev =>
    simp only [Call.advance] at taken
    split at taken
    · split at taken <;> (obtain rfl := Option.some.inj taken; exact .idle rfl rfl rfl nofun)
    · obtain rfl := Option.some.inj taken
      exact .idle rfl rfl rfl nofun
  | checkHash worker hash height =>
    simp only [Call.advance] at taken
    obtain rfl := Option.some.inj taken
    split
    · exact .idle rfl rfl rfl nofun
    · rename_i fresh
      refine .checked worker hash height ?_
      simpa using fresh
  | swapRound worker hash height =>
    obtain rfl := Option.some.inj taken
    exact .swapped worker hash height now
  | countBlock block =>
    obtain rfl := Option.some.inj taken
    exact .counted block
  | pushBlock block =>
    obtain rfl := Option.some.inj taken
    exact .pushed block
  | insertRow block =>
    obtain rfl := Option.some.inj taken
    exact .inserted block
  | resetRound block =>
    obtain rfl := Option.some.inj taken
    exact .reset block
  | insertHashrate ts hps | pruneHashrates ts =>
    obtain rfl := Option.some.inj taken
    exact .idle (figures_updateStore p (fun _ => rfl)) rfl rfl nofun
  | writeRound work start =>
    obtain rfl := Option.some.inj taken
    exact .wrote work start
  | done => cases taken
  | _ =>
    obtain rfl := Option.some.inj taken
    exact .idle rfl rfl rfl nofun

/-! ### Uninterrupted calls -/

theorem finish_shareAccepted (p : PoolStats) (difficulty credited now : UInt64) :
    Call.finish addWork now 8 p (Method.shareAccepted difficulty credited).entry = some (p.shareAccepted difficulty credited) := by
  simp only [Method.entry, Call.finish, Call.advance, PoolStats.shareAccepted, PoolStats.updateStore]
  by_cases higher : difficulty > p.bestShareDifficulty <;>
    by_cases session : difficulty > p.sessionBestShareDifficulty <;> simp [higher, session]

theorem finish_blockFound (add : Nat → UInt64 → Nat) (p : PoolStats) (worker hash : String) (height now : UInt64) :
    Call.finish add now 11 p (Method.blockFound worker hash height).entry = some (p.blockFound worker hash height now) := by
  simp only [Method.entry, Call.finish, Call.advance, PoolStats.blockFound, PoolStats.updateStore]
  cases p.foundBlocks.any (fun block => block.hash == hash) with
  | true => rfl
  | false =>
    simp only [Bool.false_eq_true, if_false, Option.map_map]
    rfl

theorem finish_recordHashrateSnapshot (add : Nat → UInt64 → Nat) (p : PoolStats) (ts now : UInt64) (hps : F64) :
    Call.finish add now 5 p (Method.recordHashrateSnapshot ts hps).entry = some (p.recordHashrateSnapshot ts hps) := by
  simp only [Method.entry, Call.finish, Call.advance, PoolStats.recordHashrateSnapshot, PoolStats.persistRoundState,
    PoolStats.updateStore, Option.map_map]
  rfl

namespace Calls

variable {s t : Calls} {a : Action} {base : Nat} {good : Calls → Action → Prop}

inductive Step (add : Nat → UInt64 → Nat) (s : Calls) : Action → Calls → Prop where
  | call (method : Method) :
      Step add s (.call method) { s with calls := s.calls ++ [method.entry], called := s.called ++ [method] }
  | run {i : Nat} {now : UInt64} {spurious : Bool} {call : Call} {progress : Progress} (running : s.calls[i]? = some call)
      (moved : Advance add s.stats call progress) : Step add s (.run i now spurious) { s with
        stats := progress.stats, calls := s.calls.set i progress.next, credited := s.credited + progress.credited }
  | setNetworkDifficulty (difficulty : F64) :
      Step add s (.setNetworkDifficulty difficulty) { s with stats := { s.stats with networkDifficulty := difficulty } }

theorem step_inv (taken : step add s a = some t) : Step add s a t := by
  cases a with
  | call method =>
    obtain rfl := Option.some.inj taken
    exact .call method
  | run i now spurious =>
    simp only [step, Option.bind_eq_bind, Option.bind_eq_some_iff, Option.pure_def, Option.some.injEq] at taken
    obtain ⟨call, running, progress, moved, rfl⟩ := taken
    exact .run running (advance_inv moved)
  | setNetworkDifficulty difficulty =>
    obtain rfl := Option.some.inj taken
    exact .setNetworkDifficulty difficulty

/-! ### No work is lost -/

def total (f : Transit → Nat) (calls : List Call) : Nat := (calls.map (fun call => f call.transit)).sum

theorem total_set {i : Nat} {call : Call} (f : Transit → Nat) (running : s.calls[i]? = some call) (next : Call) :
    total f (s.calls.set i next) + f call.transit = total f s.calls + f next.transit :=
  sum_set (fun call : Call => f call.transit) running next

theorem total_append (f : Transit → Nat) (calls : List Call) (next : Call) :
    total f (calls ++ [next]) = total f calls + f next.transit := by
  simp [total]

theorem total_quiet (f : Transit → Nat) (blank : f Transit.none = 0) (quiet : s.Quiet) : total f s.calls = 0 := by
  apply List.sum_eq_zero
  intro n member
  obtain ⟨call, running, rfl⟩ := List.mem_map.mp member
  obtain rfl := quiet call running
  exact blank

structure Accounted (base : Nat) (s : Calls) : Prop where
  listed : s.stats.blocksFound = s.stats.foundBlocks.length + total Transit.ahead s.calls
  kept : recorded s.stats.foundBlocks + total Transit.carried s.calls + s.stats.roundWork = s.credited
  credited : s.credited + total Transit.owed s.calls = base + (s.called.map Method.credited).sum

theorem entry_transit (method : Method) :
    method.entry.transit.ahead = 0 ∧ method.entry.transit.carried = 0 ∧ method.entry.transit.owed = method.credited := by
  cases method <;> exact ⟨rfl, rfl, rfl⟩

theorem step_accounted (inv : Accounted base s) (taken : step exactWork s a = some t) : Accounted base t := by
  cases step_inv taken with
  | call method =>
    obtain ⟨ahead, carried, owed⟩ := entry_transit method
    constructor
    · simpa only [total_append, ahead, Nat.add_zero] using inv.listed
    · simpa only [total_append, carried, Nat.add_zero] using inv.kept
    · simp only [total_append, owed, List.map_append, List.map_singleton, List.sum_append, List.sum_singleton]
      have := inv.credited
      omega
  | @run i now spurious call progress running moved =>
    have ahead := total_set Transit.ahead running progress.next
    have carried := total_set Transit.carried running progress.next
    have owed := total_set Transit.owed running progress.next
    obtain ⟨listed, kept, credited⟩ := inv
    cases moved with
    | idle stats transit none compared =>
      have round := congrArg Figures.roundWork stats
      have found := congrArg Figures.foundBlocks stats
      have count := congrArg Figures.blocksFound stats
      simp only [figures] at round found count
      rw [transit] at ahead carried owed
      constructor <;> simp only [round, found, count, none] <;> omega
    | pushed block =>
      simp only [Call.transit, Transit.closing, Transit.none] at ahead carried owed
      constructor <;> simp only [recorded, List.map_append, List.map_singleton, List.sum_append, List.sum_singleton,
        List.length_append, List.length_singleton] at kept ⊢ <;> omega
    | looked difficulty same =>
      rw [same] at ahead carried owed
      simp only [Call.transit] at ahead carried owed
      constructor <;> dsimp only <;> omega
    | added difficulty credited =>
      simp only [Call.transit, Transit.sharing, Transit.none] at ahead carried owed
      constructor <;> simp only [exactWork] <;> omega
    | _ =>
      simp only [Call.transit, Transit.closing, Transit.sharing, Transit.none, PoolStats.updateStore] at *
      constructor <;> dsimp only <;> omega
  | setNetworkDifficulty difficulty => exact ⟨inv.listed, inv.kept, inv.credited⟩

/-! ### Each block is listed once -/

def claimed (calls : List Call) : List String := calls.filterMap (fun call => call.transit.claims)

/-- A call looks for its hash on the list only while no other call has found the same hash missing and has yet to list
it. -/
def Exclusive (s : Calls) : Action → Prop
  | .run i _ _ => ∀ call ∈ s.calls[i]?, ∀ hash ∈ call.checks, hash ∉ claimed s.calls
  | _ => True

def Distinct (s : Calls) : Prop := (s.stats.foundBlocks.map (·.hash) ++ claimed s.calls).Nodup

theorem claimed_append (calls : List Call) (method : Method) : claimed (calls ++ [method.entry]) = claimed calls := by
  unfold claimed
  rw [List.filterMap_append]
  cases method <;> exact List.append_nil _

theorem step_distinct (inv : Distinct s) (meets : Exclusive s a) (taken : step add s a = some t) : Distinct t := by
  cases step_inv taken with
  | call method =>
    unfold Distinct at inv ⊢
    rwa [claimed_append]
  | @run i now spurious call progress running moved =>
    have before := filterMap_tasks (fun call : Call => call.transit.claims) running
    have after := filterMap_set (fun call : Call => call.transit.claims) running progress.next
    have old := (before.append_left (s.stats.foundBlocks.map FoundBlock.hash)).nodup_iff.mp inv
    apply (after.append_left _).nodup_iff.mpr
    cases moved with
    | idle stats transit none compared =>
      have found := congrArg Figures.foundBlocks stats
      simp only [figures] at found
      rw [found, transit]
      exact old
    | checked worker hash height fresh =>
      have unclaimed := meets _ running hash rfl
      rw [claimed, before.mem_iff] at unclaimed
      apply List.nodup_middle.mpr
      exact List.nodup_cons.mpr ⟨by rw [List.mem_append]; exact not_or.mpr ⟨fresh, unclaimed⟩, old⟩
    | pushed block =>
      rw [List.map_append, List.append_assoc]
      exact old
    | looked difficulty same =>
      rw [same] at old
      exact old
    | _ => exact old
  | setNetworkDifficulty difficulty => exact inv

theorem boot_accounted (db : Option Database) (now : UInt64) : Accounted (boot db now).credited (boot db now) := by
  refine ⟨(newWithStore_booted db now).counted, ?_, rfl⟩
  exact Nat.add_right_comm _ _ _

theorem boot_distinct (db : Option Database) (now : UInt64) : Distinct (boot db now) := by
  unfold Distinct
  rw [show claimed (boot db now).calls = [] from rfl, List.append_nil]
  exact (newWithStore_booted db now).distinct

theorem reach_accounted {db : Option Database} {now : UInt64} (reached : Reach (step exactWork) good (boot db now) s) :
    Accounted (boot db now).credited s :=
  reached.invariant _ (boot_accounted db now) (fun _ _ _ _ inv _ taken => step_accounted inv taken)

/-- Found blocks are listed once and counted once, and no credited work is lost or counted twice, whatever runs side by
side, as long as the checks for one hash do not overlap. The additions are taken as exact. -/
theorem rounds_accounted {db : Option Database} {now : UInt64} (reached : Reach (step exactWork) Exclusive (boot db now) s) :
    (s.stats.foundBlocks.map (·.hash)).Nodup ∧
    (s.Quiet → s.stats.blocksFound = s.stats.foundBlocks.length) ∧
    (s.Quiet → recorded s.stats.foundBlocks + s.stats.roundWork =
      (boot db now).credited + (s.called.map Method.credited).sum) ∧
    recorded s.stats.foundBlocks + total Transit.carried s.calls + s.stats.roundWork = s.credited := by
  have inv := reach_accounted reached
  have distinct : Distinct s :=
    reached.invariant _ (boot_distinct db now) (fun _ _ _ _ inv meets taken => step_distinct inv meets taken)
  refine ⟨(List.nodup_append.mp distinct).1, ?_, ?_, inv.kept⟩
  · intro quiet
    rw [inv.listed, total_quiet Transit.ahead rfl quiet, Nat.add_zero]
  · intro quiet
    have kept := inv.kept
    have credited := inv.credited
    rw [total_quiet Transit.carried rfl quiet] at kept
    rw [total_quiet Transit.owed rfl quiet] at credited
    omega

instance (s : Calls) : (a : Action) → Decidable (Exclusive s a)
  | .run i _ _ => inferInstanceAs (Decidable (∀ call ∈ s.calls[i]?, ∀ hash ∈ call.checks, hash ∉ claimed s.calls))
  | .call _ | .setNetworkDifficulty _ => isTrue trivial

/-- Steps of one call, at second 0 and without spurious failures. -/
def runs (i n : Nat) : List Action := List.replicate n (.run i 0 false)

theorem rounds_accounted_credited_again :
    ∃ s, Reach (step exactWork) Exclusive (boot none 0) s ∧ s.Quiet ∧ s.stats.foundBlocks.map (·.hash) = ["aa"] ∧
      recorded s.stats.foundBlocks + s.stats.roundWork = 17 := by
  obtain ⟨s, reached, quiet, blocks, work⟩ : ∃ s, Reach (step exactWork) Exclusive (boot none 0) s ∧ s.Quiet ∧
      s.stats.foundBlocks.map (·.hash) = ["aa"] ∧ (s.called.map Method.credited).sum = 17 :=
    Reach.of_run ([.call (.shareAccepted 10 10)] ++ runs 0 8 ++
      [.call (.blockFound "w1" "aa" 100), .call (.shareAccepted 7 7)] ++ runs 1 3 ++ runs 2 7 ++ runs 1 8 ++
      [.call (.blockFound "w1" "aa" 100)] ++ runs 3 1) (by decide +kernel)
  obtain ⟨_, _, kept, _⟩ := rounds_accounted reached
  exact ⟨s, reached, quiet, blocks, (kept quiet).trans (by rw [work]; rfl)⟩

/-- Inline success and the background retrier both look for the hash before either lists it. -/
theorem block_listed_twice :
    ∃ s, Reach (step exactWork) Always (boot none 0) s ∧ s.Quiet ∧ s.stats.foundBlocks.map (·.hash) = ["aa", "aa"] :=
  Reach.of_run ([.call (.blockFound "w1" "aa" 100), .call (.blockFound "w1" "aa" 100)] ++ runs 0 1 ++ runs 1 1 ++
    runs 0 10 ++ runs 1 10) (by decide +kernel)

end Calls

end SoloPool.Stats
