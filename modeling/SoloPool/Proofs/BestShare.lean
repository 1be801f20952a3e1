import SoloPool.Proofs.Rounds

/-!
# The best share under concurrent calls

The maximum in memory is raised by compare-exchange and written to the database afterwards, in any order. The database
is behind only while the call that set the maximum has yet to write it.
-/

namespace SoloPool.Stats
open Lib

/-! ### The column -/

theorem dbU64_mono {a b : UInt64} (le : a ≤ b) : dbU64 a ≤ dbU64 b := by
  have := UInt64.le_iff_toNat_le.mp le
  unfold dbU64
  omega

theorem dbU64_nonneg (v : UInt64) : 0 ≤ dbU64 v := by
  unfold dbU64
  omega

theorem setBestShareDifficulty_best (db : Database) (difficulty : UInt64) :
    (db.setBestShareDifficulty difficulty).bestShareDifficulty = max db.bestShareDifficulty (dbU64 difficulty) := by
  unfold Database.setBestShareDifficulty
  split
  · dsimp only
    omega
  · omega

/-- Every column of an unsigned value holds one, so that loading succeeds. -/
structure Database.Readable (db : Database) : Prop where
  best : 0 ≤ db.bestShareDifficulty
  start : 0 ≤ db.roundStartTs
  blocks : ∀ row ∈ db.foundBlocks, 0 ≤ row.height ∧ 0 ≤ row.ts
  workers : ∀ row ∈ db.workerBestShares, 0 ≤ row.2

theorem mapM_isSome {α β : Type} {load : α → Option β} {rows : List α} (each : ∀ row ∈ rows, (load row).isSome) :
    (rows.mapM load).isSome := by
  induction rows with
  | nil => simp
  | cons row rest ih =>
    obtain ⟨value, first⟩ := Option.isSome_iff_exists.mp (each row List.mem_cons_self)
    obtain ⟨values, others⟩ := Option.isSome_iff_exists.mp (ih (fun r among => each r (List.mem_cons_of_mem _ among)))
    simp [List.mapM_cons, first, others]

theorem getU64_isSome {v : Int} : (getU64 v).isSome ↔ 0 ≤ v := by
  unfold getU64
  split <;> simp_all

theorem Database.Readable.loads {db : Database} (readable : db.Readable) : ∃ loaded, db.loadValues = some loaded := by
  obtain ⟨best, bestRead⟩ := Option.isSome_iff_exists.mp (getU64_isSome.mpr readable.best)
  obtain ⟨start, startRead⟩ := Option.isSome_iff_exists.mp (getU64_isSome.mpr readable.start)
  have workers : (db.workerBestShares.mapM (fun row => (getU64 row.2).map (row.1, ·))).isSome := by
    apply mapM_isSome
    intro row among
    rw [Option.isSome_map]
    exact getU64_isSome.mpr (readable.workers row among)
  have blocks : ((db.foundBlocks.insertionSort FoundRow.before).mapM FoundRow.load).isSome := by
    apply mapM_isSome
    intro row among
    obtain ⟨high, low⟩ := readable.blocks row ((List.perm_insertionSort _ _).mem_iff.mp among)
    obtain ⟨height, heightRead⟩ := Option.isSome_iff_exists.mp (getU64_isSome.mpr high)
    obtain ⟨ts, tsRead⟩ := Option.isSome_iff_exists.mp (getU64_isSome.mpr low)
    simp [FoundRow.load, heightRead, tsRead]
  obtain ⟨workersLoaded, workersRead⟩ := Option.isSome_iff_exists.mp workers
  obtain ⟨blocksLoaded, blocksRead⟩ := Option.isSome_iff_exists.mp blocks
  exact ⟨_, by simp only [loadValues, bestRead, startRead, workersRead, blocksRead, Option.bind_eq_bind, Option.bind_some]; rfl⟩

def Call.compared : Call → Option UInt64
  | .raiseBest _ prev => some prev
  | _ => none

namespace Calls

variable {add : Nat → UInt64 → Nat} {s t : Calls} {a : Action} {initial : UInt64}

def difficulties (s : Calls) : List UInt64 := s.called.filterMap Method.difficulty?

/-! ### The maximum in memory -/

structure Raised (initial : UInt64) (s : Calls) : Prop where
  above : initial ≤ s.stats.bestShareDifficulty
  among : s.stats.bestShareDifficulty = initial ∨ s.stats.bestShareDifficulty ∈ s.difficulties
  called : ∀ call ∈ s.calls, ∀ difficulty ∈ call.transit.raising, difficulty ∈ s.difficulties
  reached : ∀ difficulty ∈ s.difficulties, difficulty ≤ s.stats.bestShareDifficulty ∨
    ∃ call ∈ s.calls, call.transit.raising = some difficulty
  compared : ∀ call ∈ s.calls, ∀ prev ∈ call.compared, prev ≤ s.stats.bestShareDifficulty

/-- A step of one call that leaves the maximum in place. -/
theorem Raised.move {i : Nat} {call next : Call} (inv : Raised initial s) (running : s.calls[i]? = some call)
    (calls : t.calls = s.calls.set i next) (called : t.called = s.called)
    (best : t.stats.bestShareDifficulty = s.stats.bestShareDifficulty)
    (raising : ∀ difficulty ∈ next.transit.raising, call.transit.raising = some difficulty)
    (settled : ∀ difficulty, call.transit.raising = some difficulty →
      next.transit.raising = some difficulty ∨ difficulty ≤ s.stats.bestShareDifficulty)
    (compared : ∀ prev ∈ next.compared, prev ≤ s.stats.bestShareDifficulty) : Raised initial t := by
  have same : t.difficulties = s.difficulties := by
    unfold difficulties
    rw [called]
  constructor
  · rw [best]
    exact inv.above
  · rw [best, same]
    exact inv.among
  · rw [calls, same]
    refine forall_set inv.called ?_
    intro difficulty rises
    exact inv.called call (mem_of_running running) difficulty (raising difficulty rises)
  · intro difficulty member
    rw [best, calls]
    rw [same] at member
    rcases inv.reached difficulty member with below | rising
    · exact .inl below
    · by_cases own : call.transit.raising = some difficulty
      · rcases settled difficulty own with still | below
        · exact .inr ⟨next, (mem_set running).mpr (.inl rfl), still⟩
        · exact .inl below
      · exact .inr (exists_set running rising (fun rises => absurd rises own))
  · rw [best, calls]
    exact forall_set inv.compared compared

theorem step_raised (inv : Raised initial s) (taken : step add s a = some t) : Raised initial t := by
  cases step_inv taken with
  | call method =>
    have rises : method.entry.transit.raising = method.difficulty? := by cases method <;> rfl
    have more : ∀ difficulty, difficulty ∈ (s.called ++ [method]).filterMap Method.difficulty? ↔
        difficulty ∈ s.difficulties ∨ method.difficulty? = some difficulty := by
      intro difficulty
      rw [List.filterMap_append, List.mem_append]
      cases h : method.difficulty? <;> simp [difficulties, h, eq_comm]
    constructor
    · exact inv.above
    · exact inv.among.imp id (fun member => (more _).mpr (.inl member))
    · refine forall_append ?_ ?_
      · intro call running difficulty rising
        exact (more _).mpr (.inl (inv.called call running difficulty rising))
      · intro difficulty rising
        rw [rises] at rising
        exact (more _).mpr (.inr rising)
    · intro difficulty member
      rcases (more _).mp member with old | new
      · exact (inv.reached difficulty old).imp id
          (fun ⟨call, running, rising⟩ => ⟨call, List.mem_append_left _ running, rising⟩)
      · exact .inr ⟨method.entry, List.mem_append_right _ (List.mem_singleton.mpr rfl), rises.trans new⟩
    · refine forall_append inv.compared ?_
      intro prev held
      cases method <;> cases held
  | @run i now spurious call progress running moved =>
    cases moved with
    | idle stats transit none compared =>
      refine inv.move running rfl rfl (congrArg Figures.best stats) ?_ ?_ ?_
      · rw [transit]
        exact fun _ rises => rises
      · rw [transit]
        exact fun _ rises => .inl rises
      · intro prev held
        cases next : progress.next with
        | raiseBest difficulty prev => exact absurd next (compared difficulty prev)
        | _ => rw [next] at held; cases held
    | added difficulty credited =>
      exact inv.move running rfl rfl rfl (fun _ rises => rises) (fun _ rises => .inl rises) nofun
    | looked difficulty same =>
      refine inv.move running rfl rfl rfl ?_ ?_ ?_
      · rw [same]
        exact fun _ rises => rises
      · rw [same]
        exact fun _ rises => .inl rises
      · rintro _ ⟨⟩
        exact UInt64.le_refl _
    | raised difficulty higher =>
      have grown := UInt64.le_of_lt higher
      have own := inv.called _ (mem_of_running running) difficulty rfl
      constructor
      · exact UInt64.le_trans inv.above grown
      · exact .inr own
      · exact forall_set inv.called nofun
      · intro other member
        dsimp only
        rcases inv.reached other member with below | rising
        · exact .inl (UInt64.le_trans below grown)
        · by_cases same : other = difficulty
          · exact .inl (same ▸ UInt64.le_refl _)
          · refine .inr (exists_set running rising (fun rises => ?_))
            exact absurd (Option.some.inj rises).symm same
      · refine forall_set ?_ nofun
        intro call among prev held
        exact UInt64.le_trans (inv.compared call among prev held) grown
    | settled difficulty prev below =>
      refine inv.move running rfl rfl rfl nofun ?_ nofun
      rintro _ ⟨⟩
      have seen := inv.compared _ (mem_of_running running) prev rfl
      exact .inr (UInt64.le_trans (UInt64.not_lt.mp below) seen)
    | _ => exact inv.move running rfl rfl rfl nofun nofun nofun
  | setNetworkDifficulty difficulty => exact ⟨inv.above, inv.among, inv.called, inv.reached, inv.compared⟩

/-! ### The maximum in the database -/

structure Persisted (s : Calls) : Prop where
  pending : ∀ call ∈ s.calls, ∀ difficulty ∈ call.transit.persisting, difficulty ≤ s.stats.bestShareDifficulty
  behind : ∀ db ∈ s.stats.store, db.bestShareDifficulty ≤ dbU64 s.stats.bestShareDifficulty
  caught : ∀ db ∈ s.stats.store, dbU64 s.stats.bestShareDifficulty ≤ db.bestShareDifficulty ∨
    ∃ call ∈ s.calls, call.transit.persisting = some s.stats.bestShareDifficulty
  readable : ∀ db ∈ s.stats.store, db.Readable

theorem Persisted.move {i : Nat} {call next : Call} (inv : Persisted s) (running : s.calls[i]? = some call)
    (calls : t.calls = s.calls.set i next) (best : t.stats.bestShareDifficulty = s.stats.bestShareDifficulty)
    (columns : ∀ db ∈ t.stats.store, ∃ old ∈ s.stats.store, db.bestShareDifficulty = old.bestShareDifficulty ∧
      (old.Readable → db.Readable))
    (persisting : next.transit.persisting = call.transit.persisting) : Persisted t := by
  constructor
  · rw [best, calls]
    refine forall_set inv.pending ?_
    rw [persisting]
    exact inv.pending call (mem_of_running running)
  · intro db stored
    obtain ⟨old, was, same, _⟩ := columns db stored
    rw [best, same]
    exact inv.behind old was
  · intro db stored
    obtain ⟨old, was, same, _⟩ := columns db stored
    rw [best, same, calls]
    refine (inv.caught old was).imp id (fun pending => exists_set running pending ?_)
    rw [persisting]
    exact id
  · intro db stored
    obtain ⟨old, was, _, readable⟩ := columns db stored
    exact readable (inv.readable old was)

theorem updateStore_columns (p : PoolStats) {f : Database → Database}
    (best : ∀ db, (f db).bestShareDifficulty = db.bestShareDifficulty) (readable : ∀ db, db.Readable → (f db).Readable) :
    ∀ db ∈ (p.updateStore f).store, ∃ old ∈ p.store, db.bestShareDifficulty = old.bestShareDifficulty ∧
      (old.Readable → db.Readable) := by
  intro db stored
  obtain ⟨old, was, rfl⟩ := Option.map_eq_some_iff.mp stored
  exact ⟨old, was, best old, readable old⟩

theorem setRound_readable (work : Nat) (start : UInt64) (db : Database) (readable : db.Readable) :
    (db.setRound work start).Readable :=
  { best := readable.best, start := dbU64_nonneg start, blocks := readable.blocks, workers := readable.workers }

theorem insertFoundBlock_best (block : FoundBlock) (db : Database) :
    (db.insertFoundBlock block).bestShareDifficulty = db.bestShareDifficulty := by
  unfold Database.insertFoundBlock
  split <;> rfl

theorem insertFoundBlock_readable (block : FoundBlock) (db : Database) (readable : db.Readable) :
    (db.insertFoundBlock block).Readable := by
  unfold Database.insertFoundBlock
  split
  · exact readable
  · refine { best := readable.best, start := readable.start, blocks := ?_, workers := readable.workers }
    exact forall_append readable.blocks ⟨dbU64_nonneg _, dbU64_nonneg _⟩

theorem setBestShareDifficulty_readable (difficulty : UInt64) (db : Database) (readable : db.Readable) :
    (db.setBestShareDifficulty difficulty).Readable := by
  have best := setBestShareDifficulty_best db difficulty
  have low := readable.best
  unfold Database.setBestShareDifficulty at best ⊢
  split
  · exact { best := dbU64_nonneg _, start := readable.start, blocks := readable.blocks, workers := readable.workers }
  · exact readable

theorem step_persisted (inv : Persisted s) (taken : step add s a = some t) : Persisted t := by
  cases step_inv taken with
  | call method =>
    have blank : method.entry.transit.persisting = none := by cases method <;> rfl
    refine ⟨forall_append inv.pending ?_, inv.behind, ?_, inv.readable⟩
    · rw [blank]
      exact nofun
    · intro db stored
      exact (inv.caught db stored).imp id (fun ⟨call, running, held⟩ => ⟨call, List.mem_append_left _ running, held⟩)
  | @run i now spurious call progress running moved =>
    have unchanged : ∀ db ∈ s.stats.store, ∃ old ∈ s.stats.store, db.bestShareDifficulty = old.bestShareDifficulty ∧
        (old.Readable → db.Readable) := fun db stored => ⟨db, stored, rfl, id⟩
    cases moved with
    | idle stats transit none compared =>
      refine inv.move running rfl (congrArg Figures.best stats) ?_ (congrArg Transit.persisting transit)
      intro db stored
      have ledgers := figures_persisted stats Database.ledger (fun _ => rfl)
      rw [Option.mem_def.mp stored] at ledgers
      obtain ⟨old, was, same⟩ := Option.map_eq_some_iff.mp ledgers.symm
      have blocks := congrArg Database.foundBlocks same
      have start := congrArg Database.roundStartTs same
      have workers := congrArg Database.workerBestShares same
      have best := congrArg Database.bestShareDifficulty same
      dsimp only [Database.ledger] at blocks start workers best
      refine ⟨old, was, best.symm, fun readable => ?_⟩
      exact ⟨best ▸ readable.best, start ▸ readable.start, blocks ▸ readable.blocks, workers ▸ readable.workers⟩
    | looked difficulty same => exact inv.move running rfl rfl unchanged (by rw [same]; rfl)
    | raised difficulty higher =>
      have grown := UInt64.le_of_lt higher
      constructor
      · refine forall_set ?_ ?_
        · intro call among held pending
          exact UInt64.le_trans (inv.pending call among held pending) grown
        · rintro _ ⟨⟩
          exact UInt64.le_refl _
      · intro db stored
        exact (inv.behind db stored).trans (dbU64_mono grown)
      · intro db stored
        exact .inr ⟨_, (mem_set running).mpr (.inl rfl), rfl⟩
      · exact inv.readable
    | persisted difficulty =>
      have below := inv.pending _ (mem_of_running running) difficulty rfl
      constructor
      · exact forall_set inv.pending nofun
      · intro db stored
        obtain ⟨old, was, rfl⟩ := Option.map_eq_some_iff.mp stored
        rw [setBestShareDifficulty_best]
        exact max_le (inv.behind old was) (dbU64_mono below)
      · intro db stored
        obtain ⟨old, was, rfl⟩ := Option.map_eq_some_iff.mp stored
        rw [setBestShareDifficulty_best]
        rcases inv.caught old was with caught | pending
        · exact .inl (caught.trans (le_max_left _ _))
        · by_cases own : difficulty = s.stats.bestShareDifficulty
          · exact .inl (own ▸ le_max_right _ _)
          · exact .inr (exists_set running pending (fun held => absurd (Option.some.inj held) own))
      · intro db stored
        obtain ⟨old, was, rfl⟩ := Option.map_eq_some_iff.mp stored
        exact setBestShareDifficulty_readable difficulty old (inv.readable old was)
    | inserted block =>
      exact inv.move running rfl rfl
        (updateStore_columns _ (insertFoundBlock_best block) (insertFoundBlock_readable block)) rfl
    | reset block | wrote work start =>
      exact inv.move running rfl rfl (updateStore_columns _ (fun _ => rfl) (setRound_readable _ _)) rfl
    | _ => exact inv.move running rfl rfl unchanged rfl
  | setNetworkDifficulty difficulty => exact ⟨inv.pending, inv.behind, inv.caught, inv.readable⟩

/-! ### Growth -/

/-- Neither maximum falls. -/
def Grows (p q : PoolStats) : Prop :=
  p.bestShareDifficulty ≤ q.bestShareDifficulty ∧
    ∀ db ∈ p.store, ∃ later ∈ q.store, db.bestShareDifficulty ≤ later.bestShareDifficulty

theorem Grows.refl (p : PoolStats) : Grows p p := ⟨UInt64.le_refl _, fun db stored => ⟨db, stored, Int.le_refl _⟩⟩

theorem Grows.trans {p q r : PoolStats} (first : Grows p q) (second : Grows q r) : Grows p r := by
  refine ⟨UInt64.le_trans first.1 second.1, ?_⟩
  intro db stored
  obtain ⟨next, held, below⟩ := first.2 db stored
  obtain ⟨last, kept, above⟩ := second.2 next held
  exact ⟨last, kept, below.trans above⟩

theorem Grows.updateStore (p : PoolStats) {f : Database → Database}
    (grown : ∀ db, db.bestShareDifficulty ≤ (f db).bestShareDifficulty) : Grows p (p.updateStore f) := by
  refine ⟨UInt64.le_refl _, ?_⟩
  intro db stored
  exact ⟨f db, Option.map_eq_some_iff.mpr ⟨db, stored, rfl⟩, grown db⟩

theorem advance_grows {p : PoolStats} {call : Call} {progress : Progress} (moved : Advance add p call progress) :
    Grows p progress.stats := by
  cases moved with
  | idle stats transit none compared =>
    refine ⟨UInt64.le_of_eq (congrArg Figures.best stats).symm, ?_⟩
    intro db stored
    have columns := figures_persisted stats Database.bestShareDifficulty (fun _ => rfl)
    rw [Option.mem_def.mp stored] at columns
    obtain ⟨later, held, same⟩ := Option.map_eq_some_iff.mp columns
    exact ⟨later, held, Int.le_of_eq same.symm⟩
  | raised difficulty higher => exact ⟨UInt64.le_of_lt higher, (Grows.refl p).2⟩
  | persisted difficulty =>
    refine .updateStore p (fun db => ?_)
    rw [setBestShareDifficulty_best]
    exact le_max_left _ _
  | inserted block => exact .updateStore p (fun db => Int.le_of_eq (insertFoundBlock_best block db).symm)
  | reset block | wrote work start => exact .updateStore p (fun db => Int.le_refl _)
  | _ => exact Grows.refl p

theorem reach_grows (reached : Reach (step add) Always s t) : Grows s.stats t.stats := by
  refine reached.invariant (fun t => Grows s.stats t.stats) (Grows.refl _) ?_
  intro u a v _ grown _ taken
  refine grown.trans ?_
  cases step_inv taken with
  | call method => exact Grows.refl _
  | run running moved => exact advance_grows moved
  | setNetworkDifficulty difficulty => exact ⟨UInt64.le_refl _, (Grows.refl _).2⟩

/-! ### The result -/

theorem foldl_max_eq {values : List Nat} {first most : Nat} (above : first ≤ most) (all : ∀ v ∈ values, v ≤ most)
    (among : most = first ∨ most ∈ values) : values.foldl max first = most := by
  induction values generalizing first with
  | nil => simpa [eq_comm] using among
  | cons v rest ih =>
    have high : v ≤ most := all v List.mem_cons_self
    refine ih (max_le above high) (fun w member => all w (List.mem_cons_of_mem _ member)) ?_
    rcases among with start | member
    · exact .inl (by omega)
    · rcases List.mem_cons.mp member with here | later
      · exact .inl (by omega)
      · exact .inr later

/-- The database starts with what memory starts with. -/
def Consistent (p : PoolStats) : Prop := ∀ db ∈ p.store, db.bestShareDifficulty = dbU64 p.bestShareDifficulty ∧ db.Readable

theorem pruneWorkerBestShares_readable (keep : Nat) (db : Database) (readable : db.Readable) :
    (db.pruneWorkerBestShares keep).Readable :=
  ⟨readable.best, readable.start, readable.blocks, fun row among =>
    readable.workers row ((List.perm_insertionSort _ _).mem_iff.mp (List.mem_of_mem_take among))⟩

/-- A boot takes up the column, whatever it drops of the workers' rows. -/
theorem newWithStore_columns {db : Database} (readable : db.Readable) (fits : db.bestShareDifficulty ≤ i64Max) (now : UInt64) :
    ((PoolStats.newWithStore (some db) now).bestShareDifficulty.toNat : Int) = db.bestShareDifficulty ∧
      ∀ stored ∈ (PoolStats.newWithStore (some db) now).store,
        stored.bestShareDifficulty = db.bestShareDifficulty ∧ stored.Readable := by
  have pruned := pruneWorkerBestShares_readable PoolStats.maxWorkerBestShares db readable
  obtain ⟨loaded, read⟩ := pruned.loads
  have column : getU64 db.bestShareDifficulty = some loaded.bestShareDifficulty := (Database.loadValues_blocks read).2.2.2
  have low := readable.best
  have value : (loaded.bestShareDifficulty.toNat : Int) = db.bestShareDifficulty := by
    unfold getU64 at column
    rw [if_pos low] at column
    rw [← Option.some.inj column, UInt64.toNat_ofNat_of_lt']
    · omega
    · unfold i64Max at fits
      simp only [UInt64.size]
      omega
  unfold PoolStats.newWithStore
  simp only [read]
  split
  · refine ⟨value, ?_⟩
    rintro _ ⟨rfl⟩
    exact ⟨rfl, setRound_readable _ _ _ pruned⟩
  · refine ⟨value, ?_⟩
    rintro _ ⟨rfl⟩
    exact ⟨rfl, pruned⟩

theorem newWithStore_consistent {db : Database} (readable : db.Readable) (fits : db.bestShareDifficulty ≤ i64Max)
    (now : UInt64) : Consistent (.newWithStore (some db) now) := by
  obtain ⟨value, stored⟩ := newWithStore_columns readable fits now
  intro kept held
  obtain ⟨same, readable⟩ := stored kept held
  refine ⟨?_, readable⟩
  unfold dbU64
  omega

/-- Once every call has finished, memory holds the largest difficulty seen and the database holds it too, as far as its
column reaches; neither ever falls, and a boot takes up what the database holds. -/
theorem best_share_kept {p : PoolStats} {credited : Nat} (consistent : Consistent p)
    (reached : Reach (step add) Always (idle p credited) s) :
    (s.Quiet →
      s.stats.bestShareDifficulty.toNat = (s.difficulties.map (·.toNat)).foldl max p.bestShareDifficulty.toNat ∧
      ∀ db ∈ s.stats.store, db.bestShareDifficulty = dbU64 s.stats.bestShareDifficulty) ∧
    (∀ t, Reach (step add) Always s t → Grows s.stats t.stats) ∧
    (∀ db ∈ s.stats.store, ∀ now,
      ((PoolStats.newWithStore (some db) now).bestShareDifficulty.toNat : Int) = db.bestShareDifficulty) := by
  have raised : Raised p.bestShareDifficulty s := by
    refine reached.invariant _ ?_ (fun _ _ _ _ inv _ taken => step_raised inv taken)
    exact ⟨UInt64.le_refl _, .inl rfl, nofun, nofun, nofun⟩
  have persisted : Persisted s := by
    refine reached.invariant _ ?_ (fun _ _ _ _ inv _ taken => step_persisted inv taken)
    exact ⟨nofun, fun db stored => Int.le_of_eq (consistent db stored).1,
      fun db stored => .inl (Int.le_of_eq (consistent db stored).1.symm), fun db stored => (consistent db stored).2⟩
  refine ⟨?_, fun t later => reach_grows later, ?_⟩
  · intro quiet
    have idle : ∀ {P : Call → Prop}, (∃ call ∈ s.calls, P call) → P .done := by
      rintro P ⟨call, running, holds⟩
      exact quiet call running ▸ holds
    constructor
    · refine (foldl_max_eq (UInt64.le_iff_toNat_le.mp raised.above) ?_ ?_).symm
      · intro v member
        obtain ⟨difficulty, called, rfl⟩ := List.mem_map.mp member
        rcases raised.reached difficulty called with below | rising
        · exact UInt64.le_iff_toNat_le.mp below
        · cases idle rising
      · exact raised.among.imp (congrArg UInt64.toNat) (fun member => List.mem_map.mpr ⟨_, member, rfl⟩)
    · intro db stored
      rcases persisted.caught db stored with caught | pending
      · exact Int.le_antisymm (persisted.behind db stored) caught
      · cases idle pending
  · intro db stored now
    refine (newWithStore_columns (persisted.readable db stored) ?_ now).1
    have behind := persisted.behind db stored
    unfold dbU64 at behind
    omega

/-- The higher of two shares wins the race and is written first; it does not fit the column. -/
theorem best_share_kept_race :
    ∃ s, Reach (step addWork) Always (idle (.newWithStore (some .create) 1) 0) s ∧
      s.stats.bestShareDifficulty = 9223372036854775813 ∧ ∀ db ∈ s.stats.store, db.bestShareDifficulty = i64Max := by
  have created : Database.create.Readable := ⟨by decide, by decide, nofun, nofun⟩
  obtain ⟨s, reached, quiet, best⟩ : ∃ s, Reach (step addWork) Always (idle (.newWithStore (some .create) 1) 0) s ∧ s.Quiet ∧
      s.stats.bestShareDifficulty = 9223372036854775813 :=
    Reach.of_run ([.call (.shareAccepted 7 7), .call (.shareAccepted 9223372036854775813 9)] ++ runs 0 4 ++ runs 1 4 ++ runs 0 1 ++
      [.run 1 0 true] ++ runs 1 2 ++ runs 0 1 ++ runs 0 2 ++ runs 1 2) (by decide +kernel)
  obtain ⟨finished, _, _⟩ := best_share_kept (newWithStore_consistent created (by decide) 1) reached
  refine ⟨s, reached, best, fun db stored => ((finished quiet).2 db stored).trans ?_⟩
  rw [best]
  decide +kernel

end Calls

end SoloPool.Stats
