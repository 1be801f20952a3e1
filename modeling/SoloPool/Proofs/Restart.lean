import SoloPool.Proofs.Rounds

/-!
# Rounds across a restart

Closing a round takes two statements, the row of the block and the reset of the running round, and the periodic snapshot
writes a value it read some steps before. The persisted round stays covered by work that is in no row yet, or by a reset
that is still to come.
-/

namespace SoloPool.Stats
open Lib

def persistedRound (p : PoolStats) : Nat := (p.store.map (·.roundWork)).getD 0

def persistedBlocks (p : PoolStats) : Nat := (p.store.map Database.recorded).getD 0

def Transit.unrowed (t : Transit) : Nat := t.unwritten.getD 0

def Call.writes : Call → Option Nat
  | .writeRound work _ => some work
  | _ => none

/-- The round a call has read and the difficulty it is about to add to it. -/
def Call.adds : Call → Option (Nat × UInt64)
  | .addRound _ credited prev => some (prev, credited)
  | _ => none

theorem figures_rounds {p q : PoolStats} (same : figures q = figures p) :
    persistedRound q = persistedRound p ∧ persistedBlocks q = persistedBlocks p ∧ q.roundWork = p.roundWork := by
  refine ⟨?_, ?_, congrArg Figures.roundWork same⟩
  · exact congrArg (Option.getD · 0) (figures_persisted same _ (fun _ => rfl))
  · exact congrArg (Option.getD · 0) (figures_persisted same _ (fun _ => rfl))

theorem persistedRound_of_store {p q : PoolStats} (same : q.store = p.store) : persistedRound q = persistedRound p := by
  unfold persistedRound
  rw [same]

theorem persistedBlocks_of_store {p q : PoolStats} (same : q.store = p.store) : persistedBlocks q = persistedBlocks p := by
  unfold persistedBlocks
  rw [same]

theorem Database.recorded_insertFoundBlock (db : Database) (block : FoundBlock) :
    (db.insertFoundBlock block).recorded ≤ db.recorded + block.roundWork := by
  unfold insertFoundBlock
  split
  · exact Nat.le_add_right _ _
  · simp [recorded, FoundBlock.row]

theorem Database.recorded_setBestShareDifficulty (db : Database) (difficulty : UInt64) :
    (db.setBestShareDifficulty difficulty).recorded = db.recorded := by
  unfold setBestShareDifficulty
  split <;> rfl

theorem Database.roundWork_setBestShareDifficulty (db : Database) (difficulty : UInt64) :
    (db.setBestShareDifficulty difficulty).roundWork = db.roundWork := by
  unfold setBestShareDifficulty
  split <;> rfl

theorem persistedBlocks_updateStore (p : PoolStats) {f : Database → Database} (same : ∀ db, (f db).recorded = db.recorded) :
    persistedBlocks (p.updateStore f) = persistedBlocks p := by
  unfold persistedBlocks PoolStats.updateStore
  cases p.store with
  | none => rfl
  | some db => exact same db

theorem persistedBlocks_insertFoundBlock (p : PoolStats) (block : FoundBlock) :
    persistedBlocks (p.updateStore (·.insertFoundBlock block)) ≤ persistedBlocks p + block.roundWork := by
  unfold persistedBlocks PoolStats.updateStore
  cases p.store with
  | none => exact Nat.zero_le _
  | some db => exact db.recorded_insertFoundBlock block

theorem persistedBlocks_setRound (p : PoolStats) (work : Nat) (start : UInt64) :
    persistedBlocks (p.updateStore (·.setRound work start)) = persistedBlocks p :=
  persistedBlocks_updateStore p (fun _ => rfl)

theorem persistedRound_updateStore (p : PoolStats) {f : Database → Database} (same : ∀ db, (f db).roundWork = db.roundWork) :
    persistedRound (p.updateStore f) = persistedRound p := by
  unfold persistedRound PoolStats.updateStore
  cases p.store with
  | none => rfl
  | some db => exact same db

theorem persistedRound_setRound (p : PoolStats) (work : Nat) (start : UInt64) :
    persistedRound (p.updateStore (·.setRound work start)) ≤ work := by
  unfold persistedRound PoolStats.updateStore
  cases p.store with
  | none => exact Nat.zero_le _
  | some db => exact Nat.le_refl _

namespace Calls

variable {s t : Calls} {a : Action} {b : LifeAction}

/-- Work that is in no row yet: in the round in memory, or closed by a call that has yet to write its row. -/
def unrowed (s : Calls) : Nat := s.stats.roundWork + total Transit.unrowed s.calls

def Resetting (s : Calls) : Prop := ∃ call ∈ s.calls, call.transit.resets = true

/-- A snapshot writes no more than the work that is in no row yet, unless a reset is still to follow, no addition to the
running round is rounded up past its sum, and the process does not stop between the two statements that close a persisted
round. Rounding down leaves at least the work there was, if that was a double (`le_addWork`). -/
def Orderly (s : Calls) : LifeAction → Prop
  | .live (.run i _ _) => ∀ call ∈ s.calls[i]?,
    (∀ work ∈ call.writes, work ≤ s.unrowed ∨ s.Resetting) ∧
    ∀ sum ∈ call.adds, sum.1 = s.stats.roundWork →
      sum.1 ≤ addWork sum.1 sum.2 ∧ addWork sum.1 sum.2 ≤ sum.1 + sum.2.toNat
  | .live _ => True
  | .restart _ => persistedRound s.stats = 0 ∨ ¬ s.Resetting

structure Durable (s : Calls) : Prop where
  kept : persistedBlocks s.stats + s.unrowed ≤ s.credited
  covered : persistedRound s.stats ≤ s.unrowed ∨ s.Resetting

theorem Resetting.move {i : Nat} {call next : Call} (resetting : s.Resetting) (running : s.calls[i]? = some call)
    (calls : t.calls = s.calls.set i next) (own : call.transit.resets = true → next.transit.resets = true) : t.Resetting := by
  unfold Resetting
  rw [calls]
  exact exists_set running resetting own

/-- A step that leaves the rows and the persisted round alone, loses no work that is in no row, and adds no more than is
credited. -/
theorem Durable.grow {i : Nat} {call next : Call} (inv : Durable s) (running : s.calls[i]? = some call)
    (calls : t.calls = s.calls.set i next) (blocks : persistedBlocks t.stats = persistedBlocks s.stats)
    (round : persistedRound t.stats = persistedRound s.stats) (resets : call.transit.resets = true → next.transit.resets = true)
    (keeps : s.stats.roundWork + call.transit.unrowed ≤ t.stats.roundWork + next.transit.unrowed)
    (fits : t.stats.roundWork + next.transit.unrowed + s.credited ≤ s.stats.roundWork + call.transit.unrowed + t.credited) :
    Durable t := by
  have moved := total_set Transit.unrowed running next
  rw [← calls] at moved
  obtain ⟨kept, covered⟩ := inv
  unfold unrowed at kept covered
  constructor
  · unfold unrowed
    omega
  · rcases covered with enough | resetting
    · refine .inl ?_
      unfold unrowed
      omega
    · exact .inr (resetting.move running calls resets)

/-- A step that moves work and credits none in between. -/
theorem Durable.move {i : Nat} {call next : Call} (inv : Durable s) (running : s.calls[i]? = some call)
    (calls : t.calls = s.calls.set i next) (blocks : persistedBlocks t.stats = persistedBlocks s.stats)
    (round : persistedRound t.stats = persistedRound s.stats) (resets : call.transit.resets = true → next.transit.resets = true)
    (credited : s.credited ≤ t.credited)
    (work : t.stats.roundWork + next.transit.unrowed + s.credited = s.stats.roundWork + call.transit.unrowed + t.credited) :
    Durable t := inv.grow running calls blocks round resets (by omega) (by omega)

theorem step_durable (inv : Durable s) (orderly : Orderly s (.live a)) (taken : step addWork s a = some t) : Durable t := by
  cases step_inv taken with
  | call method =>
    have blank : method.entry.transit.unrowed = 0 := by cases method <;> rfl
    have same : ({ s with calls := s.calls ++ [method.entry] } : Calls).unrowed = s.unrowed := by
      unfold unrowed
      rw [total_append, blank, Nat.add_zero]
    refine ⟨same.symm ▸ inv.kept, ?_⟩
    rcases inv.covered with enough | ⟨call, among, resets⟩
    · exact .inl (same.symm ▸ enough)
    · exact .inr ⟨call, List.mem_append_left _ among, resets⟩
  | @run i now spurious call progress running moved =>
    cases moved with
    | idle stats transit none compared =>
      obtain ⟨persisted, blocks, round⟩ := figures_rounds stats
      refine inv.move running rfl blocks persisted ?_ (Nat.le_add_right _ _) ?_
      · rw [transit]
        exact id
      · dsimp only
        rw [transit, round, none]
        rfl
    | added difficulty credited =>
      obtain ⟨keeps, fits⟩ := (orderly _ running).2 _ rfl rfl
      dsimp only at keeps fits
      refine inv.grow running rfl (persistedBlocks_of_store rfl) (persistedRound_of_store rfl) (fun resets => by cases resets)
        ?_ ?_
      · simp only [Call.transit, Transit.sharing, Transit.none, Transit.unrowed]
        omega
      · simp only [Call.transit, Transit.sharing, Transit.none, Transit.unrowed]
        omega
    | looked difficulty same =>
      refine inv.move running rfl rfl rfl ?_ (Nat.le_refl _) ?_
      · rw [same]
        exact id
      · rw [same]
        rfl
    | persisted difficulty =>
      exact inv.move running rfl (persistedBlocks_updateStore _ (fun db => db.recorded_setBestShareDifficulty difficulty))
        (persistedRound_updateStore _ (fun db => db.roundWork_setBestShareDifficulty difficulty))
        (fun resets => by cases resets) (Nat.le_refl _) rfl
    | swapped worker hash height now =>
      refine inv.move running rfl rfl rfl (fun resets => by cases resets) (Nat.le_refl _) ?_
      simp only [Call.transit, Transit.closing, Transit.none, Transit.unrowed, Option.getD_some, Option.getD_none]
      omega
    | inserted block =>
      -- The row takes over the work; until the reset the round it was persisted in counts it too.
      have row := persistedBlocks_insertFoundBlock s.stats block
      have unrowed := total_set Transit.unrowed running (.resetRound block)
      simp only [Call.transit, Transit.none, Transit.unrowed, Option.getD_some, Option.getD_none] at unrowed
      have kept := inv.kept
      unfold Calls.unrowed at kept
      refine ⟨?_, .inr ⟨.resetRound block, ?_, rfl⟩⟩
      · unfold Calls.unrowed
        dsimp only [PoolStats.updateStore] at row ⊢
        omega
      · rw [mem_set running]
        exact .inl rfl
    | reset block =>
      have unrowed := total_set Transit.unrowed running .done
      have kept := inv.kept
      unfold Calls.unrowed at kept
      refine ⟨?_, .inl ((persistedRound_setRound _ _ _).trans (Nat.zero_le _))⟩
      rw [persistedBlocks_setRound]
      unfold Calls.unrowed
      dsimp only [PoolStats.updateStore, Call.transit, Transit.none, Transit.unrowed, Option.getD_none] at unrowed ⊢
      omega
    | wrote work start =>
      have unrowed := total_set Transit.unrowed running .done
      dsimp only [Call.transit, Transit.none, Transit.unrowed, Option.getD_none] at unrowed
      have kept := inv.kept
      unfold Calls.unrowed at kept
      have written := persistedRound_setRound s.stats work start
      constructor
      · rw [persistedBlocks_setRound]
        unfold Calls.unrowed
        dsimp only [PoolStats.updateStore]
        omega
      · rcases (orderly _ running).1 work rfl with enough | resetting
        · unfold Calls.unrowed at enough ⊢
          dsimp only [PoolStats.updateStore] at written ⊢
          exact .inl (by omega)
        · exact .inr (resetting.move running rfl (fun resets => by cases resets))
    | _ => exact inv.move running rfl rfl rfl (fun resets => by cases resets) (Nat.le_refl _) rfl
  | setNetworkDifficulty difficulty => exact ⟨inv.kept, inv.covered⟩

/-- What a restart finds in the database is work that was credited, each of it once. -/
theorem Durable.loaded (inv : Durable s) {now : UInt64} (orderly : Orderly s (.restart now)) :
    persistedBlocks s.stats + persistedRound s.stats ≤ s.credited := by
  have kept := inv.kept
  rcases orderly with zero | settled
  · omega
  · rcases inv.covered with enough | resetting
    · omega
    · exact absurd resetting settled

theorem restart_work (s : Calls) (now : UInt64) :
    recorded (s.restart now).stats.foundBlocks + (s.restart now).stats.roundWork ≤
      persistedBlocks s.stats + persistedRound s.stats := by
  have empty :
      recorded (PoolStats.ofLoaded .default 0 none).foundBlocks + (PoolStats.ofLoaded .default 0 none).roundWork = 0 := rfl
  unfold restart persistedBlocks persistedRound
  cases s.stats.store with
  | none => exact Nat.le_refl 0
  | some db =>
    dsimp only [PoolStats.newWithStore]
    split
    · exact Nat.zero_le _
    · rename_i loaded read
      obtain ⟨_, blocks, work, _⟩ := Database.loadValues_blocks read
      split <;> exact Nat.le_of_eq (congrArg₂ (· + ·) blocks work)

theorem durable_of_booted (booted : Booted s.stats) (fresh : s.calls = [])
    (enough : recorded s.stats.foundBlocks + s.stats.roundWork ≤ s.credited) : Durable s := by
  have blocks : persistedBlocks s.stats ≤ recorded s.stats.foundBlocks := by
    unfold persistedBlocks
    cases stored : s.stats.store with
    | none => exact Nat.zero_le _
    | some db => exact Nat.le_of_eq (booted.persisted db stored).1
  have round : persistedRound s.stats ≤ s.stats.roundWork := by
    unfold persistedRound
    cases stored : s.stats.store with
    | none => exact Nat.zero_le _
    | some db => exact Nat.le_of_eq (booted.persisted db stored).2
  refine ⟨?_, .inl (round.trans (Nat.le_add_right _ _))⟩
  have idle : s.unrowed = s.stats.roundWork := by
    unfold unrowed
    rw [fresh]
    rfl
  rw [idle]
  omega

theorem boot_durable (db : Option Database) (now : UInt64) : Durable (boot db now) :=
  durable_of_booted (newWithStore_booted db now) rfl (Nat.le_refl _)

theorem restart_durable (inv : Durable s) {now : UInt64} (orderly : Orderly s (.restart now)) : Durable (s.restart now) :=
  durable_of_booted (newWithStore_booted _ now) rfl ((restart_work s now).trans (inv.loaded orderly))

/-- No credited work counts for two rounds after a restart. -/
theorem restart_counts_once {db : Option Database} {now : UInt64} (reached : Reach (lifeStep addWork) Orderly (boot db now) s)
    {later : UInt64} (orderly : Orderly s (.restart later)) :
    recorded (s.restart later).stats.foundBlocks + (s.restart later).stats.roundWork ≤ s.credited := by
  have inv : Durable s := by
    refine reached.invariant _ (boot_durable db now) ?_
    intro s a t _ inv meets taken
    cases a with
    | live a => exact step_durable inv meets taken
    | restart now =>
      obtain rfl := Option.some.inj taken
      exact restart_durable inv meets
  exact (restart_work s later).trans (inv.loaded orderly)

instance (s : Calls) : Decidable s.Resetting :=
  inferInstanceAs (Decidable (∃ call ∈ s.calls, call.transit.resets = true))

instance (s : Calls) : (a : LifeAction) → Decidable (Orderly s a)
  | .live (.run i _ _) =>
    inferInstanceAs (Decidable (∀ call ∈ s.calls[i]?,
      (∀ work ∈ call.writes, work ≤ s.unrowed ∨ s.Resetting) ∧
      ∀ sum ∈ call.adds, sum.1 = s.stats.roundWork →
        sum.1 ≤ addWork sum.1 sum.2 ∧ addWork sum.1 sum.2 ≤ sum.1 + sum.2.toNat))
  | .live (.call _) | .live (.setNetworkDifficulty _) => isTrue trivial
  | .restart _ => inferInstanceAs (Decidable (persistedRound s.stats = 0 ∨ ¬ s.Resetting))

def lives (actions : List Action) : List LifeAction := actions.map .live

/-- A share of difficulty 10 and a snapshot that persists the round it opens. -/
def snapshotTaken : List LifeAction :=
  lives ([.call (.shareAccepted 10 10)] ++ runs 0 8 ++ [.call (.recordHashrateSnapshot 60 (.finite 0))] ++ runs 1 5)

theorem restart_counts_once_block :
    ∃ s, Reach (lifeStep addWork) Orderly (boot (some .create) 1) s ∧ s.credited = 17 ∧
      recorded (s.restart 600).stats.foundBlocks + (s.restart 600).stats.roundWork ≤ 17 := by
  obtain ⟨s, reached, credited, orderly⟩ : ∃ s, Reach (lifeStep addWork) Orderly (boot (some .create) 1) s ∧ s.credited = 17 ∧
      Orderly s (.restart 600) :=
    Reach.of_run (snapshotTaken ++ lives ([.call (.blockFound "w1" "aa" 100)] ++ runs 2 11 ++ [.call (.shareAccepted 7 7)] ++
      runs 3 7 ++ [.call (.recordHashrateSnapshot 120 (.finite 0))] ++ runs 4 5) ++ [.restart 300]) (by decide +kernel)
  exact ⟨s, reached, credited, credited ▸ restart_counts_once reached orderly⟩

/-- The process stops after the row of the block and before the reset of the round that it closed. -/
theorem round_counted_twice :
    ∃ s, Reach (lifeStep addWork) Always (boot (some .create) 1) s ∧ s.credited = 10 ∧
      recorded (s.restart 600).stats.foundBlocks + (s.restart 600).stats.roundWork = 20 :=
  Reach.of_run (snapshotTaken ++ lives ([.call (.blockFound "w1" "aa" 100)] ++ runs 2 10)) (by decide +kernel)

end Calls

end SoloPool.Stats
