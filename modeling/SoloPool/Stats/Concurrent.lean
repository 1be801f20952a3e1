import SoloPool.Lib.Run
import SoloPool.Lib.Tasks
import SoloPool.Stats

/-!
# Statistics under concurrent calls

`share_accepted`, `block_found` and `record_hashrate_snapshot` taken apart into the atomic operations, lock sections and
SQL statements they are made of. Any number of calls run side by side; a weak compare-exchange may fail although the
value is the expected one. A restart drops the calls and the memory and loads the database again. How a share adds to the round
is a parameter: `addWork` in the code, `exactWork` where the additions are taken as exact.
-/

namespace SoloPool.Stats
open Lib

/-- What a call does next, with what it has read so far. -/
inductive Call where
  | countShare (difficulty credited : UInt64)
  | loadRound (difficulty credited : UInt64)
  | addRound (difficulty credited : UInt64) (prev : Nat)
  | loadBest (difficulty : UInt64)
  | raiseBest (difficulty prev : UInt64)
  | persistBest (difficulty : UInt64)
  | loadSessionBest (difficulty : UInt64)
  | raiseSessionBest (difficulty prev : UInt64)
  | checkHash (worker hash : String) (height : UInt64)
  | swapRound (worker hash : String) (height : UInt64)
  | loadDifficulty (worker hash : String) (height now : UInt64) (roundWork : Nat)
  | countBlock (block : FoundBlock)
  | storeLastWorker (block : FoundBlock)
  | storeLastHash (block : FoundBlock)
  | storeLastTs (block : FoundBlock)
  | storeRoundStart (block : FoundBlock)
  | pushBlock (block : FoundBlock)
  | insertRow (block : FoundBlock)
  | resetRound (block : FoundBlock)
  | insertHashrate (ts : UInt64) (hps : F64)
  | pruneHashrates (ts : UInt64)
  | loadWork
  | loadStart (work : Nat)
  | writeRound (work : Nat) (start : UInt64)
  | done
  deriving DecidableEq

inductive Method where
  | shareAccepted (difficulty credited : UInt64)
  | blockFound (worker hash : String) (height : UInt64)
  | recordHashrateSnapshot (ts : UInt64) (hps : F64)
  deriving DecidableEq

def Method.entry : Method → Call
  | .shareAccepted difficulty credited => .countShare difficulty credited
  | .blockFound worker hash height => .checkHash worker hash height
  | .recordHashrateSnapshot ts hps => .insertHashrate ts hps

def Method.difficulty? : Method → Option UInt64
  | .shareAccepted difficulty _ => some difficulty
  | _ => none

def Method.credited : Method → Nat
  | .shareAccepted _ credited => credited.toNat
  | _ => 0

structure Progress where
  stats : PoolStats
  next : Call
  /-- The difficulty that this step credited to the round. -/
  credited : Nat

def exactWork (work : Nat) (credited : UInt64) : Nat := work + credited.toNat

variable (add : Nat → UInt64 → Nat)

namespace Call

/-- One step of a call, with the wall clock and whether a weak compare-exchange fails without cause. -/
def advance (p : PoolStats) (now : UInt64) (spurious : Bool) : Call → Option Progress
  | .countShare difficulty credited =>
    some { stats := { p with sharesAccepted := p.sharesAccepted + 1 }, next := .loadRound difficulty credited, credited := 0 }
  | .loadRound difficulty credited => some { stats := p, next := .addRound difficulty credited p.roundWork, credited := 0 }
  | .addRound difficulty credited prev =>
    if p.roundWork = prev ∧ !spurious then
      some { stats := { p with roundWork := add prev credited }, next := .loadBest difficulty, credited := credited.toNat }
    else some { stats := p, next := .addRound difficulty credited p.roundWork, credited := 0 }
  | .loadBest difficulty => some { stats := p, next := .raiseBest difficulty p.bestShareDifficulty, credited := 0 }
  | .raiseBest difficulty prev =>
    if difficulty > prev then
      if p.bestShareDifficulty = prev ∧ !spurious then
        some { stats := { p with bestShareDifficulty := difficulty }, next := .persistBest difficulty, credited := 0 }
      else some { stats := p, next := .raiseBest difficulty p.bestShareDifficulty, credited := 0 }
    else some { stats := p, next := .loadSessionBest difficulty, credited := 0 }
  | .persistBest difficulty =>
    some { stats := p.updateStore (·.setBestShareDifficulty difficulty), next := .loadSessionBest difficulty, credited := 0 }
  | .loadSessionBest difficulty =>
    some { stats := p, next := .raiseSessionBest difficulty p.sessionBestShareDifficulty, credited := 0 }
  | .raiseSessionBest difficulty prev =>
    if difficulty > prev then
      if p.sessionBestShareDifficulty = prev ∧ !spurious then
        some { stats := { p with sessionBestShareDifficulty := difficulty }, next := .done, credited := 0 }
      else some { stats := p, next := .raiseSessionBest difficulty p.sessionBestShareDifficulty, credited := 0 }
    else some { stats := p, next := .done, credited := 0 }
  | .checkHash worker hash height =>
    let next := if p.foundBlocks.any (fun block => block.hash == hash) then .done else .swapRound worker hash height
    some { stats := p, next, credited := 0 }
  | .swapRound worker hash height =>
    some { stats := { p with roundWork := 0 }, next := .loadDifficulty worker hash height now p.roundWork, credited := 0 }
  | .loadDifficulty worker hash height now roundWork =>
    let block : FoundBlock := { height, hash, worker, ts := now, roundWork, networkDifficulty := p.networkDifficulty }
    some { stats := p, next := .countBlock block, credited := 0 }
  | .countBlock block =>
    some { stats := { p with blocksFound := p.blocksFound + 1 }, next := .storeLastWorker block, credited := 0 }
  | .storeLastWorker block =>
    some { stats := { p with lastBlockWorker := some block.worker }, next := .storeLastHash block, credited := 0 }
  | .storeLastHash block =>
    some { stats := { p with lastBlockHash := some block.hash }, next := .storeLastTs block, credited := 0 }
  | .storeLastTs block => some { stats := { p with lastBlockTs := block.ts }, next := .storeRoundStart block, credited := 0 }
  | .storeRoundStart block => some { stats := { p with roundStartTs := block.ts }, next := .pushBlock block, credited := 0 }
  | .pushBlock block =>
    some { stats := { p with foundBlocks := p.foundBlocks ++ [block] }, next := .insertRow block, credited := 0 }
  | .insertRow block =>
    some { stats := p.updateStore (·.insertFoundBlock block), next := .resetRound block, credited := 0 }
  | .resetRound block => some { stats := p.updateStore (·.setRound 0 block.ts), next := .done, credited := 0 }
  | .insertHashrate ts hps =>
    some { stats := p.updateStore (·.insertHashrate ts hps), next := .pruneHashrates ts, credited := 0 }
  | .pruneHashrates ts => some { stats := p.updateStore (·.pruneHashrates ts), next := .loadWork, credited := 0 }
  | .loadWork => some { stats := p, next := .loadStart p.roundWork, credited := 0 }
  | .loadStart work => some { stats := p, next := .writeRound work p.roundStartTs, credited := 0 }
  | .writeRound work start => some { stats := p.updateStore (·.setRound work start), next := .done, credited := 0 }
  | .done => none

/-- The call run to its end with nothing in between. -/
def finish (now : UInt64) : Nat → PoolStats → Call → Option PoolStats
  | 0, p, call => if call = .done then some p else none
  | fuel + 1, p, call =>
    match call.advance add p now false with
    | some progress => finish now fuel progress.stats progress.next
    | none => some p

end Call

/-! ### Runs -/

structure Calls where
  stats : PoolStats
  calls : List Call
  /-- The difficulty credited to a round so far, in this process and before it. -/
  credited : Nat
  called : List Method

namespace Calls

def idle (p : PoolStats) (credited : Nat) : Calls := { stats := p, calls := [], credited, called := [] }

/-- The pool as it comes up: all the work in the database was credited before. -/
def boot (db : Option Database) (now : UInt64) : Calls :=
  let p := PoolStats.newWithStore db now
  idle p ((p.foundBlocks.map (·.roundWork)).sum + p.roundWork)

inductive Action where
  | call (method : Method)
  | run (i : Nat) (now : UInt64) (spurious : Bool)
  | setNetworkDifficulty (difficulty : F64)

def step (s : Calls) : Action → Option Calls
  | .call method =>
    some { s with calls := s.calls ++ [method.entry], called := s.called ++ [method] }
  | .run i now spurious => do
    let call ← s.calls[i]?
    let progress ← call.advance add s.stats now spurious
    return { s with
      stats := progress.stats, calls := s.calls.set i progress.next, credited := s.credited + progress.credited }
  | .setNetworkDifficulty difficulty => some { s with stats := { s.stats with networkDifficulty := difficulty } }

/-- The memory is lost, the calls with it, and the database is loaded again. -/
def restart (s : Calls) (now : UInt64) : Calls :=
  { s with stats := .newWithStore s.stats.store now, calls := [] }

inductive LifeAction where
  | live (a : Action)
  | restart (now : UInt64)

def lifeStep (s : Calls) : LifeAction → Option Calls
  | .live a => s.step add a
  | .restart now => some (s.restart now)

def Quiet (s : Calls) : Prop := ∀ call ∈ s.calls, call = .done

instance (s : Calls) : Decidable s.Quiet := inferInstanceAs (Decidable (∀ call ∈ s.calls, call = .done))

end Calls

end SoloPool.Stats
