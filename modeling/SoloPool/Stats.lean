import SoloPool.Stats.Store
import SoloPool.Stats.Worker

/-!
# Pool statistics

`PoolStats` of `stats.rs` and its methods, each as one step; `Stats/Concurrent.lean` takes the atomic operations inside
`share_accepted`, `block_found` and `record_hashrate_snapshot` apart. The maps keyed by worker are functions. A method
that reads the wall clock gets the second as `now`.
-/

namespace SoloPool
open Lib Stats

structure PoolStats where
  sharesAccepted : Nat
  sharesRejected : Nat
  blocksFound : Nat
  bestShareDifficulty : UInt64
  sessionBestShareDifficulty : UInt64
  networkDifficulty : F64
  lastBlockWorker : Option String
  lastBlockHash : Option String
  lastBlockTs : UInt64
  roundWork : Nat
  roundStartTs : UInt64
  foundBlocks : List Stats.FoundBlock
  workerShareHistory : String → Option ShareHistory
  pendingShares : List LoggedShare
  workerProtocol : String → Option MinerProtocol
  workerLastSubmitTs : String → Option UInt64
  workerBestShares : List (String × UInt64)
  workerStates : String → Option WorkerState
  store : Option Database

namespace PoolStats

/-! ### Boot -/

def ofLoaded (loaded : LoadedStats) (roundStartTs : UInt64) (store : Option Database) : PoolStats where
  sharesAccepted := 0
  sharesRejected := 0
  blocksFound := loaded.foundBlocks.length
  bestShareDifficulty := loaded.bestShareDifficulty
  sessionBestShareDifficulty := 0
  networkDifficulty := .finite 0
  lastBlockWorker := loaded.foundBlocks.getLast?.map (·.worker)
  lastBlockHash := loaded.foundBlocks.getLast?.map (·.hash)
  lastBlockTs := (loaded.foundBlocks.getLast?.map (·.ts)).getD 0
  roundWork := loaded.roundWork
  roundStartTs := roundStartTs
  foundBlocks := loaded.foundBlocks
  workerShareHistory := fun _ => none
  pendingShares := []
  workerProtocol := fun _ => none
  workerLastSubmitTs := fun _ => none
  workerBestShares := loaded.workerBestShares
  workerStates := fun _ => none
  store := store

def maxWorkerBestShares : Nat := 512

/-- `new_with_store`; a database that cannot be read leaves the pool without a store. -/
def newWithStore (db : Option Database) (now : UInt64) : PoolStats :=
  match db with
  | none => ofLoaded .default 0 none
  | some db =>
    -- `open` enforces the cap on the rows before they are loaded.
    let db := db.pruneWorkerBestShares maxWorkerBestShares
    match db.loadValues with
    | none => ofLoaded .default 0 none
    | some loaded =>
      -- The first boot with a store opens the first round.
      if loaded.roundStartTs = 0 then ofLoaded loaded now (some (db.setRound loaded.roundWork now))
      else ofLoaded loaded loaded.roundStartTs (some db)

/-! ### Shares and rounds -/

def updateStore (p : PoolStats) (f : Database → Database) : PoolStats := { p with store := p.store.map f }

def shareAccepted (p : PoolStats) (difficulty credited : UInt64) : PoolStats :=
  let counted := { p with sharesAccepted := p.sharesAccepted + 1, roundWork := addWork p.roundWork credited }
  let best :=
    if difficulty > counted.bestShareDifficulty then
      { counted with bestShareDifficulty := difficulty }.updateStore (·.setBestShareDifficulty difficulty)
    else counted
  if difficulty > best.sessionBestShareDifficulty then { best with sessionBestShareDifficulty := difficulty } else best

def shareRejected (p : PoolStats) : PoolStats := { p with sharesRejected := p.sharesRejected + 1 }

def blockFound (p : PoolStats) (worker hash : String) (height now : UInt64) : PoolStats :=
  if p.foundBlocks.any (fun block => block.hash == hash) then p
  else
    let block : Stats.FoundBlock :=
      { height, hash, worker, ts := now, roundWork := p.roundWork, networkDifficulty := p.networkDifficulty }
    { p with
      roundWork := 0
      blocksFound := p.blocksFound + 1
      lastBlockWorker := some worker
      lastBlockHash := some hash
      lastBlockTs := now
      roundStartTs := now
      foundBlocks := p.foundBlocks ++ [block]
      store := p.store.map (fun db => (db.insertFoundBlock block).setRound 0 now) }

def persistRoundState (p : PoolStats) : PoolStats := p.updateStore (·.setRound p.roundWork p.roundStartTs)

/-- `record_hashrate_snapshot`, with the total hashrate it sums up. -/
def recordHashrateSnapshot (p : PoolStats) (now : UInt64) (hps : F64) : PoolStats :=
  (p.updateStore (fun db => (db.insertHashrate now hps).pruneHashrates now)).persistRoundState

/-! ### Workers -/

def setState (p : PoolStats) (worker : String) (state : Option WorkerState) : PoolStats :=
  { p with workerStates := Function.update p.workerStates worker state }

def updateState (p : PoolStats) (worker : String) (f : WorkerState → WorkerState) : PoolStats :=
  p.setState worker ((p.workerStates worker).map f)

def setWorkerProtocol (p : PoolStats) (worker : String) (protocol : MinerProtocol) : PoolStats :=
  { p with workerProtocol := Function.update p.workerProtocol worker (some protocol) }.updateState worker
    ({ · with protocol })

def markWorkerSubmit (p : PoolStats) (worker : String) (now : UInt64) : PoolStats :=
  { p with workerLastSubmitTs := Function.update p.workerLastSubmitTs worker (some now) }.updateState worker
    ({ · with lastSubmitTs := now })

def markWorkerOnline (p : PoolStats) (worker : String) (currentVardiff now : UInt64) : PoolStats :=
  match p.workerStates worker with
  | some state => p.setState worker (some (state.joined currentVardiff now))
  | none =>
    let best := (p.workerBestShares.lookup worker).getD 0
    let protocol := (p.workerProtocol worker).getD .sv1
    p.setState worker (some (.new protocol currentVardiff best now))

def markWorkerOffline (p : PoolStats) (worker : String) : PoolStats := p.updateState worker WorkerState.left

def updateWorkerVardiff (p : PoolStats) (worker : String) (vardiff now : UInt64) : PoolStats :=
  match p.workerStates worker with
  | some state => p.setState worker (some { state with currentVardiff := vardiff })
  | none => p.markWorkerOnline worker vardiff now

def workerShareAccepted (p : PoolStats) (worker : String) (difficulty now : UInt64) : PoolStats :=
  let p := p.updateState worker (fun state => state.shareAccepted difficulty now)
  let best := (p.workerBestShares.lookup worker).getD 0
  let rows := p.workerBestShares.filter (fun row => decide (row.1 ≠ worker))
  if difficulty > best then
    { p with workerBestShares := rows ++ [(worker, difficulty)] }.updateStore (·.setWorkerBestShare worker difficulty)
  else { p with workerBestShares := rows ++ [(worker, best)] }

def workerShareRejected (p : PoolStats) (worker : String) (reason : RejectReason) (now : UInt64) : PoolStats :=
  p.updateState worker (fun state => state.shareRejected reason now)

/-! ### Share records -/

def stashShareHistory (p : PoolStats) (worker : String) (history : ShareHistory) : PoolStats :=
  { p with workerShareHistory := Function.update p.workerShareHistory worker (some history) }

/-- A record parked by a session wins; failing that, the share log is read. -/
def takeShareHistory (p : PoolStats) (worker : String) (now : UInt64) (instant : Instant) :
    Option ShareHistory × PoolStats :=
  match p.workerShareHistory worker with
  | some history => (some history, { p with workerShareHistory := Function.update p.workerShareHistory worker none })
  | none => (p.store.bind (fun db => ShareHistory.fromUnixRows (db.getShares worker now) now instant), p)

def maxPendingShares : Nat := 65536

def logShare (p : PoolStats) (worker : String) (credited now : UInt64) (serial : Option Nat) : PoolStats :=
  if p.store.isNone ∨ p.pendingShares.length ≥ maxPendingShares then p
  else { p with pendingShares := p.pendingShares ++ [{ worker, ts := now, credited, serial }] }

def flushShareLog (p : PoolStats) (now : UInt64) : PoolStats :=
  match p.store with
  | none => p
  | some db =>
    if p.pendingShares = [] then p
    else { p with pendingShares := [], store := some (db.appendShares p.pendingShares now) }

/-! ### Eviction -/

def idleWorkerEvictSecs : Nat := 86400

/-- An offline worker with neither a share nor a connection since the cutoff. -/
def idle (p : PoolStats) (worker : String) (state : WorkerState) (now : UInt64) : Bool :=
  let lastSubmit := (p.workerLastSubmitTs worker).getD state.lastSubmitTs
  !state.online && decide (max lastSubmit.toNat state.connectedTs.toNat < now.toNat - idleWorkerEvictSecs)

def evicted (p : PoolStats) (now : UInt64) (worker : String) : Bool :=
  (p.workerStates worker).any (fun state => p.idle worker state now)

def pruneIdleWorkers (p : PoolStats) (now : UInt64) : PoolStats :=
  let keep {α : Type} (entries : String → Option α) (worker : String) : Option α :=
    if p.evicted now worker then none else entries worker
  let pruned := { p with
    workerStates := keep p.workerStates
    workerShareHistory := keep p.workerShareHistory
    workerProtocol := keep p.workerProtocol
    workerLastSubmitTs := keep p.workerLastSubmitTs }
  if pruned.workerBestShares.length > maxWorkerBestShares then
    let best := highest (fun row => (row.2.toNat : Int)) maxWorkerBestShares pruned.workerBestShares
    { pruned with workerBestShares := best }.updateStore (·.pruneWorkerBestShares maxWorkerBestShares)
  else pruned

end PoolStats

end SoloPool
