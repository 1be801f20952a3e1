import SoloPool.Lib.Window
import SoloPool.Mining.Validator
import SoloPool.Settings

/-!
# The template engine

`mining/engine.rs`: the current job, the history of recent jobs and `refresh`, the one writer of both. `setCurrent`,
`pushHistory` and `broadcast` are the lock-protected blocks of `refresh` in their order; `refresh` runs them without
interruption.
-/

namespace SoloPool
open Lib

def jobHistoryDepth : Nat := 8

def jobBroadcastCap : Nat := 64

/-- Whether the chain tip moved between the job being replaced and the new one; no current job counts as moved. -/
def tipMoved (currentPrevHash : Option String) (newPrevHash : String) : Bool :=
  decide (currentPrevHash ≠ some newPrevHash)

structure JobBroadcast where
  job : StratumJob
  clean : Bool

inductive TemplateFailure where
  | miningPaused
  | buildJob (e : PoolError)
  | getBlockTemplate (e : PoolError)
  deriving DecidableEq

structure Engine where
  currentJob : Option StratumJob
  jobHistory : List JobEntry
  jobCounter : UInt64
  lastTemplateError : Option TemplateFailure

/-- What a process fixes at its start: the crates, the `[pool]` section and the clock reading in every job id. -/
structure Process where
  crates : Crates
  pool : PoolConfig
  startMillis : UInt64

namespace Engine

def new : Engine := { currentJob := none, jobHistory := [], jobCounter := 1, lastTemplateError := none }

def noteTemplateFailure (e : Engine) (why : TemplateFailure) : Engine := { e with lastTemplateError := some why }

/-- Look a job up by its id; an entry counts as superseded once a later entry is clean. -/
def findJob (e : Engine) (jobId : String) : Option JobEntry := do
  let idx ← e.jobHistory.findIdx? (fun entry => entry.job.jobId == jobId)
  let entry ← e.jobHistory[idx]?
  return { entry with supersededByClean := (e.jobHistory.drop (idx + 1)).any (·.clean) }

/-- `build_job` with the process's settings; the id is drawn whether or not the build succeeds. -/
def buildNext (p : Process) (e : Engine) (gbt : GbtResult) (address : String) : Result StratumJob × Engine :=
  (buildJob p.crates (nextJobId (jobEpoch p.startMillis) e.jobCounter) gbt address p.pool.coinbaseTag
    p.pool.extranonce1Size p.pool.extranonce2Size, { e with jobCounter := e.jobCounter + 1 })

/-- The compare-and-set of the current job, and whether the job goes out as clean. -/
def setCurrent (e : Engine) (job : StratumJob) (cleanJobs : Bool) : Engine × Bool :=
  ({ e with currentJob := some job, lastTemplateError := none },
    cleanJobs || tipMoved (e.currentJob.map (·.prevHash)) job.prevHash)

def pushHistory (e : Engine) (job : StratumJob) (clean : Bool) : Engine :=
  { e with jobHistory := pushBounded jobHistoryDepth e.jobHistory { job, clean, supersededByClean := false } }

/-- `refresh` with the node's answer to `getblocktemplate`; the broadcast it sends, if any. -/
def refresh (p : Process) (settings : RuntimeSettings) (cleanJobs : Bool) (reply : Except PoolError GbtResult)
    (e : Engine) : Engine × Option JobBroadcast :=
  match settings.validCoinbaseAddress with
  | none => (e.noteTemplateFailure .miningPaused, none)
  | some address =>
    match reply with
    | .error why => (e.noteTemplateFailure (.getBlockTemplate why), none)
    | .ok gbt =>
      match e.buildNext p gbt address with
      | (.err why, e) => (e.noteTemplateFailure (.buildJob why), none)
      | (.panic, e) => (e, none)
      | (.ok job, e) =>
        let (e, clean) := e.setCurrent job cleanJobs
        (e.pushHistory job clean, some { job, clean })

end Engine

/-! ### One refresh after the other -/

structure RefreshCall where
  settings : RuntimeSettings
  cleanJobs : Bool
  reply : Except PoolError GbtResult

def RefreshCall.drawsId (call : RefreshCall) : Bool :=
  call.settings.valid && (match call.reply with | .ok _ => true | .error _ => false)

structure Publication where
  engine : Engine
  published : List JobBroadcast

def Publication.refresh (p : Process) (s : Publication) (call : RefreshCall) : Publication :=
  let (engine, sent) := Engine.refresh p call.settings call.cleanJobs call.reply s.engine
  { engine, published := s.published ++ sent.toList }

def runRefreshes (p : Process) (calls : List RefreshCall) : Publication :=
  calls.foldl (Publication.refresh p) { engine := .new, published := [] }

end SoloPool
