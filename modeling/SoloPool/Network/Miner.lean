import SoloPool.Metrics
import SoloPool.Network.Session
import SoloPool.Protocol.Sv2.Session
import SoloPool.Stats

/-!
# A miner's session in full

The handlers of `network/session.rs` and `protocol/sv2/mod.rs` with everything around the work they carry: the assigned
difficulty and its announcements, the replies, the session's counts, and the calls into the pool's statistics and
metrics, in the order the handler makes them. A call is listed by the handler and made by `Effect.run`, so that the
calls of several sessions can interleave.
-/

namespace SoloPool
open Lib Stats

structure Clock where
  unix : UInt64
  instant : Instant

structure Shared where
  stats : PoolStats
  metrics : Metrics

/-- A session, less what `Session` of its protocol already has. -/
structure Miner (σ : Type) where
  session : σ
  difficulty : UInt64
  vardiff : Vardiff
  sharesAccepted : Nat
  sharesRejected : Nat

def Miner.new {σ : Type} (cfg : Config) (session : σ) (now : Instant) : Miner σ where
  session := session
  difficulty := cfg.pool.initialDifficulty
  vardiff := .new cfg.vardiff cfg.pool.initialDifficulty now
  sharesAccepted := 0
  sharesRejected := 0

/-- The share record as the calls of some handlers leave it. -/
def Miner.setHistory {σ : Type} (m : Miner σ) (history : ShareHistory) : Miner σ :=
  { m with vardiff := { m.vardiff with shareTimes := history.shareTimes, startedAt := history.startedAt } }

/-! ### Calls -/

inductive MetricEvent where
  | shareAccepted (difficulty : UInt64) (worker : String)
  | shareRejected (label : RejectLabel) (worker : String)
  | blockFound
  | blockSubmissionSuccess
  | blockSubmissionFailure (label : SubmitFailure)
  deriving DecidableEq

def MetricEvent.count (m : Metrics) : MetricEvent → Metrics
  | .shareAccepted difficulty worker => m.shareAccepted difficulty worker
  | .shareRejected label worker => m.shareRejected label worker
  | .blockFound => m.blockFound
  | .blockSubmissionSuccess => m.blockSubmissionSuccess
  | .blockSubmissionFailure label => m.blockSubmissionFailure label

/-- A call of a handler; the two on share records also move the record out of or into the session. -/
inductive Effect where
  | metric (event : MetricEvent)
  | shareAccepted (difficulty credited : UInt64)
  | shareRejected
  | blockFound (worker hash : String) (height : UInt64)
  | logShare (worker : String) (credited : UInt64) (serial : Nat)
  | workerShareAccepted (worker : String) (difficulty : UInt64)
  | workerShareRejected (worker : String) (reason : RejectReason)
  | markWorkerSubmit (worker : String)
  | markWorkerOnline (worker : String) (difficulty : UInt64)
  | markWorkerOffline (worker : String)
  | setWorkerProtocol (worker : String) (protocol : MinerProtocol)
  | updateWorkerVardiff (worker : String) (difficulty : UInt64)
  | stashShareHistory (worker : String)
  | takeShareHistory (worker : String)
  deriving DecidableEq

def Effect.run (clock : Clock) (v : Vardiff) (shared : Shared) : Effect → Vardiff × Shared
  | .metric event => (v, { shared with metrics := event.count shared.metrics })
  | .shareAccepted difficulty credited => (v, { shared with stats := shared.stats.shareAccepted difficulty credited })
  | .shareRejected => (v, { shared with stats := shared.stats.shareRejected })
  | .blockFound worker hash height => (v, { shared with stats := shared.stats.blockFound worker hash height clock.unix })
  | .logShare worker credited serial =>
    (v, { shared with stats := shared.stats.logShare worker credited clock.unix (some serial) })
  | .workerShareAccepted worker difficulty =>
    (v, { shared with stats := shared.stats.workerShareAccepted worker difficulty clock.unix })
  | .workerShareRejected worker reason =>
    (v, { shared with stats := shared.stats.workerShareRejected worker reason clock.unix })
  | .markWorkerSubmit worker => (v, { shared with stats := shared.stats.markWorkerSubmit worker clock.unix })
  | .markWorkerOnline worker difficulty =>
    (v, { shared with stats := shared.stats.markWorkerOnline worker difficulty clock.unix })
  | .markWorkerOffline worker => (v, { shared with stats := shared.stats.markWorkerOffline worker })
  | .setWorkerProtocol worker protocol => (v, { shared with stats := shared.stats.setWorkerProtocol worker protocol })
  | .updateWorkerVardiff worker difficulty =>
    (v, { shared with stats := shared.stats.updateWorkerVardiff worker difficulty clock.unix })
  | .stashShareHistory worker =>
    let (history, v) := v.takeShareHistory clock.instant
    (v, { shared with stats := shared.stats.stashShareHistory worker history })
  | .takeShareHistory worker =>
    let (history, stats) := shared.stats.takeShareHistory worker clock.unix clock.instant
    ((history.map (v.restoreShareHistory clock.instant)).getD v, { shared with stats })

/-- The calls of a list made one after the other, with nothing in between. -/
def runEffects (clock : Clock) (v : Vardiff) (shared : Shared) (effects : List Effect) : Vardiff × Shared :=
  effects.foldl (fun (v, shared) effect => effect.run clock v shared) (v, shared)

/-- The calls of an authorized name: another name before it is released, with its share record, and the new one claimed. -/
def switchIdentity (protocol : MinerProtocol) (worker : Option String) (name : String) (difficulty : UInt64) :
    List Effect :=
  if worker = some name then []
  else
    (worker.toList.flatMap (fun prev => [.markWorkerOffline prev, .stashShareHistory prev])) ++
      [.markWorkerOnline name difficulty, .setWorkerProtocol name protocol, .takeShareHistory name]

/-- The calls at the end of a session. -/
def releaseIdentity (worker : Option String) : List Effect :=
  worker.toList.flatMap (fun name => [.markWorkerOffline name, .stashShareHistory name])

/-! ### Handlers -/

/-- What a handler reads outside its session: the crates, the engine and the clock, what `submit_found_block` answers
should it be called, and the serial number that a share accepted now gets. -/
structure Env where
  crates : Crates
  engine : Engine
  clock : Clock
  submission : Except PoolError Unit
  serial : Nat

structure Handled (σ μ : Type) where
  miner : Miner σ
  sent : List μ
  effects : List Effect
  /-- The worker whose share the handler recorded, if it did. -/
  credited : Option String
  disconnect : Option String

def Miner.replies {σ μ : Type} (m : Miner σ) (sent : List μ) (effects : List Effect) : Handled σ μ :=
  { miner := m, sent, effects, credited := none, disconnect := none }

def Miner.closes {σ μ : Type} (m : Miner σ) (reason : String) (sent : List μ) (effects : List Effect) : Handled σ μ :=
  { miner := m, sent, effects, credited := none, disconnect := some reason }

def rejectReason : PoolError → RejectReason
  | .staleJob _ => .stale
  | .duplicateShare => .duplicate
  | .lowDifficulty => .lowDifficulty
  | _ => .invalid

/-- How a judged share ends. -/
inductive Verdict where
  | accepted
  | submitFailed (e : PoolError)
  | rejected (e : PoolError)

structure Settled (σ : Type) where
  verdict : Verdict
  miner : Miner σ
  effects : List Effect
  credited : Option String

/-- The arms of `handle_submit` on a judged share, the same in both protocols but for the reply; none when the
validation task panicked. -/
def Miner.settle {σ : Type} (env : Env) (worker : String) (height : UInt64) (m : Miner σ) :
    Result ShareResult → Option (Settled σ)
  | .ok (.valid _ hashDifficulty _) =>
    let credited := m.vardiff.creditFor hashDifficulty
    some {
      verdict := .accepted
      miner := { m with
        sharesAccepted := m.sharesAccepted + 1
        vardiff := m.vardiff.recordShare env.clock.instant credited (some env.serial) }
      effects := [
        .logShare worker credited env.serial, .metric (.shareAccepted credited worker),
        .shareAccepted hashDifficulty credited, .workerShareAccepted worker hashDifficulty, .markWorkerSubmit worker]
      credited := some worker }
  | .ok (.block hashDifficulty _ hash) =>
    match env.submission with
    | .ok () =>
      let credited := m.vardiff.creditFor hashDifficulty
      some {
        verdict := .accepted
        miner := { m with
          sharesAccepted := m.sharesAccepted + 1
          vardiff := m.vardiff.recordShare env.clock.instant credited (some env.serial) }
        effects := [
          .metric .blockFound, .metric .blockSubmissionSuccess, .blockFound worker (hashDisplayHex hash) height,
          .logShare worker credited env.serial, .shareAccepted hashDifficulty credited,
          .workerShareAccepted worker hashDifficulty, .markWorkerSubmit worker]
        credited := some worker }
    | .error e =>
      some {
        verdict := .submitFailed e, miner := m, credited := none
        effects := [.metric (.blockSubmissionFailure e.submitFailureLabel)] }
  | .err e =>
    some {
      verdict := .rejected e
      miner := { m with sharesRejected := m.sharesRejected + 1 }
      effects := [
        .metric (.shareRejected (.reason (rejectReason e)) worker), .shareRejected,
        .workerShareRejected worker (rejectReason e)]
      credited := none }
  | .panic => none

/-- The name a submit is counted under. -/
def workerLabel (worker : Option String) : String := worker.getD "?"

end SoloPool
