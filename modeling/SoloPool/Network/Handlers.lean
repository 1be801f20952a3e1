import SoloPool.Network.Miner

/-!
# Stratum V1 handlers

The dispatch of a client line and the handlers of `network/session.rs` with their replies. A line is given by what
`StratumRequest::parse` and `ClientMessage::from_request` make of it.
-/

namespace SoloPool.Sv1
open Lib

inductive ClientMessage where
  | configure (params : ConfigureParams)
  | subscribe
  | authorize (name : String)
  | submit (params : SubmitParams)
  | suggestDifficulty (difficulty : UInt64)
  | unknown (method : String)

inductive ClientLine where
  | blank
  | malformed
  | invalid (e : PoolError)
  | message (message : ClientMessage)

/-- A line written to the miner; a notify with the arguments of `build_notify`. -/
inductive Line where
  | ok
  | err (e : PoolError)
  | unknownMethod (method : String)
  | configured (versionRolling : Bool) (mask : UInt32) (minimumDifficulty : UInt64)
  | subscribed (extranonce1 : String) (extranonce2Size : Nat)
  | setDifficulty (difficulty : UInt64)
  | notify (job : StratumJob) (cleanJobs : Bool)

def handleConfigure (m : Miner Session) (params : ConfigureParams) : Handled Session Line :=
  let (_, session) := m.session.handleConfigure params
  { m with session }.replies
    [.configured session.versionRollingEnabled session.versionRollingMask m.difficulty] []

/-- The hint seeds the difficulty; a miner that has not subscribed yet is told with its first work. -/
def handleSuggestDifficulty (env : Env) (m : Miner Session) (difficulty : UInt64) : Result (Handled Session Line) := do
  let (applied, vardiff) ← m.vardiff.suggest difficulty env.clock.instant
  let sent := if m.session.subscribed then [.ok, .setDifficulty applied] else [.ok]
  return { m with difficulty := applied, vardiff }.replies sent []

def handleSubscribe (m : Miner Session) : Handled Session Line :=
  let (_, session) := m.session.handleSubscribe
  { m with session }.replies [.subscribed (hexEncode session.extranonce1) session.extranonce2Size] []

def handleAuthorize (env : Env) (m : Miner Session) (name : String) : Handled Session Line :=
  if !m.session.subscribed then m.replies [.err .notSubscribed] []
  else
    match m.session.guard.checkWorkerName name with
    | .error e => m.replies [.err e] []
    | .ok () =>
      match Session.takeIdentity m.session.guard m.session.worker name with
      | none => m.closes "too many worker identities" [] []
      | some _ =>
        let (_, session) := m.session.handleAuthorize env.engine.currentJob name
        { m with session }.replies
          (.ok :: .setDifficulty m.difficulty :: session.currentJob.toList.map (.notify · true))
          (switchIdentity .sv1 m.session.worker name m.difficulty)

/-- The replies and the calls around `Session.handleSubmit`. -/
def handleSubmit (env : Env) (m : Miner Session) (params : SubmitParams) : Handled Session Line :=
  let submitted := m.session.handleSubmit env.crates env.engine params
  let worker := workerLabel m.session.worker
  let m := { m with session := submitted.session }
  match submitted.outcome with
  | .unauthorized =>
    m.replies [.err .notAuthorized] [.metric (.shareRejected (.reason .unauthorized) worker), .shareRejected]
  | .badExtranonce got expected =>
    let effects := [.metric (.shareRejected (.reason .badExtranonce) worker), .shareRejected,
      .workerShareRejected worker .badExtranonce]
    if submitted.disconnect then m.closes "too many invalid shares" [] effects
    else m.replies [.err (.badExtranonceSize got expected)] effects
  | .jobNotFound =>
    m.replies [.err (.staleJob params.jobId)] [.metric (.shareRejected (.reason .jobNotFound) worker), .shareRejected,
      .workerShareRejected worker .jobNotFound]
  | .judged result =>
    let height := ((env.engine.findJob params.jobId).map (·.job.height)).getD 0
    match m.settle env worker height result with
    | none => m.closes "internal error" [] []
    | some settled =>
      if submitted.disconnect then settled.miner.closes "too many invalid shares" [] settled.effects
      else
        let reply := match settled.verdict with
          | .accepted => .ok
          | .submitFailed e | .rejected e => .err e
        { settled.miner.replies [reply] settled.effects with credited := settled.credited }

/-- `handle_line`; each line but a blank one takes a token of the session's rate limit. -/
def handleLine (env : Env) (token : Bool) (m : Miner Session) : ClientLine → Result (Handled Session Line)
  | .blank => return m.replies [] []
  | line =>
    if !token then
      return m.closes "rate limited" [] [.metric (.shareRejected .rateLimited (workerLabel m.session.worker))]
    else
      match line with
      | .blank => return m.replies [] []
      | .malformed => return m.closes "parse error" [] []
      | .invalid e => return m.replies [.err e] []
      | .message (.configure params) => return handleConfigure m params
      | .message .subscribe => return handleSubscribe m
      | .message (.authorize name) => return handleAuthorize env m name
      | .message (.submit params) => return handleSubmit env m params
      | .message (.suggestDifficulty difficulty) => handleSuggestDifficulty env m difficulty
      | .message (.unknown method) => return m.replies [.unknownMethod method] []

/-- The broadcast arm of `run`. -/
def handleBroadcast (m : Miner Session) (b : JobBroadcast) : Handled Session Line :=
  let (_, session) := m.session.handleBroadcast b
  let sent := if session.subscribed && session.authorized then [.setDifficulty m.difficulty, .notify b.job b.clean] else []
  { m with session }.replies sent []

/-- The retarget arm of `run`, which waits only for a session that is subscribed and authorized. -/
def handleRetarget (retarget : RetargetStep) (now : Instant) (m : Miner Session) : Result (Handled Session Line) := do
  let (change, vardiff) ← m.vardiff.checkRetarget retarget now
  match change with
  | none => return { m with vardiff }.replies [] []
  | some difficulty =>
    return { m with difficulty, vardiff }.replies [.setDifficulty difficulty]
      (m.session.worker.toList.map (.updateWorkerVardiff · difficulty))

end SoloPool.Sv1
