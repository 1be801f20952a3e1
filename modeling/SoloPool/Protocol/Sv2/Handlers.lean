import SoloPool.Network.Miner

/-!
# Stratum V2 handlers

The dispatch of a frame and the handlers of `protocol/sv2/mod.rs` with the frames they send. A frame is given decoded;
one whose payload does not decode ends the session.
-/

namespace SoloPool.Sv2
open Lib

inductive ClientFrame where
  | setupConnection (setup : SetupConn)
  | openExtended (request : OpenExtended)
  | submitExtended (submit : SubmitSharesExtended)
  | malformed
  | other

inductive Frame where
  | setupSuccess (usedVersion : UInt16)
  | setupError (code : String) (flags : UInt32)
  | openError (requestId : UInt32)
  | openSuccess (requestId channelId : UInt32) (target : Hash) (extranonceSize : Nat) (extranoncePrefix : Bytes)
  | job (job : StratumJob) (channelId jobId : UInt32) (future : Bool)
  | futureJob (job : StratumJob) (channelId jobId : UInt32)
  | setTarget (channelId : UInt32) (target : Hash)
  | submitSuccess (channelId sequenceNumber : UInt32) (sharesSum : UInt64)
  | submitError (channelId sequenceNumber : UInt32) (code : String)

def Message.frame (target : Hash) : Message → Frame
  | .setupSuccess usedVersion => .setupSuccess usedVersion
  | .openError requestId => .openError requestId
  | .openSuccess requestId channelId extranonceSize extranoncePrefix =>
    .openSuccess requestId channelId target extranonceSize extranoncePrefix
  | .job work channelId jobId future => .job work channelId jobId future
  | .futureJob work channelId jobId => .futureJob work channelId jobId

def Flow.handled (target : Hash) (m : Miner Session) (effects : List Effect) : Flow → Handled Session Frame
  | .continue sent => m.replies (sent.map (Message.frame target)) effects
  | .disconnect sent reason => m.closes reason (sent.map (Message.frame target)) effects

def setupErrorFlags (code : String) : UInt32 := if code = "unsupported-feature-flags" then unsupportedSetupFlags else 0

def handleSetupConnection (m : Miner Session) (setup : SetupConn) : Handled Session Frame :=
  match m.session.handleSetupConnection setup with
  | (.continue sent, session) => { m with session }.replies (sent.map (Message.frame (.zero 32))) []
  | (.disconnect _ code, session) => { m with session }.closes code [.setupError code (setupErrorFlags code)] []

/-- The target of the session's difficulty, no easier than the device declares. -/
def openTarget (difficulty : UInt64) (maxTarget : Hash) : Hash :=
  let target := difficultyToSv2Target difficulty
  if sv2TargetLe target maxTarget then target else maxTarget

/-- `handle_open_extended`: a request is checked in full before anything of the session or the statistics changes. -/
def handleOpenExtended (counters : Counters) (m : Miner Session) (request : OpenExtended) :
    Handled Session Frame × Counters :=
  if !m.session.setupDone then (m.closes "OpenExtendedMiningChannel before SetupConnection" [] [], counters)
  else
    match m.session.guard.checkWorkerName request.userIdentity with
    | .error _ => (m.closes "invalid user_identity" [] [], counters)
    | .ok () =>
      if request.minExtranonceSize.toNat > m.session.extranonceTotal then
        (m.replies [.openError request.requestId] [], counters)
      else
        match SoloPool.Session.takeIdentity m.session.guard m.session.worker request.userIdentity with
        | none => (m.closes "too many worker identities" [] [], counters)
        | some _ =>
          let (flow, session, counters) := m.session.handleOpenExtended counters request
          (flow.handled (openTarget m.difficulty request.maxTarget) { m with session }
            (switchIdentity .sv2 m.session.worker request.userIdentity m.difficulty), counters)

def rejectCode : Stats.RejectReason → String
  | .stale => "stale"
  | .duplicate => "duplicate"
  | .lowDifficulty => "low_difficulty"
  | _ => "invalid"

def accept (m : Miner Session) (sequenceNumber : UInt32) : Frame :=
  .submitSuccess m.session.channelId sequenceNumber m.difficulty

def reject (m : Miner Session) (sequenceNumber : UInt32) (code : String) : Frame :=
  .submitError m.session.channelId sequenceNumber code

/-- The replies and the calls around `Session.handleSubmit`. -/
def handleSubmit (env : Env) (m : Miner Session) (submit : SubmitSharesExtended) : Handled Session Frame :=
  let submitted := m.session.handleSubmit env.crates env.engine submit
  let worker := workerLabel m.session.worker
  let m := { m with session := submitted.session }
  match submitted.outcome with
  | .unauthorized => m.closes "SubmitShares before channel open" [] []
  | .badExtranonce _ _ =>
    let effects := [.metric (.shareRejected (.reason .badExtranonce) worker), .shareRejected,
      .workerShareRejected worker .badExtranonce]
    if submitted.disconnect then m.closes "too many invalid shares" [] effects
    else m.replies [reject m submit.sequenceNumber "bad-extranonce-size"] effects
  | .jobNotFound =>
    m.replies [reject m submit.sequenceNumber "stale-job"] [.metric (.shareRejected (.reason .jobNotFound) worker),
      .shareRejected, .workerShareRejected worker .jobNotFound]
  | .judged result =>
    let entry := (m.session.engineJobId submit.jobId).bind env.engine.findJob
    match m.settle env worker ((entry.map (·.job.height)).getD 0) result with
    | none => m.closes "internal error" [] []
    | some settled =>
      if submitted.disconnect then settled.miner.closes "too many invalid shares" [] settled.effects
      else
        let reply := match settled.verdict with
          | .accepted => accept settled.miner submit.sequenceNumber
          | .submitFailed _ => reject settled.miner submit.sequenceNumber "block-submit-failed"
          | .rejected e => reject settled.miner submit.sequenceNumber (rejectCode (rejectReason e))
        { settled.miner.replies [reply] settled.effects with credited := settled.credited }

/-- `handle_message`; each frame takes a token of the session's rate limit. -/
def handleMessage (env : Env) (counters : Counters) (token : Bool) (m : Miner Session) (frame : ClientFrame) :
    Handled Session Frame × Counters :=
  if !token then
    (m.closes "rate limited" [] [.metric (.shareRejected .rateLimited (workerLabel m.session.worker))], counters)
  else
    match frame with
    | .setupConnection setup => (handleSetupConnection m setup, counters)
    | .openExtended request => handleOpenExtended counters m request
    | .submitExtended submit => (handleSubmit env m submit, counters)
    | .malformed => (m.closes "malformed" [] [], counters)
    | .other => (m.replies [] [], counters)

/-- The broadcast arm of `run`. -/
def handleBroadcast (m : Miner Session) (b : JobBroadcast) : Handled Session Frame :=
  let (flow, session) := m.session.handleBroadcast b
  flow.handled (.zero 32) { m with session } []

/-- The retarget arm of `run`, which waits only for an open channel. -/
def handleRetarget (retarget : RetargetStep) (now : Instant) (m : Miner Session) : Result (Handled Session Frame) := do
  let (change, vardiff) ← m.vardiff.checkRetarget retarget now
  match change with
  | none => return { m with vardiff }.replies [] []
  | some difficulty =>
    return { m with difficulty, vardiff }.replies
      [.setTarget m.session.channelId (difficultyToSv2Target difficulty)]
      (m.session.worker.toList.map (.updateWorkerVardiff · difficulty))

end SoloPool.Sv2
