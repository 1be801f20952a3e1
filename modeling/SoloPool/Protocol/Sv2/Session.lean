import SoloPool.Network.Session
import SoloPool.Protocol.Sv2.Job

/-!
# Stratum V2 sessions

`protocol/sv2/mod.rs`: one connection with at most one extended channel. The extranonce region is split per channel:
the device gets what it asks for and the pool's prefix is what is left.
-/

namespace SoloPool.Sv2
open Lib

structure SetupConn where
  mining : Bool
  minVersion : UInt16
  maxVersion : UInt16
  flags : UInt32

structure OpenExtended where
  requestId : UInt32
  userIdentity : String
  minExtranonceSize : UInt16
  maxTarget : Hash

structure SubmitSharesExtended where
  sequenceNumber : UInt32
  jobId : UInt32
  nonce : UInt32
  ntime : UInt32
  version : UInt32
  extranonce : Bytes

/-- A frame sent to the device; a job with the arguments of `send_job` and the id it was given. -/
inductive Message where
  | setupSuccess (usedVersion : UInt16)
  | openError (requestId : UInt32)
  | openSuccess (requestId channelId : UInt32) (extranonceSize : Nat) (extranoncePrefix : Bytes)
  | job (job : StratumJob) (channelId jobId : UInt32) (future : Bool)
  /-- A future job alone: the `SetNewPrevHash` that would activate it cannot be built. -/
  | futureJob (job : StratumJob) (channelId jobId : UInt32)

inductive Flow where
  | continue (sent : List Message)
  | disconnect (sent : List Message) (reason : String)

def protocolVersion : UInt16 := 2

def unsupportedSetupFlags : UInt32 := 3

structure Counters where
  extranonce1 : UInt64
  channelId : UInt32
  deriving DecidableEq

def Counters.start : Counters := { extranonce1 := 1, channelId := 1 }

structure Session where
  worker : Option String
  setupDone : Bool
  channelOpen : Bool
  channelId : UInt32
  extranoncePrefix : Bytes
  extranonceSize : Nat
  extranonceTotal : Nat
  minDifficulty : UInt64
  shareSet : ShareSet
  guard : SessionGuard
  jobIds : List (UInt32 × String)
  nextJobId : UInt32
  pendingJob : Option StratumJob

namespace Session

def new (cfg : Config) (extranoncePrefix : Bytes) : Session where
  worker := none
  setupDone := false
  channelOpen := false
  channelId := 0
  extranoncePrefix := extranoncePrefix
  extranonceSize := cfg.pool.extranonce2Size
  extranonceTotal := cfg.pool.extranonce1Size + cfg.pool.extranonce2Size
  minDifficulty := cfg.vardiff.minDifficulty
  shareSet := .new
  guard := .new cfg.security
  jobIds := []
  nextJobId := 1
  pendingJob := none

def cacheJob (s : Session) (current : Option StratumJob) : Session :=
  match current with
  | some job => { s with pendingJob := some job }
  | none => s

def assignJobId (s : Session) (engineJobId : String) : UInt32 × Session :=
  let next := if s.nextJobId + 1 = 0 then 1 else s.nextJobId + 1
  let ids := s.jobIds ++ [(s.nextJobId, engineJobId)]
  (s.nextJobId, { s with nextJobId := next, jobIds := ids.drop (ids.length - 16) })

def engineJobId (s : Session) (sv2JobId : UInt32) : Option String :=
  (s.jobIds.find? (fun entry => entry.1 == sv2JobId)).map (·.2)

/-- `send_job`: the session ends when a message cannot be built, with what has been sent before it. -/
def sendJob (s : Session) (job : StratumJob) (future : Bool) : Except (List Message) Message × Session :=
  let (jobId, s) := s.assignJobId job.jobId
  match buildNewExtendedJob job s.channelId jobId future with
  | .ok _ =>
    if future then
      match buildSetNewPrevHash job s.channelId jobId with
      | .ok _ => (.ok (.job job s.channelId jobId future), s)
      | _ => (.error [.futureJob job s.channelId jobId], s)
    else (.ok (.job job s.channelId jobId future), s)
  | _ => (.error [], s)

def handleSetupConnection (s : Session) (setup : SetupConn) : Flow × Session :=
  if !setup.mining then (.disconnect [] "unsupported-protocol", s)
  else if setup.minVersion > protocolVersion ∨ setup.maxVersion < protocolVersion then
    (.disconnect [] "protocol-version-mismatch", s)
  else if setup.flags &&& unsupportedSetupFlags ≠ 0 then (.disconnect [] "unsupported-feature-flags", s)
  else (.continue [.setupSuccess protocolVersion], { s with setupDone := true })

/-- `handle_open_extended`, drawing a prefix and a channel id from the counters. -/
def handleOpenExtended (s : Session) (counters : Counters) (request : OpenExtended) : Flow × Session × Counters :=
  if !s.setupDone then (.disconnect [] "OpenExtendedMiningChannel before SetupConnection", s, counters)
  else
    match s.guard.checkWorkerName request.userIdentity with
    | .error _ => (.disconnect [] "invalid user_identity", s, counters)
    | .ok () =>
      let requested := request.minExtranonceSize.toNat
      if requested > s.extranonceTotal then (.continue [.openError request.requestId], s, counters)
      else
        match SoloPool.Session.takeIdentity s.guard s.worker request.userIdentity with
        | none => (.disconnect [] "too many worker identities", s, counters)
        | some guard =>
          let granted := max requested 1
          let extranoncePrefix := generateExtranonce1 counters.extranonce1 (s.extranonceTotal - granted)
          let s := { s with
            guard
            worker := some request.userIdentity
            extranonceSize := granted
            extranoncePrefix
            channelId := counters.channelId
            channelOpen := true }
          let counters := { extranonce1 := counters.extranonce1 + 1, channelId := counters.channelId + 1 }
          let opened := .openSuccess request.requestId s.channelId granted extranoncePrefix
          match s.pendingJob with
          | none => (.continue [opened], s, counters)
          | some job =>
            match s.sendJob job true with
            | (.ok sent, s) => (.continue [opened, sent], s, counters)
            | (.error part, s) => (.disconnect (opened :: part) "write", s, counters)

def handleBroadcast (s : Session) (b : JobBroadcast) : Flow × Session :=
  let s := if b.clean then { s with shareSet := s.shareSet.clear } else s
  if s.channelOpen then
    match s.sendJob b.job b.clean with
    | (.ok sent, s) => (.continue [sent], { s with pendingJob := some b.job })
    | (.error part, s) => (.disconnect part "write", s)
  else (.continue [], { s with pendingJob := some b.job })

/-- The validation parameters of a submit: the rolled bits of the full version the device sends. -/
def shareParams (submit : SubmitSharesExtended) (engineJobId : String) : ShareParams where
  jobId := engineJobId
  extranonce2 := submit.extranonce
  ntime := submit.ntime
  nonce := submit.nonce
  versionBits := some (submit.version &&& versionRollingMask)
  versionRollingMask := some SoloPool.versionRollingMask

/-- `handle_submit` up to the credit of the share. -/
def handleSubmit (c : Crates) (e : Engine) (s : Session) (submit : SubmitSharesExtended) : Submitted Session :=
  if !s.channelOpen then { outcome := .unauthorized, disconnect := true, session := s }
  else if submit.extranonce.length ≠ s.extranonceSize then
    let (disconnect, guard) := s.guard.recordInvalid
    { outcome := .badExtranonce submit.extranonce.length s.extranonceSize, disconnect, session := { s with guard } }
  else
    match (s.engineJobId submit.jobId).bind e.findJob with
    | none => { outcome := .jobNotFound, disconnect := false, session := s }
    | some entry =>
      let validated := validateShareNoDedup c (shareParams submit entry.job.jobId) entry.job entry s.extranoncePrefix
        s.minDifficulty
      let (result, shareSet) := s.shareSet.dedup validated
      let (disconnect, guard) := guardAfter s.guard result
      { outcome := .judged result, disconnect, session := { s with shareSet, guard } }

end Session

end SoloPool.Sv2
