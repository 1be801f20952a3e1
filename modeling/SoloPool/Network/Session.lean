import SoloPool.Mining.Engine
import SoloPool.Protocol.Sv1
import SoloPool.Security

/-!
# Stratum V1 sessions

`network/session.rs`: the state of one connection and its handlers, as far as they carry work to the miner and shares
back. Difficulty and statistics are left to the modules that model them.
-/

namespace SoloPool
open Lib

/-! ### Extranonces -/

/-- The extranonce cut from one value of the process-wide counter: its last `size` bytes, or all eight behind zeros. -/
def generateExtranonce1 (counter : UInt64) (size : Nat) : Bytes :=
  let bytes := beBytes 8 counter.toNat
  if size ≤ 8 then bytes.drop (8 - size) else List.replicate (size - 8) 0 ++ bytes

/-! ### Messages -/

structure ConfigureParams where
  versionRolling : Bool
  versionRollingMask : Option UInt32
  versionRollingMinBitCount : Option UInt32
  deriving DecidableEq

structure SubmitParams where
  jobId : String
  extranonce2 : Bytes
  ntime : UInt32
  nonce : UInt32
  versionBits : Option UInt32
  deriving DecidableEq

/-- A line sent to the miner; a notify with the arguments of `build_notify`. -/
inductive Sv1Message where
  | ok
  | err (e : PoolError)
  | configured (versionRolling : Bool) (mask : UInt32)
  | subscribed (extranonce1 : String) (extranonce2Size : Nat)
  | notify (job : StratumJob) (cleanJobs : Bool)

inductive HandleResult where
  | messages (sent : List Sv1Message)
  | disconnect (reason : String)

/-! ### The session -/

structure Session where
  worker : Option String
  subscribed : Bool
  authorized : Bool
  versionRollingEnabled : Bool
  versionRollingMask : UInt32
  versionRollingMinBitCount : Option UInt32
  extranonce1 : Bytes
  extranonce2Size : Nat
  currentJob : Option StratumJob
  /-- `vardiff_cfg.min_difficulty`, down to which shares are accepted. -/
  minDifficulty : UInt64
  shareSet : ShareSet
  guard : SessionGuard

namespace Session

def new (cfg : Config) (extranonce1 : Bytes) : Session where
  worker := none
  subscribed := false
  authorized := false
  versionRollingEnabled := false
  versionRollingMask := SoloPool.versionRollingMask
  versionRollingMinBitCount := none
  extranonce1 := extranonce1
  extranonce2Size := cfg.pool.extranonce2Size
  currentJob := none
  minDifficulty := cfg.vardiff.minDifficulty
  shareSet := .new
  guard := .new cfg.security

def cacheJob (s : Session) (current : Option StratumJob) : Session :=
  match current with
  | some job => { s with currentJob := some job }
  | none => s

def countOnes (mask : UInt32) : Nat := (List.range 32).countP (fun i => mask.toNat.testBit i)

def handleConfigure (s : Session) (params : ConfigureParams) : HandleResult × Session :=
  let s :=
    if params.versionRolling then
      let negotiated := (params.versionRollingMask.map (· &&& s.versionRollingMask)).getD s.versionRollingMask
      let minBitsOk := (params.versionRollingMinBitCount.map (fun bits => decide (countOnes negotiated ≥ bits.toNat))).getD true
      { s with
        versionRollingEnabled := minBitsOk && decide (negotiated ≠ 0)
        versionRollingMask := negotiated
        versionRollingMinBitCount := params.versionRollingMinBitCount }
    else s
  (.messages [.configured s.versionRollingEnabled s.versionRollingMask], s)

def handleSubscribe (s : Session) : HandleResult × Session :=
  (.messages [.subscribed (hexEncode s.extranonce1) s.extranonce2Size], { s with subscribed := true })

/-- The identity check of `handle_authorize`: only a new name counts against the cap. -/
def takeIdentity (guard : SessionGuard) (worker : Option String) (name : String) : Option SessionGuard :=
  if worker = some name then some guard
  else
    match guard.recordNewAuthorization with
    | (true, guard) => some guard
    | (false, _) => none

/-- `handle_authorize`, with the engine's current job for a session that has none. -/
def handleAuthorize (s : Session) (engineJob : Option StratumJob) (name : String) : HandleResult × Session :=
  if !s.subscribed then (.messages [.err .notSubscribed], s)
  else
    match s.guard.checkWorkerName name with
    | .error e => (.messages [.err e], s)
    | .ok () =>
      match takeIdentity s.guard s.worker name with
      | none => (.disconnect "too many worker identities", s)
      | some guard =>
        let s := { s with guard, authorized := true, worker := some name }
        match s.currentJob.or engineJob with
        | some job => (.messages [.ok, .notify job true], { s with currentJob := some job })
        | none => (.messages [.ok], s)

def handleBroadcast (s : Session) (b : JobBroadcast) : HandleResult × Session :=
  let s := if b.clean then { s with shareSet := s.shareSet.clear } else s
  let sent := if s.subscribed && s.authorized then [.notify b.job b.clean] else []
  (.messages sent, { s with currentJob := some b.job })

/-- The validation parameters of a submit: version bits count only once rolling is enabled. -/
def shareParams (s : Session) (params : SubmitParams) : ShareParams where
  jobId := params.jobId
  extranonce2 := params.extranonce2
  ntime := params.ntime
  nonce := params.nonce
  versionBits := if s.versionRollingEnabled then params.versionBits else none
  versionRollingMask := if s.versionRollingEnabled then some s.versionRollingMask else none

end Session

/-! ### Submits -/

inductive SubmitOutcome where
  | unauthorized
  | badExtranonce (got expected : Nat)
  | jobNotFound
  | judged (result : Result ShareResult)
  deriving DecidableEq

structure Submitted (σ : Type) where
  outcome : SubmitOutcome
  disconnect : Bool
  session : σ

-- Stale and low-difficulty shares are expected, and do not count as invalid.
def isMalicious : PoolError → Bool
  | .lowDifficulty | .staleJob _ => false
  | _ => true

def guardAfter (guard : SessionGuard) : Result ShareResult → Bool × SessionGuard
  | .ok _ => (false, guard)
  | .err e => if isMalicious e then guard.recordInvalid else (false, guard)
  | .panic => (true, guard)

/-- `handle_submit` up to the credit of the share. -/
def Session.handleSubmit (c : Crates) (e : Engine) (s : Session) (params : SubmitParams) : Submitted Session :=
  if !s.authorized then { outcome := .unauthorized, disconnect := false, session := s }
  else if params.extranonce2.length ≠ s.extranonce2Size then
    let (disconnect, guard) := s.guard.recordInvalid
    { outcome := .badExtranonce params.extranonce2.length s.extranonce2Size, disconnect, session := { s with guard } }
  else
    match e.findJob params.jobId with
    | none => { outcome := .jobNotFound, disconnect := false, session := s }
    | some entry =>
      let validated := validateShareNoDedup c (s.shareParams params) entry.job entry s.extranonce1 s.minDifficulty
      let (result, shareSet) := s.shareSet.dedup validated
      let (disconnect, guard) := guardAfter s.guard result
      { outcome := .judged result, disconnect, session := { s with shareSet, guard } }

end SoloPool
