import SoloPool.Mining.Concurrent
import SoloPool.Protocol.Sv2.Session

/-!
# Miners and the engine

Every connection of both protocols next to the concurrent refreshes: a session draws its extranonce, subscribes to the
job broadcasts, caches the current job and then serves its miner and its broadcasts in any order. A broadcast reaches
the queue of every subscribed session; a full queue drops its oldest entry, and the `Lagged` that `recv` then returns
changes nothing else.
-/

namespace SoloPool
open Lib

structure Deployment where
  crates : Crates
  config : Config
  startMillis : UInt64

def Deployment.process (d : Deployment) : Process :=
  { crates := d.crates, pool := d.config.pool, startMillis := d.startMillis }

/-! ### One connection -/

inductive Client where
  | sv1 (session : Session)
  | sv2 (session : Sv2.Session)

inductive Request where
  | configure (params : ConfigureParams)
  | subscribe
  | authorize (name : String)
  | submit (params : SubmitParams)
  | setupConnection (setup : Sv2.SetupConn)
  | openExtended (request : Sv2.OpenExtended)
  | submitExtended (submit : Sv2.SubmitSharesExtended)

/-- A job as its miner got it: the previous block and whether the miner drops its other work for it. -/
structure Delivery where
  prevHash : String
  clean : Bool
  deriving DecidableEq

structure Credit where
  params : ShareParams
  job : StratumJob
  extranonce1 : Bytes
  result : ShareResult

def HandleResult.deliveries : HandleResult → List Delivery
  | .messages sent => sent.filterMap (fun
    | .notify job clean => some { prevHash := job.prevHash, clean }
    | _ => none)
  | .disconnect _ => []

def HandleResult.closes : HandleResult → Bool
  | .messages _ => false
  | .disconnect _ => true

def Sv2.Flow.sent : Sv2.Flow → List Sv2.Message
  | .continue sent => sent
  | .disconnect sent _ => sent

-- A job with `future` comes with the SetNewPrevHash that activates it; without it the device does not mine the job.
def Sv2.Flow.deliveries (flow : Sv2.Flow) : List Delivery :=
  flow.sent.filterMap (fun
    | .job job _ _ future => some { prevHash := job.prevHash, clean := future }
    | _ => none)

def Sv2.Flow.closes : Sv2.Flow → Bool
  | .continue _ => false
  | .disconnect _ _ => true

def SubmitOutcome.credit (outcome : SubmitOutcome) (entry : Option JobEntry) (params : JobEntry → ShareParams)
    (extranonce1 : Bytes) : Option Credit :=
  match outcome, entry with
  | .judged (.ok result), some entry => some { params := params entry, job := entry.job, extranonce1, result }
  | _, _ => none

structure Served where
  client : Client
  counters : Sv2.Counters
  sent : List Delivery
  credit : Option Credit
  closed : Bool

def Client.cacheJob (current : Option StratumJob) : Client → Client
  | .sv1 s => .sv1 (s.cacheJob current)
  | .sv2 s => .sv2 (s.cacheJob current)

def Client.handleBroadcast (counters : Sv2.Counters) (b : JobBroadcast) : Client → Served
  | .sv1 s =>
    let (result, s) := s.handleBroadcast b
    { client := .sv1 s, counters, sent := result.deliveries, credit := none, closed := result.closes }
  | .sv2 s =>
    let (flow, s) := s.handleBroadcast b
    { client := .sv2 s, counters, sent := flow.deliveries, credit := none, closed := flow.closes }

/-- The dispatch of a request; none of the other protocol's can arrive. -/
def Client.handle (c : Crates) (e : Engine) (counters : Sv2.Counters) : Client → Request → Option Served
  | .sv1 s, .configure params =>
    let (result, s) := s.handleConfigure params
    some { client := .sv1 s, counters, sent := result.deliveries, credit := none, closed := result.closes }
  | .sv1 s, .subscribe =>
    let (result, s) := s.handleSubscribe
    some { client := .sv1 s, counters, sent := result.deliveries, credit := none, closed := result.closes }
  | .sv1 s, .authorize name =>
    let (result, s) := s.handleAuthorize e.currentJob name
    some { client := .sv1 s, counters, sent := result.deliveries, credit := none, closed := result.closes }
  | .sv1 s, .submit params =>
    let submitted := s.handleSubmit c e params
    let credit := submitted.outcome.credit (e.findJob params.jobId) (fun _ => s.shareParams params) s.extranonce1
    some { client := .sv1 submitted.session, counters, sent := [], credit, closed := submitted.disconnect }
  | .sv2 s, .setupConnection setup =>
    let (flow, s) := s.handleSetupConnection setup
    some { client := .sv2 s, counters, sent := flow.deliveries, credit := none, closed := flow.closes }
  | .sv2 s, .openExtended request =>
    let (flow, s, counters) := s.handleOpenExtended counters request
    some { client := .sv2 s, counters, sent := flow.deliveries, credit := none, closed := flow.closes }
  | .sv2 s, .submitExtended submit =>
    let submitted := s.handleSubmit c e submit
    let credit := submitted.outcome.credit ((s.engineJobId submit.jobId).bind e.findJob)
      (fun entry => Sv2.Session.shareParams submit entry.job.jobId) s.extranoncePrefix
    some { client := .sv2 submitted.session, counters, sent := [], credit, closed := submitted.disconnect }
  | _, _ => none

inductive Stage where
  | accepted
  | subscribed
  /-- The current job is cached and the session loop runs. -/
  | serving
  deriving DecidableEq

structure Connection where
  client : Client
  stage : Stage
  queue : List JobBroadcast
  /-- Which draw of an extranonce the session's is, counted from 1. -/
  drawn : Nat
  delivered : List Delivery
  credits : List Credit
  /-- How many of the credits stood when the share set was last cleared. -/
  cleared : Nat

def Connection.enqueue (conn : Connection) (sent : List JobBroadcast) : Connection :=
  match conn.stage with
  | .accepted => conn
  | _ => { conn with queue := sent.foldl (pushBounded jobBroadcastCap) conn.queue }

def Connection.received (conn : Connection) (b : JobBroadcast) (rest : List JobBroadcast) (served : Served) :
    Connection :=
  { conn with
    client := served.client, queue := rest, delivered := conn.delivered ++ served.sent
    cleared := if b.clean then conn.credits.length else conn.cleared }

/-- The connection after a request, with the number of the draw its extranonce comes from. -/
def Connection.answered (conn : Connection) (served : Served) (drawn : Nat) : Connection :=
  { conn with
    client := served.client, delivered := conn.delivered ++ served.sent
    credits := conn.credits ++ served.credit.toList, drawn }

def Connection.accepted (cfg : Config) (extranonce1 : Bytes) (sv2 : Bool) (drawn : Nat) : Connection where
  client := if sv2 then .sv2 (.new cfg extranonce1) else .sv1 (.new cfg extranonce1)
  stage := .accepted
  queue := []
  drawn := drawn
  delivered := []
  credits := []
  cleared := 0

/-! ### The server -/

structure Server (d : Deployment) where
  refreshes : Refreshes d.process
  counters : Sv2.Counters
  generated : Nat
  connections : Nat → Option Connection

namespace Server

variable {d : Deployment}

def start (settings : RuntimeSettings) : Server d :=
  { refreshes := .start settings, counters := .start, generated := 0, connections := fun _ => none }

inductive Action where
  | engine (a : Refreshes.Action)
  | connect (id : Nat) (sv2 : Bool)
  | subscribe (id : Nat)
  | cacheJob (id : Nat)
  | recv (id : Nat)
  | request (id : Nat) (request : Request)
  | disconnect (id : Nat)

def setConnection (s : Server d) (id : Nat) (conn : Option Connection) : Server d :=
  { s with connections := Function.update s.connections id conn }

def accept (s : Server d) (id : Nat) (sv2 : Bool) : Server d :=
  let extranonce1 := generateExtranonce1 s.counters.extranonce1 d.config.pool.extranonce1Size
  { s.setConnection id (some (.accepted d.config extranonce1 sv2 (s.generated + 1))) with
    counters := { s.counters with extranonce1 := s.counters.extranonce1 + 1 }, generated := s.generated + 1 }

def receive (s : Server d) (id : Nat) (conn : Connection) (b : JobBroadcast) (rest : List JobBroadcast) : Server d :=
  let served := conn.client.handleBroadcast s.counters b
  s.setConnection id (if served.closed then none else some (conn.received b rest served))

def serve (s : Server d) (id : Nat) (conn : Connection) (served : Served) : Server d :=
  let draws := decide (served.counters.extranonce1 ≠ s.counters.extranonce1)
  let drawn := if draws then s.generated + 1 else conn.drawn
  { s.setConnection id (if served.closed then none else some (conn.answered served drawn)) with
    counters := served.counters, generated := if draws then s.generated + 1 else s.generated }

def step (s : Server d) : Action → Option (Server d)
  | .engine a => do
    let refreshes ← s.refreshes.step a
    let sent := refreshes.broadcasts.drop s.refreshes.broadcasts.length
    return { s with refreshes, connections := fun id => (s.connections id).map (·.enqueue sent) }
  | .connect id sv2 =>
    match s.connections id with
    | some _ => none
    | none => some (s.accept id sv2)
  | .subscribe id =>
    match s.connections id with
    | some conn =>
      if conn.stage = .accepted then some (s.setConnection id (some { conn with stage := .subscribed })) else none
    | none => none
  | .cacheJob id =>
    match s.connections id with
    | some conn =>
      if conn.stage = .subscribed then
        some (s.setConnection id (some { conn with
          stage := .serving, client := conn.client.cacheJob s.refreshes.engine.currentJob }))
      else none
    | none => none
  | .recv id =>
    match s.connections id with
    | some conn =>
      match conn.stage, conn.queue with
      | .serving, b :: rest => some (s.receive id conn b rest)
      | _, _ => none
    | none => none
  | .request id request =>
    match s.connections id with
    | some conn =>
      if conn.stage = .serving then
        (conn.client.handle d.crates s.refreshes.engine s.counters request).map (s.serve id conn)
      else none
    | none => none
  | .disconnect id => (s.connections id).map (fun _ => s.setConnection id none)

end Server

end SoloPool
