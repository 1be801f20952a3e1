import SoloPool.Lib.Run
import SoloPool.Lib.Tasks
import SoloPool.Network.Handlers
import SoloPool.Protocol.Sv2.Handlers

/-!
# Sessions side by side

Every session of both protocols next to the background tasks, over one set of statistics. A session handles one input
at a time; the calls of a handler are made one by one, and those of other sessions may come in between. The session ends
with the calls that release its name. A panic drops the session with nothing released. The deadlines of the loops and the
expiry of a ban are taken to lie before the platform's last instant: behind it their sums panic, and a session dies there.
-/

namespace SoloPool
open Lib Stats

/-! ### One session -/

inductive Peer where
  | sv1 (miner : Miner Session) (written : List Sv1.Line)
  | sv2 (miner : Miner Sv2.Session) (written : List Sv2.Frame)

inductive Input where
  | line (token : Bool) (line : Sv1.ClientLine)
  | frame (token : Bool) (frame : Sv2.ClientFrame)
  | cacheJob (current : Option StratumJob)
  | broadcast (b : JobBroadcast)
  | retarget (retarget : RetargetStep)

/-- What a handler leaves: the session, the calls it makes and whether the session is over after them. -/
structure Turn where
  peer : Peer
  effects : List Effect
  credited : Option String
  closed : Bool

def Sv1.turn (written : List Line) (handled : Handled Session Line) : Turn where
  peer := .sv1 handled.miner (written ++ handled.sent)
  effects := handled.effects
  credited := handled.credited
  closed := handled.disconnect.isSome

def Sv2.turn (written : List Frame) (handled : Handled Session Frame) : Turn where
  peer := .sv2 handled.miner (written ++ handled.sent)
  effects := handled.effects
  credited := handled.credited
  closed := handled.disconnect.isSome

namespace Peer

def worker : Peer → Option String
  | .sv1 m _ => m.session.worker
  | .sv2 m _ => m.session.worker

def vardiff : Peer → Vardiff
  | .sv1 m _ => m.vardiff
  | .sv2 m _ => m.vardiff

def setVardiff (v : Vardiff) : Peer → Peer
  | .sv1 m written => .sv1 { m with vardiff := v } written
  | .sv2 m written => .sv2 { m with vardiff := v } written

/-- One pass of the session loop; none for an input the session does not wait for. -/
def handle (env : Env) (counters : Sv2.Counters) : Peer → Input → Option (Result (Turn × Sv2.Counters))
  | .sv1 m written, .line token line =>
    some (do
      let handled ← Sv1.handleLine env token m line
      return (Sv1.turn written handled, counters))
  | .sv1 m written, .cacheJob current =>
    some (.ok (Sv1.turn written ({ m with session := m.session.cacheJob current }.replies [] []), counters))
  | .sv1 m written, .broadcast b => some (.ok (Sv1.turn written (Sv1.handleBroadcast m b), counters))
  | .sv1 m written, .retarget retarget =>
    if m.session.subscribed && m.session.authorized then
      some (do
        let handled ← Sv1.handleRetarget retarget env.clock.instant m
        return (Sv1.turn written handled, counters))
    else none
  | .sv2 m written, .frame token frame =>
    let (handled, counters) := Sv2.handleMessage env counters token m frame
    some (.ok (Sv2.turn written handled, counters))
  | .sv2 m written, .cacheJob current =>
    some (.ok (Sv2.turn written ({ m with session := m.session.cacheJob current }.replies [] []), counters))
  | .sv2 m written, .broadcast b => some (.ok (Sv2.turn written (Sv2.handleBroadcast m b), counters))
  | .sv2 m written, .retarget retarget =>
    if m.session.channelOpen then
      some (do
        let handled ← Sv2.handleRetarget retarget env.clock.instant m
        return (Sv2.turn written handled, counters))
    else none
  | _, _ => none

end Peer

/-! ### The pool -/

structure Site where
  config : Config
  maxConnections : UInt64

structure Thread where
  peer : Peer
  /-- The calls the handler has yet to make. -/
  pending : List Effect
  /-- The loop is left: only the pending calls are still made. -/
  ending : Bool

/-- The session leaves its loop and releases its name. -/
def Thread.leave (t : Thread) : Thread :=
  { t with pending := t.pending ++ releaseIdentity t.peer.worker, ending := true }

def Turn.thread (turn : Turn) : Thread :=
  let t : Thread := { peer := turn.peer, pending := turn.effects, ending := false }
  if turn.closed then t.leave else t

structure CreditedShare where
  worker : String
  time : Instant
  deriving DecidableEq

structure Pool (site : Site) where
  shared : Shared
  clock : Clock
  counters : Sv2.Counters
  threads : List (Option Thread)
  /-- The shares accepted by this process so far; a share's serial number is its place here. -/
  credited : List CreditedShare

namespace Pool

variable {site : Site}

/-- The process as it comes up. The share log of an earlier process has no share of this one. -/
def boot (db : Option Database) (clock : Clock) : Pool site where
  shared := {
    stats := .newWithStore (db.map (fun db =>
      { db with shareLog := db.shareLog.map ({ · with serial := none }) })) clock.unix
    metrics := .start }
  clock := clock
  counters := .start
  threads := []
  credited := []

/-- What an input is handled with. -/
structure Reading where
  crates : Crates
  engine : Engine
  submission : Except PoolError Unit

inductive Action where
  | connect (sv2 : Bool)
  | handle (i : Nat) (reading : Reading) (input : Input)
  | call (i : Nat)
  | disconnect (i : Nat)
  | close (i : Nat)
  | tick (unix : UInt64) (passed : Nat)
  | flushShareLog
  | pruneIdleWorkers
  | recordHashrateSnapshot (hps : F64)
  | blockFound (worker hash : String) (height : UInt64)

def thread? (p : Pool site) (i : Nat) : Option Thread := p.threads[i]?.join

def setThread (p : Pool site) (i : Nat) (thread : Option Thread) : Pool site := { p with threads := p.threads.set i thread }

def updateStats (p : Pool site) (f : PoolStats → PoolStats) : Pool site :=
  { p with shared := { p.shared with stats := f p.shared.stats } }

def env (p : Pool site) (reading : Reading) : Env where
  crates := reading.crates
  engine := reading.engine
  clock := p.clock
  submission := reading.submission
  serial := p.credited.length

def accept (p : Pool site) (sv2 : Bool) : Pool site :=
  let extranonce1 := generateExtranonce1 p.counters.extranonce1 site.config.pool.extranonce1Size
  let peer :=
    if sv2 then .sv2 (.new site.config (.new site.config extranonce1) p.clock.instant) []
    else .sv1 (.new site.config (.new site.config extranonce1) p.clock.instant) []
  { p with
    counters := { p.counters with extranonce1 := p.counters.extranonce1 + 1 }
    threads := p.threads ++ [some { peer, pending := [], ending := false }] }

def turned (p : Pool site) (i : Nat) (turn : Turn) (counters : Sv2.Counters) : Pool site :=
  { p.setThread i (some turn.thread) with
    counters
    credited := p.credited ++ turn.credited.toList.map (fun worker => { worker, time := p.clock.instant }) }

def called (p : Pool site) (i : Nat) (t : Thread) (effect : Effect) (rest : List Effect) : Pool site :=
  let after := effect.run p.clock t.peer.vardiff p.shared
  { p.setThread i (some { t with peer := t.peer.setVardiff after.1, pending := rest }) with shared := after.2 }

def step (p : Pool site) : Action → Option (Pool site)
  | .connect sv2 =>
    if p.threads.countP Option.isSome < site.maxConnections.toNat then some (p.accept sv2) else none
  | .handle i reading input => do
    let t ← p.thread? i
    if t.pending = [] ∧ t.ending = false then
      match ← t.peer.handle (p.env reading) p.counters input with
      | .ok (turn, counters) => some (p.turned i turn counters)
      | .err _ | .panic => some (p.setThread i none)
    else none
  | .call i => do
    let t ← p.thread? i
    match t.pending with
    | effect :: rest => some (p.called i t effect rest)
    | [] => none
  | .disconnect i => do
    let t ← p.thread? i
    if t.pending = [] ∧ t.ending = false then some (p.setThread i (some t.leave)) else none
  | .close i => do
    let t ← p.thread? i
    if t.pending = [] ∧ t.ending = true then some (p.setThread i none) else none
  | .tick unix passed => some { p with clock := { unix, instant := p.clock.instant + passed } }
  | .flushShareLog => some (p.updateStats (·.flushShareLog p.clock.unix))
  | .pruneIdleWorkers => some (p.updateStats (·.pruneIdleWorkers p.clock.unix))
  | .recordHashrateSnapshot hps => some (p.updateStats (·.recordHashrateSnapshot p.clock.unix hps))
  | .blockFound worker hash height => some (p.updateStats (·.blockFound worker hash height p.clock.unix))

end Pool

end SoloPool
