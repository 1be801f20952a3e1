import SoloPool.Security.BanList

/-!
# The accept loop

`network/server.rs`, with the start of both session functions: the accept loop, the session tasks it spawns, their reader
tasks and the pruner side by side. An operation on the counter of sessions is a step; so is a whole call of the ban list
or of the rate limiter, although such a call reads the clock and takes its locks one after another: two calls that overlap
in the code are not covered here. `now` is the latest reading of the clock. A session task may return or panic anywhere,
and drops its slot afterwards.
-/

namespace SoloPool
open Lib

structure ListenerConfig where
  maxConnections : UInt64
  maxConnectionsPerIp : UInt32
  banDurationSecs : UInt64
  sv2Enabled : Bool

/-- The label of a refused connection. -/
inductive ConnectionRefusal where
  | capacity
  | banned
  | rateLimit
  deriving DecidableEq

def ConnectionRefusal.label : ConnectionRefusal → String
  | .capacity => "capacity"
  | .banned => "banned"
  | .rateLimit => "rate_limit"

/-- Where the accept loop stands. -/
inductive Accepting where
  | waiting
  | loading (peer : IpAddr)
  | exchanging (peer : IpAddr) (current : UInt64)
  | checkingBan (peer : IpAddr)
  | limiting (peer : IpAddr)
  | releasing
  | spawning (peer : IpAddr) (admittedAt : Instant)
  | stopped
  deriving DecidableEq

inductive Wire where
  | sv1
  | sv2
  deriving DecidableEq

inductive TaskStage where
  | detecting
  | checkingBan (wire : Wire)
  | handshaking
  | serving (wire : Wire)
  /-- Over, with the slot still held. -/
  | ended
  deriving DecidableEq

/-- A ban check that let the peer in: its reading of the clock, and the bans called for before it. -/
structure Clearance where
  time : Instant
  bans : List (IpAddr × Instant)

structure SessionTask where
  peer : IpAddr
  stage : TaskStage
  admittedAt : Instant
  clearance : Option Clearance

/-- What `peek` returns before the deadline. -/
inductive Peek where
  | timeout
  | closed
  | failed
  | byte (first : UInt8)

structure Listener where
  now : Instant
  limiter : ConnectionRateLimiter
  banList : BanList
  activeCount : UInt64
  accepting : Accepting
  sessions : List SessionTask
  /-- The reader tasks of SV2 sessions. -/
  readers : List IpAddr
  refused : List ConnectionRefusal
  admitted : List (Instant × IpAddr)
  bans : List (IpAddr × Instant)

namespace Listener

def start (cfg : ListenerConfig) (now : Instant) : Listener where
  now := now
  limiter := .withCapacityLimit cfg.maxConnectionsPerIp 65536
  banList := .new cfg.banDurationSecs
  activeCount := 0
  accepting := .waiting
  sessions := []
  readers := []
  refused := []
  admitted := []
  bans := []

inductive Action where
  | shutdown
  | acceptFails
  | accept (peer : IpAddr)
  /-- The accept loop's next operation, where it reads no clock. -/
  | advance
  | checkBan (first second : Instant)
  | limit (time : Instant)
  | detect (i : Nat) (peek : Peek)
  | sessionCheckBan (i : Nat) (first second : Instant)
  | handshake (i : Nat)
  /-- The session has read too large a message: it bans its peer and ends. -/
  | sessionBans (i : Nat) (pruneAt time : Instant) (rank : IpAddr → Nat)
  /-- The session function returns or panics. -/
  | finish (i : Nat)
  | dropSlot (i : Nat)
  | readerBans (j : Nat) (pruneAt time : Instant) (rank : IpAddr → Nat)
  | readerEnds (j : Nat)
  | pruneBans (time : Instant)
  | pruneLimiter (time : Instant)

/-- The readings of the clock that the action makes. -/
def Action.readings : Action → List Instant
  | .checkBan first second | .sessionCheckBan _ first second => [first, second]
  | .limit time | .pruneBans time | .pruneLimiter time => [time]
  | .sessionBans _ pruneAt time _ | .readerBans _ pruneAt time _ => [pruneAt, time]
  | _ => []

def refuse (s : Listener) (refusal : ConnectionRefusal) (accepting : Accepting) : Listener :=
  { s with refused := s.refused ++ [refusal], accepting }

def advance (cfg : ListenerConfig) (s : Listener) : Option Listener :=
  match s.accepting with
  | .loading peer =>
    if s.activeCount ≥ cfg.maxConnections then some (s.refuse .capacity .waiting)
    else some { s with accepting := .exchanging peer s.activeCount }
  | .exchanging peer current =>
    if s.activeCount = current then some { s with activeCount := current + 1, accepting := .checkingBan peer }
    else some { s with accepting := .loading peer }
  | .releasing => some { s with activeCount := s.activeCount - 1, accepting := .waiting }
  | .spawning peer admittedAt =>
    some { s with
      accepting := .waiting
      sessions := s.sessions ++ [{ peer, stage := .detecting, admittedAt, clearance := none }] }
  | _ => none

def checkBan (s : Listener) (first second : Instant) : Option Listener :=
  match s.accepting with
  | .checkingBan peer =>
    let (banned, banList) := s.banList.isBanned first second peer
    if banned then some ({ s with banList, now := second }.refuse .banned .releasing)
    else some { s with banList, now := second, accepting := .limiting peer }
  | _ => none

def limit (least : Instant) (s : Listener) (time : Instant) : Option Listener :=
  match s.accepting with
  | .limiting peer =>
    let (allowed, limiter) := s.limiter.checkAndRecord least time peer
    if allowed then
      some { s with limiter, now := time, accepting := .spawning peer time, admitted := s.admitted ++ [(time, peer)] }
    else some ({ s with limiter, now := time }.refuse .rateLimit .releasing)
  | _ => none

/-- SV1 starts with a brace. -/
def detected (cfg : ListenerConfig) : Peek → TaskStage
  | .byte first => if first = 0x7b then .checkingBan .sv1 else if cfg.sv2Enabled then .checkingBan .sv2 else .ended
  | _ => .ended

def setStage (s : Listener) (i : Nat) (task : SessionTask) (stage : TaskStage) : Listener :=
  { s with sessions := s.sessions.set i { task with stage } }

def sessionCheckBan (s : Listener) (i : Nat) (first second : Instant) : Option Listener := do
  let task ← s.sessions[i]?
  match task.stage with
  | .checkingBan wire =>
    let (banned, banList) := s.banList.isBanned first second task.peer
    let s := { s with banList, now := second }
    if banned then some (s.setStage i task .ended)
    else
      let stage := match wire with
        | .sv1 => .serving .sv1
        | .sv2 => .handshaking
      some (s.setStage i { task with clearance := some { time := first, bans := s.bans } } stage)
  | _ => none

/-- `ban`, from its first lock to its last. -/
def banPeer (latest : Instant) (s : Listener) (peer : IpAddr) (pruneAt time : Instant) (rank : IpAddr → Nat) : Listener :=
  { s with
    banList := (s.banList.ban latest rank pruneAt time peer "message too large").2
    now := time, bans := s.bans ++ [(peer, time)] }

def operate (cfg : ListenerConfig) (least latest : Instant) (s : Listener) : Action → Option Listener
  | .shutdown => if s.accepting = .waiting then some { s with accepting := .stopped } else none
  | .acceptFails => if s.accepting = .waiting then some s else none
  | .accept peer => if s.accepting = .waiting then some { s with accepting := .loading peer } else none
  | .advance => s.advance cfg
  | .checkBan first second => s.checkBan first second
  | .limit time => s.limit least time
  | .detect i peek => do
    let task ← s.sessions[i]?
    if task.stage = .detecting then some (s.setStage i task (detected cfg peek)) else none
  | .sessionCheckBan i first second => s.sessionCheckBan i first second
  | .handshake i => do
    let task ← s.sessions[i]?
    if task.stage = .handshaking then
      some { s.setStage i task (.serving .sv2) with readers := s.readers ++ [task.peer] }
    else none
  | .sessionBans i pruneAt time rank => do
    let task ← s.sessions[i]?
    match task.stage with
    | .serving _ => some ((s.banPeer latest task.peer pruneAt time rank).setStage i task .ended)
    | _ => none
  | .finish i => do
    let task ← s.sessions[i]?
    if task.stage = .ended then none else some (s.setStage i task .ended)
  | .dropSlot i => do
    let task ← s.sessions[i]?
    if task.stage = .ended then
      some { s with activeCount := s.activeCount - 1, sessions := s.sessions.eraseIdx i }
    else none
  | .readerBans j pruneAt time rank => do
    let peer ← s.readers[j]?
    some { s.banPeer latest peer pruneAt time rank with readers := s.readers.eraseIdx j }
  | .readerEnds j => some { s with readers := s.readers.eraseIdx j }
  | .pruneBans time => some { s with banList := s.banList.prune time, now := time }
  | .pruneLimiter time => some { s with limiter := s.limiter.prune least time, now := time }

/-- The clock does not go back. -/
def step (cfg : ListenerConfig) (least latest : Instant) (s : Listener) (a : Action) : Option Listener :=
  if (s.now :: a.readings).Pairwise (· ≤ ·) then s.operate cfg least latest a else none

end Listener

end SoloPool
