import SoloPool.Lib.Run
import SoloPool.Mining.Engine

/-!
# The engine loop and its triggers

`TemplateEngine::run` with the two tasks of `bitcoin/zmq.rs` that signal new blocks to it: the ZMQ listener and the
poll of the best block hash. Both send on one watch channel, which only remembers that something was sent.
-/

namespace SoloPool
open Lib

structure EngineLoop where
  publication : Publication
  booted : Bool
  /-- The watch channel holds a value the loop has not seen. -/
  signalled : Bool
  /-- `last_hash` of the poll. -/
  lastHash : String

namespace EngineLoop

def start : EngineLoop :=
  { publication := { engine := .new, published := [] }, booted := false, signalled := false, lastHash := "" }

inductive Action where
  | boot (reply : Except PoolError GbtResult)
  /-- The ZMQ listener receives a `hashblock` notification. -/
  | zmqHashblock
  | poll (hash : String)
  | newBlock (reply : Except PoolError GbtResult)
  | ntimeTick (reply : Except PoolError GbtResult)

def Action.refresh? : Action → Option (Bool × Except PoolError GbtResult)
  | .boot reply => some (true, reply)
  | .zmqHashblock => none
  | .poll _ => none
  | .newBlock reply => some (true, reply)
  | .ntimeTick reply => some (false, reply)

def enabled (s : EngineLoop) : Action → Bool
  | .boot _ => !s.booted
  | .zmqHashblock => true
  | .poll _ => true
  | .newBlock _ => s.booted && s.signalled
  | .ntimeTick _ => s.booted

def signal (s : EngineLoop) : Action → EngineLoop
  | .boot _ => { s with booted := true }
  | .zmqHashblock => { s with signalled := true }
  -- The first hash the poll reads differs from the empty one it starts with, so it signals too.
  | .poll hash => if hash = s.lastHash then s else { s with lastHash := hash, signalled := true }
  | .newBlock _ => { s with signalled := false }
  | .ntimeTick _ => s

def step (p : Process) (settings : RuntimeSettings) (s : EngineLoop) (a : Action) : Option EngineLoop :=
  if s.enabled a then
    match a.refresh? with
    | none => some (s.signal a)
    | some (cleanJobs, reply) =>
      some { s.signal a with publication := s.publication.refresh p { settings, cleanJobs, reply } }
  else none

end EngineLoop

/-- `find_job` followed by `validate_share_no_dedup`, as both submit handlers call them. -/
def Engine.judgeSubmission (c : Crates) (e : Engine) (params : ShareParams) (extranonce1 : Bytes)
    (difficulty : UInt64) : Option (Result ShareResult) :=
  (e.findJob params.jobId).map (fun entry => validateShareNoDedup c params entry.job entry extranonce1 difficulty)

end SoloPool
