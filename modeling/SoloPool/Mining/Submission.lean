import SoloPool.Mining.Archive
import SoloPool.Network.Miner

/-!
# The submission of a found block

`submit_found_block`, `spawn_resubmit_task` and the replay of `mining/engine.rs` as far as attempts and credit go: which
of a sequence of attempts are made and what is called when one succeeds. The files are the subject of the archive's model.
-/

namespace SoloPool
open Lib

/-- A `submitblock` attempt with the node's answers. A turn of the retrier reads the clock, sleeps and then sends. -/
structure Attempt where
  turn : Instant
  sent : Instant
  first : Result JsonResult
  refreshed : Option (Result JsonResult)
  deriving DecidableEq

def Attempt.outcome (a : Attempt) : Result Unit := trySubmit (submitBlock a.first a.refreshed)

def submitRetryDeadline : Nat := secs (2 * 60 * 60)

/-- The attempts a task has made and the calls it has made on success. -/
structure Course where
  made : List Attempt
  effects : List Effect
  deriving DecidableEq

def Course.after (a : Attempt) (c : Course) : Course := { c with made := a :: c.made }

/-- The retrier over what its attempts would be answered; `credit` is the worker to credit, none for a replay. -/
def spawnResubmitTask (height : UInt64) (hashHex : String) (credit : Option String) (deadline : Instant) :
    List Attempt → Course
  | [] => ⟨[], []⟩
  | a :: rest =>
    if a.turn < deadline then
      match a.outcome with
      | .ok () =>
        ⟨[a], credit.toList.flatMap fun worker =>
          [.metric .blockFound, .metric .blockSubmissionSuccess, .blockFound worker hashHex height]⟩
      | .err e =>
        if isPermanentReject e then ⟨[a], []⟩
        else (spawnResubmitTask height hashHex credit deadline rest).after a
      | .panic => ⟨[a], []⟩
    else ⟨[], []⟩

/-- `submit_found_block` from its attempt with number `attempt` on: what it returns, if it has come that far, and the course
of its own attempts and its retrier's. `spawned` is the retrier's first reading of the clock. -/
def submitFoundBlock (height : UInt64) (hashHex worker : String) (spawned : Instant) (attempt : Nat) :
    List Attempt → Option (Except PoolError Unit) × Course
  | [] => (none, ⟨[], []⟩)
  | a :: rest =>
    match a.outcome with
    | .ok () => (some (.ok ()), ⟨[a], []⟩)
    | .err e =>
      if isPermanentReject e then (some (.error e), ⟨[a], []⟩)
      else if attempt < submitInlineAttempts then
        let (returned, course) := submitFoundBlock height hashHex worker spawned (attempt + 1) rest
        (returned, course.after a)
      else
        (some (.error e),
          (spawnResubmitTask height hashHex (some worker) (spawned + submitRetryDeadline) rest).after a)
    | .panic => (none, ⟨[a], []⟩)

/-- The replay of one archived block. -/
def replayArchivedBlock (height : UInt64) (hashHex : String) (spawned : Instant) : List Attempt → Course
  | [] => ⟨[], []⟩
  | a :: rest =>
    match a.outcome with
    | .ok () => ⟨[a], []⟩
    | .err e =>
      if isPermanentReject e || isNodeSideError e then ⟨[a], []⟩
      else (spawnResubmitTask height hashHex none (spawned + submitRetryDeadline) rest).after a
    | .panic => ⟨[a], []⟩

/-- A found block in the hands of the session's handler: the attempts made, and the calls of the handler once
`submit_found_block` has returned with those of the retrier. -/
def Miner.submitBlock {σ : Type} (env : Env) (worker : String) (height : UInt64) (m : Miner σ) (hashDifficulty : UInt64)
    (blockHex : String) (hash : Hash) (spawned : Instant) (attempts : List Attempt) : Course :=
  let (returned, course) := submitFoundBlock height (hashDisplayHex hash) worker spawned 1 attempts
  let handled := returned.bind fun submission =>
    m.settle { env with submission } worker height (.ok (.block hashDifficulty blockHex hash))
  { course with effects := (handled.map (·.effects)).getD [] ++ course.effects }

end SoloPool
