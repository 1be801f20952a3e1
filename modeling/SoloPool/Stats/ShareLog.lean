import SoloPool.Lib.Run
import SoloPool.Stats

/-!
# The share log in time

The path of an accepted share through `log_share`, `flush_share_log` and a restart of the pool, next to the other methods.
A transaction that fails drops its batch, and a restart what waits for one.
-/

namespace SoloPool.Stats
open Lib

/-- `flush_share_log`, with the outcome of its transaction. -/
def tryFlush (p : PoolStats) (now : UInt64) (committed : Bool) : PoolStats :=
  if committed ∨ p.store.isNone then p.flushShareLog now else { p with pendingShares := [] }

/-- The statistics with the second of the last call that read the clock. The shares handed to `log_share`, those of the
batches that were committed and those that were dropped are recorded for the statements. -/
structure ShareLog where
  stats : PoolStats
  clock : UInt64
  offered : List LoggedShare
  written : List LoggedShare
  lost : List LoggedShare

namespace ShareLog

inductive Event where
  | log (worker : String) (credited now : UInt64) (serial : Option Nat)
  | flush (now : UInt64) (committed : Bool)
  | restart (now : UInt64)
  /-- A method that leaves the share log and what waits for it. -/
  | call (stats : PoolStats)

def boot (db : Option Database) (now : UInt64) : ShareLog :=
  { stats := .newWithStore db now, clock := now, offered := [], written := [], lost := [] }

def tables (p : PoolStats) : Option (List ShareLogRow) := p.store.map (·.shareLog)

def log (s : ShareLog) (share : LoggedShare) : ShareLog :=
  { s with
    stats := s.stats.logShare share.worker share.credited share.ts share.serial
    clock := share.ts
    offered := s.offered ++ [share]
    lost :=
      if s.stats.store.isNone ∨ s.stats.pendingShares.length ≥ PoolStats.maxPendingShares then s.lost ++ [share] else s.lost }

def flush (s : ShareLog) (now : UInt64) (committed : Bool) : ShareLog :=
  { s with
    stats := tryFlush s.stats now committed
    clock := now
    written := if committed then s.written ++ s.stats.pendingShares else s.written
    lost := if committed then s.lost else s.lost ++ s.stats.pendingShares }

def restart (s : ShareLog) (now : UInt64) : ShareLog :=
  { s with stats := .newWithStore s.stats.store now, clock := now, lost := s.lost ++ s.stats.pendingShares }

/-- The wall clock does not go back. -/
def step (s : ShareLog) : Event → Option ShareLog
  | .log worker credited now serial => if s.clock ≤ now then some (s.log { worker, ts := now, credited, serial }) else none
  | .flush now committed => if s.clock ≤ now then some (s.flush now committed) else none
  | .restart now => if s.clock ≤ now then some (s.restart now) else none
  | .call stats =>
    if stats.pendingShares = s.stats.pendingShares ∧ tables stats = tables s.stats then some { s with stats } else none

end ShareLog

end SoloPool.Stats
