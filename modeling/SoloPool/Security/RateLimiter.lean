import SoloPool.Lib.Sliding
import SoloPool.Mining.Vardiff

/-!
# The connection rate limiter

`security/mod.rs`: the connections of each address in the last minute, in a map of bounded size. A call reads the clock
once; `least` is the earliest instant the platform can represent.
-/

namespace SoloPool
open Lib

inductive IpAddr where
  | v4 (bits : UInt32)
  | v6 (bits : BitVec 128)
  deriving DecidableEq

/-- `Instant::checked_sub`. -/
def checkedSub (least now : Instant) (duration : Nat) : Option Instant :=
  if least ≤ now - duration then some (now - duration) else none

structure ConnectionRateLimiter where
  windows : AList fun _ : IpAddr => List Instant
  maxPerMinute : UInt32
  maxTracked : Nat

namespace ConnectionRateLimiter

def withCapacityLimit (maxPerMinute : UInt32) (maxTracked : Nat) : ConnectionRateLimiter where
  windows := ∅
  maxPerMinute := maxPerMinute
  maxTracked := maxTracked

def prune (least : Instant) (rl : ConnectionRateLimiter) (now : Instant) : ConnectionRateLimiter :=
  match checkedSub least now (secs 60) with
  | none => rl
  | some oneMinuteAgo => { rl with windows := retain (fun times => times.any fun t => decide (t > oneMinuteAgo)) rl.windows }

/-- Whether a connection is allowed; a refused one is not recorded. -/
def checkAndRecord (least : Instant) (rl : ConnectionRateLimiter) (now : Instant) (ip : IpAddr) :
    Bool × ConnectionRateLimiter :=
  let oneMinuteAgo := checkedSub least now (secs 60)
  let full := decide (rl.windows.keys.length ≥ rl.maxTracked ∧ ip ∉ rl.windows)
  let rl := if full then rl.prune least now else rl
  if full && decide (rl.windows.keys.length ≥ rl.maxTracked) then (false, rl)
  else
    let entry := (rl.windows.lookup ip).getD []
    let entry := match oneMinuteAgo with
      | some cutoff => entry.filter fun t => decide (t > cutoff)
      | none => entry
    if entry.length ≥ rl.maxPerMinute.toNat then (false, { rl with windows := rl.windows.insert ip entry })
    else (true, { rl with windows := rl.windows.insert ip (entry ++ [now]) })

end ConnectionRateLimiter

end SoloPool
