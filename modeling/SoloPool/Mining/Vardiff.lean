import SoloPool.Config
import SoloPool.Error

/-!
# Variable difficulty

`mining/vardiff.rs`: the difficulty a session assigns, what it credits a share with, and the record of credited shares
that its hashrate windows are computed from. An instant counts nanoseconds on the monotonic clock, signed as a Linux
timespec is; the floating-point part of a retarget is a parameter.
-/

namespace SoloPool
open Lib

abbrev Instant := Int

def secs (n : Nat) : Nat := n * 1000000000

/-- `duration_since`, which is zero for an instant still to come. -/
def elapsed (now earlier : Instant) : Nat := (now - earlier).toNat

def shareRetention : Nat := secs 86400

/-- An entry of a share record. The serial number says which share accepted by this process it is, if it is one; the
program has no such field. -/
structure ShareTime where
  time : Instant
  credited : UInt64
  serial : Option Nat
  deriving DecidableEq

def ShareTime.recent (now : Instant) (share : ShareTime) : Bool := decide (elapsed now share.time ≤ shareRetention)

structure ShareHistory where
  shareTimes : List ShareTime
  startedAt : Instant
  deriving DecidableEq

/-- A row of the persisted share log: the unix second, the credit and the serial number of the share. -/
structure ShareRow where
  ts : UInt64
  credited : UInt64
  serial : Option Nat
  deriving DecidableEq

def ShareHistory.fromUnixRows (rows : List ShareRow) (nowUnix : UInt64) (now : Instant) : Option ShareHistory := do
  let shareTimes := rows.filterMap (fun row =>
    let age := secs (nowUnix.toNat - row.ts.toNat)
    if age > shareRetention then none else some { time := now - age, credited := row.credited, serial := row.serial })
  let first ← shareTimes.head?
  return { shareTimes, startedAt := first.time }

structure Vardiff where
  cfg : VardiffConfig
  shareTimes : List ShareTime
  lastRetarget : Instant
  current : UInt64
  previous : UInt64
  startedAt : Instant
  suggestApplied : Bool
  deriving DecidableEq

/-- `u64::clamp`, which panics on an inverted range. -/
def clamp (value least greatest : UInt64) : Result UInt64 := do
  Outcome.check (least ≤ greatest)
  return if value < least then least else if value > greatest then greatest else value

/-- Whether `f64::clamp(1.0 / factor, factor)` finds its range in order. -/
def stepClamps : F64 → Bool
  | .finite factor => decide (factor ≠ 0 ∧ 1 / factor ≤ factor)
  | .infinite negative => !negative
  | .nan => false

/-- What the floating-point part of `check_retarget` makes of the current difficulty, the work and the time observed:
nothing inside the hysteresis band, else the rounded new difficulty before it is clamped. -/
abbrev RetargetStep := VardiffConfig → UInt64 → UInt64 → Nat → Option UInt64

namespace Vardiff

def new (cfg : VardiffConfig) (initialDifficulty : UInt64) (now : Instant) : Vardiff where
  cfg := cfg
  shareTimes := []
  lastRetarget := now
  current := initialDifficulty
  previous := initialDifficulty
  startedAt := now
  suggestApplied := false

def setCurrent (v : Vardiff) (difficulty : UInt64) : Vardiff :=
  if difficulty ≠ v.current then { v with previous := v.current, current := difficulty } else v

/-- The clamped suggestion becomes the difficulty; only the first one starts a fresh interval. -/
def suggest (v : Vardiff) (difficulty : UInt64) (now : Instant) : Result (UInt64 × Vardiff) := do
  let clamped ← clamp difficulty v.cfg.minDifficulty v.cfg.maxDifficulty
  let v := v.setCurrent clamped
  return (clamped, if v.suggestApplied then v else { v with suggestApplied := true, lastRetarget := now })

/-- The threshold a hash of this difficulty is known to have been mined against. -/
def creditFor (v : Vardiff) (hashDifficulty : UInt64) : UInt64 :=
  if hashDifficulty ≥ v.current then v.current
  else if hashDifficulty ≥ v.previous then v.previous
  else v.cfg.minDifficulty

def recordShare (v : Vardiff) (now : Instant) (credited : UInt64) (serial : Option Nat) : Vardiff :=
  let share : ShareTime := { time := now, credited, serial }
  { v with shareTimes := (v.shareTimes ++ [share]).dropWhile (fun share => !share.recent now) }

def takeShareHistory (v : Vardiff) (now : Instant) : ShareHistory × Vardiff :=
  ({ shareTimes := v.shareTimes, startedAt := v.startedAt }, { v with shareTimes := [], startedAt := now })

def restoreShareHistory (v : Vardiff) (now : Instant) (history : ShareHistory) : Vardiff :=
  { v with
    shareTimes := history.shareTimes.filter (fun share => share.recent now) ++ v.shareTimes
    startedAt := min v.startedAt history.startedAt }

def retargetInterval (v : Vardiff) : Nat := secs v.cfg.retargetIntervalSecs.toNat

/-- `retarget_due`, while the sum is an instant of the platform; behind the last one it panics. -/
def retargetDue (v : Vardiff) : Instant := v.lastRetarget + v.retargetInterval

/-- The credited work inside the window, added up without overflow, and how much of the window was observed. -/
def workInWindow (v : Vardiff) (now : Instant) (window : Nat) : UInt64 × Nat :=
  let inside := v.shareTimes.filter (fun share => decide (elapsed now share.time ≤ window))
  let work := inside.foldl (fun sum share => min (sum + share.credited.toNat) (2 ^ 64 - 1)) 0
  (UInt64.ofNat work, min (elapsed now v.startedAt) window)

def retargetWindowShares : Nat := 20

def checkRetarget (retarget : RetargetStep) (v : Vardiff) (now : Instant) : Result (Option UInt64 × Vardiff) :=
  if elapsed now v.lastRetarget < v.retargetInterval then return (none, v)
  else
    let v := { v with lastRetarget := now }
    let window := secs (min (v.cfg.targetShareTimeSecs.toNat * retargetWindowShares) (2 ^ 64 - 1))
    let (work, observed) := v.workInWindow now (max window v.retargetInterval)
    if observed = 0 then return (none, v)
    else
      match retarget v.cfg v.current work observed with
      | none => return (none, v)
      | some rounded => do
        Outcome.check (stepClamps v.cfg.maxRetargetFactor)
        let newDiff ← clamp rounded v.cfg.minDifficulty v.cfg.maxDifficulty
        if newDiff = v.current then return (none, v)
        return (some newDiff, v.setCurrent newDiff)

end Vardiff

end SoloPool
