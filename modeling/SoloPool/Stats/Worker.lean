import Mathlib.Logic.Function.Basic
import SoloPool.Config

/-!
# One worker's statistics

`WorkerState` of `stats.rs` with the reject window it carries: counts in a ring of sixty minutes, and the last other
rejects one by one. The fields only a dashboard snapshot fills in are left out.
-/

namespace SoloPool.Stats

inductive MinerProtocol where
  | sv1 | sv2
  deriving DecidableEq

inductive RejectReason where
  | unauthorized | badExtranonce | jobNotFound | stale | duplicate | lowDifficulty | invalid
  deriving DecidableEq

/-- Rejects caused by timing rather than by the device. -/
def isStaleReason : RejectReason → Bool
  | .stale | .jobNotFound => true
  | _ => false

structure MinuteCounts where
  minute : UInt64
  accepted : UInt32
  stale : UInt32
  deriving DecidableEq

def saturatingSucc (n : UInt32) : UInt32 := if n.toNat = 2 ^ 32 - 1 then n else n + 1

def rejectWindowMinutes : Nat := 60

def maxRecentOtherRejects : Nat := 256

/-- The reasons are labels: the window only compares them. -/
structure RejectWindow (ρ : Type) where
  minutes : Fin rejectWindowMinutes → MinuteCounts
  other : List (UInt64 × ρ)

namespace RejectWindow

variable {ρ : Type}

def default : RejectWindow ρ := { minutes := fun _ => { minute := 0, accepted := 0, stale := 0 }, other := [] }

def slot (minute : UInt64) : Fin rejectWindowMinutes := ⟨minute.toNat % rejectWindowMinutes, Nat.mod_lt _ (by decide)⟩

/-- The counts of the minute `now` falls in, started afresh when the slot still holds an older minute. -/
def bucket (w : RejectWindow ρ) (now : UInt64) : MinuteCounts :=
  let minute := now / 60
  let held := w.minutes (slot minute)
  if held.minute ≠ minute then { minute, accepted := 0, stale := 0 } else held

def setBucket (w : RejectWindow ρ) (now : UInt64) (counts : MinuteCounts) : RejectWindow ρ :=
  { w with minutes := Function.update w.minutes (slot (now / 60)) counts }

def recordAccepted (w : RejectWindow ρ) (now : UInt64) : RejectWindow ρ :=
  w.setBucket now { w.bucket now with accepted := saturatingSucc (w.bucket now).accepted }

def recordStale (w : RejectWindow ρ) (now : UInt64) : RejectWindow ρ :=
  w.setBucket now { w.bucket now with stale := saturatingSucc (w.bucket now).stale }

def prune (w : RejectWindow ρ) (now : UInt64) : RejectWindow ρ :=
  { w with other := w.other.dropWhile (fun entry => decide (entry.1.toNat ≤ now.toNat - rejectWindowMinutes * 60)) }

def recordOther (w : RejectWindow ρ) (now : UInt64) (reason : ρ) : RejectWindow ρ :=
  let pruned := w.prune now
  let kept := if pruned.other.length = maxRecentOtherRejects then pruned.other.tail else pruned.other
  { pruned with other := kept ++ [(now, reason)] }

/-- A slot counts if it holds one of the sixty minutes that end with `nowMinute`. -/
def addMinute (nowMinute : Nat) (sums : Nat × Nat) (b : MinuteCounts) : Nat × Nat :=
  if b.minute.toNat + rejectWindowMinutes > nowMinute ∧ b.minute.toNat ≤ nowMinute then
    (sums.1 + b.accepted.toNat, sums.2 + b.stale.toNat)
  else sums

/-- `*other.entry(reason).or_insert(0) += 1`. -/
def addReason [DecidableEq ρ] (counts : ρ → Option Nat) (reason : ρ) : ρ → Option Nat :=
  Function.update counts reason (some ((counts reason).getD 0 + 1))

/-- Accepted shares, stale rejects and other rejects by reason, in the window that ends at `now`. -/
def summary [DecidableEq ρ] (w : RejectWindow ρ) (now : UInt64) : Nat × Nat × (ρ → Option Nat) :=
  let sums := (List.ofFn w.minutes).foldl (addMinute (now.toNat / 60)) (0, 0)
  let cutoff := now.toNat - rejectWindowMinutes * 60
  let recent := w.other.filter (fun entry => decide (entry.1.toNat > cutoff))
  (sums.1, sums.2, (recent.map (·.2)).foldl addReason fun _ => none)

end RejectWindow

structure WorkerState where
  protocol : MinerProtocol
  online : Bool
  currentVardiff : UInt64
  sharesAccepted : Nat
  sharesRejected : Nat
  sharesStale : Nat
  rejectReasons : RejectReason → Nat
  bestShareDifficulty : UInt64
  activeSessions : UInt64
  connectedTs : UInt64
  lastSubmitTs : UInt64
  lastOtherRejectTs : UInt64
  lastOtherRejectReason : Option RejectReason
  rejectWindow : RejectWindow RejectReason

namespace WorkerState

/-- The state `mark_worker_online` inserts for a name it does not know. -/
def new (protocol : MinerProtocol) (currentVardiff bestShareDifficulty now : UInt64) : WorkerState where
  protocol := protocol
  online := true
  currentVardiff := currentVardiff
  sharesAccepted := 0
  sharesRejected := 0
  sharesStale := 0
  rejectReasons := fun _ => 0
  bestShareDifficulty := bestShareDifficulty
  activeSessions := 1
  connectedTs := now
  lastSubmitTs := 0
  lastOtherRejectTs := 0
  lastOtherRejectReason := none
  rejectWindow := .default

/-- `active_sessions.saturating_add(1)` and the rest of coming online. -/
def joined (state : WorkerState) (currentVardiff now : UInt64) : WorkerState :=
  { state with
    online := true
    currentVardiff
    connectedTs := now
    activeSessions := if state.activeSessions.toNat = 2 ^ 64 - 1 then state.activeSessions else state.activeSessions + 1 }

def left (state : WorkerState) : WorkerState :=
  if state.activeSessions > 1 then { state with activeSessions := state.activeSessions - 1 }
  else { state with activeSessions := 0, online := false }

def shareAccepted (state : WorkerState) (difficulty now : UInt64) : WorkerState :=
  { state with
    sharesAccepted := state.sharesAccepted + 1
    rejectWindow := state.rejectWindow.recordAccepted now
    bestShareDifficulty := if difficulty > state.bestShareDifficulty then difficulty else state.bestShareDifficulty }

def shareRejected (state : WorkerState) (reason : RejectReason) (now : UInt64) : WorkerState :=
  let counted : WorkerState := { state with
    sharesRejected := state.sharesRejected + 1
    rejectReasons := Function.update state.rejectReasons reason (state.rejectReasons reason + 1)
    sharesStale := if reason = .stale then state.sharesStale + 1 else state.sharesStale }
  if isStaleReason reason then { counted with rejectWindow := counted.rejectWindow.recordStale now }
  else
    { counted with
      rejectWindow := counted.rejectWindow.recordOther now reason
      lastOtherRejectTs := now
      lastOtherRejectReason := some reason }

end WorkerState

end SoloPool.Stats
