import Mathlib.Logic.Function.Basic
import SoloPool.Error
import SoloPool.Stats.Worker

/-!
# Prometheus counters

`metrics/mod.rs`, as far as a submit counts: each labelled counter is a function of its labels, and wraps as the
recorder's 64-bit integers do. The deprecated histograms are left out.
-/

namespace SoloPool
open Stats

inductive RejectLabel where
  | reason (reason : RejectReason)
  | rateLimited
  deriving DecidableEq

inductive SubmitFailure where
  | rpcError
  | rejected
  | other
  deriving DecidableEq

def PoolError.submitFailureLabel : PoolError → SubmitFailure
  | .rpc _ => .rpcError
  | .submitBlockRejected _ => .rejected
  | _ => .other

structure Metrics where
  sharesAccepted : String → UInt64
  shareWork : String → UInt64
  sharesRejected : RejectLabel × String → UInt64
  workerSharesRejected : String → UInt64
  blocksFound : UInt64
  blockSubmissionsSuccess : UInt64
  blockSubmissionsFailed : SubmitFailure → UInt64

namespace Metrics

def start : Metrics where
  sharesAccepted := fun _ => 0
  shareWork := fun _ => 0
  sharesRejected := fun _ => 0
  workerSharesRejected := fun _ => 0
  blocksFound := 0
  blockSubmissionsSuccess := 0
  blockSubmissionsFailed := fun _ => 0

def increment {α : Type} [DecidableEq α] (counter : α → UInt64) (label : α) (amount : UInt64) : α → UInt64 :=
  Function.update counter label (counter label + amount)

def shareAccepted (m : Metrics) (difficulty : UInt64) (worker : String) : Metrics :=
  { m with sharesAccepted := increment m.sharesAccepted worker 1, shareWork := increment m.shareWork worker difficulty }

def shareRejected (m : Metrics) (label : RejectLabel) (worker : String) : Metrics :=
  { m with
    sharesRejected := increment m.sharesRejected (label, worker) 1
    workerSharesRejected := increment m.workerSharesRejected worker 1 }

def blockFound (m : Metrics) : Metrics := { m with blocksFound := m.blocksFound + 1 }

def blockSubmissionSuccess (m : Metrics) : Metrics := { m with blockSubmissionsSuccess := m.blockSubmissionsSuccess + 1 }

def blockSubmissionFailure (m : Metrics) (label : SubmitFailure) : Metrics :=
  { m with blockSubmissionsFailed := increment m.blockSubmissionsFailed label 1 }

end Metrics

end SoloPool
