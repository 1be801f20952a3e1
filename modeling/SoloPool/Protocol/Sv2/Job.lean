import SoloPool.Bitcoin.Template

/-!
# Stratum V2 work

`protocol/sv2/job.rs`: the messages that carry a job to an extended channel, and the conversions of targets and of the
previous block hash to Stratum V2's byte order.
-/

namespace SoloPool.Sv2
open Lib

inductive JobError where
  | prevHashHex (e : FromHexError)
  | prevHashLength (got : Nat)
  | nbits
  | merklePath (length : Nat)
  | coinbaseTxPrefix (length : Nat)
  | coinbaseTxSuffix (length : Nat)
  deriving DecidableEq

structure NewExtendedMiningJob where
  channelId : UInt32
  jobId : UInt32
  minNtime : Option UInt32
  version : UInt32
  versionRollingAllowed : Bool
  merklePath : List Hash
  coinbaseTxPrefix : Bytes
  coinbaseTxSuffix : Bytes
  deriving DecidableEq

structure SetNewPrevHash where
  channelId : UInt32
  jobId : UInt32
  prevHash : Hash
  minNtime : UInt32
  nbits : UInt32
  deriving DecidableEq

def difficultyToSv2Target (difficulty : UInt64) : Hash := (difficultyToTarget difficulty).reverse

def sv2TargetLe (a b : Hash) : Bool := decide (a.reverse.toList ≤ b.reverse.toList)

/-- The word-swapped order of `mining.notify` turned into the order of the header. -/
def stratumPrevhashToInternal (stratumHex : String) : Lib.Outcome JobError Hash :=
  match hexDecode stratumHex with
  | .error e => .err (.prevHashHex e)
  | .ok bytes =>
    if bytes.length ≠ 32 then .err (.prevHashLength bytes.length)
    else Octets.copyFrom 32 (swapWords bytes)

/-- A value whose length the wire type bounds. -/
def bounded {α : Type} (limit : Nat) (e : Nat → JobError) (xs : List α) : Lib.Outcome JobError (List α) :=
  if xs.length ≤ limit then .ok xs else .err (e xs.length)

def buildNewExtendedJob (job : StratumJob) (channelId jobId : UInt32) (future : Bool) :
    Lib.Outcome JobError NewExtendedMiningJob := do
  let merklePath ← bounded 255 .merklePath job.merkleBranchRaw
  let coinbaseTxPrefix ← bounded 65535 .coinbaseTxPrefix job.coinbase1
  let coinbaseTxSuffix ← bounded 65535 .coinbaseTxSuffix job.coinbase2
  return {
    channelId, jobId
    minNtime := if future then none else some job.curTime
    version := job.version
    versionRollingAllowed := true
    merklePath, coinbaseTxPrefix, coinbaseTxSuffix }

def buildSetNewPrevHash (job : StratumJob) (channelId jobId : UInt32) : Lib.Outcome JobError SetNewPrevHash := do
  let prevHash ← stratumPrevhashToInternal job.prevHash
  let nbits ← Lib.Outcome.ofOption .nbits (u32FromStrRadix16 job.bits)
  return { channelId, jobId, prevHash, minNtime := job.curTime, nbits }

end SoloPool.Sv2
