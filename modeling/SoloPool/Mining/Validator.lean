import Mathlib.Data.Finset.Card
import SoloPool.Bitcoin.Template

/-!
# Share validation

`mining/validator.rs`: the reconstruction of the block header from a submission, the two target checks, block
assembly, and the per-session set of accepted header hashes.
-/

namespace SoloPool
open Lib

def versionRollingMask : UInt32 := 0x1FFFE000

structure JobEntry where
  job : StratumJob
  clean : Bool
  supersededByClean : Bool

structure ShareParams where
  jobId : String
  extranonce2 : Bytes
  ntime : UInt32
  nonce : UInt32
  versionBits : Option UInt32
  versionRollingMask : Option UInt32
  deriving DecidableEq

inductive ShareResult where
  | valid (assignedDifficulty hashDifficulty : UInt64) (hash : Hash)
  | block (hashDifficulty : UInt64) (blockHex : String) (hash : Hash)
  deriving DecidableEq

def ShareResult.hash : ShareResult → Hash
  | .valid _ _ hash => hash
  | .block _ _ hash => hash

def ShareResult.hashDifficulty : ShareResult → UInt64
  | .valid _ hashDifficulty _ => hashDifficulty
  | .block hashDifficulty _ _ => hashDifficulty

def ShareResult.isBlock : ShareResult → Bool
  | .valid .. => false
  | .block .. => true

/-! ### Header checks -/

/-- `cur_time.saturating_add(7200)`. -/
def ntimeCeiling (curTime : UInt32) : Nat := min (curTime.toNat + 7200) (2 ^ 32 - 1)

def checkNtime (ntime minTime curTime : UInt32) : Result Unit :=
  let ceiling := ntimeCeiling curTime
  if ntime < minTime ∨ ntime.toNat > ceiling then
    .err (.invalidParams "mining.submit" (s!"ntime out of range: submitted={ntime} allowed={minTime}..={ceiling} " ++
      s!"(template mintime={minTime} curtime={curTime})"))
  else return ()

/-- The miner's version bits applied where the mask allows them. -/
def resolveVersion (baseVersion : UInt32) (rollingBits negotiatedMask : Option UInt32) : Result UInt32 :=
  let mask := negotiatedMask.getD versionRollingMask
  match rollingBits with
  | some bits =>
    if bits &&& ~~~mask ≠ 0 then
      .err (.invalidParams "mining.submit"
        ("version bits outside negotiated mask: bits=" ++ hex08 bits ++ " mask=" ++ hex08 mask))
    else return (baseVersion &&& ~~~mask) ||| (bits &&& mask)
  | none => return baseVersion

def headerBytes (version : UInt32) (prev merkleRoot : Hash) (ntime bits nonce : UInt32) : Octets 80 :=
  ⟨leBytes 4 version.toNat ++ prev.toList ++ merkleRoot.toList ++ leBytes 4 ntime.toNat ++ leBytes 4 bits.toNat ++
    leBytes 4 nonce.toNat, by simp⟩

def buildHeader (version : UInt32) (stratumPrevHash : String) (merkleRoot : Hash) (ntime : UInt32) (bitsHex : String)
    (nonce : UInt32) : Result (Octets 80) := do
  let prevBytes ← match hexDecode stratumPrevHash with
    | .ok bytes => pure bytes
    | .error _ => Outcome.err PoolError.invalidHeader
  let prevInternal ← Octets.copyFrom 32 (swapWords prevBytes)
  let bits ← Outcome.ofOption PoolError.invalidHeader (u32FromStrRadix16 bitsHex)
  return headerBytes version prevInternal merkleRoot ntime bits nonce

/-! ### Block assembly -/

def encodeVarint (n : UInt64) : Bytes :=
  if n < 0xfd then [n.toUInt8]
  else if n ≤ 0xffff then 0xfd :: leBytes 2 n.toUInt16.toNat
  else if n ≤ 0xffffffff then 0xfe :: leBytes 4 n.toUInt32.toNat
  else 0xff :: leBytes 8 n.toNat

def assembleBlockHex (header : Octets 80) (coinbase : Bytes) (transactions : Vec Bytes) : String :=
  let txCount := 1 + transactions.toList.length
  hexEncode (header.toList ++ encodeVarint (UInt64.ofNat txCount) ++ coinbase ++ transactions.toList.flatten)

/-- The hash, given in little-endian order, is at most the big-endian target. -/
def meetsTarget (hash target : Hash) : Bool := decide (hash.reverse.toList ≤ target.toList)

def hashDisplayHex (hash : Hash) : String := hexEncode hash.reverse.toList

/-! ### Validation -/

def validateShareNoDedup (c : Crates) (params : ShareParams) (job : StratumJob) (jobEntry : JobEntry)
    (extranonce1 : Bytes) (sessionDifficulty : UInt64) : Result ShareResult := do
  if jobEntry.supersededByClean then
    .err (.staleJob params.jobId)
  else
    checkNtime params.ntime job.minTime job.curTime
    let coinbase ← job.assembleCoinbase extranonce1 params.extranonce2
    let merkleRoot := job.merkleRoot c coinbase
    let version ← resolveVersion job.version params.versionBits params.versionRollingMask
    let header ← buildHeader version job.prevHash merkleRoot params.ntime job.bits params.nonce
    let hash := doubleSha256 c header.toList
    let hashDifficulty := hashToDifficulty hash
    -- A hash below the network target is a block whether or not it meets the share target.
    if meetsTarget hash job.networkTarget then
      return .block hashDifficulty (assembleBlockHex header coinbase job.transactions) hash
    else if !meetsTarget hash (difficultyToTarget sessionDifficulty) then
      .err .lowDifficulty
    else return .valid sessionDifficulty hashDifficulty hash

/-! ### The set of accepted hashes -/

structure ShareSet where
  seen : Finset Hash
  order : List Hash
  maxSize : Nat

namespace ShareSet

def new : ShareSet := { seen := ∅, order := [], maxSize := 4096 }

def contains (s : ShareSet) (key : Hash) : Bool := decide (key ∈ s.seen)

def insert (s : ShareSet) (key : Hash) : ShareSet :=
  if s.contains key then s
  else
    let evicted : ShareSet :=
      if s.seen.card ≥ s.maxSize then
        match s.order with
        | oldest :: rest => { s with order := rest, seen := s.seen.erase oldest }
        | [] => s
      else s
    { evicted with order := evicted.order ++ [key], seen := Insert.insert key evicted.seen }

/-- A validated share whose hash was accepted before becomes a duplicate; a fresh one is recorded. -/
def dedup (s : ShareSet) (result : Result ShareResult) : Result ShareResult × ShareSet :=
  match result with
  | .ok res => if s.contains res.hash then (.err .duplicateShare, s) else (.ok res, s.insert res.hash)
  | .err e => (.err e, s)
  | .panic => (.panic, s)

def clear (s : ShareSet) : ShareSet := { s with seen := ∅, order := [] }

end ShareSet

end SoloPool
