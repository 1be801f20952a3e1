import SoloPool.Error
import SoloPool.Lib.Merkle

/-!
# Jobs from block templates

`bitcoin/template.rs`: the coinbase transaction, the merkle branch, the byte order of the previous block hash, the
targets, and `build_job`, which puts them together. The crates the module calls into are the parameter `Crates`.
-/

namespace SoloPool
open Lib

abbrev Hash := Octets 32

/-! ### The `bitcoin` and `sha2` crates -/

structure TxIn where
  prevTxid : Hash
  prevVout : UInt32
  scriptSig : Bytes
  sequence : UInt32
  deriving DecidableEq

structure TxOut where
  value : UInt64
  scriptPubkey : Bytes
  deriving DecidableEq

structure Transaction where
  version : UInt32
  lockTime : UInt32
  input : List TxIn
  output : List TxOut
  deriving DecidableEq

inductive Network where
  | bitcoin | testnet | testnet4 | signet | regtest
  deriving DecidableEq

/-- What the pool calls outside its own source. -/
structure Crates where
  sha256 : Bytes → Hash
  /-- `bitcoin::Address::from_str` followed by `assume_checked().script_pubkey()`. -/
  addressToScript : String → Except String Bytes
  /-- `require_network` on the parsed address. -/
  requireNetwork : String → Network → Bool
  serialize : Transaction → Bytes

/-! ### Template and job -/

/-- A `Vec`: its length fits the address space. -/
structure Vec (α : Type) where
  toList : List α
  length_lt : toList.length < 2 ^ 63

def Vec.map {α β : Type} (f : α → β) (v : Vec α) : Vec β := ⟨v.toList.map f, by simpa using v.length_lt⟩

@[simp] theorem Vec.toList_map {α β : Type} (f : α → β) (v : Vec α) : (v.map f).toList = v.toList.map f := rfl

structure GbtTransaction where
  data : Bytes
  txid : String
  deriving DecidableEq

structure GbtResult where
  version : UInt32
  prevHash : String
  bits : String
  curTime : UInt32
  minTime : UInt32
  height : UInt64
  coinbaseValue : UInt64
  transactions : Vec GbtTransaction
  defaultWitnessCommitment : Option String

structure StratumJob where
  jobId : String
  prevHash : String
  coinbase1 : Bytes
  coinbase2 : Bytes
  merkleBranch : List String
  merkleBranchRaw : List Hash
  version : UInt32
  bits : String
  curTime : UInt32
  minTime : UInt32
  height : UInt64
  networkTarget : Hash
  coinbaseTemplate : Bytes
  extranonceOffset : Nat
  extranonce1Len : Nat
  extranonce2Len : Nat
  transactions : Vec Bytes
  coinbaseValue : UInt64

/-! ### Job ids -/

def jobEpoch (millis : UInt64) : UInt64 := (millis &&& 0xFFFFFFFF) <<< 32

/-- The id drawn at counter value `counter`; the caller advances the counter. -/
def nextJobId (epoch counter : UInt64) : String := hex016 (epoch ||| (counter &&& 0xFFFFFFFF))

/-! ### Hashing and splicing -/

def doubleSha256 (c : Crates) (data : Bytes) : Hash := c.sha256 (c.sha256 data).toList

def hashPair (c : Crates) (left right : Hash) : Hash := doubleSha256 c (left.toList ++ right.toList)

/-- `dst[off..off + src.len()].copy_from_slice(src)`. -/
def copyInto (dst : Bytes) (off : Nat) (src : Bytes) : Result Bytes := do
  Outcome.check (off + src.length ≤ dst.length)
  return dst.take off ++ src ++ dst.drop (off + src.length)

namespace StratumJob

/-- The coinbase with the pool prefix and the miner's extranonce in the reserved region, or with the region still
zeroed when the widths do not add up to it. -/
def assembleCoinbase (job : StratumJob) (extranonce1 extranonce2 : Bytes) : Result Bytes := do
  let off := job.extranonceOffset
  let total := job.extranonce1Len + job.extranonce2Len
  if extranonce1.length + extranonce2.length ≠ total then
    return job.coinbaseTemplate
  let cb ← copyInto job.coinbaseTemplate off extranonce1
  copyInto cb (off + extranonce1.length) extranonce2

def merkleRoot (c : Crates) (job : StratumJob) (coinbase : Bytes) : Hash :=
  job.merkleBranchRaw.foldl (hashPair c) (doubleSha256 c coinbase)

end StratumJob

/-! ### Coinbase construction -/

/-- The little-endian bytes of `n` up to its last non-zero one; `fuel` is at least their number. -/
def heightBytes : Nat → Nat → Bytes
  | 0, _ => []
  | fuel + 1, n => if 0 < n then UInt8.ofNat (n &&& 0xff) :: heightBytes fuel (n >>> 8) else []

def encodeBip34Height (height : UInt64) : Bytes :=
  if height = 0 then [0x00]
  else if height ≤ 16 then [0x50 + height.toUInt8]
  else
    let bytes := heightBytes 8 height.toNat
    -- The sign byte keeps a set top bit from reading as a negative number.
    let bytes := if bytes.getLast?.any (fun b => b &&& 0x80 != 0) then bytes ++ [0x00] else bytes
    UInt8.ofNat bytes.length :: bytes

def sentinel : Bytes := [0xDE, 0xAD, 0xBE, 0xEF]

def findBytes (needle : Bytes) : Bytes → Option Nat
  | [] => none
  | b :: rest => if needle.isPrefixOf (b :: rest) then some 0 else (findBytes needle rest).map (· + 1)

def scriptSigContent (height : UInt64) (tag : String) (enTotal : Nat) : Bytes :=
  encodeBip34Height height ++ strBytes tag ++ sentinel ++ List.replicate (enTotal - 4) 0x00

def coinbaseInput (scriptSig : Bytes) : TxIn :=
  { prevTxid := Octets.zero 32, prevVout := 0xffffffff, scriptSig, sequence := 0xffffffff }

def commitmentOutput : Option String → Result (List TxOut)
  | none => return []
  | some wcHex =>
    match hexDecode wcHex with
    | .ok script => return [{ value := 0, scriptPubkey := script }]
    | .error e => .err (.other (.witnessCommitmentHex e))

/-- The serialized coinbase with a zeroed extranonce region, and the offset of that region. -/
def buildCoinbase (c : Crates) (height reward : UInt64) (address tag : String) (extranonce1Len extranonce2Len : Nat)
    (witnessCommitment : Option String) : Result (Bytes × Nat) := do
  let enTotal := extranonce1Len + extranonce2Len
  let rewardScript ← match c.addressToScript address with
    | .ok script => pure script
    | .error reason => Outcome.err (.other (.invalidCoinbaseAddress reason))
  let commitment ← commitmentOutput witnessCommitment
  let tx : Transaction :=
    { version := 1
      lockTime := 0
      input := [coinbaseInput (scriptSigContent height tag enTotal)]
      output := { value := reward, scriptPubkey := rewardScript } :: commitment }
  let serialized := c.serialize tx
  let offset ← Outcome.ofOption (.other .extranonceSentinelNotFound) (findBytes sentinel serialized)
  let count := min enTotal (serialized.length - offset)
  return (serialized.take offset ++ List.replicate count 0x00 ++ serialized.drop (offset + count), offset)

/-! ### Merkle branch -/

/-- One level up from a level of even length; a pair with the unknown coinbase hash stays unknown. -/
def nextLevel (h : Hash → Hash → Hash) : List (Option Hash) → List (Option Hash)
  | some left :: some right :: rest => some (h left right) :: nextLevel h rest
  | _ :: _ :: rest => none :: nextLevel h rest
  | _ => []

def evenLevel (level : List (Option Hash)) : List (Option Hash) :=
  if level.length % 2 = 0 then level else level ++ level.getLast?.toList

theorem length_nextLevel (h : Hash → Hash → Hash) (level : List (Option Hash)) :
    (nextLevel h level).length = level.length / 2 := by
  fun_induction nextLevel h level with
  | case1 left right rest ih => simp only [List.length_cons, ih]; omega
  | case2 a b rest _ ih => simp only [List.length_cons, ih]; omega
  | case3 level wide narrow =>
    match level with
    | [] => rfl
    | [_] => simp
    | a :: b :: rest => exact absurd rfl (narrow a b rest)

theorem length_evenLevel_le (level : List (Option Hash)) : (evenLevel level).length ≤ level.length + 1 := by
  unfold evenLevel
  split
  · omega
  · cases level.getLast? <;> simp

/-- The loop of `compute_merkle_branch_raw`, from the leaves upward. -/
def branchLoop (h : Hash → Hash → Hash) (level : List (Option Hash)) (pathIndex : Nat) (branch : List Hash) :
    Result (List Hash) :=
  if level.length > 1 then
    let siblingIndex := if pathIndex % 2 = 0 then pathIndex + 1 else pathIndex - 1
    match (evenLevel level)[siblingIndex]? with
    | none => .panic
    | some sibling => branchLoop h (nextLevel h (evenLevel level)) (pathIndex / 2) (branch ++ sibling.toList)
  else return branch
termination_by level.length
decreasing_by
  have := length_evenLevel_le level
  rw [length_nextLevel]
  omega

def computeMerkleBranchRaw (c : Crates) (txids : List Hash) : Result (List Hash) :=
  if txids = [] then return [] else branchLoop (hashPair c) (none :: txids.map some) 0 []

/-! ### Targets -/

def compactToTarget (bits : UInt32) : Result Hash := do
  let exponent := ((bits >>> 24) &&& 0xff).toNat
  let mantissa := bits &&& 0x007fffff
  if mantissa = 0 then
    return Octets.zero 32
  if exponent ≤ 3 then
    let value := mantissa.toNat >>> (8 * (3 - exponent))
    let target ← copyInto (List.replicate 32 0) 28 (beBytes 4 value)
    return ← Octets.copyFrom 32 target
  let shift := exponent - 3
  if shift > 29 then
    .err (.other (.bitsOverflow bits))
  else
    let mantissaBytes : Bytes :=
      [((mantissa >>> 16) &&& 0xff).toUInt8, ((mantissa >>> 8) &&& 0xff).toUInt8, (mantissa &&& 0xff).toUInt8]
    let offset := 32 - 3 - shift
    let target ← copyInto (List.replicate 32 0) offset mantissaBytes
    Octets.copyFrom 32 target

def bitsToTarget (bitsHex : String) : Result Hash := do
  let bits ← Outcome.ofOption (.other (.invalidBits bitsHex)) (u32FromStrRadix16 bitsHex)
  compactToTarget bits

/-- The loop of the division, with the remainder as a `u128`. -/
def divBytes (divisor : Nat) : Nat → Bytes → Bytes
  | _, [] => []
  | rem, byte :: rest =>
    let accum := (rem <<< 8) % 2 ^ 128 ||| byte.toNat
    UInt8.ofNat (accum / divisor) :: divBytes divisor (accum % divisor) rest

theorem length_divBytes (divisor rem : Nat) (value : Bytes) : (divBytes divisor rem value).length = value.length := by
  induction value generalizing rem with
  | nil => rfl
  | cons byte rest ih => simp [divBytes, ih]

def divBeU256ByU64 (value : Hash) (divisor : UInt64) : Hash :=
  ⟨divBytes divisor.toNat 0 value.toList, by simp [length_divBytes]⟩

def diff1Target : Hash := ⟨[0x00, 0x00, 0x00, 0x00, 0xff, 0xff] ++ List.replicate 26 0x00, rfl⟩

def difficultyToTarget (difficulty : UInt64) : Hash :=
  if difficulty ≤ 1 then diff1Target else divBeU256ByU64 diff1Target difficulty

def hashToDifficulty (hashLe : Hash) : UInt64 :=
  let hashBe := hashLe.toList.reverse
  let nz := (hashBe.findIdx? (· != 0)).getD 31
  let take := min 8 (32 - nz)
  let hashSig := beNat ((hashBe.drop nz).take take) <<< ((8 - take) * 8)
  if hashSig = 0 then UInt64.ofNat (2 ^ 64 - 1)
  else
    let ratio := 0xFFFF000000000000 / hashSig
    let exp : Int := (nz - 4) * 8
    if exp ≥ 64 then UInt64.ofNat (2 ^ 64 - 1)
    else if exp ≥ 0 then
      if ratio > (2 ^ 64 - 1) >>> exp.toNat then UInt64.ofNat (2 ^ 64 - 1) else UInt64.ofNat (ratio <<< exp.toNat)
    else if -exp ≥ 64 then 0
    else UInt64.ofNat (ratio >>> (-exp).toNat)

/-! ### Byte order of the previous block hash -/

/-- The display order of the node turned into the word-swapped order of `mining.notify`. -/
def stratumPrevHash (coreHex : String) : Result String :=
  match hexDecode coreHex with
  | .error _ => .err (.other .invalidPrevHashHex)
  | .ok bytes =>
    if bytes.length ≠ 32 then .err (.other .prevHashNot32Bytes)
    else return hexEncode (swapWords bytes.reverse)

/-! ### The job builder -/

def internalTxid (txid : String) : Result Hash :=
  match hexDecode txid with
  | .error _ => .err (.other (.malformedTxid txid))
  | .ok b => if b.length ≠ 32 then .err (.other (.malformedTxid txid)) else Octets.copyFrom 32 b.reverse

/-- `build_job`, with the id drawn for it. -/
def buildJob (c : Crates) (jobId : String) (gbt : GbtResult) (coinbaseAddress coinbaseTag : String)
    (extranonce1Len extranonce2Len : Nat) : Result StratumJob := do
  let (coinbaseBytes, extranonceOffset) ← buildCoinbase c gbt.height gbt.coinbaseValue coinbaseAddress coinbaseTag
    extranonce1Len extranonce2Len gbt.defaultWitnessCommitment
  let enTotal := extranonce1Len + extranonce2Len
  Outcome.check (extranonceOffset ≤ coinbaseBytes.length)
  Outcome.check (extranonceOffset + enTotal ≤ coinbaseBytes.length)
  let txids ← gbt.transactions.toList.mapM (fun tx => internalTxid tx.txid)
  let merkleBranchRaw ← computeMerkleBranchRaw c txids
  let prevHashStratum ← stratumPrevHash gbt.prevHash
  let networkTarget ← bitsToTarget gbt.bits
  return {
    jobId
    prevHash := prevHashStratum
    coinbase1 := coinbaseBytes.take extranonceOffset
    coinbase2 := coinbaseBytes.drop (extranonceOffset + enTotal)
    merkleBranch := merkleBranchRaw.map (fun h => hexEncode h.toList)
    merkleBranchRaw
    version := gbt.version
    bits := gbt.bits
    curTime := gbt.curTime
    minTime := gbt.minTime
    height := gbt.height
    networkTarget
    coinbaseTemplate := coinbaseBytes
    extranonceOffset
    extranonce1Len
    extranonce2Len
    transactions := gbt.transactions.map (·.data)
    coinbaseValue := gbt.coinbaseValue }

end SoloPool
