import SoloPool.Proofs.Validator
import SoloPool.Protocol.Sv2.Session

/-!
# Miner and pool hash the same header

The header a miner assembles from `mining.notify`, and the one a device assembles from `NewExtendedMiningJob` and
`SetNewPrevHash`, both equal the header that share validation reconstructs.
-/

namespace SoloPool
open Lib

/-! ### The miner's side of Stratum V1 -/

def hashOfHex (s : String) : Option Hash :=
  match hexDecode s with
  | .ok bytes => if width : bytes.length = 32 then some ⟨bytes, width⟩ else none
  | .error _ => none

def bytesOfHex (s : String) : Option Bytes :=
  match hexDecode s with
  | .ok bytes => some bytes
  | .error _ => none

def rollVersion (base mask : UInt32) : Option UInt32 → UInt32
  | some bits => (base &&& ~~~mask) ||| (bits &&& mask)
  | none => base

/-- The header a Stratum V1 miner hashes: the coinbase halves around both extranonces, its double hash folded with the
branch, and the previous block hash with the bytes of each word swapped. -/
def Notify.header (c : Crates) (n : Notify) (extranonce1 extranonce2 : Bytes) (ntime nonce mask : UInt32)
    (roll : Option UInt32) : Option (Octets 80) := do
  let coinbase1 ← bytesOfHex n.coinbase1
  let coinbase2 ← bytesOfHex n.coinbase2
  let branch ← n.merkleBranch.mapM hashOfHex
  let prevHash ← hashOfHex n.prevHash
  let version ← u32FromStrRadix16 n.version
  let bits ← u32FromStrRadix16 n.bits
  let coinbase := coinbase1 ++ extranonce1 ++ extranonce2 ++ coinbase2
  let root := branch.foldl (hashPair c) (doubleSha256 c coinbase)
  return headerBytes (rollVersion version mask roll) ⟨swapWords prevHash.toList, by simp⟩ root ntime bits nonce

/-! ### The device's side of Stratum V2 -/

/-- The header a Stratum V2 device hashes for a job that `SetNewPrevHash` activated, with its own full version. -/
def Sv2.NewExtendedMiningJob.header (c : Crates) (job : Sv2.NewExtendedMiningJob) (prev : Sv2.SetNewPrevHash)
    (extranoncePrefix extranonce : Bytes) (ntime nonce version : UInt32) : Octets 80 :=
  let coinbase := job.coinbaseTxPrefix ++ extranoncePrefix ++ extranonce ++ job.coinbaseTxSuffix
  let root := job.merklePath.foldl (hashPair c) (doubleSha256 c coinbase)
  headerBytes version prev.prevHash root ntime prev.nbits nonce

/-! ### The pool's side -/

theorem hashOfHex_hexEncode (h : Hash) : hashOfHex (hexEncode h.toList) = some h := by
  simp [hashOfHex]

theorem mapM_hashOfHex (hashes : List Hash) :
    (hashes.map (fun h => hexEncode h.toList)).mapM hashOfHex = some hashes := by
  induction hashes with
  | nil => rfl
  | cons h rest ih => simp [hashOfHex_hexEncode, ih]

variable {c : Crates} {gbt : GbtResult} {e1 e2 : Nat} {job : StratumJob}

theorem reconstruct_eq (facts : JobFacts c gbt e1 e2 job) {params : ShareParams} {extranonce1 : Bytes}
    (inside : VersionInMask params) (width : extranonce1.length + params.extranonce2.length = e1 + e2) :
    let coinbase := job.coinbase1 ++ extranonce1 ++ params.extranonce2 ++ job.coinbase2
    reconstruct c params job extranonce1 = .ok (coinbase, headerBytes (rolledVersion job.version params)
      facts.display.reverse (job.merkleBranchRaw.foldl (hashPair c) (doubleSha256 c coinbase)) params.ntime facts.bits
      params.nonce) := by
  intro coinbase
  simp only [reconstruct, assembleCoinbase_split facts width, (resolveVersion_eq job.version params).1 inside,
    Outcome.ok_bind, buildHeader_eq facts, Outcome.pure_eq]
  rw [submissionHeader, ← merkleRoot_eq facts, facts.version_eq]
  rfl

theorem notify_header_eq (facts : JobFacts c gbt e1 e2 job) {s : Session} {params : SubmitParams}
    (width : s.extranonce1.length + params.extranonce2.length = e1 + e2)
    (inside : VersionInMask (s.shareParams params)) (clean : Bool) :
    ∃ coinbase header, reconstruct c (s.shareParams params) job s.extranonce1 = .ok (coinbase, header) ∧
      (buildNotify job clean).header c s.extranonce1 params.extranonce2 params.ntime params.nonce s.versionRollingMask
        (if s.versionRollingEnabled then params.versionBits else none) = some header := by
  refine ⟨_, _, reconstruct_eq facts inside width, ?_⟩
  have version : rollVersion job.version s.versionRollingMask
      (if s.versionRollingEnabled then params.versionBits else none) = rolledVersion job.version (s.shareParams params) := by
    unfold rolledVersion rollVersion Session.shareParams
    cases s.versionRollingEnabled <;> cases params.versionBits <;> rfl
  have prev : hashOfHex job.prevHash = some ⟨swapWords facts.display.toList.reverse, by simp⟩ := by
    simp [hashOfHex, facts.prevHash_eq]
  have restored : (⟨swapWords (swapWords facts.display.toList.reverse), by simp⟩ : Hash) = facts.display.reverse :=
    Octets.ext (swapWords_swapWords _)
  have bits : u32FromStrRadix16 job.bits = some facts.bits := by rw [facts.job_bits, facts.bits_eq]
  have branch : job.merkleBranch.mapM hashOfHex = some job.merkleBranchRaw := by
    rw [facts.branch_eq]
    exact mapM_hashOfHex _
  simp only [Notify.header, buildNotify, bytesOfHex, hexDecode_hexEncode, branch, prev, bits, u32FromStrRadix16_hex08,
    version, restored, Option.bind_eq_bind, Option.bind_some, Option.pure_def]
  rfl

theorem buildSetNewPrevHash_eq (facts : JobFacts c gbt e1 e2 job) (channelId jobId : UInt32) :
    Sv2.buildSetNewPrevHash job channelId jobId = .ok
      { channelId, jobId, prevHash := facts.display.reverse, minNtime := job.curTime, nbits := facts.bits } := by
  have prev : Sv2.stratumPrevhashToInternal job.prevHash = .ok facts.display.reverse := by
    unfold Sv2.stratumPrevhashToInternal
    rw [facts.prevHash_eq, hexDecode_hexEncode]
    dsimp only
    rw [if_neg (by simp)]
    exact Octets.copyFrom_ok.mpr (swapWords_swapWords _).symm
  simp only [Sv2.buildSetNewPrevHash, prev, facts.job_bits, facts.bits_eq, Outcome.ok_bind, Outcome.ofOption,
    Outcome.pure_eq]

theorem length_branch_le (facts : JobFacts c gbt e1 e2 job) : job.merkleBranchRaw.length ≤ 255 := by
  have count := facts.txids_eq.length_eq
  have room := gbt.transactions.length_lt
  have short : Nat.clog 2 (facts.txids.length + 1) ≤ 64 := Nat.clog_le_of_le_pow (by omega)
  rw [facts.branchRaw_eq, length_merkleBranch]
  omega

/-- The job message is sent unless a half of the coinbase is too long for the wire. -/
theorem buildNewExtendedJob_eq (facts : JobFacts c gbt e1 e2 job) (channelId jobId : UInt32) (future : Bool) :
    (∃ message, Sv2.buildNewExtendedJob job channelId jobId future = .ok message) ↔
      job.coinbase1.length ≤ 65535 ∧ job.coinbase2.length ≤ 65535 := by
  have branch := length_branch_le facts
  unfold Sv2.buildNewExtendedJob Sv2.bounded
  rw [if_pos branch]
  by_cases front : job.coinbase1.length ≤ 65535 <;> by_cases back : job.coinbase2.length ≤ 65535 <;> simp [front, back]

theorem mask_split (v mask : UInt32) : (v &&& ~~~mask) ||| (v &&& mask &&& mask) = v := by
  apply UInt32.eq_of_toBitVec_eq
  ext i inside
  simp only [UInt32.toBitVec_or, UInt32.toBitVec_and, UInt32.toBitVec_not, BitVec.getElem_or, BitVec.getElem_and,
    BitVec.getElem_not]
  cases mask.toBitVec[i] <;> simp

theorem mask_outside (v mask : UInt32) : v &&& mask &&& ~~~mask = 0 := by
  apply UInt32.eq_of_toBitVec_eq
  ext i inside
  simp

theorem rolledVersion_sv2 {base : UInt32} {submit : Sv2.SubmitSharesExtended} (engineJobId : String)
    (rolled : submit.version &&& ~~~versionRollingMask = base &&& ~~~versionRollingMask) :
    rolledVersion base (Sv2.Session.shareParams submit engineJobId) = submit.version := by
  show (base &&& ~~~versionRollingMask) ||| (submit.version &&& versionRollingMask &&& versionRollingMask) = _
  rw [← rolled, mask_split]

theorem sv2_header_eq (facts : JobFacts c gbt e1 e2 job) {channelId jobId : UInt32} {future : Bool}
    {message : Sv2.NewExtendedMiningJob} (sent : Sv2.buildNewExtendedJob job channelId jobId future = .ok message)
    {prev : Sv2.SetNewPrevHash} (activated : Sv2.buildSetNewPrevHash job channelId jobId = .ok prev)
    {extranoncePrefix : Bytes} {submit : Sv2.SubmitSharesExtended}
    (width : extranoncePrefix.length + submit.extranonce.length = e1 + e2)
    (rolled : submit.version &&& ~~~versionRollingMask = job.version &&& ~~~versionRollingMask) (engineJobId : String) :
    ∃ coinbase header,
      reconstruct c (Sv2.Session.shareParams submit engineJobId) job extranoncePrefix = .ok (coinbase, header) ∧
      message.header c prev extranoncePrefix submit.extranonce submit.ntime submit.nonce submit.version = header := by
  have inside : VersionInMask (Sv2.Session.shareParams submit engineJobId) := by
    rintro _ ⟨⟩
    exact mask_outside submit.version versionRollingMask
  rw [buildSetNewPrevHash_eq facts, Outcome.ok.injEq] at activated
  obtain ⟨path, bounded, sent⟩ := Outcome.bind_ok.mp sent
  obtain ⟨front, boundedFront, sent⟩ := Outcome.bind_ok.mp sent
  obtain ⟨back, boundedBack, sent⟩ := Outcome.bind_ok.mp sent
  have kept : ∀ {α : Type} {limit : Nat} {e : Nat → Sv2.JobError} {xs ys : List α},
      Sv2.bounded limit e xs = .ok ys → xs = ys := by
    intro α limit e xs ys fits
    unfold Sv2.bounded at fits
    split at fits
    · exact Outcome.ok.inj fits
    · cases fits
  obtain rfl := kept bounded
  obtain rfl := kept boundedFront
  obtain rfl := kept boundedBack
  obtain rfl := Outcome.ok.inj sent
  refine ⟨_, _, reconstruct_eq facts inside width, ?_⟩
  rw [rolledVersion_sv2 engineJobId rolled, ← activated]
  rfl

/-- Miner and pool hash the same header: a Stratum V1 miner from the fields of `mining.notify`, and a Stratum V2 device
from `NewExtendedMiningJob` and `SetNewPrevHash`, for every job that was built and every split of the extranonce. -/
theorem miner_header_eq {engineJobId address tag : String} (built : buildJob c engineJobId gbt address tag e1 e2 = .ok job) :
    (∀ (s : Session) (params : SubmitParams) (clean : Bool),
      s.extranonce1.length + params.extranonce2.length = e1 + e2 → VersionInMask (s.shareParams params) →
      ∃ coinbase header, reconstruct c (s.shareParams params) job s.extranonce1 = .ok (coinbase, header) ∧
        (buildNotify job clean).header c s.extranonce1 params.extranonce2 params.ntime params.nonce s.versionRollingMask
          (if s.versionRollingEnabled then params.versionBits else none) = some header) ∧
    ∀ (channelId jobId : UInt32) (future : Bool),
      (∃ prev, Sv2.buildSetNewPrevHash job channelId jobId = .ok prev) ∧
      (job.coinbase1.length ≤ 65535 → job.coinbase2.length ≤ 65535 →
        ∃ message, Sv2.buildNewExtendedJob job channelId jobId future = .ok message) ∧
      ∀ message prev, Sv2.buildNewExtendedJob job channelId jobId future = .ok message →
        Sv2.buildSetNewPrevHash job channelId jobId = .ok prev →
        ∀ (extranoncePrefix : Bytes) (submit : Sv2.SubmitSharesExtended),
          extranoncePrefix.length + submit.extranonce.length = e1 + e2 →
          submit.version &&& ~~~versionRollingMask = job.version &&& ~~~versionRollingMask →
          ∃ coinbase header,
            reconstruct c (Sv2.Session.shareParams submit engineJobId) job extranoncePrefix = .ok (coinbase, header) ∧
            message.header c prev extranoncePrefix submit.extranonce submit.ntime submit.nonce submit.version = header := by
  obtain ⟨_, ⟨facts⟩⟩ := buildJob_facts built
  refine ⟨fun s params clean width inside => notify_header_eq facts width inside clean, ?_⟩
  intro channelId jobId future
  refine ⟨⟨_, buildSetNewPrevHash_eq facts channelId jobId⟩, ?_, ?_⟩
  · intro front back
    exact (buildNewExtendedJob_eq facts channelId jobId future).mpr ⟨front, back⟩
  · intro message prev sent activated extranoncePrefix submit width rolled
    exact sv2_header_eq facts sent activated width rolled engineJobId

theorem miner_header_eq_testTemplate :
    ∃ job, buildJob mainnetCrates "0000000000000001" (testTemplate genesisHash "1d00ffff") testAddress "tag" 4 4 =
        .ok job ∧
      let s := { Session.new exampleConfig [0, 0, 0, 1] with versionRollingEnabled := true }
      let params : SubmitParams :=
        { jobId := "0000000000000001", extranonce2 := [0, 0, 0, 7], ntime := 1700000000, nonce := 5, versionBits := some 0x2000 }
      ∃ coinbase header, reconstruct mainnetCrates (s.shareParams params) job s.extranonce1 = .ok (coinbase, header) ∧
        (buildNotify job true).header mainnetCrates s.extranonce1 params.extranonce2 params.ntime params.nonce
          s.versionRollingMask (some 0x2000) = some header := by
  obtain ⟨job, built⟩ := testTemplate_builds
  refine ⟨job, built, ?_⟩
  exact (miner_header_eq built).1 { Session.new exampleConfig [0, 0, 0, 1] with versionRollingEnabled := true }
    { jobId := "0000000000000001", extranonce2 := [0, 0, 0, 7], ntime := 1700000000, nonce := 5, versionBits := some 0x2000 } true
    (by decide) (by rintro _ ⟨⟩; decide)

end SoloPool
