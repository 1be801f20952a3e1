import SoloPool.Bitcoin.Crates
import SoloPool.Mining.Validator
import SoloPool.Proofs.Template

/-!
# What share validation accepts

`validateShareNoDedup` runs ten steps over three byte orders. Here each step gets its value on a job that was built
from a template, and `validateShareNoDedup_exact` puts them together.
-/

namespace SoloPool
open Lib

/-! ### Targets as numbers -/

theorem meetsTarget_iff (hash target : Hash) :
    meetsTarget hash target = true ↔ leNat hash.toList ≤ beNat target.toList := by
  rw [meetsTarget, decide_eq_true_iff, lex_le_iff_beNat_le (by simp)]
  simp [beNat]

/-! ### The transaction count -/

/-- Bitcoin's `ReadCompactSize`: the number and the bytes behind it; an encoding longer than needed is refused. -/
def readCompactSize : Bytes → Option (Nat × Bytes)
  | [] => none
  | b :: rest =>
    if b < 0xfd then some (b.toNat, rest)
    else
      let width := if b = 0xfd then 2 else if b = 0xfe then 4 else 8
      let least := if b = 0xfd then 0xfd else if b = 0xfe then 0x10000 else 0x100000000
      let n := leNat (rest.take width)
      if rest.length < width ∨ n < least then none else some (n, rest.drop width)

theorem readCompactSize_wide {b : UInt8} {width least n : Nat} {rest : Bytes} (wide : ¬ b < 0xfd)
    (widthIs : (if b = 0xfd then 2 else if b = 0xfe then 4 else 8) = width)
    (leastIs : (if b = 0xfd then 0xfd else if b = 0xfe then 0x10000 else 0x100000000) = least)
    (fits : n < 256 ^ width) (enough : least ≤ n) :
    readCompactSize (b :: leBytes width n ++ rest) = some (n, rest) := by
  have front : (leBytes width n ++ rest).take width = leBytes width n := List.take_left' (length_leBytes _ _)
  have back : (leBytes width n ++ rest).drop width = rest := List.drop_left' (length_leBytes _ _)
  simp only [List.cons_append, readCompactSize, if_neg wide, widthIs, leastIs, front, back,
    leNat_leBytes_of_lt fits]
  rw [if_neg]
  simp only [List.length_append, length_leBytes]
  omega

theorem readCompactSize_encodeVarint (n : UInt64) (rest : Bytes) :
    readCompactSize (encodeVarint n ++ rest) = some (n.toNat, rest) := by
  have bound := n.toNat_lt
  unfold encodeVarint
  split
  · rename_i small
    rw [UInt64.lt_iff_toNat_lt] at small
    have byte : n.toUInt8.toNat = n.toNat := by
      simp only [UInt64.toNat_toUInt8]
      exact Nat.mod_eq_of_lt (by simp at small; omega)
    have below : n.toUInt8 < 0xfd := by
      rw [UInt8.lt_iff_toNat_lt, byte]
      simpa using small
    simp [readCompactSize, below, byte]
  · rename_i large
    rw [UInt64.lt_iff_toNat_lt] at large
    simp only [UInt64.reduceToNat, Nat.not_lt] at large
    split
    · rename_i two
      rw [UInt64.le_iff_toNat_le] at two
      simp only [UInt64.reduceToNat] at two
      have word : n.toUInt16.toNat = n.toNat := by
        simp only [UInt64.toNat_toUInt16]
        exact Nat.mod_eq_of_lt (by omega)
      rw [word]
      exact readCompactSize_wide (by decide) rfl rfl (by omega) large
    · rename_i beyondTwo
      rw [UInt64.le_iff_toNat_le] at beyondTwo
      simp only [UInt64.reduceToNat, Nat.not_le] at beyondTwo
      split
      · rename_i four
        rw [UInt64.le_iff_toNat_le] at four
        simp only [UInt64.reduceToNat] at four
        have word : n.toUInt32.toNat = n.toNat := by
          simp only [UInt64.toNat_toUInt32]
          exact Nat.mod_eq_of_lt (by omega)
        rw [word]
        exact readCompactSize_wide (by decide) rfl rfl (by omega) (show 0x10000 ≤ n.toNat by omega)
      · rename_i beyondFour
        rw [UInt64.le_iff_toNat_le] at beyondFour
        simp only [UInt64.reduceToNat, Nat.not_le] at beyondFour
        exact readCompactSize_wide (by decide) rfl rfl (by omega) (show 0x100000000 ≤ n.toNat by omega)

/-! ### The reconstructed header -/

def VersionInMask (params : ShareParams) : Prop :=
  ∀ bits, params.versionBits = some bits → bits &&& ~~~(params.versionRollingMask.getD versionRollingMask) = 0

instance (params : ShareParams) : Decidable (VersionInMask params) :=
  match h : params.versionBits with
  | none => isTrue (fun _ some => by simp [h] at some)
  | some bits =>
    decidable_of_iff (bits &&& ~~~(params.versionRollingMask.getD versionRollingMask) = 0)
      ⟨fun zero bits' same => by rw [h, Option.some.injEq] at same; rwa [← same], fun inside => inside bits h⟩

def rolledVersion (base : UInt32) (params : ShareParams) : UInt32 :=
  let mask := params.versionRollingMask.getD versionRollingMask
  match params.versionBits with
  | some bits => (base &&& ~~~mask) ||| (bits &&& mask)
  | none => base

/-- The submission's ntime lies between the template's `mintime` and two hours past its `curtime`, saturating. -/
def NtimeInWindow (gbt : GbtResult) (params : ShareParams) : Prop :=
  gbt.minTime.toNat ≤ params.ntime.toNat ∧ params.ntime.toNat ≤ min (gbt.curTime.toNat + 7200) (2 ^ 32 - 1)

theorem resolveVersion_eq (base : UInt32) (params : ShareParams) :
    (VersionInMask params → resolveVersion base params.versionBits params.versionRollingMask =
      .ok (rolledVersion base params)) ∧
    (¬ VersionInMask params → ∃ detail, resolveVersion base params.versionBits params.versionRollingMask =
      .err (.invalidParams "mining.submit" detail)) := by
  unfold resolveVersion rolledVersion VersionInMask
  cases params.versionBits with
  | none => simp
  | some bits =>
    constructor
    · intro inside
      simp [inside bits rfl]
    · intro outside
      have nonzero : bits &&& ~~~(params.versionRollingMask.getD versionRollingMask) ≠ 0 := by
        intro zero
        exact outside (fun bits' same => by rw [← Option.some.inj same]; exact zero)
      simp [nonzero]

theorem checkNtime_ok {gbt : GbtResult} {params : ShareParams} :
    checkNtime params.ntime gbt.minTime gbt.curTime = .ok () ↔ NtimeInWindow gbt params := by
  unfold checkNtime NtimeInWindow ntimeCeiling
  dsimp only
  split <;> rename_i outside <;> rw [UInt32.lt_iff_toNat_lt] at outside
  · simp only [reduceCtorEq, false_iff]
    omega
  · simp only [Outcome.pure_eq, true_iff]
    omega

theorem checkNtime_not_ok {ntime minTime curTime : UInt32} (h : checkNtime ntime minTime curTime ≠ .ok ()) :
    ∃ detail, checkNtime ntime minTime curTime = .err (.invalidParams "mining.submit" detail) := by
  unfold checkNtime at h ⊢
  dsimp only at h ⊢
  split
  · exact ⟨_, rfl⟩
  · rename_i inside
    simp [inside] at h

/-- The header of a submission, from the template: the previous block hash in internal byte order and the merkle root
over the coinbase hash and the template's txids. -/
def submissionHeader (c : Crates) {gbt : GbtResult} {e1 e2 : Nat} {job : StratumJob} (facts : JobFacts c gbt e1 e2 job)
    (coinbase : Bytes) (params : ShareParams) : Octets 80 :=
  headerBytes (rolledVersion gbt.version params) facts.display.reverse
    (Lib.merkleRoot (hashPair c) (doubleSha256 c coinbase) facts.txids) params.ntime facts.bits params.nonce

theorem buildHeader_eq {c : Crates} {gbt : GbtResult} {e1 e2 : Nat} {job : StratumJob}
    (facts : JobFacts c gbt e1 e2 job) (coinbase : Bytes) (params : ShareParams) :
    buildHeader (rolledVersion job.version params) job.prevHash (job.merkleRoot c coinbase) params.ntime job.bits
      params.nonce = .ok (submissionHeader c facts coinbase params) := by
  have prev : (Octets.copyFrom 32 (swapWords (swapWords facts.display.toList.reverse)) : Result Hash) =
      .ok facts.display.reverse := Octets.copyFrom_ok.mpr (by rw [swapWords_swapWords]; rfl)
  simp only [buildHeader, facts.prevHash_eq, hexDecode_hexEncode, facts.job_bits, facts.bits_eq, Outcome.pure_eq,
    Outcome.ok_bind, prev, Outcome.ofOption, merkleRoot_eq facts, facts.version_eq, submissionHeader]

def reconstruct (c : Crates) (params : ShareParams) (job : StratumJob) (extranonce1 : Bytes) :
    Result (Bytes × Octets 80) := do
  let coinbase ← job.assembleCoinbase extranonce1 params.extranonce2
  let version ← resolveVersion job.version params.versionBits params.versionRollingMask
  let header ← buildHeader version job.prevHash (job.merkleRoot c coinbase) params.ntime job.bits params.nonce
  return (coinbase, header)

/-! ### Validation as one case distinction -/

def Admissible (gbt : GbtResult) (superseded : Bool) (params : ShareParams) : Prop :=
  superseded = false ∧ NtimeInWindow gbt params ∧ VersionInMask params

/-- What validation returns for an admissible submission with header `header`. -/
def judge (c : Crates) (job : StratumJob) (coinbase : Bytes) (header : Octets 80) (difficulty : UInt64) :
    Result ShareResult :=
  let hash := doubleSha256 c header.toList
  if leNat hash.toList ≤ beNat job.networkTarget.toList then
    .ok (.block (hashToDifficulty hash) (assembleBlockHex header coinbase job.transactions) hash)
  else if leNat hash.toList ≤ beNat (difficultyToTarget difficulty).toList then
    .ok (.valid difficulty (hashToDifficulty hash) hash)
  else .err .lowDifficulty

variable {c : Crates} {gbt : GbtResult} {e1 e2 : Nat} {job : StratumJob}

theorem validateShareNoDedup_eq (params : ShareParams) (entry : JobEntry) (extranonce1 : Bytes) (difficulty : UInt64) :
    validateShareNoDedup c params job entry extranonce1 difficulty =
      if entry.supersededByClean then .err (.staleJob params.jobId)
      else checkNtime params.ntime job.minTime job.curTime >>= fun _ =>
        reconstruct c params job extranonce1 >>= fun (coinbase, header) => judge c job coinbase header difficulty := by
  have verdict : ∀ (coinbase : Bytes) (header : Octets 80),
      (if meetsTarget (doubleSha256 c header.toList) job.networkTarget then
        pure (.block (hashToDifficulty (doubleSha256 c header.toList))
          (assembleBlockHex header coinbase job.transactions) (doubleSha256 c header.toList))
      else if !meetsTarget (doubleSha256 c header.toList) (difficultyToTarget difficulty) then .err .lowDifficulty
      else pure (.valid difficulty (hashToDifficulty (doubleSha256 c header.toList)) (doubleSha256 c header.toList)) :
        Result ShareResult) = judge c job coinbase header difficulty := by
    intro coinbase header
    simp only [meetsTarget_iff, Bool.not_eq_true', ← Bool.not_eq_true, ite_not]
    rfl
  unfold validateShareNoDedup reconstruct
  simp only [← verdict, bind_assoc, pure_bind]

theorem validateShareNoDedup_admissible (facts : JobFacts c gbt e1 e2 job) {params : ShareParams} {entry : JobEntry}
    (admissible : Admissible gbt entry.supersededByClean params) {extranonce1 coinbase : Bytes} {difficulty : UInt64}
    (assembled : job.assembleCoinbase extranonce1 params.extranonce2 = .ok coinbase) :
    validateShareNoDedup c params job entry extranonce1 difficulty =
      judge c job coinbase (submissionHeader c facts coinbase params) difficulty := by
  obtain ⟨current, window, inside⟩ := admissible
  have ntime : checkNtime params.ntime job.minTime job.curTime = .ok () := by
    rw [facts.minTime_eq, facts.curTime_eq]
    exact checkNtime_ok.mpr window
  have version := (resolveVersion_eq job.version params).1 inside
  simp only [validateShareNoDedup_eq, reconstruct, current, ntime, assembled, version, buildHeader_eq facts,
    Outcome.ok_bind, Outcome.pure_eq, Bool.false_eq_true, if_false]

theorem validateShareNoDedup_inadmissible (facts : JobFacts c gbt e1 e2 job) {params : ShareParams} {entry : JobEntry}
    (inadmissible : ¬ Admissible gbt entry.supersededByClean params) (extranonce1 : Bytes) (difficulty : UInt64) :
    ∃ e, validateShareNoDedup c params job entry extranonce1 difficulty = .err e := by
  obtain ⟨coinbase, assembled⟩ := assembleCoinbase_total facts extranonce1 params.extranonce2
  rw [validateShareNoDedup_eq]
  cases current : entry.supersededByClean with
  | true => exact ⟨_, rfl⟩
  | false =>
    by_cases window : NtimeInWindow gbt params
    · have ntime : checkNtime params.ntime job.minTime job.curTime = .ok () := by
        rw [facts.minTime_eq, facts.curTime_eq]
        exact checkNtime_ok.mpr window
      have outside : ¬ VersionInMask params := fun inside => inadmissible ⟨current, window, inside⟩
      obtain ⟨detail, refused⟩ := (resolveVersion_eq job.version params).2 outside
      exact ⟨_, by simp only [reconstruct, ntime, assembled, refused, Outcome.ok_bind, Outcome.err_bind]; rfl⟩
    · have early : checkNtime params.ntime job.minTime job.curTime ≠ .ok () := by
        rw [facts.minTime_eq, facts.curTime_eq]
        exact fun ok => window (checkNtime_ok.mp ok)
      obtain ⟨detail, refused⟩ := checkNtime_not_ok early
      exact ⟨_, by simp only [refused, Outcome.err_bind]; rfl⟩

theorem judge_block {coinbase : Bytes} {header : Octets 80} {difficulty : UInt64} :
    (∃ d hex hash, judge c job coinbase header difficulty = .ok (.block d hex hash)) ↔
      leNat (doubleSha256 c header.toList).toList ≤ beNat job.networkTarget.toList := by
  unfold judge
  dsimp only
  split
  · simp_all
  · split <;> simp_all

theorem judge_valid {coinbase : Bytes} {header : Octets 80} {difficulty : UInt64} :
    (∃ a d hash, judge c job coinbase header difficulty = .ok (.valid a d hash)) ↔
      beNat job.networkTarget.toList < leNat (doubleSha256 c header.toList).toList ∧
        leNat (doubleSha256 c header.toList).toList ≤ beNat (difficultyToTarget difficulty).toList := by
  unfold judge
  dsimp only
  split
  · simp_all
  · split <;> simp_all

/-! ### The block that is submitted -/

theorem assembleBlockHex_eq (facts : JobFacts c gbt e1 e2 job) (header : Octets 80) (coinbase : Bytes) :
    ∃ count : Bytes,
      assembleBlockHex header coinbase job.transactions = hexEncode (header.toList ++ count ++ coinbase ++
        (gbt.transactions.toList.map (·.data)).flatten) ∧
      ∀ rest, readCompactSize (count ++ rest) = some (1 + gbt.transactions.toList.length, rest) := by
  refine ⟨encodeVarint (UInt64.ofNat (1 + gbt.transactions.toList.length)), ?_, fun rest => ?_⟩
  · simp [assembleBlockHex, facts.transactions_eq]
  · have room := gbt.transactions.length_lt
    rw [readCompactSize_encodeVarint, UInt64.toNat_ofNat_of_lt' (by simp [UInt64.size]; omega)]

theorem judge_block_eq {coinbase : Bytes} {header : Octets 80} {difficulty d : UInt64} {hex : String} {hash : Hash}
    (h : judge c job coinbase header difficulty = .ok (.block d hex hash)) :
    hash = doubleSha256 c header.toList ∧ hex = assembleBlockHex header coinbase job.transactions := by
  unfold judge at h
  dsimp only at h
  split at h
  · simp only [Outcome.ok.injEq, ShareResult.block.injEq] at h
    exact ⟨h.2.2.symm, h.2.1.symm⟩
  · split at h <;> simp at h

/-- Validation accepts exactly the admissible submissions whose header hash meets a target, the network's first, and
a block is submitted as header, count, coinbase and template transactions. -/
theorem validateShareNoDedup_exact {jobId address tag : String}
    (built : buildJob c jobId gbt address tag e1 e2 = .ok job) (clean superseded : Bool) (extranonce1 : Bytes)
    (difficulty : UInt64) (params : ShareParams) :
    ∃ (prev : Hash) (bits : UInt32) (txids : List Hash) (coinbase : Bytes),
      hexDecode gbt.prevHash = .ok prev.toList.reverse ∧ u32FromStrRadix16 gbt.bits = some bits ∧
      List.Forall₂ (fun tx id => hexDecode tx.txid = .ok id.toList.reverse) gbt.transactions.toList txids ∧
      job.assembleCoinbase extranonce1 params.extranonce2 = .ok coinbase ∧
      let header := headerBytes (rolledVersion gbt.version params) prev
        (Lib.merkleRoot (hashPair c) (doubleSha256 c coinbase) txids) params.ntime bits params.nonce
      let hash := doubleSha256 c header.toList
      let validated := validateShareNoDedup c params job ⟨job, clean, superseded⟩ extranonce1 difficulty
      ((∃ d hex h, validated = .ok (.block d hex h)) ↔
        Admissible gbt superseded params ∧ leNat hash.toList ≤ compactValue bits) ∧
      ((∃ a d h, validated = .ok (.valid a d h)) ↔
        Admissible gbt superseded params ∧ compactValue bits < leNat hash.toList ∧
          leNat hash.toList ≤ beNat (difficultyToTarget difficulty).toList) ∧
      ∀ d hex h, validated = .ok (.block d hex h) → h = hash ∧
        ∃ count : Bytes,
          hex = hexEncode (header.toList ++ count ++ coinbase ++ (gbt.transactions.toList.map (·.data)).flatten) ∧
          ∀ rest, readCompactSize (count ++ rest) = some (1 + gbt.transactions.toList.length, rest) := by
  obtain ⟨_, ⟨facts⟩⟩ := buildJob_facts built
  obtain ⟨coinbase, assembled⟩ := assembleCoinbase_total facts extranonce1 params.extranonce2
  have decoded : hexDecode gbt.prevHash = .ok facts.display.reverse.toList.reverse := by
    rw [facts.display_eq, Octets.toList_reverse, List.reverse_reverse]
  refine ⟨facts.display.reverse, facts.bits, facts.txids, coinbase, decoded, facts.bits_eq, facts.txids_eq, assembled, ?_⟩
  dsimp only
  generalize entry_eq : JobEntry.mk job clean superseded = entry
  obtain rfl : entry.supersededByClean = superseded := by rw [← entry_eq]
  by_cases admissible : Admissible gbt entry.supersededByClean params
  · rw [validateShareNoDedup_admissible facts admissible assembled, judge_block, judge_valid, facts.target_eq]
    refine ⟨by simp only [admissible, true_and]; rfl, by simp only [admissible, true_and]; rfl, ?_⟩
    intro d hex h accepted
    obtain ⟨hash_eq, hex_eq⟩ := judge_block_eq accepted
    rw [hex_eq]
    exact ⟨hash_eq, assembleBlockHex_eq facts _ coinbase⟩
  · obtain ⟨e, refused⟩ := validateShareNoDedup_inadmissible facts admissible extranonce1 difficulty
    simp [refused, admissible]

def testParams (nonce : UInt32) : ShareParams where
  jobId := "0000000000000001"
  extranonce2 := [0, 0, 0, 7]
  ntime := 1700000000
  nonce := nonce
  versionBits := none
  versionRollingMask := none

def firstTxid : String := "4a5e1e4baab89f3a32518a88c31bc87f618f76673e2cc77ab2127b7afdeda33b"

def secondTxid : String := "0e3e2357e806b6cdb1f70b54c3a3a17b6714ee1f0e68bebb44a74b1efd512098"

/-- Two transactions to include, at the lowest network difficulty. -/
def fullTemplate : GbtResult :=
  { testTemplate genesisHash "207fffff" with
    transactions := ⟨[{ data := [1, 2], txid := firstTxid }, { data := [3], txid := secondTxid }], by decide⟩ }

/-- The header meets the network target, and the block holds the coinbase and both transactions. -/
theorem validateShareNoDedup_exact_fullTemplate :
    ∃ job, buildJob mainnetCrates "0000000000000001" fullTemplate testAddress "tag" 4 4 = .ok job ∧
      ∃ d hex hash, validateShareNoDedup mainnetCrates (testParams 1) job ⟨job, true, false⟩ [0, 0, 0, 1] 1 =
          .ok (.block d hex hash) ∧
        ∃ (bits : UInt32) (header : Octets 80) (count coinbase : Bytes), u32FromStrRadix16 "207fffff" = some bits ∧
          hash = doubleSha256 mainnetCrates header.toList ∧ leNat hash.toList ≤ compactValue bits ∧
          job.assembleCoinbase [0, 0, 0, 1] [0, 0, 0, 7] = .ok coinbase ∧
          hex = hexEncode (header.toList ++ count ++ coinbase ++ [1, 2, 3]) ∧ readCompactSize count = some (3, []) := by
  obtain ⟨job, built, result, accepted, isBlock⟩ : ∃ job,
      buildJob mainnetCrates "0000000000000001" fullTemplate testAddress "tag" 4 4 = .ok job ∧
      ∃ result, validateShareNoDedup mainnetCrates (testParams 1) job ⟨job, true, false⟩ [0, 0, 0, 1] 1 = .ok result ∧
        result.isBlock = true := by
    decide +kernel
  obtain ⟨prev, bits, txids, coinbase, _, decoded, _, assembled, block, _, exact⟩ :=
    validateShareNoDedup_exact built true false [0, 0, 0, 1] 1 (testParams 1)
  cases result with
  | valid => cases isBlock
  | block d hex hash =>
    obtain ⟨rfl, count, rfl, counts⟩ := exact d hex hash accepted
    have counted := counts []
    rw [List.append_nil] at counted
    exact ⟨job, built, d, _, _, accepted, bits, _, count, coinbase, decoded, rfl, (block.mp ⟨d, _, _, accepted⟩).2, assembled,
      rfl, counted⟩

end SoloPool
