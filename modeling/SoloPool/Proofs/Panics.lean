import SoloPool.Proofs.Coinbase
import SoloPool.Proofs.Headers

/-!
# Nothing panics

A panic ends the task that runs into it. `build_job` slices a coinbase at the place it found, and the validator copies and
parses what `build_job` left in a job; neither checks what the other established.
-/

namespace SoloPool
open Lib

/-! ### Arithmetic with its checks

The model has the arithmetic of targets and difficulties as total functions. Here it is with an index, a shift or a divisor
out of range as a panic, and none is. -/

/-- One byte more of the significant part of a hash. -/
def significantStep (hashBe : Bytes) (nz sig j : Nat) : Result Nat :=
  match hashBe[nz + j]? with
  | some byte => .ok ((sig <<< 8) % 2 ^ 64 ||| byte.toNat)
  | none => .panic

def hashToDifficultyChecked (hashLe : Hash) : Result UInt64 := do
  let hashBe := hashLe.toList.reverse
  let nz := (hashBe.findIdx? (· != 0)).getD 31
  Outcome.check (nz ≤ 32)
  let take := min 8 (32 - nz)
  let sig ← (List.range take).foldlM (significantStep hashBe nz) 0
  Outcome.check ((8 - take) * 8 < 64)
  let hashSig := (sig <<< ((8 - take) * 8)) % 2 ^ 64
  if hashSig = 0 then return UInt64.ofNat (2 ^ 64 - 1)
  Outcome.check (hashSig ≠ 0)
  let ratio := 0xFFFF000000000000 / hashSig
  let exp : Int := (nz - 4) * 8
  if exp ≥ 64 then return UInt64.ofNat (2 ^ 64 - 1)
  if exp ≥ 0 then
    Outcome.check (exp < 64)
    if ratio > (2 ^ 64 - 1) >>> exp.toNat then return UInt64.ofNat (2 ^ 64 - 1)
    return UInt64.ofNat (ratio <<< exp.toNat)
  if -exp ≥ 64 then return 0
  Outcome.check (-exp < 64)
  return UInt64.ofNat (ratio >>> (-exp).toNat)

def difficultyToTargetChecked (difficulty : UInt64) : Result Hash := do
  if difficulty ≤ 1 then return diff1Target
  Outcome.check (difficulty ≠ 0)
  return divBeU256ByU64 diff1Target difficulty

theorem significant_loop {hashBe : Bytes} {nz n : Nat} (word : n ≤ 8) (inside : nz + n ≤ hashBe.length) :
    (List.range n).foldlM (significantStep hashBe nz) 0 = .ok (beNat ((hashBe.drop nz).take n)) := by
  induction n with
  | zero => rfl
  | succ n ih =>
    have within : nz + n < hashBe.length := by omega
    have split : (hashBe.drop nz).take (n + 1) = (hashBe.drop nz).take n ++ [hashBe[nz + n]] := by
      rw [List.take_succ_eq_append_getElem (by rw [List.length_drop]; omega), List.getElem_drop]
    have small : beNat ((hashBe.drop nz).take n) <<< 8 < 2 ^ 64 := by
      have bound := beNat_lt ((hashBe.drop nz).take n)
      have width : 256 ^ ((hashBe.drop nz).take n).length ≤ 256 ^ 7 := by
        refine Nat.pow_le_pow_right (by decide) ?_
        rw [List.length_take]
        omega
      rw [Nat.shiftLeft_eq]
      omega
    rw [List.range_succ, List.foldlM_append, ih (by omega) (by omega), Outcome.ok_bind, List.foldlM_cons]
    have step : significantStep hashBe nz (beNat ((hashBe.drop nz).take n)) n =
        .ok (beNat ((hashBe.drop nz).take (n + 1))) := by
      rw [significantStep, List.getElem?_eq_getElem within, split, beNat_append]
      dsimp only
      rw [Nat.mod_eq_of_lt small, ← Nat.shiftLeft_add_eq_or_of_lt hashBe[nz + n].toNat_lt, Nat.shiftLeft_eq]
      simp [beNat, leNat]
    rw [step]
    rfl

theorem significant_lt {take : Nat} (word : take ≤ 8) (bytes : Bytes) :
    beNat (bytes.take take) <<< ((8 - take) * 8) < 2 ^ 64 := by
  have bound : beNat (bytes.take take) < 256 ^ take :=
    (beNat_lt _).trans_le (Nat.pow_le_pow_right (by decide) (List.length_take_le _ _))
  have whole : 256 ^ take * 2 ^ ((8 - take) * 8) = 2 ^ 64 := by
    rw [show (256 : Nat) = 2 ^ 8 by rfl, ← Nat.pow_mul, ← Nat.pow_add]
    congr 1
    omega
  rw [Nat.shiftLeft_eq, ← whole]
  exact Nat.mul_lt_mul_of_pos_right bound (Nat.pow_pos (by decide))

theorem hashToDifficultyChecked_eq (hash : Hash) : hashToDifficultyChecked hash = .ok (hashToDifficulty hash) := by
  have size : hash.toList.reverse.length = 32 := by simp
  have place : (hash.toList.reverse.findIdx? (· != 0)).getD 31 < 32 := by
    rw [findIdx?_zeroBytes, size]
    split
    · assumption
    · decide
  unfold hashToDifficultyChecked hashToDifficulty
  dsimp only
  generalize hash.toList.reverse = hashBe at size place
  generalize (hashBe.findIdx? (· != 0)).getD 31 = nz at place
  generalize takeIs : min 8 (32 - nz) = take
  have loop := significant_loop (show take ≤ 8 by omega) (show nz + take ≤ hashBe.length by omega)
  have word := significant_lt (show take ≤ 8 by omega) (hashBe.drop nz)
  rw [loop]
  simp only [Outcome.check, Outcome.ok_bind, Outcome.pure_eq, Nat.mod_eq_of_lt word]
  generalize beNat ((hashBe.drop nz).take take) <<< ((8 - take) * 8) = hashSig
  have before : nz ≤ 32 := by omega
  have shift : (8 - take) * 8 < 64 := by omega
  simp only [if_pos before, if_pos shift, Outcome.ok_bind]
  by_cases none : hashSig = 0
  · rw [if_pos none, if_pos none]
  · simp only [if_neg none, if_pos none, Outcome.ok_bind, ne_eq]
    by_cases most : ((nz : Int) - 4) * 8 ≥ 64
    · rw [if_pos most, if_pos most]
    · rw [if_neg most, if_neg most]
      have most : ((nz : Int) - 4) * 8 < 64 := by omega
      have least : -(((nz : Int) - 4) * 8) < 64 := by omega
      simp only [if_pos most, if_pos least, if_neg (Int.not_le.mpr least), Outcome.ok_bind, ge_iff_le]
      split
      · split <;> rfl
      · rfl

theorem difficultyToTargetChecked_eq (difficulty : UInt64) :
    difficultyToTargetChecked difficulty = .ok (difficultyToTarget difficulty) := by
  unfold difficultyToTargetChecked difficultyToTarget
  by_cases least : difficulty ≤ 1
  · rw [if_pos least, if_pos least]
    rfl
  · have nonzero : difficulty ≠ 0 := by
      rintro rfl
      exact least (by decide)
    rw [if_neg least, if_neg least]
    simp only [Outcome.check, if_pos nonzero]
    rfl

/-! ### Building a job -/

/-- The search stops at the needle at the latest. -/
theorem findBytes_le {needle : Bytes} (some : needle ≠ []) (xs rest : Bytes) :
    ∃ off, findBytes needle (xs ++ (needle ++ rest)) = .some off ∧ off ≤ xs.length := by
  induction xs with
  | nil => exact ⟨0, findBytes_here needle some, le_rfl⟩
  | cons b xs ih =>
    obtain ⟨off, found, before⟩ := ih
    rw [List.cons_append, findBytes]
    split
    · exact ⟨0, rfl, Nat.zero_le _⟩
    · rw [found]
      exact ⟨off + 1, rfl, Nat.succ_le_succ before⟩

/-- The scriptSig stands in the serialized coinbase, whatever its length. -/
theorem serialize_scriptSig (scriptSig : Bytes) (output : List TxOut) :
    ∃ front tail, serializeTransaction { version := 1, lockTime := 0, input := [coinbaseInput scriptSig], output } =
      front ++ (scriptSig ++ tail) := by
  let front := leBytes 4 (1 : UInt32).toNat ++ compactSize [coinbaseInput scriptSig].length ++
    ((Octets.zero 32).toList ++ leBytes 4 (0xffffffff : UInt32).toNat ++ compactSize scriptSig.length)
  let tail := leBytes 4 (0xffffffff : UInt32).toNat ++ (compactSize output.length ++ output.flatMap serializeOutput ++
    leBytes 4 (0 : UInt32).toNat)
  refine ⟨front, tail, ?_⟩
  rw [serializeTransaction, List.flatMap_singleton, serializeInput, coinbaseInput]
  simp only [front, tail, coinbaseInput, List.append_assoc]

variable {c : Crates}

theorem commitmentOutput_ne_panic (commitment : Option String) : commitmentOutput commitment ≠ .panic := by
  unfold commitmentOutput
  split
  · exact Outcome.pure_ne_panic _
  · split
    · exact Outcome.pure_ne_panic _
    · exact Outcome.err_ne_panic _

/-- The placeholder is as wide as the extranonces and is found, so they fit behind the place where it was found. -/
theorem sentinel_found (encodes : c.serialize = serializeTransaction) (height : UInt64) (tag : String) (enTotal : Nat)
    (output : List TxOut) :
    ∃ off, findBytes sentinel (c.serialize
        { version := 1, lockTime := 0, input := [coinbaseInput (scriptSigContent height tag enTotal)], output }) = some off ∧
      off + enTotal ≤ (c.serialize
        { version := 1, lockTime := 0, input := [coinbaseInput (scriptSigContent height tag enTotal)], output }).length := by
  obtain ⟨front, tail, whole⟩ := serialize_scriptSig (scriptSigContent height tag enTotal) output
  obtain ⟨off, found, before⟩ := findBytes_le (show sentinel ≠ [] by decide)
    (front ++ (encodeBip34Height height ++ strBytes tag)) (List.replicate (enTotal - 4) 0 ++ tail)
  have split : front ++ (scriptSigContent height tag enTotal ++ tail) =
      front ++ (encodeBip34Height height ++ strBytes tag) ++ (sentinel ++ (List.replicate (enTotal - 4) 0 ++ tail)) := by
    simp only [scriptSigContent, List.append_assoc]
  have width : sentinel.length = 4 := rfl
  rw [encodes, whole, split]
  refine ⟨off, found, ?_⟩
  simp only [List.length_append, List.length_replicate, width] at before ⊢
  omega

theorem buildCoinbase_calm (encodes : c.serialize = serializeTransaction) (height reward : UInt64) (address tag : String)
    (e1 e2 : Nat) (commitment : Option String) :
    (∃ e, buildCoinbase c height reward address tag e1 e2 commitment = .err e) ∨
    ∃ bytes offset, buildCoinbase c height reward address tag e1 e2 commitment = .ok (bytes, offset) ∧
      offset + (e1 + e2) ≤ bytes.length := by
  unfold buildCoinbase
  cases c.addressToScript address with
  | error reason => exact .inl ⟨_, rfl⟩
  | ok script =>
    cases outputs : commitmentOutput commitment with
    | err e => exact .inl ⟨e, rfl⟩
    | panic => exact absurd outputs (commitmentOutput_ne_panic commitment)
    | ok more =>
      obtain ⟨off, found, room⟩ := sentinel_found encodes height tag (e1 + e2)
        ({ value := reward, scriptPubkey := script } :: more)
      simp only [Outcome.pure_eq, Outcome.ok_bind, found, Outcome.ofOption]
      refine .inr ⟨_, off, rfl, ?_⟩
      simp only [List.length_append, List.length_take, List.length_replicate, List.length_drop]
      omega

theorem internalTxid_ne_panic (txid : String) : internalTxid txid ≠ .panic := by
  unfold internalTxid
  split
  · exact Outcome.err_ne_panic _
  · rename_i b decoded
    split
    · exact Outcome.err_ne_panic _
    · rename_i size
      have filled : (Octets.copyFrom 32 b.reverse : Result Hash) = .ok ⟨b.reverse, by simpa using size⟩ :=
        Octets.copyFrom_ok.mpr rfl
      rw [filled]
      exact Outcome.pure_ne_panic _

theorem stratumPrevHash_ne_panic (coreHex : String) : stratumPrevHash coreHex ≠ .panic := by
  unfold stratumPrevHash
  split
  · exact Outcome.err_ne_panic _
  · split
    · exact Outcome.err_ne_panic _
    · exact Outcome.pure_ne_panic _

theorem bitsToTarget_ne_panic (bitsHex : String) : bitsToTarget bitsHex ≠ .panic := by
  refine Outcome.bind_ne_panic (Outcome.ofOption_ne_panic _ _) fun bits _ => ?_
  have total := compactToTarget_total bits
  split at total
  · obtain ⟨t, ok⟩ := total
    rw [ok]
    exact Outcome.pure_ne_panic t
  · rw [total]
    exact Outcome.err_ne_panic _

theorem buildJob_ne_panic (encodes : c.serialize = serializeTransaction) (jobId : String) (gbt : GbtResult)
    (address tag : String) (e1 e2 : Nat) : buildJob c jobId gbt address tag e1 e2 ≠ .panic := by
  have each : ∀ tx : GbtTransaction, internalTxid tx.txid ≠ .panic := by
    intro tx
    exact internalTxid_ne_panic tx.txid
  unfold buildJob
  obtain ⟨e, failed⟩ | ⟨bytes, offset, built, room⟩ := buildCoinbase_calm encodes gbt.height gbt.coinbaseValue address tag e1 e2
    gbt.defaultWitnessCommitment
  · rw [failed]
    exact Outcome.err_ne_panic e
  rw [built, Outcome.ok_bind]
  refine Outcome.bind_ne_panic (Outcome.check_ne_panic (by omega)) fun _ _ => ?_
  refine Outcome.bind_ne_panic (Outcome.check_ne_panic room) fun _ _ => ?_
  refine Outcome.bind_ne_panic (Outcome.mapM_ne_panic each _) fun txids _ => ?_
  rw [computeMerkleBranchRaw_eq, Outcome.ok_bind]
  refine Outcome.bind_ne_panic (stratumPrevHash_ne_panic _) fun prevHash _ => ?_
  exact Outcome.bind_ne_panic (bitsToTarget_ne_panic _) fun target _ => Outcome.pure_ne_panic _

/-! ### Validating a share -/

theorem validateShareNoDedup_calm {gbt : GbtResult} {e1 e2 : Nat} {job : StratumJob} (facts : JobFacts c gbt e1 e2 job)
    (params : ShareParams) (entry : JobEntry) (extranonce1 : Bytes) (difficulty : UInt64) :
    (∃ result, validateShareNoDedup c params job entry extranonce1 difficulty = .ok result) ∨
      ∃ e, validateShareNoDedup c params job entry extranonce1 difficulty = .err e ∧ e ≠ .invalidHeader := by
  obtain ⟨coinbase, assembled⟩ := assembleCoinbase_total facts extranonce1 params.extranonce2
  rw [validateShareNoDedup_eq]
  cases entry.supersededByClean with
  | true => exact .inr ⟨_, rfl, PoolError.noConfusion⟩
  | false =>
    rw [if_neg Bool.false_ne_true]
    by_cases ntime : checkNtime params.ntime job.minTime job.curTime = .ok ()
    · rw [ntime, Outcome.ok_bind, reconstruct, assembled, Outcome.ok_bind]
      by_cases inside : VersionInMask params
      · rw [(resolveVersion_eq job.version params).1 inside, Outcome.ok_bind, buildHeader_eq facts, Outcome.ok_bind,
          Outcome.pure_eq, Outcome.ok_bind]
        dsimp only [judge]
        split
        · exact .inl ⟨_, rfl⟩
        · split
          · exact .inl ⟨_, rfl⟩
          · exact .inr ⟨_, rfl, PoolError.noConfusion⟩
      · obtain ⟨detail, refused⟩ := (resolveVersion_eq job.version params).2 inside
        rw [refused]
        exact .inr ⟨_, rfl, PoolError.noConfusion⟩
    · obtain ⟨detail, refused⟩ := checkNtime_not_ok ntime
      rw [refused]
      exact .inr ⟨_, rfl, PoolError.noConfusion⟩

/-- For a configuration that was accepted, whatever the node and the miners send. The crate's encoder is the standard one; the
sum of the extranonce sizes does not wrap. -/
theorem jobs_and_shares_never_panic (encodes : c.serialize = serializeTransaction) {cfg : Config}
    (valid : cfg.validate = .ok ()) (jobId : String) (gbt : GbtResult) (address : String) :
    cfg.pool.extranonce1Size + cfg.pool.extranonce2Size < 2 ^ 64 ∧
    buildJob c jobId gbt address cfg.pool.coinbaseTag cfg.pool.extranonce1Size cfg.pool.extranonce2Size ≠ .panic ∧
    (∀ job, buildJob c jobId gbt address cfg.pool.coinbaseTag cfg.pool.extranonce1Size cfg.pool.extranonce2Size = .ok job →
      (∀ params entry extranonce1 difficulty,
        validateShareNoDedup c params job entry extranonce1 difficulty ≠ .panic ∧
        validateShareNoDedup c params job entry extranonce1 difficulty ≠ .err .invalidHeader) ∧
      ∀ channelId sv2JobId, ∃ message, Sv2.buildSetNewPrevHash job channelId sv2JobId = .ok message) ∧
    (∀ hash, hashToDifficultyChecked hash = .ok (hashToDifficulty hash)) ∧
    ∀ difficulty, difficultyToTargetChecked difficulty = .ok (difficultyToTarget difficulty) := by
  have room := (cfg.validate_accepted valid).scriptSig_le
  unfold scriptSigLength at room
  refine ⟨by omega, buildJob_ne_panic encodes jobId gbt address _ _ _, fun job built => ?_, hashToDifficultyChecked_eq,
    difficultyToTargetChecked_eq⟩
  obtain ⟨_, ⟨facts⟩⟩ := buildJob_facts built
  constructor
  · intro params entry extranonce1 difficulty
    obtain ⟨result, ok⟩ | ⟨e, err, other⟩ := validateShareNoDedup_calm facts params entry extranonce1 difficulty
    · rw [ok]
      exact ⟨nofun, nofun⟩
    · rw [err]
      exact ⟨nofun, fun same => other (Outcome.err.inj same)⟩
  · intro channelId sv2JobId
    exact ⟨_, buildSetNewPrevHash_eq facts channelId sv2JobId⟩

theorem jobs_and_shares_never_panic_test :
    ∃ job, buildJob mainnetCrates "0000000000000001" (testTemplate genesisHash "1d00ffff") testAddress
        exampleConfig.pool.coinbaseTag exampleConfig.pool.extranonce1Size exampleConfig.pool.extranonce2Size = .ok job ∧
      ∃ message, Sv2.buildSetNewPrevHash job 1 1 = .ok message := by
  obtain ⟨job, built⟩ := exists_of_isOk (x := buildJob mainnetCrates "0000000000000001" (testTemplate genesisHash "1d00ffff")
    testAddress exampleConfig.pool.coinbaseTag exampleConfig.pool.extranonce1Size exampleConfig.pool.extranonce2Size)
    (by decide +kernel)
  exact ⟨job, built, ((@jobs_and_shares_never_panic mainnetCrates rfl exampleConfig (by decide) _ _ _).2.2.1 job built).2 1 1⟩

end SoloPool
