import SoloPool.Bitcoin.Template

/-!
# What `build_job` establishes

The merkle branch loop equals the abstract branch, the compact target has the value its bits encode, and
`buildJob_facts` collects everything later proofs use about a job that was built.
-/

namespace SoloPool
open Lib

/-! ### The merkle branch -/

theorem evenLevel_cons_cons (a b : Option Hash) (rest : List (Option Hash)) :
    evenLevel (a :: b :: rest) = a :: b :: evenLevel rest := by
  have parity : (a :: b :: rest).length % 2 = rest.length % 2 := by simp only [List.length_cons]; omega
  unfold evenLevel
  rw [parity]
  split
  · rfl
  · cases rest with
    | nil => contradiction
    | cons c rest => simp

theorem nextLevel_known (h : Hash → Hash → Hash) (hashes : List Hash) :
    nextLevel h (evenLevel (hashes.map some)) = (pairUp h hashes).map some := by
  fun_induction pairUp h hashes with
  | case1 a b rest ih => rw [List.map_cons, List.map_cons, evenLevel_cons_cons, nextLevel, ih, List.map_cons]
  | case2 a => rfl
  | case3 => rfl

/-- The level with the unknown coinbase in front moves up as `pairUp` does behind the second node. -/
theorem nextLevel_coinbase (h : Hash → Hash → Hash) (second : Hash) (rest : List Hash) :
    nextLevel h (evenLevel (none :: (second :: rest).map some)) = none :: (pairUp h rest).map some := by
  rw [List.map_cons, evenLevel_cons_cons, ← nextLevel_known]
  rfl

theorem branchLoop_eq (h : Hash → Hash → Hash) (rest branch : List Hash) :
    branchLoop h (none :: rest.map some) 0 branch = .ok (branch ++ Lib.merkleBranch h rest) := by
  fun_induction Lib.merkleBranch h rest generalizing branch with
  | case1 => rw [branchLoop]; simp
  | case2 second rest ih =>
    have sibling : (evenLevel (none :: (second :: rest).map some))[1]? = some (some second) := by
      rw [List.map_cons, evenLevel_cons_cons]
      rfl
    rw [branchLoop, if_pos (by simp)]
    simp only [Nat.zero_mod, if_true, Nat.zero_add, sibling, nextLevel_coinbase, Nat.zero_div, Option.toList_some]
    rw [ih]
    simp

/-- The loop returns on every input, with the branch of the first leaf. -/
theorem computeMerkleBranchRaw_eq (c : Crates) (txids : List Hash) :
    computeMerkleBranchRaw c txids = .ok (Lib.merkleBranch (hashPair c) txids) := by
  unfold computeMerkleBranchRaw
  split
  · rename_i empty
    simp [empty, Lib.merkleBranch]
  · rw [branchLoop_eq, List.nil_append]

/-- The branch comes out on every input, one hash for each level, and leads any coinbase to the root of the tree over it and
the other transactions. -/
theorem merkle_branch_leads_to_root (c : Crates) (txids : List Hash) :
    ∃ branch, computeMerkleBranchRaw c txids = .ok branch ∧ branch.length = Nat.clog 2 (txids.length + 1) ∧
      ∀ (job : StratumJob) (coinbase : Bytes),
        treeRoot (hashPair c) (doubleSha256 c coinbase :: txids) =
          some ({ job with merkleBranchRaw := branch }.merkleRoot c coinbase) := by
  refine ⟨_, computeMerkleBranchRaw_eq c txids, length_merkleBranch _ _, fun job coinbase => ?_⟩
  rw [treeRoot_eq, StratumJob.merkleRoot, foldl_merkleBranch]

/-! ### The compact target -/

/-- The number a compact target encodes: the low 23 bits shifted by the exponent byte less three bytes. -/
def compactValue (bits : UInt32) : Nat :=
  if bits.toNat / 2 ^ 24 ≤ 3 then bits.toNat % 2 ^ 23 / 256 ^ (3 - bits.toNat / 2 ^ 24)
  else bits.toNat % 2 ^ 23 * 256 ^ (bits.toNat / 2 ^ 24 - 3)

theorem toNat_exponent (bits : UInt32) : ((bits >>> 24) &&& 0xff).toNat = bits.toNat / 2 ^ 24 := by
  have small := bits.toNat_lt
  have mask : (bits.toNat >>> 24) &&& 255 = (bits.toNat >>> 24) % 2 ^ 8 := Nat.and_two_pow_sub_one_eq_mod _ 8
  rw [Nat.shiftRight_eq_div_pow] at mask
  simp only [UInt32.toNat_and, UInt32.toNat_shiftRight, UInt32.reduceToNat, Nat.reduceMod,
    Nat.shiftRight_eq_div_pow, mask]
  exact Nat.mod_eq_of_lt (by omega)

theorem toNat_mantissa (bits : UInt32) : (bits &&& 0x007fffff).toNat = bits.toNat % 2 ^ 23 := by
  simpa using Nat.and_two_pow_sub_one_eq_mod bits.toNat 23

theorem copyInto_ok {dst src out : Bytes} {off : Nat} :
    copyInto dst off src = .ok out ↔
      off + src.length ≤ dst.length ∧ dst.take off ++ src ++ dst.drop (off + src.length) = out := by
  simp [copyInto, Outcome.bind_ok]

theorem beNat_copyInto {src out : Bytes} {off back : Nat} {t : Hash} (place : off + src.length + back = 32)
    (copied : copyInto (List.replicate 32 0) off src = .ok out) (filled : (Octets.copyFrom 32 out : Result Hash) = .ok t) :
    beNat t.toList = beNat src * 256 ^ back := by
  obtain ⟨_, rfl⟩ := copyInto_ok.mp copied
  rw [Octets.copyFrom_ok.mp filled, List.take_replicate, List.drop_replicate, beNat_append, beNat_append]
  rw [show 32 - (off + src.length) = back by omega]
  simp

theorem beNat_mantissaBytes (m : UInt32) (small : m.toNat < 2 ^ 23) :
    beNat [((m >>> 16) &&& 0xff).toUInt8, ((m >>> 8) &&& 0xff).toUInt8, (m &&& 0xff).toUInt8] = m.toNat := by
  have byte : ∀ n : Nat, n &&& 255 = n % 2 ^ 8 := fun n => Nat.and_two_pow_sub_one_eq_mod n 8
  simp [beNat, leNat, Nat.shiftRight_eq_div_pow, byte]
  omega

theorem compactToTarget_value {bits : UInt32} {t : Hash} (h : compactToTarget bits = .ok t) :
    beNat t.toList = compactValue bits := by
  have mantissaSmall : (bits &&& 0x007fffff).toNat < 2 ^ 23 := by rw [toNat_mantissa]; omega
  unfold compactToTarget at h
  unfold compactValue
  simp only [toNat_exponent] at h
  split at h
  · rename_i zero
    have none : bits.toNat % 2 ^ 23 = 0 := by rw [← toNat_mantissa, zero]; rfl
    obtain rfl : Octets.zero 32 = t := by simpa using h
    have value : beNat (Octets.zero 32).toList = 0 := beNat_replicate_zero 32
    rw [value, none]
    split <;> simp
  · split at h
    · rename_i low
      rw [if_pos low]
      obtain ⟨target, copied, filled⟩ := Outcome.bind_ok.mp h
      have value := beNat_copyInto (show 28 + (beBytes 4 _).length + 0 = 32 by simp) copied filled
      rw [value, beNat_beBytes, toNat_mantissa, Nat.shiftRight_eq_div_pow, Nat.pow_mul, Nat.pow_zero, Nat.mul_one]
      apply Nat.mod_eq_of_lt
      have shrink := Nat.div_le_self (bits.toNat % 2 ^ 23) ((2 ^ 8) ^ (3 - bits.toNat / 2 ^ 24))
      omega
    · rename_i high
      rw [if_neg high]
      split at h
      · simp at h
      · obtain ⟨target, copied, filled⟩ := Outcome.bind_ok.mp h
        have place : 32 - 3 - (bits.toNat / 2 ^ 24 - 3) + 3 + (bits.toNat / 2 ^ 24 - 3) = 32 := by omega
        rw [beNat_copyInto place copied filled, beNat_mantissaBytes _ mantissaSmall, toNat_mantissa]

theorem compactValue_eq (bits : UInt32) :
    compactValue bits = bits.toNat % 2 ^ 23 * 256 ^ (bits.toNat / 2 ^ 24) / 256 ^ 3 := by
  unfold compactValue
  generalize bits.toNat % 2 ^ 23 = mantissa
  generalize bits.toNat / 2 ^ 24 = exponent
  split
  · rename_i low
    have parts : 256 ^ 3 = 256 ^ (3 - exponent) * 256 ^ exponent := by
      rw [← Nat.pow_add, Nat.sub_add_cancel low]
    rw [parts, Nat.mul_div_mul_right _ _ (Nat.pow_pos (by decide))]
  · rename_i high
    have parts : 256 ^ exponent = 256 ^ (exponent - 3) * 256 ^ 3 := by
      rw [← Nat.pow_add, Nat.sub_add_cancel (by omega)]
    rw [parts, ← Nat.mul_assoc, Nat.mul_div_cancel _ (Nat.pow_pos (by decide))]

theorem copyInto_total {src : Bytes} {off : Nat} (room : off + src.length ≤ 32) :
    ∃ out t, (copyInto (List.replicate 32 0) off src : Result Bytes) = .ok out ∧ (Octets.copyFrom 32 out : Result Hash) = .ok t := by
  let out := (List.replicate 32 0).take off ++ src ++ (List.replicate 32 0).drop (off + src.length)
  have size : out.length = 32 := by
    simp only [out, List.take_replicate, List.drop_replicate, List.length_append, List.length_replicate]
    omega
  exact ⟨out, ⟨out, size⟩, copyInto_ok.mpr ⟨by simpa using room, rfl⟩, Octets.copyFrom_ok.mpr rfl⟩

/-- A compact target overflows from the exponent 33 on, whatever its mantissa, unless that is zero. -/
theorem compactToTarget_total (bits : UInt32) :
    if bits.toNat % 2 ^ 23 = 0 ∨ bits.toNat / 2 ^ 24 ≤ 32 then ∃ t, compactToTarget bits = .ok t
    else compactToTarget bits = .err (.other (.bitsOverflow bits)) := by
  have zero_iff : (bits &&& 0x007fffff) = 0 ↔ bits.toNat % 2 ^ 23 = 0 := by
    rw [← toNat_mantissa, ← UInt32.toNat_inj]
    rfl
  unfold compactToTarget
  simp only [toNat_exponent]
  by_cases zero : bits &&& 0x007fffff = 0
  · rw [if_pos (.inl (zero_iff.mp zero)), if_pos zero]
    exact ⟨_, rfl⟩
  · have some : ¬ bits.toNat % 2 ^ 23 = 0 := fun none => zero (zero_iff.mpr none)
    rw [if_neg zero]
    by_cases low : bits.toNat / 2 ^ 24 ≤ 3
    · obtain ⟨out, t, copied, filled⟩ :=
        @copyInto_total (beBytes 4 ((bits &&& 0x007fffff).toNat >>> (8 * (3 - bits.toNat / 2 ^ 24)))) 28 (by simp)
      rw [if_pos (.inr (by omega)), if_pos low, copied]
      exact ⟨t, filled⟩
    · rw [if_neg low]
      by_cases fits : bits.toNat / 2 ^ 24 ≤ 32
      · obtain ⟨out, t, copied, filled⟩ := @copyInto_total
          [(((bits &&& 0x007fffff) >>> 16) &&& 0xff).toUInt8, (((bits &&& 0x007fffff) >>> 8) &&& 0xff).toUInt8,
            ((bits &&& 0x007fffff) &&& 0xff).toUInt8] (32 - 3 - (bits.toNat / 2 ^ 24 - 3))
          (by rw [List.length_cons, List.length_cons, List.length_singleton]; omega)
        rw [if_pos (.inr fits), if_neg (by omega), copied]
        exact ⟨t, filled⟩
      · rw [if_neg (by omega), if_pos (by omega)]

/-- The target of every compact value is its mantissa shifted by the exponent less three bytes, rounded down: it comes out for
every exponent up to 32 and for a zero mantissa, and it never comes out when the value has more than 256 bits. -/
theorem compact_target_exact (bits : UInt32) :
    (∀ t, compactToTarget bits = .ok t →
      beNat t.toList = bits.toNat % 2 ^ 23 * 256 ^ (bits.toNat / 2 ^ 24) / 256 ^ 3) ∧
    (bits.toNat / 2 ^ 24 ≤ 32 ∨ bits.toNat % 2 ^ 23 = 0 → ∃ t, compactToTarget bits = .ok t) ∧
    (2 ^ 256 ≤ bits.toNat % 2 ^ 23 * 256 ^ (bits.toNat / 2 ^ 24) / 256 ^ 3 →
      compactToTarget bits = .err (.other (.bitsOverflow bits))) := by
  have total := compactToTarget_total bits
  refine ⟨fun t ok => ?_, fun small => ?_, fun large => ?_⟩
  · rw [compactToTarget_value ok, compactValue_eq]
  · rwa [if_pos small.symm] at total
  · by_cases small : bits.toNat % 2 ^ 23 = 0 ∨ bits.toNat / 2 ^ 24 ≤ 32
    · rw [if_pos small] at total
      obtain ⟨t, ok⟩ := total
      have bound := beNat_lt t.toList
      rw [compactToTarget_value ok, compactValue_eq, t.length_toList] at bound
      omega
    · rwa [if_neg small] at total

theorem compact_target_exact_edges :
    (∃ t, compactToTarget 0x207fffff = .ok t ∧ beNat t.toList = 0x7fffff * 256 ^ 29) ∧
      compactToTarget 0x227fffff = .err (.other (.bitsOverflow 0x227fffff)) := by
  obtain ⟨t, ok⟩ := (compact_target_exact 0x207fffff).2.1 (.inl (by decide))
  exact ⟨⟨t, ok, (compact_target_exact 0x207fffff).1 t ok⟩, (compact_target_exact 0x227fffff).2.2 (by decide +kernel)⟩

/-! ### The job -/

/-- What a job that `build_job` returned owes to the template it was built from. -/
structure JobFacts (c : Crates) (gbt : GbtResult) (extranonce1Len extranonce2Len : Nat) (job : StratumJob) where
  display : Hash
  display_eq : hexDecode gbt.prevHash = .ok display.toList
  prevHash_eq : job.prevHash = hexEncode (swapWords display.toList.reverse)
  bits : UInt32
  bits_eq : u32FromStrRadix16 gbt.bits = some bits
  job_bits : job.bits = gbt.bits
  target_eq : beNat job.networkTarget.toList = compactValue bits
  txids : List Hash
  txids_eq : List.Forall₂ (fun tx id => hexDecode tx.txid = .ok id.toList.reverse) gbt.transactions.toList txids
  branchRaw_eq : job.merkleBranchRaw = Lib.merkleBranch (hashPair c) txids
  branch_eq : job.merkleBranch = job.merkleBranchRaw.map (fun h => hexEncode h.toList)
  region : job.extranonceOffset + (extranonce1Len + extranonce2Len) ≤ job.coinbaseTemplate.length
  coinbase1_eq : job.coinbase1 = job.coinbaseTemplate.take job.extranonceOffset
  coinbase2_eq : job.coinbase2 =
    job.coinbaseTemplate.drop (job.extranonceOffset + (extranonce1Len + extranonce2Len))
  extranonce1Len_eq : job.extranonce1Len = extranonce1Len
  extranonce2Len_eq : job.extranonce2Len = extranonce2Len
  version_eq : job.version = gbt.version
  curTime_eq : job.curTime = gbt.curTime
  minTime_eq : job.minTime = gbt.minTime
  transactions_eq : job.transactions = gbt.transactions.map (·.data)

theorem internalTxid_ok {txid : String} {id : Hash} (h : internalTxid txid = .ok id) :
    hexDecode txid = .ok id.toList.reverse := by
  unfold internalTxid at h
  split at h
  · simp at h
  · rename_i b decoded
    split at h
    · simp at h
    · rw [decoded, Octets.copyFrom_ok.mp h, List.reverse_reverse]

theorem stratumPrevHash_ok {coreHex out : String} (h : stratumPrevHash coreHex = .ok out) :
    ∃ display : Hash, hexDecode coreHex = .ok display.toList ∧ out = hexEncode (swapWords display.toList.reverse) := by
  unfold stratumPrevHash at h
  split at h
  · simp at h
  · rename_i bytes decoded
    split at h
    · simp at h
    · rename_i size
      refine ⟨⟨bytes, not_not.mp size⟩, decoded, ?_⟩
      simpa [eq_comm] using h

theorem bitsToTarget_ok {bitsHex : String} {t : Hash} (h : bitsToTarget bitsHex = .ok t) :
    ∃ bits, u32FromStrRadix16 bitsHex = some bits ∧ beNat t.toList = compactValue bits := by
  obtain ⟨bits, parsed, h⟩ := Outcome.bind_ok.mp h
  exact ⟨bits, Outcome.ofOption_ok.mp parsed, compactToTarget_value h⟩

theorem buildJob_facts {c : Crates} {jobId : String} {gbt : GbtResult} {address tag : String} {e1 e2 : Nat}
    {job : StratumJob} (built : buildJob c jobId gbt address tag e1 e2 = .ok job) :
    job.jobId = jobId ∧ Nonempty (JobFacts c gbt e1 e2 job) := by
  obtain ⟨⟨bytes, offset⟩, _, built⟩ := Outcome.bind_ok.mp built
  obtain ⟨_, _, built⟩ := Outcome.bind_ok.mp built
  obtain ⟨_, region, built⟩ := Outcome.bind_ok.mp built
  obtain ⟨txids, collected, built⟩ := Outcome.bind_ok.mp built
  obtain ⟨branch, branched, built⟩ := Outcome.bind_ok.mp built
  obtain ⟨prevHash, swapped, built⟩ := Outcome.bind_ok.mp built
  obtain ⟨target, targeted, built⟩ := Outcome.bind_ok.mp built
  obtain ⟨display, display_eq, prevHash_eq⟩ := stratumPrevHash_ok swapped
  obtain ⟨bits, bits_eq, target_eq⟩ := bitsToTarget_ok targeted
  obtain rfl := Outcome.ok.inj built
  rw [computeMerkleBranchRaw_eq, Outcome.ok.injEq] at branched
  refine ⟨rfl, ⟨?_⟩⟩
  exact {
    display, display_eq, prevHash_eq, bits, bits_eq, target_eq, txids
    job_bits := rfl
    txids_eq := (Outcome.mapM_ok.mp collected).imp fun _ _ => internalTxid_ok
    branchRaw_eq := branched.symm
    branch_eq := rfl
    region := Outcome.check_ok.mp region
    coinbase1_eq := rfl
    coinbase2_eq := rfl
    extranonce1Len_eq := rfl
    extranonce2Len_eq := rfl
    version_eq := rfl
    curTime_eq := rfl
    minTime_eq := rfl
    transactions_eq := rfl }

/-! ### The coinbase -/

/-- Extranonces that fill the reserved region are spliced between the two halves of the coinbase. -/
theorem assembleCoinbase_split {c : Crates} {gbt : GbtResult} {e1 e2 : Nat} {job : StratumJob}
    (facts : JobFacts c gbt e1 e2 job) {first second : Bytes} (width : first.length + second.length = e1 + e2) :
    job.assembleCoinbase first second = .ok (job.coinbase1 ++ first ++ second ++ job.coinbase2) := by
  have room := facts.region
  have total : first.length + second.length = job.extranonce1Len + job.extranonce2Len := by
    rw [facts.extranonce1Len_eq, facts.extranonce2Len_eq, width]
  have head : (job.coinbaseTemplate.take job.extranonceOffset).length = job.extranonceOffset := by
    rw [List.length_take]; omega
  unfold StratumJob.assembleCoinbase
  rw [if_neg (not_not.mpr total), facts.coinbase1_eq, facts.coinbase2_eq]
  refine Outcome.bind_ok.mpr ⟨_, copyInto_ok.mpr ⟨by omega, rfl⟩, copyInto_ok.mpr ⟨?_, ?_⟩⟩
  · simp only [List.length_append, List.length_drop, head]
    omega
  · -- The first copy ends where the second begins, so the second only replaces the rest of the region.
    have front : (job.coinbaseTemplate.take job.extranonceOffset ++ first).length =
        job.extranonceOffset + first.length := by rw [List.length_append, head]
    rw [← front, List.take_left, List.drop_append, List.drop_eq_nil_of_le (by omega), List.nil_append,
      List.drop_drop, front]
    congr 2
    omega

theorem assembleCoinbase_total {c : Crates} {gbt : GbtResult} {e1 e2 : Nat} {job : StratumJob}
    (facts : JobFacts c gbt e1 e2 job) (first second : Bytes) :
    ∃ coinbase, job.assembleCoinbase first second = .ok coinbase := by
  by_cases width : first.length + second.length = e1 + e2
  · exact ⟨_, assembleCoinbase_split facts width⟩
  · refine ⟨job.coinbaseTemplate, ?_⟩
    unfold StratumJob.assembleCoinbase
    rw [if_pos (by rw [facts.extranonce1Len_eq, facts.extranonce2Len_eq]; exact width)]
    rfl

theorem merkleRoot_eq {c : Crates} {gbt : GbtResult} {e1 e2 : Nat} {job : StratumJob}
    (facts : JobFacts c gbt e1 e2 job) (coinbase : Bytes) :
    job.merkleRoot c coinbase = Lib.merkleRoot (hashPair c) (doubleSha256 c coinbase) facts.txids := by
  rw [StratumJob.merkleRoot, facts.branchRaw_eq, foldl_merkleBranch]

end SoloPool
