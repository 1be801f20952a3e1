import SoloPool.Mining.Vardiff
import SoloPool.Proofs.Validator
import SoloPool.Protocol.Sv2.Job

/-!
# Difficulties of hashes

A target is the difficulty-1 target divided by the difficulty. `hash_to_difficulty` divides eight significant bytes and
shifts the quotient; it says of a hash that it reaches a difficulty when the hash is at most a limit of its own, which
is below the target for some difficulties and above it for others.
-/

namespace SoloPool
open Lib

/-! ### Targets -/

def diff1Value : Nat := 0xFFFF * 2 ^ 208

/-- Nothing is shifted out of the remainder, and a quotient fits a byte. -/
theorem accum_eq {d rem : Nat} (small : rem < d) (word : d ≤ 2 ^ 64) (b : UInt8) :
    (rem <<< 8) % 2 ^ 128 ||| b.toNat = rem * 256 + b.toNat ∧ (rem * 256 + b.toNat) / d < 256 := by
  have byte := b.toNat_lt
  have fits : rem <<< 8 < 2 ^ 128 := by
    rw [Nat.shiftLeft_eq]
    omega
  refine ⟨?_, ?_⟩
  · rw [Nat.mod_eq_of_lt fits, ← Nat.shiftLeft_add_eq_or_of_lt byte, Nat.shiftLeft_eq]
  · rw [Nat.div_lt_iff_lt_mul (Nat.zero_lt_of_lt small)]
    omega

/-- By induction on the bytes, with the remainder below the divisor. -/
theorem beNat_divBytes {d rem : Nat} (small : rem < d) (word : d ≤ 2 ^ 64) (bs : Bytes) :
    beNat (divBytes d rem bs) = (rem * 256 ^ bs.length + beNat bs) / d := by
  have positive : 0 < d := Nat.zero_lt_of_lt small
  induction bs generalizing rem with
  | nil => simp [divBytes, beNat, leNat, Nat.div_eq_of_lt small]
  | cons b bs ih =>
    obtain ⟨accum, digit⟩ := accum_eq small word b
    have whole := Nat.div_add_mod (rem * 256 + b.toNat) d
    rw [divBytes, accum, beNat_cons, ih (Nat.mod_lt _ positive), length_divBytes, UInt8.toNat_ofNat', Nat.mod_eq_of_lt digit,
      beNat_cons, List.length_cons, ← Nat.mul_add_div positive]
    congr 1
    calc d * ((rem * 256 + b.toNat) / d * 256 ^ bs.length) + ((rem * 256 + b.toNat) % d * 256 ^ bs.length + beNat bs)
        = (d * ((rem * 256 + b.toNat) / d) + (rem * 256 + b.toNat) % d) * 256 ^ bs.length + beNat bs := by ring
      _ = rem * 256 ^ (bs.length + 1) + (b.toNat * 256 ^ bs.length + beNat bs) := by
        rw [whole]
        ring

theorem beNat_divBeU256ByU64 (value : Hash) {divisor : UInt64} (positive : 1 ≤ divisor) :
    beNat (divBeU256ByU64 value divisor).toList = beNat value.toList / divisor.toNat := by
  dsimp only [divBeU256ByU64]
  rw [beNat_divBytes (UInt64.le_iff_toNat_le.mp positive) divisor.toNat_lt.le, Nat.zero_mul, Nat.zero_add]

theorem beNat_diff1Target : beNat diff1Target.toList = diff1Value := by decide

theorem difficultyToTarget_value (difficulty : UInt64) :
    beNat (difficultyToTarget difficulty).toList = diff1Value / max difficulty.toNat 1 := by
  unfold difficultyToTarget
  split
  · rename_i least
    have least : difficulty.toNat ≤ 1 := UInt64.le_iff_toNat_le.mp least
    rw [max_eq_right least, Nat.div_one, beNat_diff1Target]
  · rename_i more
    have more : 1 ≤ difficulty := UInt64.le_of_lt (UInt64.not_le.mp more)
    have some : 1 ≤ difficulty.toNat := UInt64.le_iff_toNat_le.mp more
    rw [beNat_divBeU256ByU64 diff1Target more, beNat_diff1Target, max_eq_left some]

theorem beNat_difficultyToTarget {difficulty : UInt64} (positive : 1 ≤ difficulty) :
    beNat (difficultyToTarget difficulty).toList = diff1Value / difficulty.toNat := by
  have some : 1 ≤ difficulty.toNat := UInt64.le_iff_toNat_le.mp positive
  rw [difficultyToTarget_value, max_eq_left some]

theorem difficultyToTarget_antitone {low high : UInt64} (le : low ≤ high) :
    beNat (difficultyToTarget high).toList ≤ beNat (difficultyToTarget low).toList := by
  have ordered : max low.toNat 1 ≤ max high.toNat 1 := max_le_max (UInt64.le_iff_toNat_le.mp le) le_rfl
  rw [difficultyToTarget_value, difficultyToTarget_value]
  exact Nat.div_le_div_left ordered (Nat.lt_of_lt_of_le Nat.one_pos (le_max_right _ _))

theorem sv2TargetLe_iff (a b : Hash) : Sv2.sv2TargetLe a b = true ↔ leNat a.toList ≤ leNat b.toList := by
  rw [Sv2.sv2TargetLe, decide_eq_true_iff, lex_le_iff_beNat_le (by simp)]
  simp [beNat]

/-- The division is exact for every divisor; hence targets are, they fall as the difficulty grows, and on the wire they are
little-endian numbers in the order of `sv2_target_le`. -/
theorem targets_are_quotients :
    (∀ (value : Hash) (divisor : UInt64), 1 ≤ divisor →
      beNat (divBeU256ByU64 value divisor).toList = beNat value.toList / divisor.toNat) ∧
    (∀ difficulty : UInt64, beNat (difficultyToTarget difficulty).toList = diff1Value / max difficulty.toNat 1) ∧
    (∀ low high : UInt64, low ≤ high →
      beNat (difficultyToTarget high).toList ≤ beNat (difficultyToTarget low).toList) ∧
    (∀ difficulty : UInt64, Sv2.difficultyToSv2Target difficulty = (difficultyToTarget difficulty).reverse ∧
      leNat (Sv2.difficultyToSv2Target difficulty).toList = beNat (difficultyToTarget difficulty).toList) ∧
    ∀ a b : Hash, Sv2.sv2TargetLe a b = true ↔ leNat a.toList ≤ leNat b.toList :=
  ⟨fun value _ positive => beNat_divBeU256ByU64 value positive, difficultyToTarget_value,
    fun _ _ le => difficultyToTarget_antitone le, fun _ => ⟨rfl, rfl⟩, sv2TargetLe_iff⟩

theorem targets_are_quotients_max :
    beNat (divBeU256ByU64 diff1Target 18446744073709551615).toList = diff1Value / 18446744073709551615 := by
  rw [targets_are_quotients.1 diff1Target 18446744073709551615 (by decide), beNat_diff1Target]
  rfl

/-! ### Difficulties -/

/-- The highest hash with `zeros` leading zero bytes that `hash_to_difficulty` puts at `difficulty` or more: the
difficulty is rounded up to the unit of the final shift, and of the hash only eight bytes count. -/
def coarseLimit (difficulty zeros : Nat) : Nat :=
  if zeros < 12 then
    let unit := 256 ^ (zeros - 4)
    (0xFFFF000000000000 / ((difficulty + unit - 1) / unit) + 1) * 256 ^ (24 - zeros) - 1
  else 256 ^ 20 - 1

def Hash.value (hash : Hash) : Nat := leNat hash.toList

def Hash.zeros (hash : Hash) : Nat := zeroBytes hash.toList.reverse

/-- What `hash_to_difficulty` says of a hash, as a limit on the hash. -/
def Reaches (hash : Hash) (difficulty : Nat) : Prop := 4 ≤ hash.zeros ∧ hash.value ≤ coarseLimit difficulty hash.zeros

theorem value_bounds (hash : Hash) (some : hash.zeros < 32) :
    256 ^ (31 - hash.zeros) ≤ hash.value ∧ hash.value < 256 ^ (32 - hash.zeros) := by
  have size : hash.toList.reverse.length = 32 := by simp
  have value : hash.value = beNat hash.toList.reverse := by simp [Hash.value, beNat]
  have above := beNat_lt_zeroBytes hash.toList.reverse
  have below := @le_beNat_zeroBytes hash.toList.reverse (by rw [size]; exact some)
  rw [size] at above below
  rw [value]
  exact ⟨below, above⟩

/-- Eight bytes from the first non-zero one, at their place in the hash. -/
theorem significant_bytes (hash : Hash) (many : hash.zeros ≤ 24) :
    beNat ((hash.toList.reverse.drop hash.zeros).take 8) = hash.value / 256 ^ (24 - hash.zeros) := by
  have rest : (hash.toList.reverse.drop hash.zeros).length - 8 = 24 - hash.zeros := by
    rw [List.length_drop, List.length_reverse, hash.length_toList]
    omega
  rw [beNat_take, rest]
  congr 1
  unfold Hash.zeros
  rw [beNat_drop_zeroBytes]
  simp [Hash.value, beNat]

theorem findIdx?_zeros (hash : Hash) (some : hash.zeros < 32) :
    (hash.toList.reverse.findIdx? (· != 0)).getD 31 = hash.zeros := by
  rw [findIdx?_zeroBytes, if_pos (by simpa [Hash.zeros] using some)]
  rfl

theorem hashToDifficulty_most {hash : Hash} (tiny : 12 ≤ hash.zeros) : hashToDifficulty hash = UInt64.ofNat (2 ^ 64 - 1) := by
  have place : 12 ≤ (hash.toList.reverse.findIdx? (· != 0)).getD 31 := by
    rw [findIdx?_zeroBytes]
    split
    · exact tiny
    · decide
  unfold hashToDifficulty
  dsimp only
  generalize (hash.toList.reverse.findIdx? (· != 0)).getD 31 = nz at place
  split
  · rfl
  · rw [if_pos (by omega)]

theorem le_significant {hash : Hash} (few : hash.zeros < 12) : 256 ^ 7 ≤ hash.value / 256 ^ (24 - hash.zeros) := by
  obtain ⟨below, _⟩ := value_bounds hash (by omega)
  rw [Nat.le_div_iff_mul_le (Nat.pow_pos (by decide)), ← Nat.pow_add]
  rwa [show 7 + (24 - hash.zeros) = 31 - hash.zeros by omega]

/-- The quotient of the significant bytes, which is less than 256, behind the last bytes of the result. -/
theorem hashToDifficulty_shifted {hash : Hash} (few : hash.zeros < 12) :
    (hashToDifficulty hash).toNat =
      0xFFFF000000000000 / (hash.value / 256 ^ (24 - hash.zeros)) * 256 ^ (hash.zeros - 4) / 256 ^ (4 - hash.zeros) := by
  have large := le_significant few
  have ratio_lt : 0xFFFF000000000000 / (hash.value / 256 ^ (24 - hash.zeros)) < 256 := by
    rw [Nat.div_lt_iff_lt_mul (by omega)]
    omega
  have fits : ∀ shift ≤ 7, 0xFFFF000000000000 / (hash.value / 256 ^ (24 - hash.zeros)) * 256 ^ shift < 2 ^ 64 := by
    intro shift small
    have unit : 256 ^ shift ≤ 256 ^ 7 := Nat.pow_le_pow_right (by decide) small
    have less := Nat.mul_lt_mul_of_lt_of_le ratio_lt unit (Nat.pow_pos (by decide))
    exact less.trans_eq (by decide)
  unfold hashToDifficulty
  dsimp only
  rw [findIdx?_zeros hash (by omega), show min 8 (32 - hash.zeros) = 8 by omega, significant_bytes hash (by omega), Nat.sub_self,
    Nat.zero_mul, Nat.shiftLeft_zero, if_neg (by omega), if_neg (by omega)]
  generalize 0xFFFF000000000000 / (hash.value / 256 ^ (24 - hash.zeros)) = ratio at *
  by_cases high : 4 ≤ hash.zeros
  · have exponent : (((hash.zeros : Int) - 4) * 8).toNat = 8 * (hash.zeros - 4) := by omega
    have room : 255 ≤ (2 ^ 64 - 1) >>> (8 * (hash.zeros - 4)) := by
      rw [Nat.shiftRight_eq_div_pow, Nat.le_div_iff_mul_le (Nat.pow_pos (by decide))]
      have unit : 2 ^ (8 * (hash.zeros - 4)) ≤ 2 ^ 56 := Nat.pow_le_pow_right (by decide) (by omega)
      omega
    rw [if_pos (by omega), exponent, if_neg (by omega), Nat.shiftLeft_eq, Nat.pow_mul]
    have small := fits (hash.zeros - 4) (by omega)
    rw [UInt64.toNat_ofNat', Nat.mod_eq_of_lt small, Nat.sub_eq_zero_of_le high, Nat.pow_zero, Nat.div_one]
  · have exponent : (-(((hash.zeros : Int) - 4) * 8)).toNat = 8 * (4 - hash.zeros) := by omega
    rw [if_neg (by omega), if_neg (by omega), exponent, Nat.shiftRight_eq_div_pow, Nat.pow_mul,
      show hash.zeros - 4 = 0 by omega, Nat.pow_zero, Nat.mul_one, UInt64.toNat_ofNat', Nat.mod_eq_of_lt]
    exact (Nat.div_le_self _ _).trans_lt (ratio_lt.trans (by decide))

theorem value_lt_of_tiny {hash : Hash} (tiny : 12 ≤ hash.zeros) : hash.value < 256 ^ 20 := by
  by_cases all : hash.zeros < 32
  · exact (value_bounds hash all).2.trans_le (Nat.pow_le_pow_right (by decide) (by omega))
  · have none := beNat_lt_zeroBytes hash.toList.reverse
    have nothing : hash.toList.reverse.length - zeroBytes hash.toList.reverse = 0 := by
      rw [List.length_reverse, hash.length_toList]
      exact Nat.sub_eq_zero_of_le (Nat.not_lt.mp all)
    rw [nothing, beNat, List.reverse_reverse] at none
    exact none.trans (by decide)

/-- A difficulty against a quotient by the leading part of a value, solved for the value. -/
theorem le_quotient_iff {total difficulty unit value place : Nat} (units : 0 < unit) (places : 0 < place)
    (leading : 0 < value / place) (up : 0 < (difficulty + unit - 1) / unit) :
    difficulty ≤ total / (value / place) * unit ↔
      value ≤ (total / ((difficulty + unit - 1) / unit) + 1) * place - 1 := by
  calc difficulty ≤ total / (value / place) * unit
      ↔ (difficulty + unit - 1) / unit ≤ total / (value / place) := by
        rw [Nat.div_le_iff_le_mul_add_pred units, Nat.mul_comm]
        omega
    _ ↔ value / place ≤ total / ((difficulty + unit - 1) / unit) := by
        rw [Nat.le_div_iff_mul_le leading, Nat.le_div_iff_mul_le up, Nat.mul_comm]
    _ ↔ value < (total / ((difficulty + unit - 1) / unit) + 1) * place := by
        rw [← Nat.lt_succ_iff, Nat.div_lt_iff_lt_mul places]
    _ ↔ _ := (Nat.le_sub_one_iff_lt (Nat.mul_pos (Nat.succ_pos _) places)).symm

theorem hashToDifficulty_reaches {hash : Hash} {difficulty : UInt64} (positive : 1 ≤ difficulty) :
    difficulty ≤ hashToDifficulty hash ↔ Reaches hash difficulty.toNat := by
  have some : 1 ≤ difficulty.toNat := UInt64.le_iff_toNat_le.mp positive
  have word := difficulty.toNat_lt
  unfold Reaches coarseLimit
  rw [UInt64.le_iff_toNat_le]
  by_cases tiny : 12 ≤ hash.zeros
  · have low := value_lt_of_tiny tiny
    rw [hashToDifficulty_most tiny, if_neg (by omega)]
    constructor
    · intro _
      exact ⟨by omega, by omega⟩
    · intro _
      exact Nat.le_of_lt_succ word
  · rw [hashToDifficulty_shifted (by omega), if_pos (by omega)]
    have large := @le_significant hash (by omega)
    have sig : 0 < hash.value / 256 ^ (24 - hash.zeros) := by omega
    by_cases high : 4 ≤ hash.zeros
    · have unit : 0 < 256 ^ (hash.zeros - 4) := Nat.pow_pos (by decide)
      have place : 0 < 256 ^ (24 - hash.zeros) := Nat.pow_pos (by decide)
      have up : 0 < (difficulty.toNat + 256 ^ (hash.zeros - 4) - 1) / 256 ^ (hash.zeros - 4) :=
        Nat.div_pos (by omega) unit
      rw [Nat.sub_eq_zero_of_le high, Nat.pow_zero, Nat.div_one]
      simp only [high, true_and]
      exact le_quotient_iff unit place sig up
    · have zero : 0xFFFF000000000000 / (hash.value / 256 ^ (24 - hash.zeros)) * 256 ^ (hash.zeros - 4) /
          256 ^ (4 - hash.zeros) = 0 := by
        rw [show hash.zeros - 4 = 0 by omega, Nat.pow_zero, Nat.mul_one]
        apply Nat.div_eq_of_lt
        rw [Nat.div_lt_iff_lt_mul sig]
        have first : 256 ^ 1 ≤ 256 ^ (4 - hash.zeros) := Nat.pow_le_pow_right (by decide) (by omega)
        exact lt_of_lt_of_le (by decide) (Nat.mul_le_mul first large)
      rw [zero]
      constructor
      · intro none
        omega
      · intro reaches
        exact absurd reaches.1 high

/-! ### Agreement -/

/-- The hash meets the target, but `hash_to_difficulty` puts it below the difficulty. -/
def Undercounted (hash : Hash) (difficulty : Nat) : Prop :=
  coarseLimit difficulty hash.zeros < hash.value ∧ hash.value ≤ diff1Value / difficulty

/-- The hash misses the target, but `hash_to_difficulty` puts it at the difficulty. -/
def Overcounted (hash : Hash) (difficulty : Nat) : Prop :=
  diff1Value / difficulty < hash.value ∧ 4 ≤ hash.zeros ∧ hash.value ≤ coarseLimit difficulty hash.zeros

theorem meetsTarget_difficulty {hash : Hash} {difficulty : UInt64} (positive : 1 ≤ difficulty) :
    meetsTarget hash (difficultyToTarget difficulty) = true ↔ hash.value ≤ diff1Value / difficulty.toNat := by
  rw [meetsTarget_iff, beNat_difficultyToTarget positive]
  rfl

theorem zeros_of_target {hash : Hash} {difficulty : Nat} (low : hash.value ≤ diff1Value / difficulty) : 4 ≤ hash.zeros := by
  by_contra few
  have below := (value_bounds hash (by omega)).1
  have least : 256 ^ 28 ≤ hash.value := (Nat.pow_le_pow_right (by decide) (by omega)).trans below
  have most : hash.value ≤ diff1Value := low.trans (Nat.div_le_self _ _)
  have apart : diff1Value < 256 ^ 28 := by decide
  omega

theorem undercounted_iff {hash : Hash} {difficulty : Nat} :
    Undercounted hash difficulty ↔ hash.value ≤ diff1Value / difficulty ∧ ¬ Reaches hash difficulty := by
  constructor
  · rintro ⟨above, low⟩
    exact ⟨low, fun reaches => Nat.not_le.mpr above reaches.2⟩
  · rintro ⟨low, misses⟩
    refine ⟨Nat.not_le.mp fun within => misses ⟨zeros_of_target low, within⟩, low⟩

theorem difficulty_agrees_iff {hash : Hash} {difficulty : UInt64} (positive : 1 ≤ difficulty) :
    (hashToDifficulty hash ≥ difficulty ↔ meetsTarget hash (difficultyToTarget difficulty) = true) ↔
      ¬ Undercounted hash difficulty.toNat ∧ ¬ Overcounted hash difficulty.toNat := by
  have overcounted : Overcounted hash difficulty.toNat ↔
      ¬ hash.value ≤ diff1Value / difficulty.toNat ∧ Reaches hash difficulty.toNat := by
    rw [Nat.not_le]
    rfl
  rw [ge_iff_le, hashToDifficulty_reaches positive, meetsTarget_difficulty positive, undercounted_iff, overcounted]
  constructor
  · intro agree
    exact ⟨fun under => under.2 (agree.mpr under.1), fun above => above.1 (agree.mp above.2)⟩
  · rintro ⟨under, above⟩
    exact ⟨fun reaches => by_contra fun misses => above ⟨misses, reaches⟩,
      fun meets => by_contra fun misses => under ⟨meets, misses⟩⟩

/-- Difficulty 0 has no target, and every hash is credited with it. -/
theorem credit_of_zero {v : Vardiff} (zero : v.current = 0) (hash : Hash) :
    ¬ Undercounted hash v.current.toNat ∧ v.creditFor (hashToDifficulty hash) = v.current := by
  refine ⟨?_, ?_⟩
  · rintro ⟨above, low⟩
    rw [zero] at low
    exact Nat.not_lt_zero _ (above.trans_le (low.trans_eq (Nat.div_zero _)))
  · unfold Vardiff.creditFor
    rw [if_pos (by rw [zero]; exact UInt64.zero_le)]

theorem credit_agrees_iff {v : Vardiff} {hash : Hash} (positive : 1 ≤ v.current) :
    (meetsTarget hash (difficultyToTarget v.current) = true → v.creditFor (hashToDifficulty hash) = v.current) ↔
      ¬ Undercounted hash v.current.toNat ∨
      (v.cfg.minDifficulty = v.current ∧ 1 ≤ v.previous ∧ ¬ Reaches hash v.previous.toNat) := by
  rw [meetsTarget_difficulty positive, undercounted_iff]
  unfold Vardiff.creditFor
  by_cases reached : Reaches hash v.current.toNat
  · rw [if_pos ((hashToDifficulty_reaches positive).mpr reached)]
    simp [reached]
  · have short : ¬ hashToDifficulty hash ≥ v.current := fun reaches =>
      reached ((hashToDifficulty_reaches positive).mp reaches)
    rw [if_neg short]
    by_cases older : hashToDifficulty hash ≥ v.previous
    · have apart : v.previous ≠ v.current := by
        rintro same
        exact short (same ▸ older)
      have stays : ¬ (1 ≤ v.previous ∧ ¬ Reaches hash v.previous.toNat) := by
        rintro ⟨some, misses⟩
        exact misses ((hashToDifficulty_reaches some).mp older)
      rw [if_pos older]
      simp only [apart, reached, stays, and_false, or_false, imp_false, not_false_eq_true, and_true]
    · have some : 1 ≤ v.previous := by
        rw [UInt64.le_iff_toNat_le]
        have less := UInt64.lt_iff_toNat_lt.mp (UInt64.not_le.mp older)
        exact Nat.one_le_of_lt less
      have misses : ¬ Reaches hash v.previous.toNat := fun reaches =>
        older ((hashToDifficulty_reaches some).mpr reaches)
      rw [if_neg older]
      simp only [reached, some, misses, not_false_eq_true, and_true]
      exact imp_iff_not_or

/-- A hash that is neither undercounted nor overcounted is put at the difficulties whose targets it meets; and a hash that
meets the assigned target is credited with the assignment unless it is undercounted and the floor is another one. -/
theorem hash_difficulty_agrees_iff (hash : Hash) :
    (∀ difficulty : UInt64, 1 ≤ difficulty →
      ((hashToDifficulty hash ≥ difficulty ↔ meetsTarget hash (difficultyToTarget difficulty) = true) ↔
        ¬ Undercounted hash difficulty.toNat ∧ ¬ Overcounted hash difficulty.toNat)) ∧
    ∀ v : Vardiff,
      ((meetsTarget hash (difficultyToTarget v.current) = true → v.creditFor (hashToDifficulty hash) = v.current) ↔
        ¬ Undercounted hash v.current.toNat ∨
        (v.cfg.minDifficulty = v.current ∧ 1 ≤ v.previous ∧ ¬ Reaches hash v.previous.toNat)) := by
  constructor
  · intro difficulty positive
    exact difficulty_agrees_iff positive
  · intro v
    by_cases positive : 1 ≤ v.current
    · exact credit_agrees_iff positive
    · have zero : v.current = 0 := by
        rw [UInt64.not_le, UInt64.lt_iff_toNat_lt] at positive
        exact UInt64.toNat_inj.mp (Nat.lt_one_iff.mp positive)
      obtain ⟨never, credited⟩ := credit_of_zero zero hash
      simp [never, credited]

instance (hash : Hash) (difficulty : Nat) : Decidable (Undercounted hash difficulty) := inferInstanceAs (Decidable (_ ∧ _))

instance (hash : Hash) (difficulty : Nat) : Decidable (Overcounted hash difficulty) := inferInstanceAs (Decidable (_ ∧ _))

theorem hash_difficulty_agrees_power :
    let hash := (difficultyToTarget 4096).reverse
    (hashToDifficulty hash ≥ 4096 ↔ meetsTarget hash (difficultyToTarget 4096) = true) ∧
      meetsTarget hash (difficultyToTarget 4096) = true := by
  intro hash
  exact ⟨((hash_difficulty_agrees_iff hash).1 4096 (by decide)).mpr (by decide +kernel), by decide +kernel⟩

/-- A session on difficulty 5000, which had 4096 before. -/
def retargetedVardiff : Vardiff :=
  { Vardiff.new exampleConfig.vardiff 4096 0 with current := 5000 }

/-- 5000 is not a multiple of 256: the highest hash that meets its target is put at 4864 and credited with the old
assignment. -/
theorem target_hash_undercredited :
    let hash := (difficultyToTarget 5000).reverse
    meetsTarget hash (difficultyToTarget 5000) = true ∧ ¬ hashToDifficulty hash ≥ 5000 ∧
      retargetedVardiff.current = 5000 ∧ retargetedVardiff.creditFor (hashToDifficulty hash) = 4096 := by
  decide +kernel

end SoloPool
