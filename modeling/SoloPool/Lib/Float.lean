import Mathlib.Algebra.Group.Nat.Defs

/-!
# Whole numbers as doubles

Rounding of a natural number to the doubles: 53 significant bits, to the nearest, of two to the one with an even
significand. The exponent is not bounded.
-/

namespace SoloPool.Lib

/-- The distance between two neighbouring doubles around `n`, if that is not a fraction. -/
def f64Unit (n : Nat) : Nat := 2 ^ (n.log2 + 1 - 53)

def nearestF64 (n : Nat) : Nat :=
  let unit := f64Unit n
  let below := n / unit
  if 2 * (n % unit) < unit ∨ 2 * (n % unit) = unit ∧ below % 2 = 0 then below * unit else (below + 1) * unit

theorem f64Unit_pos (n : Nat) : 0 < f64Unit n := Nat.two_pow_pos _

theorem nearestF64_of_dvd {n : Nat} (whole : f64Unit n ∣ n) : nearestF64 n = n := by
  have none : 2 * (n % f64Unit n) < f64Unit n := by
    rw [Nat.mod_eq_zero_of_dvd whole]
    exact f64Unit_pos n
  unfold nearestF64
  dsimp only
  rw [if_pos (.inl none)]
  exact Nat.div_mul_cancel whole

/-- Up to 2⁵³ every whole number is a double. -/
theorem nearestF64_of_le {n : Nat} (small : n ≤ 2 ^ 53) : nearestF64 n = n := by
  apply nearestF64_of_dvd
  rcases Nat.lt_or_eq_of_le small with below | rfl
  · have bits : n.log2 + 1 - 53 = 0 := by
      rcases Nat.eq_zero_or_pos n with rfl | positive
      · decide
      · have := (Nat.log2_lt (Nat.ne_of_gt positive)).mpr below
        omega
    unfold f64Unit
    rw [bits]
    exact Nat.one_dvd n
  · exact ⟨2 ^ 52, by decide⟩

theorem f64Unit_dvd_nearestF64 (n : Nat) : f64Unit n ∣ nearestF64 n := by
  unfold nearestF64
  dsimp only
  split
  · exact Nat.dvd_mul_left _ _
  · exact Nat.dvd_mul_left _ _

/-- Rounding takes no number below a double that it was not below. -/
theorem le_nearestF64 {n m : Nat} (double : nearestF64 n = n) (le : n ≤ m) : n ≤ nearestF64 m := by
  have below : ∀ k, f64Unit m ∣ k → k ≤ m → k ≤ nearestF64 m := by
    rintro _ ⟨k, rfl⟩ within
    have quotient : k ≤ m / f64Unit m := (Nat.le_div_iff_mul_le (f64Unit_pos m)).mpr (by rwa [Nat.mul_comm])
    unfold nearestF64
    dsimp only
    rw [Nat.mul_comm]
    split
    · exact Nat.mul_le_mul_right _ quotient
    · exact Nat.mul_le_mul_right _ (Nat.le_succ_of_le quotient)
  rcases Nat.eq_zero_or_pos n with rfl | positive
  · exact Nat.zero_le _
  · have some : m ≠ 0 := by omega
    rcases Nat.lt_or_ge n (2 ^ m.log2) with small | large
    · refine Nat.le_trans (Nat.le_of_lt small) (below _ ?_ (Nat.log2_self_le some))
      exact Nat.pow_dvd_pow 2 (by omega)
    · have same : n.log2 = m.log2 := by
        have least := (Nat.le_log2 (Nat.ne_of_gt positive)).mpr large
        have most : n.log2 < m.log2 + 1 :=
          (Nat.log2_lt (Nat.ne_of_gt positive)).mpr (Nat.lt_of_le_of_lt le Nat.lt_log2_self)
        omega
      refine below n ?_ le
      have multiple := f64Unit_dvd_nearestF64 n
      rw [double] at multiple
      unfold f64Unit at multiple ⊢
      rwa [same] at multiple
end SoloPool.Lib
