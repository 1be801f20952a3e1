import Mathlib.Algebra.Order.Field.Rat
import SoloPool.Mining.Vardiff

/-!
# Accepted configurations

What `Config::validate` has checked once it returns: bounds on the extranonce, a scriptSig within the consensus limit,
and a difficulty section on which no clamp of a retarget panics.
-/

namespace SoloPool
open Lib

/-- Both clamps of a retarget find their range in order. -/
structure Vardiff.Clamps (cfg : VardiffConfig) : Prop where
  ordered : cfg.minDifficulty ≤ cfg.maxDifficulty
  factor : stepClamps cfg.maxRetargetFactor = true

theorem validateVardiff_clamps {v : VardiffConfig} (valid : validateVardiff v = .ok ()) : Vardiff.Clamps v := by
  unfold validateVardiff at valid
  dsimp only at valid
  by_cases zero : v.minDifficulty = 0
  · rw [if_pos zero] at valid
    cases valid
  · rw [if_neg zero] at valid
    by_cases inverted : v.minDifficulty > v.maxDifficulty
    · rw [if_pos inverted] at valid
      cases valid
    · rw [if_neg inverted] at valid
      refine ⟨UInt64.not_lt.mp inverted, ?_⟩
      cases factor : v.maxRetargetFactor with
      | infinite | nan =>
        rw [factor] at valid
        cases valid
      | finite value =>
        rw [factor] at valid
        dsimp only at valid
        by_cases small : value < 1
        · rw [if_pos small] at valid
          cases valid
        · have large : 1 ≤ value := not_lt.mp small
          have positive : 0 < value := lt_of_lt_of_le one_pos large
          refine decide_eq_true ⟨positive.ne', ?_⟩
          rw [div_le_iff₀ positive]
          exact large.trans (le_mul_of_one_le_right positive.le large)

theorem validateVardiff_ticks {v : VardiffConfig} (valid : validateVardiff v = .ok ()) : v.retargetIntervalSecs ≠ 0 := by
  intro zero
  unfold validateVardiff at valid
  rw [if_pos zero] at valid
  dsimp only at valid
  repeat' split at valid
  all_goals cases valid

structure Config.Accepted (cfg : Config) : Prop where
  extranonce_le : cfg.pool.extranonce1Size + cfg.pool.extranonce2Size ≤ 32
  extranonce1_pos : 0 < cfg.pool.extranonce1Size
  scriptSig_le : scriptSigLength cfg.pool ≤ 100
  vardiff : validateVardiff cfg.vardiff = .ok ()

theorem Config.validate_accepted {cfg : Config} (valid : cfg.validate = .ok ()) : cfg.Accepted := by
  unfold Config.validate at valid
  dsimp only at valid
  split at valid
  · cases valid
  · generalize (forIn cfg.allowedHosts _ _ : Except ConfigError _) = hosts at valid
    cases hosts with
    | error e => cases valid
    | ok u =>
      change (if _ then _ else _) = _ at valid
      split at valid
      · cases valid
      · split at valid
        · cases valid
        · rename_i small
          split at valid
          · cases valid
          · rename_i positive
            split at valid
            · cases valid
            · rename_i short
              split at valid
              · cases valid
              · exact ⟨Nat.not_lt.mp small, Nat.pos_of_ne_zero positive, Nat.not_lt.mp short, valid⟩

end SoloPool
