import Mathlib.Data.List.Induction
import Mathlib.Data.Nat.Size
import SoloPool.Lib.Reader

/-!
# Script numbers

Numbers as Bitcoin scripts have them: a little-endian magnitude with the sign in the top bit of the last byte. `scriptNum` is
the shortest of them, `scriptPush` is `CScript() << n`, and `readScriptPush` takes the number off the front of a script.
-/

namespace SoloPool.Lib

/-- The place of the sign in a script number of `width` bytes. -/
def signPlace (width : Nat) : Nat := 2 ^ (8 * width - 1)

/-- The value of `CScriptNum`; the empty string is zero. -/
def scriptNumValue (bytes : Bytes) : Int :=
  if leNat bytes < signPlace bytes.length then leNat bytes else -(leNat bytes - signPlace bytes.length : Int)

def scriptNumWidth (n : Int) : Nat := if n = 0 then 0 else Nat.size n.natAbs / 8 + 1

def scriptNum (n : Int) : Bytes :=
  leBytes (scriptNumWidth n) (n.natAbs + if n < 0 then signPlace (scriptNumWidth n) else 0)

/-- `CScript() << n`: an opcode of its own for the small numbers, a push of the script number for the others. -/
def scriptPush (n : Int) : Bytes :=
  if n = 0 then [0x00]
  else if n = -1 ∨ 1 ≤ n ∧ n ≤ 16 then [UInt8.ofNat (0x50 + n).toNat]
  else UInt8.ofNat (scriptNum n).length :: scriptNum n

/-- Bytes up to 75 push that many bytes; 0x4f and 0x51 to 0x60 are the small numbers. -/
def readScriptPush : Reader Int := do
  let first ← readLe 1
  if first ≤ 75 then do
    let body ← readBytes first
    return scriptNumValue body
  else if first = 0x4f ∨ 0x51 ≤ first ∧ first ≤ 0x60 then return (first : Int) - 0x50
  else failure

/-! ### The shortest script number -/

theorem two_signPlace {width : Nat} (some : 0 < width) : 2 * signPlace width = 256 ^ width := by
  unfold signPlace
  rw [← Nat.pow_succ', show (256 : Nat) = 2 ^ 8 by rfl, ← Nat.pow_mul]
  congr 1
  omega

theorem natAbs_lt_signPlace {n : Int} (nonzero : n ≠ 0) : n.natAbs < signPlace (scriptNumWidth n) := by
  unfold signPlace scriptNumWidth
  rw [if_neg nonzero, ← Nat.size_le]
  omega

@[simp] theorem length_scriptNum (n : Int) : (scriptNum n).length = scriptNumWidth n := length_leBytes _ _

theorem leNat_scriptNum {n : Int} (nonzero : n ≠ 0) :
    leNat (scriptNum n) = n.natAbs + if n < 0 then signPlace (scriptNumWidth n) else 0 := by
  have small := natAbs_lt_signPlace nonzero
  have width : 0 < scriptNumWidth n := by
    unfold scriptNumWidth
    rw [if_neg nonzero]
    omega
  have whole := two_signPlace width
  apply leNat_leBytes_of_lt
  split <;> omega

theorem scriptNumValue_scriptNum (n : Int) : scriptNumValue (scriptNum n) = n := by
  by_cases zero : n = 0
  · subst zero
    rfl
  · have small := natAbs_lt_signPlace zero
    unfold scriptNumValue
    rw [leNat_scriptNum zero, length_scriptNum]
    by_cases negative : n < 0
    · rw [if_pos negative, if_neg (by omega)]
      omega
    · rw [if_neg negative, if_pos (by omega)]
      omega

/-- What a byte string holds when it is the script number of `n`. -/
theorem leNat_of_scriptNumValue {bytes : Bytes} {n : Int} (nonzero : n ≠ 0) (value : scriptNumValue bytes = n) :
    n.natAbs < signPlace bytes.length ∧ leNat bytes = n.natAbs + if n < 0 then signPlace bytes.length else 0 := by
  have bound := leNat_lt bytes
  have some : 0 < bytes.length := by
    cases bytes with
    | nil => exact absurd value.symm nonzero
    | cons b bytes => exact Nat.succ_pos _
  have whole := two_signPlace some
  unfold scriptNumValue at value
  split at value
  · rw [if_neg (by omega)]
    omega
  · rw [if_pos (by omega)]
    omega

/-- Every script number of `n` is longer than this one, or is this one. -/
theorem scriptNum_shortest {bytes : Bytes} {n : Int} (value : scriptNumValue bytes = n) (other : bytes ≠ scriptNum n) :
    (scriptNum n).length < bytes.length := by
  rw [length_scriptNum]
  by_cases zero : n = 0
  · subst zero
    exact List.length_pos_iff.mpr other
  · obtain ⟨small, held⟩ := leNat_of_scriptNumValue zero value
    have width : scriptNumWidth n ≤ bytes.length := by
      have size : Nat.size n.natAbs ≤ 8 * bytes.length - 1 := Nat.size_le.mpr small
      have positive : 0 < Nat.size n.natAbs := Nat.size_pos.mpr (Int.natAbs_pos.mpr zero)
      unfold scriptNumWidth
      rw [if_neg zero]
      omega
    refine lt_of_le_of_ne width fun same => other ?_
    refine leNat_inj (by rw [length_scriptNum, same]) ?_
    rw [held, leNat_scriptNum zero, same]

theorem signPlace_succ (k : Nat) : signPlace (k + 1) = 256 ^ k * 128 := by
  unfold signPlace
  rw [show 8 * (k + 1) - 1 = 8 * k + 7 by omega, Nat.pow_add, Nat.pow_mul]

theorem signPlace_le_pow (k : Nat) : signPlace k ≤ 256 ^ k := by
  cases k with
  | zero => exact le_rfl
  | succ k =>
    rw [signPlace_succ, Nat.pow_succ]
    omega

theorem signPlace_mono {k width : Nat} (le : k ≤ width) : signPlace k ≤ signPlace width :=
  Nat.pow_le_pow_right (by decide) (by omega)

/-- The last byte of the shortest one is not zero, unless it keeps the sign bit of the byte before. -/
theorem signPlace_le_leNat {init : Bytes} {last : UInt8} (minimal : last ≠ 0 ∨ init.getLast?.getD 0 ≥ 0x80) :
    signPlace init.length ≤ leNat (init ++ [last]) := by
  rw [leNat_append, leNat, leNat, Nat.mul_zero, Nat.add_zero]
  rcases minimal with nonzero | high
  · have some : 1 ≤ last.toNat := by
      refine Nat.one_le_iff_ne_zero.mpr fun zero => nonzero ?_
      exact UInt8.toNat_inj.mp zero
    calc signPlace init.length ≤ 256 ^ init.length * 1 := by
          rw [Nat.mul_one]
          exact signPlace_le_pow _
      _ ≤ 256 ^ init.length * last.toNat := Nat.mul_le_mul_left _ some
      _ ≤ leNat init + 256 ^ init.length * last.toNat := Nat.le_add_left _ _
  · cases init using List.reverseRecOn with
    | nil => exact absurd high (by decide)
    | append_singleton init before =>
      rw [List.getLast?_concat, Option.getD_some, ge_iff_le, UInt8.le_iff_toNat_le] at high
      rw [List.length_append, List.length_singleton, signPlace_succ, leNat_append, leNat, leNat, Nat.mul_zero, Nat.add_zero]
      have top : 256 ^ init.length * 128 ≤ 256 ^ init.length * before.toNat := Nat.mul_le_mul_left _ high
      omega

/-- The script number of a natural number, from what its bytes are. -/
theorem eq_scriptNum {init : Bytes} {last : UInt8} {n : Nat} (held : leNat (init ++ [last]) = n) (positive : last < 0x80)
    (minimal : last ≠ 0 ∨ init.getLast?.getD 0 ≥ 0x80) : init ++ [last] = scriptNum n := by
  have least := signPlace_le_leNat minimal
  have below : leNat (init ++ [last]) < signPlace (init ++ [last]).length := by
    have inner := leNat_lt init
    have top : last.toNat ≤ 127 := Nat.le_of_lt_succ (UInt8.lt_iff_toNat_lt.mp positive)
    have scaled : 256 ^ init.length * last.toNat ≤ 256 ^ init.length * 127 := Nat.mul_le_mul_left _ top
    rw [leNat_append, leNat, leNat, Nat.mul_zero, Nat.add_zero, List.length_append, List.length_singleton, signPlace_succ]
    omega
  have value : scriptNumValue (init ++ [last]) = n := by
    rw [scriptNumValue, if_pos below, held]
  by_contra other
  have shorter := scriptNum_shortest value other
  rw [length_scriptNum, List.length_append, List.length_singleton] at shorter
  have place := signPlace_mono (Nat.le_of_lt_succ shorter)
  have nonzero : (n : Int) ≠ 0 := by
    have some : 0 < signPlace init.length := Nat.pow_pos (by decide)
    omega
  have small := natAbs_lt_signPlace nonzero
  omega

/-! ### Pushes -/

theorem reads_scriptPush {n : Int} (short : (scriptNum n).length ≤ 75) : Reads readScriptPush (scriptPush n) n := by
  unfold scriptPush
  split
  · rename_i zero
    subst zero
    exact fun rest => rfl
  · split
    · rename_i nonzero opcode
      have reads := Reads.byte (show (0x50 + n).toNat < 256 by omega)
      rw [← List.append_nil [_]]
      refine reads.bind ?_
      rw [if_neg (by omega), if_pos (by omega)]
      rw [show ((0x50 + n).toNat : Int) - 0x50 = n by omega]
      exact Reads.pure n
    · rw [← List.singleton_append]
      refine (Reads.byte (by omega)).bind ?_
      rw [if_pos short]
      have body := (Reads.bytes_of (scriptNum n)).map scriptNumValue
      rwa [scriptNumValue_scriptNum] at body

end SoloPool.Lib
