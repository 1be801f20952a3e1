import Mathlib.Tactic.Ring
import SoloPool.Lib.Outcome

/-!
# Byte strings as numbers

Little-endian and big-endian readings of byte strings, the fixed-width encodings that invert them, and the fact that
comparing two big-endian strings of one width byte by byte compares their numbers.
-/

namespace SoloPool.Lib

abbrev Bytes := List UInt8

def leNat : Bytes → Nat
  | [] => 0
  | b :: bs => b.toNat + 256 * leNat bs

def beNat (bs : Bytes) : Nat := leNat bs.reverse

def leBytes : Nat → Nat → Bytes
  | 0, _ => []
  | w + 1, n => UInt8.ofNat (n % 256) :: leBytes w (n / 256)

def beBytes (w n : Nat) : Bytes := (leBytes w n).reverse

theorem leNat_lt (bs : Bytes) : leNat bs < 256 ^ bs.length := by
  induction bs with
  | nil => simp [leNat]
  | cons b bs ih =>
    have := b.toNat_lt
    simp only [leNat, List.length_cons, Nat.pow_succ]
    omega

theorem leNat_append (as bs : Bytes) : leNat (as ++ bs) = leNat as + 256 ^ as.length * leNat bs := by
  induction as with
  | nil => simp [leNat]
  | cons a as ih =>
    simp only [List.cons_append, leNat, ih, List.length_cons, Nat.pow_succ]
    ring

@[simp] theorem length_leBytes (w n : Nat) : (leBytes w n).length = w := by
  induction w generalizing n with
  | zero => rfl
  | succ w ih => simp [leBytes, ih]

@[simp] theorem length_beBytes (w n : Nat) : (beBytes w n).length = w := by simp [beBytes]

theorem leNat_leBytes (w n : Nat) : leNat (leBytes w n) = n % 256 ^ w := by
  induction w generalizing n with
  | zero => simp [leBytes, leNat, Nat.mod_one]
  | succ w ih =>
    have byte : (UInt8.ofNat (n % 256)).toNat = n % 256 := by simp
    rw [leBytes, leNat, ih, byte, Nat.pow_succ', Nat.mod_mul]

theorem leNat_leBytes_of_lt {w n : Nat} (small : n < 256 ^ w) : leNat (leBytes w n) = n := by
  rw [leNat_leBytes, Nat.mod_eq_of_lt small]

theorem leBytes_leNat (bs : Bytes) : leBytes bs.length (leNat bs) = bs := by
  induction bs with
  | nil => rfl
  | cons b bs ih =>
    have small := b.toNat_lt
    have low : (b.toNat + 256 * leNat bs) % 256 = b.toNat := by omega
    have high : (b.toNat + 256 * leNat bs) / 256 = leNat bs := by omega
    simp [leBytes, leNat, low, high, ih]

theorem leBytes_one (n : Nat) : leBytes 1 n = [UInt8.ofNat n] := by
  rw [leBytes, leBytes]
  exact congrArg (fun b => [b]) (UInt8.toNat_inj.mp (by simp))

theorem leNat_inj {as bs : Bytes} (width : as.length = bs.length) (same : leNat as = leNat bs) : as = bs := by
  rw [← leBytes_leNat as, ← leBytes_leNat bs, width, same]

theorem beNat_inj {as bs : Bytes} (width : as.length = bs.length) (same : beNat as = beNat bs) : as = bs :=
  List.reverse_injective (leNat_inj (by simpa using width) same)

theorem beNat_lt (bs : Bytes) : beNat bs < 256 ^ bs.length := by
  simpa [beNat] using leNat_lt bs.reverse

theorem beNat_beBytes (w n : Nat) : beNat (beBytes w n) = n % 256 ^ w := by
  simp [beNat, beBytes, leNat_leBytes]

theorem beNat_cons (b : UInt8) (bs : Bytes) : beNat (b :: bs) = b.toNat * 256 ^ bs.length + beNat bs := by
  simp only [beNat, List.reverse_cons, leNat_append, leNat, List.length_reverse]
  ring

theorem beNat_append (as bs : Bytes) : beNat (as ++ bs) = beNat as * 256 ^ bs.length + beNat bs := by
  simp only [beNat, List.reverse_append, leNat_append, List.length_reverse]
  ring

@[simp] theorem beNat_replicate_zero (n : Nat) : beNat (List.replicate n 0) = 0 := by
  induction n with
  | zero => rfl
  | succ n ih => simp [List.replicate_succ, beNat_cons, ih]

theorem beNat_take (bs : Bytes) (k : Nat) :
    beNat (bs.take k) = beNat bs / 256 ^ (bs.length - k) := by
  have whole := beNat_append (bs.take k) (bs.drop k)
  have rest := beNat_lt (bs.drop k)
  rw [List.take_append_drop] at whole
  rw [List.length_drop] at whole rest
  rw [whole, Nat.mul_comm, Nat.mul_add_div (Nat.pow_pos (by decide)), Nat.div_eq_of_lt rest, Nat.add_zero]

theorem beNat_drop (bs : Bytes) (k : Nat) : beNat (bs.drop k) = beNat bs % 256 ^ (bs.length - k) := by
  have whole := beNat_append (bs.take k) (bs.drop k)
  have rest := beNat_lt (bs.drop k)
  rw [List.take_append_drop] at whole
  rw [List.length_drop] at whole rest
  rw [whole, Nat.mul_comm, Nat.mul_add_mod, Nat.mod_eq_of_lt rest]

/-- Two byte strings can be filled up to equal ones of a common width exactly when their common part agrees. -/
theorem fill_iff_beNat {as bs : Bytes} {m n : Nat} (width : as.length + m = bs.length + n) :
    (∃ x y : Bytes, x.length = m ∧ y.length = n ∧ as ++ x = bs ++ y) ↔
      beNat as / 256 ^ (as.length - bs.length) = beNat bs / 256 ^ (bs.length - as.length) := by
  -- The shorter string decides: it is a prefix of the longer one or not.
  have shorter : ∀ {as bs : Bytes} {m n : Nat}, as.length + m = bs.length + n → as.length ≤ bs.length →
      ((∃ x y : Bytes, x.length = m ∧ y.length = n ∧ as ++ x = bs ++ y) ↔ as = bs.take as.length) := by
    intro as bs m n width short
    constructor
    · rintro ⟨x, y, _, _, same⟩
      have front := congrArg (List.take as.length) same
      rwa [List.take_left, List.take_append_of_le_length short] at front
    · intro front
      refine ⟨bs.drop as.length ++ List.replicate n 0, List.replicate n 0, ?_, List.length_replicate, ?_⟩
      · rw [List.length_append, List.length_drop, List.length_replicate]
        omega
      · rw [← List.append_assoc]
        congr 1
        nth_rewrite 1 [front]
        exact List.take_append_drop _ _
  have number : ∀ {as bs : Bytes}, as.length ≤ bs.length →
      (as = bs.take as.length ↔ beNat as = beNat bs / 256 ^ (bs.length - as.length)) := by
    intro as bs short
    rw [← beNat_take]
    constructor
    · intro front
      exact congrArg beNat front
    · intro same
      exact beNat_inj (by rw [List.length_take, Nat.min_eq_left short]) same
  rcases Nat.le_total as.length bs.length with short | short
  · rw [shorter width short, number short, Nat.sub_eq_zero_of_le short, Nat.pow_zero, Nat.div_one]
  · rw [Nat.sub_eq_zero_of_le short, Nat.pow_zero, Nat.div_one, eq_comm, ← number short, ← shorter width.symm short]
    constructor
    · rintro ⟨x, y, xs, ys, same⟩
      exact ⟨y, x, ys, xs, same.symm⟩
    · rintro ⟨y, x, ys, xs, same⟩
      exact ⟨x, y, xs, ys, same.symm⟩

/-- Comparing two byte strings of one width as arrays compares the numbers they encode. -/
theorem lex_lt_iff_beNat_lt {as bs : Bytes} (width : as.length = bs.length) : as < bs ↔ beNat as < beNat bs := by
  induction as generalizing bs with
  | nil =>
    obtain rfl := List.length_eq_zero_iff.mp width.symm
    simp
  | cons a as ih =>
    cases bs with
    | nil => simp at width
    | cons b bs =>
      have rest : as.length = bs.length := by simpa using width
      rw [List.cons_lt_cons_iff, beNat_cons, beNat_cons, ih rest, rest]
      have left := beNat_lt as
      have right := beNat_lt bs
      rw [rest] at left
      rcases Nat.lt_trichotomy a.toNat b.toNat with below | same | above
      · have step : (a.toNat + 1) * 256 ^ bs.length ≤ b.toNat * 256 ^ bs.length :=
          Nat.mul_le_mul_right _ below
        have := UInt8.lt_iff_toNat_lt.mpr below
        simp only [this, true_or, true_iff]
        rw [Nat.add_mul, Nat.one_mul] at step
        omega
      · obtain rfl := UInt8.toNat_inj.mp same
        simp
      · have step : (b.toNat + 1) * 256 ^ bs.length ≤ a.toNat * 256 ^ bs.length :=
          Nat.mul_le_mul_right _ above
        have order : ¬ a < b := by rw [UInt8.lt_iff_toNat_lt]; omega
        have apart : a ≠ b := by rintro rfl; omega
        simp only [order, apart, false_and, or_self, false_iff]
        rw [Nat.add_mul, Nat.one_mul] at step
        omega

theorem lex_le_iff_beNat_le {as bs : Bytes} (width : as.length = bs.length) : as ≤ bs ↔ beNat as ≤ beNat bs := by
  rw [← List.not_lt, lex_lt_iff_beNat_lt width.symm]
  omega

/-! ### Leading zeros -/

/-- The number of leading zero bytes. -/
def zeroBytes (bs : Bytes) : Nat := (bs.takeWhile (· == 0)).length

theorem findIdx?_zeroBytes (bs : Bytes) :
    bs.findIdx? (· != 0) = if zeroBytes bs < bs.length then some (zeroBytes bs) else none := by
  unfold zeroBytes
  induction bs with
  | nil => rfl
  | cons b bs ih =>
    rw [List.findIdx?_cons, ih]
    by_cases zero : b = 0
    · subst zero
      simp
    · simp [zero]

theorem beNat_lt_zeroBytes (bs : Bytes) : beNat bs < 256 ^ (bs.length - zeroBytes bs) := by
  unfold zeroBytes
  induction bs with
  | nil => simp [beNat, leNat]
  | cons b bs ih =>
    by_cases zero : b = 0
    · subst zero
      simpa [beNat_cons] using ih
    · simpa [zero] using beNat_lt (b :: bs)

theorem le_beNat_zeroBytes {bs : Bytes} (more : zeroBytes bs < bs.length) :
    256 ^ (bs.length - 1 - zeroBytes bs) ≤ beNat bs := by
  unfold zeroBytes at more ⊢
  induction bs with
  | nil => simp at more
  | cons b bs ih =>
    by_cases zero : b = 0
    · subst zero
      have fewer : (bs.takeWhile (· == 0)).length < bs.length := by simpa using more
      have shift : (0 :: bs).length - 1 - ((0 :: bs).takeWhile (· == 0)).length = bs.length - 1 - (bs.takeWhile (· == 0)).length := by
        simp
        omega
      rw [shift]
      simpa [beNat_cons] using ih fewer
    · have positive : 1 ≤ b.toNat := by
        rw [Nat.one_le_iff_ne_zero]
        exact fun none => zero (UInt8.toNat_inj.mp none)
      simp [zero, beNat_cons]
      exact (Nat.le_mul_of_pos_left _ positive).trans (Nat.le_add_right _ _)

theorem beNat_drop_zeroBytes (bs : Bytes) : beNat (bs.drop (zeroBytes bs)) = beNat bs := by
  rw [beNat_drop, Nat.mod_eq_of_lt (beNat_lt_zeroBytes bs)]

/-! ### Arrays of a fixed length -/

@[ext] structure Octets (n : Nat) where
  toList : Bytes
  length_toList : toList.length = n
  deriving DecidableEq

namespace Octets

attribute [simp] length_toList

def reverse {n : Nat} (a : Octets n) : Octets n := ⟨a.toList.reverse, by simp⟩

@[simp] theorem toList_reverse {n : Nat} (a : Octets n) : a.reverse.toList = a.toList.reverse := rfl

def zero (n : Nat) : Octets n := ⟨List.replicate n 0, List.length_replicate⟩

/-- A copy into an array of `n` bytes panics unless the source has exactly `n`. -/
def copyFrom {ε : Type} (n : Nat) (bs : Bytes) : Outcome ε (Octets n) :=
  if h : bs.length = n then .ok ⟨bs, h⟩ else .panic

theorem copyFrom_ok {ε : Type} {n : Nat} {bs : Bytes} {a : Octets n} :
    (copyFrom n bs : Outcome ε (Octets n)) = .ok a ↔ a.toList = bs := by
  unfold copyFrom
  split <;> rename_i size
  · rw [Outcome.ok.injEq, Octets.ext_iff, eq_comm]
  · simp only [reduceCtorEq, false_iff]
    rintro rfl
    exact size a.length_toList

end Octets

/-! ### Swapping words -/

/-- Reverse every group of four bytes; a short last group is reversed too. -/
def swapWords : Bytes → Bytes
  | a :: b :: c :: d :: rest => d :: c :: b :: a :: swapWords rest
  | short => short.reverse

@[simp] theorem length_swapWords (bs : Bytes) : (swapWords bs).length = bs.length := by
  fun_induction swapWords bs with
  | case1 a b c d rest ih => simp [ih]
  | case2 short => simp

theorem swapWords_swapWords (bs : Bytes) : swapWords (swapWords bs) = bs := by
  fun_induction swapWords bs with
  | case1 a b c d rest ih => simp [swapWords, ih]
  | case2 short small =>
    match short with
    | [] => rfl
    | [_] => rfl
    | [_, _] => rfl
    | [_, _, _] => rfl
    | a :: b :: c :: d :: rest => exact absurd rfl (small a b c d rest)

end SoloPool.Lib
