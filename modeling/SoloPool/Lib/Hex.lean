import Mathlib.Tactic.IntervalCases
import SoloPool.Lib.Bytes

/-!
# Hexadecimal text

The codec of the `hex` crate (`encode`, `decode`), `u32::from_str_radix(_, 16)` and the zero-padded formats `08x` and
`016x`, each with the round trip that later proofs use.
-/

namespace SoloPool.Lib

def strBytes (s : String) : Bytes := s.toList.flatMap String.utf8EncodeChar

/-- Why `decode` refuses a text: the offending byte with its position, or an odd number of digits. -/
inductive FromHexError where
  | invalidHexCharacter (c : UInt8) (index : Nat)
  | oddLength
  deriving DecidableEq, Repr

def hexVal (c : UInt8) : Option Nat :=
  if 0x41 ≤ c ∧ c ≤ 0x46 then some (c.toNat - 0x41 + 10)
  else if 0x61 ≤ c ∧ c ≤ 0x66 then some (c.toNat - 0x61 + 10)
  else if 0x30 ≤ c ∧ c ≤ 0x39 then some (c.toNat - 0x30)
  else none

/-- The pairs of digits from position `index` on. An odd last digit cannot occur: `decode` has checked the length. -/
def decodePairs (index : Nat) : Bytes → Except FromHexError Bytes
  | high :: low :: rest =>
    match hexVal high, hexVal low with
    | none, _ => .error (.invalidHexCharacter high index)
    | some _, none => .error (.invalidHexCharacter low (index + 1))
    | some h, some l => (decodePairs (index + 2) rest).map (UInt8.ofNat (16 * h + l) :: ·)
  | _ => .ok []

def hexDecode (s : String) : Except FromHexError Bytes :=
  if (strBytes s).length % 2 ≠ 0 then .error .oddLength else decodePairs 0 (strBytes s)

def hexPair (b : UInt8) : List Char := [Nat.digitChar (b.toNat / 16), Nat.digitChar (b.toNat % 16)]

def hexEncode (bs : Bytes) : String := String.ofList (bs.flatMap hexPair)

/-- A hexadecimal number read digit by digit onto `acc`; `none` on a foreign byte or once `bound` is reached. -/
def hexNumber (bound acc : Nat) : Bytes → Option Nat
  | [] => some acc
  | c :: rest =>
    match hexVal c with
    | none => none
    | some d => if 16 * acc + d < bound then hexNumber bound (16 * acc + d) rest else none

/-- The value `from_str_radix(s, 16)` of an unsigned type below `bound`: one leading `+` is allowed, but not alone. -/
def parseHex (bound : Nat) (s : String) : Option Nat :=
  match strBytes s with
  | [] => none
  | [0x2b] => none
  | 0x2b :: digits => hexNumber bound 0 digits
  | digits => hexNumber bound 0 digits

def u32FromStrRadix16 (s : String) : Option UInt32 := (parseHex (2 ^ 32) s).map UInt32.ofNat

def hexDigits : Nat → Nat → List Char
  | 0, _ => []
  | w + 1, n => hexDigits w (n / 16) ++ [Nat.digitChar (n % 16)]

def hex08 (n : UInt32) : String := String.ofList (hexDigits 8 n.toNat)

def hex016 (n : UInt64) : String := String.ofList (hexDigits 16 n.toNat)

/-! ### Digits -/

def digitByte (n : Nat) : UInt8 := UInt8.ofNat (Nat.digitChar n).toNat

theorem utf8_digitChar {n : Nat} (small : n < 16) : String.utf8EncodeChar (Nat.digitChar n) = [digitByte n] := by
  interval_cases n <;> rfl

theorem hexVal_digitByte {n : Nat} (small : n < 16) : hexVal (digitByte n) = some n := by
  interval_cases n <;> rfl

theorem digitByte_ne_plus {n : Nat} (small : n < 16) : digitByte n ≠ 0x2b := by
  interval_cases n <;> decide

theorem digitChar_inj {m n : Nat} (hm : m < 16) (hn : n < 16) (same : Nat.digitChar m = Nat.digitChar n) : m = n := by
  have left := hexVal_digitByte hm
  rw [digitByte, same] at left
  exact Option.some.inj (left.symm.trans (hexVal_digitByte hn))

@[simp] theorem strBytes_ofList (cs : List Char) : strBytes (String.ofList cs) = cs.flatMap String.utf8EncodeChar := by
  simp [strBytes]

/-! ### `encode` and `decode` -/

theorem byte_halves (b : UInt8) : b.toNat / 16 < 16 ∧ b.toNat % 16 < 16 ∧
    UInt8.ofNat (16 * (b.toNat / 16) + b.toNat % 16) = b := by
  have small := b.toNat_lt
  refine ⟨by omega, by omega, ?_⟩
  rw [Nat.div_add_mod, UInt8.ofNat_toNat]

theorem strBytes_hexEncode (bs : Bytes) :
    strBytes (hexEncode bs) = bs.flatMap (fun b => [digitByte (b.toNat / 16), digitByte (b.toNat % 16)]) := by
  rw [hexEncode, strBytes_ofList]
  induction bs with
  | nil => rfl
  | cons b bs ih =>
    obtain ⟨high, low, _⟩ := byte_halves b
    simp [hexPair, utf8_digitChar high, utf8_digitChar low, ih]

theorem decodePairs_digits (bs : Bytes) (index : Nat) :
    decodePairs index (bs.flatMap (fun b => [digitByte (b.toNat / 16), digitByte (b.toNat % 16)])) = .ok bs := by
  induction bs generalizing index with
  | nil => rfl
  | cons b bs ih =>
    obtain ⟨high, low, byte⟩ := byte_halves b
    simp [decodePairs, hexVal_digitByte high, hexVal_digitByte low, ih, Except.map, byte]

@[simp] theorem hexDecode_hexEncode (bs : Bytes) : hexDecode (hexEncode bs) = .ok bs := by
  have even : (strBytes (hexEncode bs)).length % 2 = 0 := by
    rw [strBytes_hexEncode]
    simp
  rw [hexDecode, if_neg (by omega), strBytes_hexEncode, decodePairs_digits]

theorem length_hexEncode (bs : Bytes) : (hexEncode bs).toList.length = 2 * bs.length := by
  unfold hexEncode
  rw [String.toList_ofList]
  induction bs with
  | nil => rfl
  | cons b bs ih =>
    rw [List.flatMap_cons, List.length_append, ih, List.length_cons]
    simp only [hexPair, List.length_cons, List.length_nil]
    omega

/-! ### Fixed-width numbers -/

@[simp] theorem length_hexDigits (w n : Nat) : (hexDigits w n).length = w := by
  induction w generalizing n with
  | zero => rfl
  | succ w ih => simp [hexDigits, ih]

theorem hexDigits_inj {w m n : Nat} (hm : m < 16 ^ w) (hn : n < 16 ^ w)
    (same : hexDigits w m = hexDigits w n) : m = n := by
  induction w generalizing m n with
  | zero => simp at hm hn; omega
  | succ w ih =>
    rw [Nat.pow_succ] at hm hn
    obtain ⟨upper, lower⟩ := List.append_inj same (by simp)
    have high : m / 16 = n / 16 := ih (by omega) (by omega) upper
    have low : m % 16 = n % 16 := digitChar_inj (by omega) (by omega) (by simpa using lower)
    omega

theorem hex016_inj {m n : UInt64} (same : hex016 m = hex016 n) : m = n := by
  have digits := congrArg String.toList same
  simp only [hex016, String.toList_ofList] at digits
  exact UInt64.toNat_inj.mp (hexDigits_inj (w := 16) m.toNat_lt n.toNat_lt digits)

theorem hexNumber_append (bound acc : Nat) (as bs : Bytes) :
    hexNumber bound acc (as ++ bs) = (hexNumber bound acc as).bind (fun n => hexNumber bound n bs) := by
  induction as generalizing acc with
  | nil => rfl
  | cons c as ih =>
    simp only [List.cons_append, hexNumber]
    split
    · rfl
    · split
      · exact ih _
      · rfl

theorem hexDigits_bytes (w n : Nat) :
    (hexDigits (w + 1) n).flatMap String.utf8EncodeChar =
      (hexDigits w (n / 16)).flatMap String.utf8EncodeChar ++ [digitByte (n % 16)] := by
  have small : n % 16 < 16 := Nat.mod_lt _ (by decide)
  simp [hexDigits, utf8_digitChar small]

theorem hexNumber_hexDigits {bound w n : Nat} (width : n < 16 ^ w) (small : n < bound) :
    hexNumber bound 0 ((hexDigits w n).flatMap String.utf8EncodeChar) = some n := by
  induction w generalizing n with
  | zero => simp at width; subst n; rfl
  | succ w ih =>
    rw [Nat.pow_succ] at width
    rw [hexDigits_bytes, hexNumber_append, ih (by omega) (by omega), Option.bind_some, hexNumber,
      hexVal_digitByte (by omega)]
    simp only [Nat.div_add_mod, small, if_true, hexNumber]

theorem hexDigits_cons (w n : Nat) :
    ∃ d rest, d < 16 ∧ (hexDigits (w + 1) n).flatMap String.utf8EncodeChar = digitByte d :: rest := by
  induction w generalizing n with
  | zero => exact ⟨n % 16, [], by omega, by rw [hexDigits_bytes]; rfl⟩
  | succ w ih =>
    obtain ⟨d, rest, small, split⟩ := ih (n / 16)
    exact ⟨d, rest ++ [digitByte (n % 16)], small, by rw [hexDigits_bytes, split]; rfl⟩

theorem parseHex_hexDigits {bound w n : Nat} (width : n < 16 ^ (w + 1)) (small : n < bound) :
    parseHex bound (String.ofList (hexDigits (w + 1) n)) = some n := by
  have value := hexNumber_hexDigits width small
  obtain ⟨d, rest, digit, bytes⟩ := hexDigits_cons w n
  rw [parseHex, strBytes_ofList]
  rw [bytes] at value ⊢
  have unsigned := digitByte_ne_plus digit
  split
  · simp_all
  · simp_all
  · simp_all
  · exact value

@[simp] theorem u32FromStrRadix16_hex08 (n : UInt32) : u32FromStrRadix16 (hex08 n) = some n := by
  have bound := n.toNat_lt
  rw [u32FromStrRadix16, hex08, parseHex_hexDigits (by omega) (by omega)]
  simp

end SoloPool.Lib
