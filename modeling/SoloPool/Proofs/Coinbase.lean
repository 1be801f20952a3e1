import SoloPool.Bitcoin.Crates
import SoloPool.Lib.ScriptNum
import SoloPool.Proofs.Config
import SoloPool.Proofs.Validator

/-!
# The coinbase

`build_coinbase` looks for its placeholder in the serialized transaction. With a height below 2^31 and a tag in UTF-8 the
first match is the placeholder itself, and a coinbase with any extranonce in its place reads back as a transaction.
-/

namespace SoloPool
open Lib

/-! ### The search for the placeholder -/

/-- A needle that starts nowhere in `xs` is looked for in what follows. -/
theorem findBytes_skip {needle xs rest : Bytes}
    (nowhere : ∀ before b after, xs = before ++ b :: after → ¬ needle <+: b :: after ++ rest) :
    findBytes needle (xs ++ rest) = (findBytes needle rest).map (· + xs.length) := by
  induction xs with
  | nil => simp
  | cons b xs ih =>
    have here : ¬ needle.isPrefixOf (b :: (xs ++ rest)) := by
      rw [List.isPrefixOf_iff_prefix]
      exact nowhere [] b xs rfl
    have later := ih fun before b' after split => nowhere (b :: before) b' after (by rw [split]; rfl)
    simp only [List.cons_append, findBytes, if_neg here, later, Option.map_map, List.length_cons]
    congr 1

theorem findBytes_here (needle : Bytes) {rest : Bytes} (some : needle ≠ []) : findBytes needle (needle ++ rest) = .some 0 := by
  obtain ⟨b, needle, rfl⟩ := List.exists_cons_of_ne_nil some
  have here : (b :: needle).isPrefixOf (b :: (needle ++ rest)) := by
    rw [List.isPrefixOf_iff_prefix]
    exact List.prefix_append (b :: needle) rest
  simp only [List.cons_append, findBytes, if_pos here]

theorem sentinel_prefix {b : UInt8} {rest : Bytes} :
    sentinel <+: b :: rest ↔ b = 0xDE ∧ ∃ more, rest = 0xAD :: 0xBE :: 0xEF :: more := by
  constructor
  · rintro ⟨more, split⟩
    obtain ⟨rfl, rfl⟩ := List.cons.inj split
    exact ⟨rfl, more, rfl⟩
  · rintro ⟨rfl, more, rfl⟩
    exact ⟨more, rfl⟩

theorem noSentinel_of_notMem {xs rest : Bytes} (absent : 0xDE ∉ xs) (before : Bytes) (b : UInt8) (after : Bytes)
    (split : xs = before ++ b :: after) : ¬ sentinel <+: b :: after ++ rest := by
  intro starts
  obtain ⟨rfl, -⟩ := sentinel_prefix.mp starts
  exact absent (by rw [split]; exact List.mem_append_right _ List.mem_cons_self)

/-- Four bytes from inside a push of at most four reach its last byte, which has no sign bit as each of the placeholder's has. -/
theorem noSentinel_of_short {init rest : Bytes} {last : UInt8} (short : init.length ≤ 3) (positive : last < 0x80)
    (before : Bytes) (b : UInt8) (after : Bytes) (split : init ++ [last] = before ++ b :: after) :
    ¬ sentinel <+: b :: after ++ rest := by
  intro starts
  obtain ⟨more, begins⟩ := starts
  have length : init.length = before.length + after.length := by
    have := congrArg List.length split
    simp only [List.length_append, List.length_cons, List.length_nil] at this
    omega
  have isLast : (b :: after ++ rest)[after.length]? = some last := by
    have shifted : (init ++ [last])[init.length]? = (before ++ b :: after)[init.length]? := by rw [split]
    rw [List.getElem?_concat_length, length, List.getElem?_append_right (by omega), Nat.add_sub_cancel_left] at shifted
    rw [List.getElem?_append_left (by simp), ← shifted]
  have within : after.length < 4 := by omega
  rw [← begins, List.getElem?_append_left within] at isLast
  have member : last ∈ sentinel := List.mem_of_getElem? isLast
  revert positive
  simp only [sentinel, List.mem_cons, List.not_mem_nil, or_false] at member
  rcases member with rfl | rfl | rfl | rfl <;> decide

theorem lead_of_three (b : UInt8) : b &&& 0x0f ||| 0xe0 ≠ 0xDE := by
  have each : ∀ v : BitVec 8, UInt8.ofBitVec v &&& 0x0f ||| 0xe0 ≠ 0xDE := by decide +kernel
  exact each b.toBitVec

/-- The placeholder does not start in a character: what follows its first byte in UTF-8 has the wrong length. -/
theorem noSentinel_of_char (c : Char) {rest : Bytes} (follows : ∀ b ∈ rest.head?, b.IsUTF8FirstByte)
    (before : Bytes) (b : UInt8) (after : Bytes) (split : String.utf8EncodeChar c = before ++ b :: after) :
    ¬ sentinel <+: b :: after ++ rest := by
  intro starts
  have isFirst : ∀ {i : Nat} {x : UInt8}, (String.utf8EncodeChar c)[i]? = some x → x.IsUTF8FirstByte → i = 0 := by
    intro i x found first
    obtain ⟨bound, rfl⟩ := List.getElem?_eq_some_iff.mp found
    exact UInt8.isUTF8FirstByte_getElem_utf8EncodeChar.mp first
  have bounds := And.intro c.utf8Size_pos c.utf8Size_le_four
  rw [← String.length_utf8EncodeChar] at bounds
  -- The first byte of the placeholder starts a character, so it is the first of this one.
  have opens : before = [] := by
    have found : (String.utf8EncodeChar c)[before.length]? = some b := by simp [split]
    obtain ⟨rfl, -⟩ := sentinel_prefix.mp starts
    exact List.eq_nil_of_length_eq_zero (isFirst found (by decide))
  subst opens
  obtain ⟨rfl, more, follow⟩ := sentinel_prefix.mp starts
  rw [List.nil_append] at split
  rw [split] at bounds isFirst
  match after, bounds with
  | [], _ =>
    have rest_eq : rest = 0xAD :: 0xBE :: 0xEF :: more := follow
    have second := follows 0xAD (by rw [rest_eq]; rfl)
    revert second
    decide
  | [_], _ =>
    have rest_eq : rest = 0xBE :: 0xEF :: more := (List.cons.inj follow).2
    have third := follows 0xBE (by rw [rest_eq]; rfl)
    revert third
    decide
  | [_, _], _ =>
    have three := String.utf8EncodeChar_eq_cons_cons_cons (c := c) (by rw [← String.length_utf8EncodeChar, split]; rfl)
    rw [split] at three
    exact lead_of_three _ (List.cons.inj three).1.symm
  | [_, _, x], _ =>
    obtain ⟨-, tail⟩ := List.cons.inj follow
    obtain ⟨-, tail⟩ := List.cons.inj tail
    obtain ⟨rfl, -⟩ := List.cons.inj tail
    have last := isFirst (i := 3) rfl (by decide)
    omega
  | _ :: _ :: _ :: _ :: _, ⟨_, long⟩ =>
    simp only [List.length_cons] at long
    omega

theorem findBytes_tag (tag : List Char) (rest : Bytes) :
    findBytes sentinel (tag.flatMap String.utf8EncodeChar ++ (sentinel ++ rest)) =
      some (tag.flatMap String.utf8EncodeChar).length := by
  induction tag with
  | nil => exact findBytes_here sentinel (by decide)
  | cons c tag ih =>
    rw [List.flatMap_cons, List.append_assoc, findBytes_skip (noSentinel_of_char c ?_), ih]
    · rw [Option.map_some, List.length_append, Nat.add_comm]
    · intro b first
      match tag with
      | [] =>
        obtain rfl : 0xDE = b := by simpa [sentinel] using first
        decide
      | c' :: tag =>
        obtain ⟨x, xs, bytes⟩ := List.exists_cons_of_length_pos
          (show 0 < (String.utf8EncodeChar c').length by rw [String.length_utf8EncodeChar]; exact c'.utf8Size_pos)
        obtain rfl : x = b := by simpa [bytes] using first
        have opens := UInt8.isUTF8FirstByte_getElem_zero_utf8EncodeChar (c := c')
        simpa [bytes] using opens

/-! ### The height push -/

/-- A non-negative script number in its shortest push, as `CScript() << n` writes it. -/
def readHeightPush : Reader Nat := do
  let first ← readLe 1
  if first = 0 then return 0
  else if 0x51 ≤ first ∧ first ≤ 0x60 then return first - 0x50
  else if first ≤ 75 then do
    let body ← readBytes first
    let last := body.getLast?.getD 0
    if last < 0x80 ∧ (last ≠ 0 ∨ body.dropLast.getLast?.getD 0 ≥ 0x80) ∧ 16 < leNat body then return leNat body
    else failure
  else failure

theorem and_sign (b : UInt8) : (b &&& 0x80 != 0) = decide (0x80 ≤ b) := by
  have all : ∀ v : BitVec 8, (UInt8.ofBitVec v &&& 0x80 != 0) = decide (0x80 ≤ UInt8.ofBitVec v) := by decide +kernel
  exact all b.toBitVec

def signed (bytes : Bytes) : Bytes :=
  if bytes.getLast?.any (fun b => b &&& 0x80 != 0) then bytes ++ [0x00] else bytes

/-- The body of a push: a last byte without sign bit behind at most `k` others, the one before a zero with its bit set. -/
structure PushBody (k n : Nat) (body : Bytes) : Prop where
  value : leNat body = n
  split : ∃ init last, body = init ++ [last] ∧ init.length ≤ k ∧ last < 0x80 ∧
    (last ≠ 0 ∨ init.getLast?.getD 0 ≥ 0x80)

theorem signed_cons (b : UInt8) {bytes : Bytes} (some : bytes ≠ []) : signed (b :: bytes) = b :: signed bytes := by
  unfold signed
  rw [List.getLast?_cons_of_ne_nil some]
  split <;> rfl

theorem signed_singleton {n : Nat} (positive : 0 < n) (small : n < 256) :
    PushBody (if n < 128 then 0 else 1) n (signed [UInt8.ofNat n]) := by
  have byte : (UInt8.ofNat n).toNat = n := by simpa using small
  have sign : (UInt8.ofNat n &&& 0x80 != 0) = decide (128 ≤ n) := by
    simp only [and_sign, UInt8.le_iff_toNat_le, byte]
    rfl
  have body : signed [UInt8.ofNat n] = if n < 128 then [UInt8.ofNat n] else [UInt8.ofNat n, 0] := by
    unfold signed
    rw [List.getLast?_singleton, Option.any_some, sign]
    split <;> split <;> simp_all
    omega
  rw [body]
  split
  · rename_i low
    refine ⟨by simp [leNat, byte], [], _, rfl, le_rfl, ?_, .inl ?_⟩
    · rw [UInt8.lt_iff_toNat_lt, byte]
      exact low
    · intro zero
      rw [zero] at byte
      simp at byte
      omega
  · rename_i high
    refine ⟨by simp [leNat, byte], [UInt8.ofNat n], 0, rfl, le_rfl, by decide, .inr ?_⟩
    rw [List.getLast?_singleton, Option.getD_some, ge_iff_le, UInt8.le_iff_toNat_le, byte]
    exact Nat.not_lt.mp high

theorem PushBody.mono {k k' n : Nat} {body : Bytes} (push : PushBody k n body) (le : k ≤ k') : PushBody k' n body := by
  obtain ⟨value, init, last, split, short, rest⟩ := push
  exact ⟨value, init, last, split, short.trans le, rest⟩

theorem PushBody.cons {k n : Nat} {b : UInt8} {body : Bytes} (push : PushBody k n body) :
    PushBody (k + 1) (b.toNat + 256 * n) (b :: body) := by
  obtain ⟨value, init, last, rfl, short, positive, minimal⟩ := push
  refine ⟨by rw [leNat, value], b :: init, last, rfl, by simpa using short, positive, ?_⟩
  refine minimal.imp_right fun high => ?_
  cases init with
  | nil => exact absurd high (by decide)
  | cons x xs => rwa [List.getLast?_cons_cons]

theorem heightBytes_push {k fuel n : Nat} (positive : 0 < n) (small : n < 2 ^ (8 * k + 7)) (enough : k < fuel) :
    heightBytes fuel n ≠ [] ∧ PushBody k n (signed (heightBytes fuel n)) := by
  have one : ∀ {fuel n : Nat}, 0 < n → n < 256 → heightBytes (fuel + 1) n = [UInt8.ofNat n] := by
    intro fuel n positive small
    have done : heightBytes fuel (n >>> 8) = [] := by
      rw [Nat.shiftRight_eq_div_pow, Nat.div_eq_of_lt small]
      cases fuel <;> simp [heightBytes]
    have low : n &&& 0xff = n := (Nat.and_two_pow_sub_one_eq_mod n 8).trans (Nat.mod_eq_of_lt small)
    simp [heightBytes, if_pos positive, done, low]
  induction k generalizing fuel n with
  | zero =>
    obtain ⟨fuel, rfl⟩ := Nat.exists_eq_succ_of_ne_zero (Nat.ne_of_gt enough)
    rw [one positive (by omega)]
    have push := signed_singleton positive (by omega)
    rw [if_pos (by omega)] at push
    exact ⟨by simp, push⟩
  | succ k ih =>
    obtain ⟨fuel, rfl⟩ := Nat.exists_eq_succ_of_ne_zero (Nat.ne_of_gt (Nat.zero_lt_of_lt enough))
    by_cases single : n < 256
    · rw [one positive single]
      refine ⟨by simp, (signed_singleton positive single).mono ?_⟩
      split <;> omega
    · have next : n >>> 8 = n / 256 := Nat.shiftRight_eq_div_pow n 8
      have below : n / 256 < 2 ^ (8 * k + 7) := by
        rw [Nat.div_lt_iff_lt_mul (by decide)]
        calc n < 2 ^ (8 * (k + 1) + 7) := small
          _ = 2 ^ (8 * k + 7) * 256 := by rw [show 8 * (k + 1) + 7 = (8 * k + 7) + 8 by omega, Nat.pow_add]
      obtain ⟨some, push⟩ := @ih fuel (n / 256) (by omega) below (by omega)
      have bytes : heightBytes (fuel + 1) n = UInt8.ofNat (n &&& 0xff) :: heightBytes fuel (n / 256) := by
        rw [heightBytes, if_pos positive, next]
      have value : n = (UInt8.ofNat (n &&& 0xff)).toNat + 256 * (n / 256) := by
        have low : n &&& 0xff = n % 256 := Nat.and_two_pow_sub_one_eq_mod n 8
        simp [low]
        omega
      rw [bytes, signed_cons _ some]
      refine ⟨by simp, ?_⟩
      have all := push.cons (b := UInt8.ofNat (n &&& 0xff))
      rwa [← value] at all

theorem encodeBip34Height_body {k : Nat} {height : UInt64} (large : 16 < height.toNat)
    (small : height.toNat < 2 ^ (8 * k + 7)) (few : k < 8) :
    ∃ body, PushBody k height.toNat body ∧ encodeBip34Height height = UInt8.ofNat body.length :: body := by
  refine ⟨signed (heightBytes 8 height.toNat), (heightBytes_push (by omega) small few).2, ?_⟩
  have nonzero : height ≠ 0 := by
    rintro rfl
    exact absurd large (by decide)
  have above : ¬ height ≤ 16 := by
    rw [UInt64.le_iff_toNat_le]
    exact Nat.not_le.mpr large
  unfold encodeBip34Height signed
  rw [if_neg nonzero, if_neg above]

theorem PushBody.length {k n : Nat} {body : Bytes} (push : PushBody k n body) : 0 < body.length ∧ body.length ≤ k + 1 := by
  obtain ⟨-, init, last, rfl, short, -⟩ := push
  simpa using short

theorem encodeBip34Height_low {height : UInt64} (low : height.toNat ≤ 16) :
    encodeBip34Height height = [if height.toNat = 0 then 0 else 0x50 + UInt8.ofNat height.toNat] := by
  have same : height = UInt64.ofNat height.toNat := by simp
  generalize height.toNat = n at low same
  subst same
  interval_cases n <;> rfl

theorem length_encodeBip34Height_le {height : UInt64} (small : height.toNat < 2 ^ 31) :
    (encodeBip34Height height).length ≤ 5 := by
  by_cases low : height.toNat ≤ 16
  · rw [encodeBip34Height_low low]
    exact Nat.le_add_left 1 4
  · obtain ⟨body, push, bytes⟩ := encodeBip34Height_body (k := 3) (Nat.not_le.mp low) small (by decide)
    rw [bytes]
    exact Nat.succ_le_succ push.length.2

theorem findBytes_height {height : UInt64} (small : height.toNat < 2 ^ 31) (rest : Bytes) :
    findBytes sentinel (encodeBip34Height height ++ rest) =
      (findBytes sentinel rest).map (· + (encodeBip34Height height).length) := by
  by_cases low : height.toNat ≤ 16
  · refine findBytes_skip (noSentinel_of_notMem ?_)
    rw [encodeBip34Height_low low]
    generalize height.toNat = n at low
    interval_cases n <;> decide
  · obtain ⟨body, push, bytes⟩ := encodeBip34Height_body (k := 3) (Nat.not_le.mp low) small (by decide)
    have bounds := push.length
    obtain ⟨-, init, last, rfl, short, positive, -⟩ := push
    have front : (0xDE : UInt8) ∉ [UInt8.ofNat (init ++ [last]).length] := by
      generalize (init ++ [last]).length = n at bounds
      obtain ⟨above, below⟩ := bounds
      interval_cases n <;> decide
    rw [bytes, ← List.singleton_append, List.append_assoc, findBytes_skip (noSentinel_of_notMem front),
      findBytes_skip (noSentinel_of_short short positive), Option.map_map]
    congr 1

theorem reads_height {height : UInt64} (small : height.toNat < 2 ^ 31) :
    Reads readHeightPush (encodeBip34Height height) height.toNat := by
  by_cases low : height.toNat ≤ 16
  · rw [encodeBip34Height_low low]
    generalize height.toNat = n at low
    intro rest
    interval_cases n <;> rfl
  · obtain ⟨body, push, bytes⟩ := encodeBip34Height_body (k := 3) (Nat.not_le.mp low) small (by decide)
    have bounds := push.length
    obtain ⟨value, init, last, rfl, short, positive, minimal⟩ := push
    rw [bytes, ← List.singleton_append]
    refine (Reads.byte (by omega)).bind ?_
    rw [if_neg (by omega), if_neg (by omega), if_pos (by omega)]
    have shortest : (init ++ [last]).getLast?.getD 0 < 0x80 ∧
        ((init ++ [last]).getLast?.getD 0 ≠ 0 ∨ (init ++ [last]).dropLast.getLast?.getD 0 ≥ 0x80) ∧
        16 < leNat (init ++ [last]) := by
      rw [List.getLast?_concat, List.dropLast_concat, value]
      exact ⟨positive, minimal, Nat.not_le.mp low⟩
    have body := Reads.bytes_of (init ++ [last])
    intro rest
    rw [StateT.run_bind, body]
    change StateT.run (if _ ∧ _ ∧ _ then _ else _) rest = _
    rw [if_pos shortest, value]
    rfl

theorem encodeBip34Height_eq {height : UInt64} (small : height.toNat < 2 ^ 63) :
    encodeBip34Height height = scriptPush height.toNat ∧ (scriptNum height.toNat).length ≤ 8 := by
  by_cases low : height.toNat ≤ 16
  · rw [encodeBip34Height_low low]
    generalize height.toNat = n at low
    interval_cases n <;> exact ⟨rfl, by decide⟩
  · obtain ⟨body, push, bytes⟩ := encodeBip34Height_body (k := 7) (Nat.not_le.mp low) small (by decide)
    have bounds := push.length
    obtain ⟨value, init, last, rfl, short, positive, minimal⟩ := push
    have number := eq_scriptNum value positive minimal
    rw [number] at bytes bounds
    refine ⟨?_, bounds.2⟩
    rw [bytes, scriptPush, if_neg (by omega), if_neg (by omega)]

/-- The height push is `CScript() << height`, it reads back, no two of them start alike, and up to `2^31` it has the five
bytes that the configuration leaves for it. -/
theorem height_push_is_core {height : UInt64} (small : height.toNat < 2 ^ 63) :
    encodeBip34Height height = scriptPush height.toNat ∧
    readWhole readScriptPush (encodeBip34Height height) = some (height.toNat : Int) ∧
    (∀ other : UInt64, other.toNat < 2 ^ 63 → other ≠ height →
      ¬ encodeBip34Height height <+: encodeBip34Height other ∧ ¬ encodeBip34Height other <+: encodeBip34Height height) ∧
    (height.toNat < 2 ^ 31 → (encodeBip34Height height).length ≤ 5) := by
  have reads : ∀ {h : UInt64}, h.toNat < 2 ^ 63 → Reads readScriptPush (encodeBip34Height h) h.toNat := by
    intro h small
    obtain ⟨push, short⟩ := encodeBip34Height_eq small
    rw [push]
    exact reads_scriptPush (short.trans (by decide))
  refine ⟨(encodeBip34Height_eq small).1, (reads small).whole, fun other fits apart => ⟨fun starts => ?_, fun starts => ?_⟩,
    length_encodeBip34Height_le⟩
  · have same := (reads small).eq_of_starts (reads fits) starts
    exact apart (UInt64.toNat_inj.mp (Int.ofNat.inj same)).symm
  · have same := (reads fits).eq_of_starts (reads small) starts
    exact apart (UInt64.toNat_inj.mp (Int.ofNat.inj same))

theorem height_push_is_core_sign_byte :
    encodeBip34Height 128 = scriptPush 128 ∧ ¬ encodeBip34Height 128 <+: encodeBip34Height 32768 :=
  ⟨(@height_push_is_core 128 (by decide)).1,
    ((@height_push_is_core 128 (by decide)).2.2.1 32768 (by decide) (by decide)).1⟩

/-! ### Reading a transaction back -/

def readU32 : Reader UInt32 := do
  let n ← readLe 4
  return UInt32.ofNat n

def readU64 : Reader UInt64 := do
  let n ← readLe 8
  return UInt64.ofNat n

def readScript : Reader Bytes := do
  let n ← (readCompactSize : Reader Nat)
  readBytes n

def readInput : Reader TxIn := do
  let prevTxid ← readOctets 32
  let prevVout ← readU32
  let scriptSig ← readScript
  let sequence ← readU32
  return { prevTxid, prevVout, scriptSig, sequence }

def readOutput : Reader TxOut := do
  let value ← readU64
  let scriptPubkey ← readScript
  return { value, scriptPubkey }

def readTransaction : Reader Transaction := do
  let version ← readU32
  let inputs ← (readCompactSize : Reader Nat)
  let input ← readMany readInput inputs
  let outputs ← (readCompactSize : Reader Nat)
  let output ← readMany readOutput outputs
  let lockTime ← readU32
  return { version, lockTime, input, output }

/-- The transaction a non-witness encoding is of, read to its last byte. -/
def deserializeTransaction (bytes : Bytes) : Option Transaction := readWhole readTransaction bytes

theorem reads_u32 (v : UInt32) : Reads readU32 (leBytes 4 v.toNat) v := by
  have value := (@Reads.le 4 _ v.toNat_lt).map UInt32.ofNat
  rwa [UInt32.ofNat_toNat] at value

theorem reads_u64 (v : UInt64) : Reads readU64 (leBytes 8 v.toNat) v := by
  have value := (@Reads.le 8 _ v.toNat_lt).map UInt64.ofNat
  rwa [UInt64.ofNat_toNat] at value

theorem reads_compactSize {n : Nat} (fits : n < 2 ^ 64) : Reads (readCompactSize : Reader Nat) (compactSize n) n := by
  intro rest
  change readCompactSize (compactSize n ++ rest) = some (n, rest)
  unfold compactSize
  split
  · rename_i small
    have byte : (UInt8.ofNat n).toNat = n := UInt8.toNat_ofNat_of_lt' (small.trans (by decide))
    have below : UInt8.ofNat n < 0xfd := by
      rw [UInt8.lt_iff_toNat_lt, byte]
      exact small
    simp only [List.singleton_append, readCompactSize, if_pos below, byte]
  · split
    · exact readCompactSize_wide (by decide) rfl rfl (by omega) (show 0xfd ≤ n by omega)
    · split
      · exact readCompactSize_wide (by decide) rfl rfl (by omega) (show 0x10000 ≤ n by omega)
      · exact readCompactSize_wide (by decide) rfl rfl (by omega) (show 0x100000000 ≤ n by omega)

theorem reads_script {script : Bytes} (fits : script.length < 2 ^ 63) :
    Reads readScript (compactSize script.length ++ script) script :=
  (reads_compactSize (by omega)).bind (.bytes_of script)

theorem reads_input {i : TxIn} (fits : i.scriptSig.length < 2 ^ 63) : Reads readInput (serializeInput i) i := by
  unfold readInput serializeInput
  rw [List.append_assoc (_ ++ _) (compactSize _), List.append_assoc, List.append_assoc]
  refine (Reads.octets i.prevTxid).bind ((reads_u32 i.prevVout).bind ?_)
  exact (reads_script fits).bind ((reads_u32 i.sequence).map _)

theorem reads_output {o : TxOut} (fits : o.scriptPubkey.length < 2 ^ 63) : Reads readOutput (serializeOutput o) o := by
  unfold readOutput serializeOutput
  rw [List.append_assoc]
  exact (reads_u64 o.value).bind ((reads_script fits).map _)

/-- The counts and scripts of a transaction fit their length prefixes. -/
structure Transaction.Fits (tx : Transaction) : Prop where
  inputs : tx.input.length < 2 ^ 63
  outputs : tx.output.length < 2 ^ 63
  scriptSigs : ∀ i ∈ tx.input, i.scriptSig.length < 2 ^ 63
  scriptPubkeys : ∀ o ∈ tx.output, o.scriptPubkey.length < 2 ^ 63

theorem deserialize_serialize {tx : Transaction} (fits : tx.Fits) :
    deserializeTransaction (serializeTransaction tx) = some tx := by
  refine Reads.whole ?_
  have inputs := Reads.many fun i among => reads_input (fits.scriptSigs i among)
  have outputs := Reads.many fun o among => reads_output (fits.scriptPubkeys o among)
  unfold readTransaction serializeTransaction
  simp only [List.append_assoc]
  refine (reads_u32 tx.version).bind ((reads_compactSize ?_).bind (inputs.bind ?_))
  · exact fits.inputs.trans (by decide)
  · refine (reads_compactSize ?_).bind (outputs.bind ((reads_u32 tx.lockTime).map _))
    exact fits.outputs.trans (by decide)

/-! ### The layout of the coinbase -/

def rewardOutputs (reward : UInt64) (script : Bytes) (commitment : Option Bytes) : List TxOut :=
  { value := reward, scriptPubkey := script } ::
    commitment.toList.map fun script => { value := 0, scriptPubkey := script }

def coinbaseTransaction (scriptSig : Bytes) (output : List TxOut) : Transaction :=
  { version := 1, lockTime := 0, input := [coinbaseInput scriptSig], output }

def coinbaseHead (scriptSigLen : Nat) : Bytes :=
  leBytes 4 1 ++ [1] ++ List.replicate 32 0 ++ leBytes 4 0xffffffff ++ [UInt8.ofNat scriptSigLen]

def coinbaseTail (output : List TxOut) : Bytes :=
  leBytes 4 0xffffffff ++ compactSize output.length ++ output.flatMap serializeOutput ++ leBytes 4 0

def placeholder (enTotal : Nat) : Bytes := sentinel ++ List.replicate (enTotal - 4) 0

theorem serialize_coinbase {scriptSig : Bytes} (short : scriptSig.length ≤ 100) (output : List TxOut) :
    serializeTransaction (coinbaseTransaction scriptSig output) =
      coinbaseHead scriptSig.length ++ scriptSig ++ coinbaseTail output := by
  have one : compactSize scriptSig.length = [UInt8.ofNat scriptSig.length] := if_pos (by omega)
  simp only [serializeTransaction, coinbaseTransaction, coinbaseInput, serializeInput, one, coinbaseHead, coinbaseTail,
    List.flatMap_cons, List.flatMap_nil, List.append_nil, List.append_assoc]
  rfl

theorem length_coinbaseHead (n : Nat) : (coinbaseHead n).length = 42 := rfl

theorem coinbaseHead_clear {n : Nat} (short : n ≤ 100) : 0xDE ∉ coinbaseHead n := by
  interval_cases n <;> decide

theorem length_placeholder (enTotal : Nat) : (placeholder enTotal).length = max enTotal 4 := by
  simp only [placeholder, sentinel, List.length_append, List.length_replicate, List.length_cons, List.length_nil]
  omega

theorem scriptSigContent_eq (height : UInt64) (tag : String) (enTotal : Nat) :
    scriptSigContent height tag enTotal = encodeBip34Height height ++ strBytes tag ++ placeholder enTotal :=
  List.append_assoc _ sentinel _

/-- The coinbase up to the extranonce, and from its end. -/
def coinbaseFront (height : UInt64) (tag : String) (enTotal : Nat) : Bytes :=
  coinbaseHead (scriptSigContent height tag enTotal).length ++ (encodeBip34Height height ++ strBytes tag)

def coinbaseBack (enTotal : Nat) (output : List TxOut) : Bytes :=
  (placeholder enTotal).drop enTotal ++ coinbaseTail output

section Layout

variable {height : UInt64} {tag : String} {enTotal : Nat}

theorem length_scriptSigContent_le (low : height.toNat < 2 ^ 31) (room : 5 + (strBytes tag).length + max enTotal 4 ≤ 100) :
    (scriptSigContent height tag enTotal).length ≤ 100 := by
  have push := length_encodeBip34Height_le low
  simp only [scriptSigContent_eq, List.length_append, length_placeholder]
  omega

theorem length_coinbaseFront :
    (coinbaseFront height tag enTotal).length = 42 + (encodeBip34Height height).length + (strBytes tag).length := by
  simp only [coinbaseFront, List.length_append, length_coinbaseHead, Nat.add_assoc]

theorem findBytes_coinbase (low : height.toNat < 2 ^ 31) (room : 5 + (strBytes tag).length + max enTotal 4 ≤ 100)
    (rest : Bytes) :
    findBytes sentinel (coinbaseFront height tag enTotal ++ (placeholder enTotal ++ rest)) =
      some (coinbaseFront height tag enTotal).length := by
  have clear := coinbaseHead_clear (length_scriptSigContent_le low room)
  have inTag := findBytes_tag tag.toList (List.replicate (enTotal - 4) 0 ++ rest)
  rw [← List.append_assoc sentinel] at inTag
  rw [length_coinbaseFront]
  simp only [coinbaseFront, List.append_assoc]
  rw [findBytes_skip (noSentinel_of_notMem clear), findBytes_height low]
  change Option.map _ (Option.map _ (findBytes sentinel (tag.toList.flatMap String.utf8EncodeChar ++ _))) = _
  rw [placeholder, inTag, Option.map_some, Option.map_some, length_coinbaseHead]
  congr 1
  simp only [strBytes]
  omega

/-- A fill of the extranonce region stands in a scriptSig of the same length. -/
theorem fill_eq_serialize (low : height.toNat < 2 ^ 31) (room : 5 + (strBytes tag).length + max enTotal 4 ≤ 100)
    {fill : Bytes} (width : fill.length = enTotal) (output : List TxOut) :
    coinbaseFront height tag enTotal ++ fill ++ coinbaseBack enTotal output =
      serializeTransaction (coinbaseTransaction
        (encodeBip34Height height ++ strBytes tag ++ (fill ++ (placeholder enTotal).drop enTotal)) output) := by
  have same : (encodeBip34Height height ++ strBytes tag ++ (fill ++ (placeholder enTotal).drop enTotal)).length =
      (scriptSigContent height tag enTotal).length := by
    simp only [scriptSigContent_eq, List.length_append, List.length_drop, length_placeholder, width]
    omega
  rw [serialize_coinbase (same.trans_le (length_scriptSigContent_le low room)), same]
  simp only [coinbaseFront, coinbaseBack, List.append_assoc]

end Layout

theorem zeroed_eq (front tail : Bytes) {region : Bytes} {n : Nat} (fits : n ≤ region.length) :
    (front ++ (region ++ tail)).take front.length ++
        List.replicate (min n ((front ++ (region ++ tail)).length - front.length)) 0 ++
        (front ++ (region ++ tail)).drop (front.length + min n ((front ++ (region ++ tail)).length - front.length)) =
      front ++ List.replicate n 0 ++ (region.drop n ++ tail) := by
  have count : min n ((front ++ (region ++ tail)).length - front.length) = n := by
    simp only [List.length_append]
    omega
  rw [count, List.take_left, List.drop_append, List.drop_eq_nil_of_le (by omega), Nat.add_sub_cancel_left,
    List.nil_append, List.drop_append_of_le_length fits]

theorem buildCoinbase_eq {c : Crates} (encodes : c.serialize = serializeTransaction) {height : UInt64} {tag : String}
    {extranonce1Len extranonce2Len : Nat} (low : height.toNat < 2 ^ 31)
    (room : 5 + (strBytes tag).length + max (extranonce1Len + extranonce2Len) 4 ≤ 100) {address : String} {script : Bytes}
    (parses : c.addressToScript address = .ok script) {witnessCommitment : Option String} {commitment : Option Bytes}
    (given : witnessCommitment.map hexDecode = commitment.map .ok) (reward : UInt64) :
    buildCoinbase c height reward address tag extranonce1Len extranonce2Len witnessCommitment =
      .ok (coinbaseFront height tag (extranonce1Len + extranonce2Len) ++
          List.replicate (extranonce1Len + extranonce2Len) 0 ++
          coinbaseBack (extranonce1Len + extranonce2Len) (rewardOutputs reward script commitment),
        (coinbaseFront height tag (extranonce1Len + extranonce2Len)).length) := by
  generalize totalIs : extranonce1Len + extranonce2Len = enTotal at room ⊢
  have outputs : commitmentOutput witnessCommitment =
      .ok (commitment.toList.map fun script => { value := 0, scriptPubkey := script }) := by
    match witnessCommitment, commitment, given with
    | none, none, _ => rfl
    | some wcHex, some script, given =>
      have decoded : hexDecode wcHex = .ok script := Option.some.inj given
      simp [commitmentOutput, decoded]
  have whole := serialize_coinbase (length_scriptSigContent_le low room) (rewardOutputs reward script commitment)
  have parts : serializeTransaction (coinbaseTransaction (scriptSigContent height tag enTotal)
      (rewardOutputs reward script commitment)) = coinbaseFront height tag enTotal ++ (placeholder enTotal ++
        coinbaseTail (rewardOutputs reward script commitment)) := by
    rw [whole]
    nth_rewrite 2 [scriptSigContent_eq]
    simp only [coinbaseFront, List.append_assoc]
  have found := findBytes_coinbase low room (coinbaseTail (rewardOutputs reward script commitment))
  have fits : enTotal ≤ (placeholder enTotal).length := by
    rw [length_placeholder]
    exact Nat.le_max_left enTotal 4
  unfold buildCoinbase
  simp only [parses, outputs, encodes, totalIs, Outcome.pure_eq, Outcome.ok_bind]
  unfold coinbaseTransaction rewardOutputs at parts
  rw [parts]
  refine Outcome.bind_ok.mpr ⟨_, Outcome.ofOption_ok.mpr found, ?_⟩
  exact congrArg (fun bytes => Outcome.ok (bytes, _)) (zeroed_eq _ _ fits)

/-! ### The assembled coinbase -/

/-- One null input whose short scriptSig opens with the height, and outputs of exactly the reward and the commitment. -/
structure IsCoinbase (height reward : UInt64) (script : Bytes) (commitment : Option Bytes) (tx : Transaction) : Prop where
  input : ∃ i, tx.input = [i] ∧ i.prevTxid = Octets.zero 32 ∧ i.prevVout = 0xffffffff ∧
    encodeBip34Height height <+: i.scriptSig ∧ (readHeightPush.run i.scriptSig).map (·.1) = some height.toNat ∧
    i.scriptSig.length ≤ 100
  output : tx.output = { value := reward, scriptPubkey := script } ::
    commitment.toList.map fun script => { value := 0, scriptPubkey := script }

theorem fill_isCoinbase {height reward : UInt64} {tag : String} {enTotal : Nat} (low : height.toNat < 2 ^ 31)
    (room : 5 + (strBytes tag).length + max enTotal 4 ≤ 100) (script : Vec UInt8) (commitment : Option (Vec UInt8))
    {fill : Bytes} (width : fill.length = enTotal) :
    ∃ tx, deserializeTransaction (coinbaseFront height tag enTotal ++ fill ++ coinbaseBack enTotal
        (rewardOutputs reward script.toList (commitment.map Vec.toList))) = some tx ∧
      IsCoinbase height reward script.toList (commitment.map Vec.toList) tx := by
  have content := length_scriptSigContent_le low room
  have short : (encodeBip34Height height ++ strBytes tag ++ (fill ++ (placeholder enTotal).drop enTotal)).length ≤ 100 := by
    simp only [scriptSigContent_eq, List.length_append, List.length_drop, length_placeholder, width] at content ⊢
    omega
  refine ⟨_, (congrArg _ (fill_eq_serialize low room width _)).trans (deserialize_serialize ?_), ?_⟩
  · refine ⟨Nat.one_lt_two_pow (by decide), ?_, ?_, ?_⟩
    · cases commitment <;> simp [coinbaseTransaction, rewardOutputs]
    · rintro i (_ | ⟨_, ⟨⟩⟩)
      exact short.trans_lt (by decide)
    · rintro o (_ | ⟨_, among⟩)
      · exact script.length_lt
      · obtain ⟨given, member, rfl⟩ := List.mem_map.mp among
        obtain ⟨v, -, rfl⟩ := Option.map_eq_some_iff.mp (Option.mem_toList.mp member)
        exact v.length_lt
  · constructor
    · refine ⟨_, rfl, rfl, rfl, ?_, ?_, short⟩
      · rw [List.append_assoc]
        exact List.prefix_append _ _
      · rw [coinbaseInput, List.append_assoc, reads_height low]
        rfl
    · rfl

theorem buildJob_coinbase {c : Crates} {jobId : String} {gbt : GbtResult} {address tag : String} {e1 e2 : Nat}
    {job : StratumJob} (built : buildJob c jobId gbt address tag e1 e2 = .ok job) :
    buildCoinbase c gbt.height gbt.coinbaseValue address tag e1 e2 gbt.defaultWitnessCommitment =
      .ok (job.coinbaseTemplate, job.extranonceOffset) := by
  obtain ⟨⟨bytes, offset⟩, coinbase, built⟩ := Outcome.bind_ok.mp built
  obtain ⟨_, -, built⟩ := Outcome.bind_ok.mp built
  obtain ⟨_, -, built⟩ := Outcome.bind_ok.mp built
  obtain ⟨_, -, built⟩ := Outcome.bind_ok.mp built
  obtain ⟨_, -, built⟩ := Outcome.bind_ok.mp built
  obtain ⟨_, -, built⟩ := Outcome.bind_ok.mp built
  obtain ⟨_, -, built⟩ := Outcome.bind_ok.mp built
  obtain rfl := Outcome.ok.inj built
  exact coinbase

/-- The placeholder is found where it was put, and whatever a miner puts there the coinbase pays the reward to the
address and the commitment after it. The crate's encoder is the standard one. -/
theorem coinbase_reads_back {c : Crates} (encodes : c.serialize = serializeTransaction) {cfg : Config}
    (valid : cfg.validate = .ok ()) {gbt : GbtResult} (low : gbt.height.toNat < 2 ^ 31) {address : String}
    {script : Vec UInt8} (parses : c.addressToScript address = .ok script.toList) {commitment : Option (Vec UInt8)}
    (given : gbt.defaultWitnessCommitment.map hexDecode = (commitment.map Vec.toList).map .ok) :
    (∃ template, buildCoinbase c gbt.height gbt.coinbaseValue address cfg.pool.coinbaseTag cfg.pool.extranonce1Size
      cfg.pool.extranonce2Size gbt.defaultWitnessCommitment = .ok (template,
        42 + (encodeBip34Height gbt.height).length + (strBytes cfg.pool.coinbaseTag).length)) ∧
    ∀ jobId job, buildJob c jobId gbt address cfg.pool.coinbaseTag cfg.pool.extranonce1Size cfg.pool.extranonce2Size =
        .ok job →
      job.extranonceOffset = 42 + (encodeBip34Height gbt.height).length + (strBytes cfg.pool.coinbaseTag).length ∧
      (∀ first second : Bytes, first.length + second.length = cfg.pool.extranonce1Size + cfg.pool.extranonce2Size →
        job.assembleCoinbase first second = .ok (job.coinbase1 ++ (first ++ second) ++ job.coinbase2)) ∧
      ∀ first second : Bytes, ∃ bytes tx, job.assembleCoinbase first second = .ok bytes ∧
        deserializeTransaction bytes = some tx ∧
        IsCoinbase gbt.height gbt.coinbaseValue script.toList (commitment.map Vec.toList) tx := by
  have room := (cfg.validate_accepted valid).scriptSig_le
  unfold scriptSigLength at room
  generalize cfg.pool.extranonce1Size = e1, cfg.pool.extranonce2Size = e2, cfg.pool.coinbaseTag = tag at room ⊢
  have coinbase := buildCoinbase_eq encodes low room parses given gbt.coinbaseValue
  rw [length_coinbaseFront] at coinbase
  refine ⟨⟨_, coinbase⟩, fun jobId job built => ?_⟩
  obtain ⟨_, ⟨facts⟩⟩ := buildJob_facts built
  obtain ⟨template, offset⟩ := Prod.mk.inj (Outcome.ok.inj ((buildJob_coinbase built).symm.trans coinbase))
  have spliced : ∀ first second : Bytes, first.length + second.length = e1 + e2 →
      job.assembleCoinbase first second = .ok (job.coinbase1 ++ (first ++ second) ++ job.coinbase2) := by
    intro first second width
    rw [assembleCoinbase_split facts width, List.append_assoc job.coinbase1]
  refine ⟨offset, spliced, fun first second => ?_⟩
  by_cases width : first.length + second.length = e1 + e2
  · have front : job.coinbase1 = coinbaseFront gbt.height tag (e1 + e2) := by
      rw [facts.coinbase1_eq, template, offset, ← length_coinbaseFront, List.append_assoc, List.take_left]
    have back : job.coinbase2 = coinbaseBack (e1 + e2)
        (rewardOutputs gbt.coinbaseValue script.toList (commitment.map Vec.toList)) := by
      rw [facts.coinbase2_eq, template, offset, ← @length_coinbaseFront _ _ (e1 + e2)]
      exact List.drop_left' (by simp)
    obtain ⟨tx, reads, isCoinbase⟩ := @fill_isCoinbase gbt.height gbt.coinbaseValue tag (e1 + e2) low room script commitment
      (first ++ second) (by rw [List.length_append, width])
    refine ⟨_, tx, spliced first second width, ?_, isCoinbase⟩
    rw [front, back, reads]
  · -- Extranonces of another width leave the region zeroed.
    obtain ⟨tx, reads, isCoinbase⟩ := @fill_isCoinbase gbt.height gbt.coinbaseValue tag (e1 + e2) low room script commitment
      (List.replicate (e1 + e2) 0) List.length_replicate
    refine ⟨job.coinbaseTemplate, tx, ?_, by rw [template, reads], isCoinbase⟩
    unfold StratumJob.assembleCoinbase
    rw [facts.extranonce1Len_eq, facts.extranonce2Len_eq]
    exact if_pos width

def testScriptVec : Vec UInt8 := ⟨testScript, by decide⟩

def testCommitment : Vec UInt8 :=
  ⟨[0x6a, 0x24, 0xaa, 0x21, 0xa9, 0xed] ++ List.replicate 32 0x5c, by decide⟩

def committedTemplate : GbtResult :=
  { testTemplate genesisHash "1d00ffff" with defaultWitnessCommitment := some (hexEncode testCommitment.toList) }

/-- A job with a witness commitment, and the extranonces of a miner in its placeholder. -/
theorem coinbase_reads_back_committed :
    ∃ job, buildJob mainnetCrates "0000000000000001" committedTemplate testAddress exampleConfig.pool.coinbaseTag
        exampleConfig.pool.extranonce1Size exampleConfig.pool.extranonce2Size = .ok job ∧
      ∃ bytes tx, job.assembleCoinbase [0, 0, 0, 1] [0, 0, 0, 7] = .ok bytes ∧
        bytes = job.coinbase1 ++ ([0, 0, 0, 1] ++ [0, 0, 0, 7]) ++ job.coinbase2 ∧ deserializeTransaction bytes = some tx ∧
        IsCoinbase 900000 312500000 testScript (some testCommitment.toList) tx := by
  obtain ⟨job, built⟩ := exists_of_isOk (x := buildJob mainnetCrates "0000000000000001" committedTemplate testAddress
    exampleConfig.pool.coinbaseTag exampleConfig.pool.extranonce1Size exampleConfig.pool.extranonce2Size) (by decide +kernel)
  obtain ⟨_, spliced, reads⟩ := (@coinbase_reads_back mainnetCrates rfl exampleConfig (by decide) committedTemplate (by decide)
    testAddress testScriptVec (by decide) (some testCommitment) (by decide)).2 "0000000000000001" job built
  obtain ⟨bytes, tx, assembled, read, isCoinbase⟩ := reads [0, 0, 0, 1] [0, 0, 0, 7]
  have whole := spliced [0, 0, 0, 1] [0, 0, 0, 7] (by decide)
  exact ⟨job, built, bytes, tx, assembled, Outcome.ok.inj (assembled.symm.trans whole), read, isCoinbase⟩

end SoloPool
