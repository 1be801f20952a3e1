import SoloPool.Lib.Sha256
import SoloPool.Bitcoin.Template

/-!
# The crates on concrete inputs

`serializeTransaction` is the standard non-witness transaction encoding and `mainnetCrates` the crates as they answer
for the payout address of the repository's tests. Nothing general is proved about them: they run the model on concrete
templates.
-/

namespace SoloPool
open Lib

def compactSize (n : Nat) : Bytes :=
  if n < 0xfd then [UInt8.ofNat n]
  else if n ≤ 0xffff then 0xfd :: leBytes 2 n
  else if n ≤ 0xffffffff then 0xfe :: leBytes 4 n
  else 0xff :: leBytes 8 n

def serializeInput (i : TxIn) : Bytes :=
  i.prevTxid.toList ++ leBytes 4 i.prevVout.toNat ++ compactSize i.scriptSig.length ++ i.scriptSig ++
    leBytes 4 i.sequence.toNat

def serializeOutput (o : TxOut) : Bytes :=
  leBytes 8 o.value.toNat ++ compactSize o.scriptPubkey.length ++ o.scriptPubkey

def serializeTransaction (tx : Transaction) : Bytes :=
  leBytes 4 tx.version.toNat ++ compactSize tx.input.length ++ tx.input.flatMap serializeInput ++
    compactSize tx.output.length ++ tx.output.flatMap serializeOutput ++ leBytes 4 tx.lockTime.toNat

def testAddress : String := "bc1qw508d6qejxtdg4y5r3zarvary0c5xw7kv8f3t4"

def testScript : Bytes := [0x00, 0x14, 0x75, 0x1e, 0x76, 0xe8, 0x19, 0x91, 0x96, 0xd4, 0x54, 0x94, 0x1c, 0x45, 0xd1,
  0xb3, 0xa3, 0x23, 0xf1, 0x43, 0x3b, 0xd6]

def otherAddress : String := "1A1zP1eP5QGefi2DMPTfTL5SLmv7DivfNa"

def otherScript : Bytes := [0x76, 0xa9, 0x14, 0x62, 0xe9, 0x07, 0xb1, 0x5c, 0xbf, 0x27, 0xd5, 0x42, 0x53, 0x99, 0xeb,
  0xf6, 0xf0, 0xfb, 0x50, 0xeb, 0xb8, 0x8f, 0x18, 0x88, 0xac]

/-- The crates, with the address parser restricted to two known mainnet addresses. -/
def mainnetCrates : Crates where
  sha256 := Sha256.digest
  addressToScript address :=
    if address = testAddress then .ok testScript
    else if address = otherAddress then .ok otherScript
    else .error "base58 error"
  requireNetwork _ network := decide (network = .bitcoin)
  serialize := serializeTransaction

def genesisHash : String := "000000000019d6689c085ae165831e934ff763ae46a2a6c172b3f1b60a8ce26f"

/-- The template of the repository's tests, on the tip `prevHash` and with the compact target `bits`. -/
def testTemplate (prevHash bits : String) : GbtResult where
  version := 0x20000000
  prevHash := prevHash
  bits := bits
  curTime := 1700000000
  minTime := 1699999000
  height := 900000
  coinbaseValue := 312500000
  transactions := ⟨[], by decide⟩
  defaultWitnessCommitment := none

def Outcome.isOk {ε α : Type} : Lib.Outcome ε α → Bool
  | .ok _ => true
  | _ => false

theorem exists_of_isOk {ε α : Type} {x : Lib.Outcome ε α} (h : Outcome.isOk x = true) : ∃ a, x = .ok a := by
  cases x with
  | ok a => exact ⟨a, rfl⟩
  | err e => simp [Outcome.isOk] at h
  | panic => simp [Outcome.isOk] at h

theorem testTemplate_builds :
    ∃ job, buildJob mainnetCrates "0000000000000001" (testTemplate genesisHash "1d00ffff") testAddress "tag" 4 4 = .ok job :=
  exists_of_isOk (by decide +kernel)

end SoloPool
