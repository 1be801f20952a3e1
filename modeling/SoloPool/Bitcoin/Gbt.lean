import SoloPool.Bitcoin.Template
import SoloPool.Lib.Json

/-!
# Block templates from the node

`get_block_template` of `bitcoin/rpc.rs` on the value that the node answers, with every field of `GbtResult`; `toGbtResult`
keeps the fields that a modelled function reads.
-/

namespace SoloPool
open Lib

/-- The texts of a refusal, each with the values its message shows. -/
inductive GbtError where
  | missingData
  | dataHex (e : FromHexError)
  | missingOrInvalid (key : String)
  | outOfRange (key : String)
  deriving DecidableEq

structure GbtReplyTransaction extends GbtTransaction where
  hash : String
  fee : UInt64
  weight : UInt64
  deriving DecidableEq

structure GbtReply where
  version : UInt32
  prevHash : String
  bits : String
  curTime : UInt32
  minTime : UInt32
  height : UInt64
  coinbaseValue : UInt64
  transactions : List GbtReplyTransaction
  longpollId : Option String
  defaultWitnessCommitment : Option String
  rules : List String
  deriving DecidableEq

def GbtReply.toGbtResult (g : GbtReply) (fits : g.transactions.length < 2 ^ 63) : GbtResult where
  version := g.version
  prevHash := g.prevHash
  bits := g.bits
  curTime := g.curTime
  minTime := g.minTime
  height := g.height
  coinbaseValue := g.coinbaseValue
  transactions := Vec.map GbtReplyTransaction.toGbtTransaction ⟨g.transactions, fits⟩
  defaultWitnessCommitment := g.defaultWitnessCommitment

namespace Gbt

def valueAsString (v : Json) (key : String) : Except GbtError String :=
  match (v.get key).bind Json.asStr with
  | some s => .ok s
  | none => .error (.missingOrInvalid key)

def valueAsU64 (v : Json) (key : String) : Except GbtError UInt64 :=
  match (v.get key).bind Json.asU64 with
  | some n => .ok n
  | none => .error (.missingOrInvalid key)

def valueAsU32 (v : Json) (key : String) : Except GbtError UInt32 := do
  let n ← valueAsU64 v key
  if n.toNat < 2 ^ 32 then return n.toUInt32 else throw (.outOfRange key)

def dataOf (tx : Json) : Except GbtError Bytes :=
  match (tx.get "data").bind Json.asStr with
  | none => .error .missingData
  | some dataHex =>
    match hexDecode dataHex with
    | .ok data => .ok data
    | .error e => .error (.dataHex e)

def parseGbtTransaction (tx : Json) : Except GbtError GbtReplyTransaction := do
  let data ← dataOf tx
  let txid ← valueAsString tx "txid"
  let hash := (((tx.get "hash").bind Json.asStr).or ((tx.get "wtxid").bind Json.asStr)).getD ""
  let fee ← valueAsU64 tx "fee"
  let weight ← valueAsU64 tx "weight"
  return { data, txid, hash, fee, weight }

/-- The transactions of an answer; none when it has no array of them. -/
def transactionsOf (v : Json) : List Json := ((v.get "transactions").bind Json.asArray).getD []

/-- `mintime`, or `curtime` in its place. -/
def minTimeOf (v : Json) : UInt32 :=
  match valueAsU32 v "mintime" with
  | .ok minTime => minTime
  | .error _ => (valueAsU32 v "curtime").toOption.getD 0

def getBlockTemplate (v : Json) : Except GbtError GbtReply := do
  let transactions ← (transactionsOf v).mapM parseGbtTransaction
  let version ← valueAsU32 v "version"
  let prevHash ← valueAsString v "previousblockhash"
  let bits ← valueAsString v "bits"
  let curTime ← valueAsU32 v "curtime"
  let minTime := minTimeOf v
  let height ← valueAsU64 v "height"
  let coinbaseValue ← valueAsU64 v "coinbasevalue"
  return {
    version, prevHash, bits, curTime, minTime, height, coinbaseValue, transactions
    longpollId := (v.get "longpollid").bind Json.asStr
    defaultWitnessCommitment := (v.get "default_witness_commitment").bind Json.asStr
    rules := (((v.get "rules").bind Json.asArray).getD []).filterMap Json.asStr }

end Gbt

end SoloPool
