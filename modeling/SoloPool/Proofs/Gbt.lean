import SoloPool.Bitcoin.Crates
import SoloPool.Bitcoin.Gbt
import SoloPool.Lib.Faults

/-!
# What a template is read from

An answer is accepted exactly when it carries every field a template needs, and then the template is what it says; any other
is refused for the first thing that is wrong with it.
-/

namespace SoloPool.Gbt
open Lib

variable {v tx : Json} {key : String}

/-! ### One field -/

theorem valueAsString_ok {s : String} : valueAsString v key = .ok s ↔ (v.get key).bind Json.asStr = some s := by
  unfold valueAsString
  cases (v.get key).bind Json.asStr <;> simp

theorem valueAsU64_ok {n : UInt64} : valueAsU64 v key = .ok n ↔ (v.get key).bind Json.asU64 = some n := by
  unfold valueAsU64
  cases (v.get key).bind Json.asU64 <;> simp

theorem valueAsU32_ok {n : UInt32} : valueAsU32 v key = .ok n ↔ (v.get key).bind Json.asU64 = some n.toUInt64 := by
  unfold valueAsU32
  rw [except_bind_ok]
  constructor
  · rintro ⟨wide, read, narrowed⟩
    rw [valueAsU64_ok.mp read]
    split at narrowed
    · rename_i small
      obtain rfl := Except.ok.inj narrowed
      refine congrArg some (UInt64.toNat_inj.mp ?_)
      rw [UInt32.toNat_toUInt64, UInt64.toNat_toUInt32, Nat.mod_eq_of_lt small]
    · cases narrowed
  · intro read
    have small : n.toUInt64.toNat < 2 ^ 32 := by
      rw [UInt32.toNat_toUInt64]
      exact n.toNat_lt
    refine ⟨n.toUInt64, valueAsU64_ok.mpr read, ?_⟩
    rw [if_pos small]
    exact congrArg Except.ok (UInt32.toUInt32_toUInt64 n)

theorem dataOf_ok {data : Bytes} :
    dataOf tx = .ok data ↔ ∃ dataHex, (tx.get "data").bind Json.asStr = some dataHex ∧ hexDecode dataHex = .ok data := by
  unfold dataOf
  cases (tx.get "data").bind Json.asStr with
  | none => exact ⟨nofun, by rintro ⟨_, ⟨⟩, _⟩⟩
  | some dataHex =>
    dsimp only
    constructor
    · intro read
      refine ⟨dataHex, rfl, ?_⟩
      split at read
      · rename_i data decoded
        rw [decoded, Except.ok.inj read]
      · cases read
    · rintro ⟨_, ⟨⟩, decoded⟩
      rw [decoded]

/-! ### What is wrong with a field -/

def stringFaults (v : Json) (key : String) : List GbtError :=
  if ((v.get key).bind Json.asStr).isSome then [] else [.missingOrInvalid key]

def u64Faults (v : Json) (key : String) : List GbtError :=
  if ((v.get key).bind Json.asU64).isSome then [] else [.missingOrInvalid key]

def u32Faults (v : Json) (key : String) : List GbtError :=
  match (v.get key).bind Json.asU64 with
  | none => [.missingOrInvalid key]
  | some n => if n.toNat < 2 ^ 32 then [] else [.outOfRange key]

def dataFaults (tx : Json) : List GbtError :=
  match (tx.get "data").bind Json.asStr with
  | none => [.missingData]
  | some dataHex =>
    match hexDecode dataHex with
    | .ok _ => []
    | .error e => [.dataHex e]

def transactionFaults (tx : Json) : List GbtError :=
  [dataFaults tx, stringFaults tx "txid", u64Faults tx "fee", u64Faults tx "weight"].flatten

/-- All that is wrong with an answer, in the order it is read. -/
def faults (v : Json) : List GbtError :=
  [(transactionsOf v).flatMap transactionFaults, u32Faults v "version", stringFaults v "previousblockhash",
    stringFaults v "bits", u32Faults v "curtime", u64Faults v "height", u64Faults v "coinbasevalue"].flatten

theorem valueAsString_first : FirstFault (valueAsString v key) (stringFaults v key) := by
  unfold valueAsString stringFaults
  cases (v.get key).bind Json.asStr with
  | none => rfl
  | some s => exact .pure s

theorem valueAsU64_first : FirstFault (valueAsU64 v key) (u64Faults v key) := by
  unfold valueAsU64 u64Faults
  cases (v.get key).bind Json.asU64 with
  | none => rfl
  | some n => exact .pure n

theorem valueAsU32_first : FirstFault (valueAsU32 v key) (u32Faults v key) := by
  unfold valueAsU32 valueAsU64 u32Faults
  cases (v.get key).bind Json.asU64 with
  | none => rfl
  | some n =>
    dsimp only
    by_cases small : n.toNat < 2 ^ 32
    · rw [if_pos small]
      exact ⟨n.toUInt32, if_pos small⟩
    · rw [if_neg small]
      exact if_neg small

theorem dataOf_first : FirstFault (dataOf tx) (dataFaults tx) := by
  unfold dataOf dataFaults
  cases (tx.get "data").bind Json.asStr with
  | none => rfl
  | some dataHex =>
    dsimp only
    cases hexDecode dataHex with
    | ok data => exact .pure data
    | error e => rfl

theorem parseGbtTransaction_first : FirstFault (parseGbtTransaction tx) (transactionFaults tx) :=
  dataOf_first.bind fun _ _ => valueAsString_first.bind fun _ _ => valueAsU64_first.bind fun _ _ =>
    valueAsU64_first.bind fun _ _ => .pure _

theorem getBlockTemplate_first : FirstFault (getBlockTemplate v) (faults v) :=
  (FirstFault.mapM fun _ _ => parseGbtTransaction_first).bind fun _ _ => valueAsU32_first.bind fun _ _ =>
    valueAsString_first.bind fun _ _ => valueAsString_first.bind fun _ _ => valueAsU32_first.bind fun _ _ =>
    valueAsU64_first.bind fun _ _ => valueAsU64_first.bind fun _ _ => .pure _

/-! ### What an answer carries -/

structure CarriesTransaction (tx : Json) (t : GbtReplyTransaction) : Prop where
  data : ∃ dataHex, (tx.get "data").bind Json.asStr = some dataHex ∧ hexDecode dataHex = .ok t.data
  txid : (tx.get "txid").bind Json.asStr = some t.txid
  hash : t.hash = (((tx.get "hash").bind Json.asStr).or ((tx.get "wtxid").bind Json.asStr)).getD ""
  fee : (tx.get "fee").bind Json.asU64 = some t.fee
  weight : (tx.get "weight").bind Json.asU64 = some t.weight

/-- The answer has every field of the template; the earliest time it may leave to the current one. -/
structure Carries (v : Json) (g : GbtReply) : Prop where
  version : (v.get "version").bind Json.asU64 = some g.version.toUInt64
  prevHash : (v.get "previousblockhash").bind Json.asStr = some g.prevHash
  bits : (v.get "bits").bind Json.asStr = some g.bits
  curTime : (v.get "curtime").bind Json.asU64 = some g.curTime.toUInt64
  minTime : (v.get "mintime").bind Json.asU64 = some g.minTime.toUInt64 ∨
    (∀ n : UInt32, (v.get "mintime").bind Json.asU64 ≠ some n.toUInt64) ∧ g.minTime = g.curTime
  height : (v.get "height").bind Json.asU64 = some g.height
  coinbaseValue : (v.get "coinbasevalue").bind Json.asU64 = some g.coinbaseValue
  transactions : List.Forall₂ CarriesTransaction (transactionsOf v) g.transactions
  longpollId : g.longpollId = (v.get "longpollid").bind Json.asStr
  defaultWitnessCommitment : g.defaultWitnessCommitment = (v.get "default_witness_commitment").bind Json.asStr
  rules : g.rules = (((v.get "rules").bind Json.asArray).getD []).filterMap Json.asStr

theorem parseGbtTransaction_ok {t : GbtReplyTransaction} : parseGbtTransaction tx = .ok t ↔ CarriesTransaction tx t := by
  constructor
  · intro parsed
    obtain ⟨data, decoded, parsed⟩ := except_bind_ok.mp parsed
    obtain ⟨txid, first, parsed⟩ := except_bind_ok.mp parsed
    obtain ⟨fee, second, parsed⟩ := except_bind_ok.mp parsed
    obtain ⟨weight, third, parsed⟩ := except_bind_ok.mp parsed
    obtain rfl := Except.ok.inj parsed
    exact ⟨dataOf_ok.mp decoded, valueAsString_ok.mp first, rfl, valueAsU64_ok.mp second, valueAsU64_ok.mp third⟩
  · rintro ⟨data, txid, hash, fee, weight⟩
    obtain ⟨⟨data, txid⟩, hash, fee, weight⟩ := t
    refine except_bind_ok.mpr ⟨_, dataOf_ok.mpr data, ?_⟩
    refine except_bind_ok.mpr ⟨_, valueAsString_ok.mpr txid, ?_⟩
    refine except_bind_ok.mpr ⟨_, valueAsU64_ok.mpr fee, ?_⟩
    refine except_bind_ok.mpr ⟨_, valueAsU64_ok.mpr weight, ?_⟩
    rw [← hash]
    rfl

theorem minTimeOf_eq {curTime minTime : UInt32} (current : valueAsU32 v "curtime" = .ok curTime) :
    minTime = minTimeOf v ↔ (v.get "mintime").bind Json.asU64 = some minTime.toUInt64 ∨
      (∀ n : UInt32, (v.get "mintime").bind Json.asU64 ≠ some n.toUInt64) ∧ minTime = curTime := by
  unfold minTimeOf
  cases read : valueAsU32 v "mintime" with
  | ok earliest =>
    have carried := valueAsU32_ok.mp read
    dsimp only
    rw [carried]
    constructor
    · rintro rfl
      exact .inl rfl
    · rintro (same | ⟨absent, _⟩)
      · exact (UInt32.toUInt64_inj.mp (Option.some.inj same)).symm
      · exact (absent earliest rfl).elim
  | error e =>
    have absent : ∀ n : UInt32, (v.get "mintime").bind Json.asU64 ≠ some n.toUInt64 := by
      intro n carried
      rw [valueAsU32_ok.mpr carried] at read
      cases read
    dsimp only
    rw [current]
    constructor
    · rintro rfl
      exact .inr ⟨absent, rfl⟩
    · rintro (carried | ⟨_, same⟩)
      · exact (absent _ carried).elim
      · exact same

theorem getBlockTemplate_ok {g : GbtReply} : getBlockTemplate v = .ok g ↔ Carries v g := by
  constructor
  · intro parsed
    obtain ⟨transactions, each, parsed⟩ := except_bind_ok.mp parsed
    obtain ⟨version, first, parsed⟩ := except_bind_ok.mp parsed
    obtain ⟨prevHash, second, parsed⟩ := except_bind_ok.mp parsed
    obtain ⟨bits, third, parsed⟩ := except_bind_ok.mp parsed
    obtain ⟨curTime, fourth, parsed⟩ := except_bind_ok.mp parsed
    obtain ⟨height, fifth, parsed⟩ := except_bind_ok.mp parsed
    obtain ⟨coinbaseValue, sixth, parsed⟩ := except_bind_ok.mp parsed
    obtain rfl := Except.ok.inj parsed
    exact ⟨valueAsU32_ok.mp first, valueAsString_ok.mp second, valueAsString_ok.mp third, valueAsU32_ok.mp fourth,
      (minTimeOf_eq fourth).mp rfl, valueAsU64_ok.mp fifth, valueAsU64_ok.mp sixth,
      (except_mapM_ok.mp each).imp fun _ _ parsed => parseGbtTransaction_ok.mp parsed, rfl, rfl, rfl⟩
  · intro carries
    have current := valueAsU32_ok.mpr carries.curTime
    refine except_bind_ok.mpr ⟨_, except_mapM_ok.mpr (carries.transactions.imp fun _ _ => parseGbtTransaction_ok.mpr), ?_⟩
    refine except_bind_ok.mpr ⟨_, valueAsU32_ok.mpr carries.version, ?_⟩
    refine except_bind_ok.mpr ⟨_, valueAsString_ok.mpr carries.prevHash, ?_⟩
    refine except_bind_ok.mpr ⟨_, valueAsString_ok.mpr carries.bits, ?_⟩
    refine except_bind_ok.mpr ⟨_, current, ?_⟩
    refine except_bind_ok.mpr ⟨_, valueAsU64_ok.mpr carries.height, ?_⟩
    refine except_bind_ok.mpr ⟨_, valueAsU64_ok.mpr carries.coinbaseValue, ?_⟩
    rw [← (minTimeOf_eq current).mpr carries.minTime, ← carries.longpollId, ← carries.defaultWitnessCommitment, ← carries.rules]
    rfl

/-! ### What the node writes -/

def posInt (n : UInt64) : Json := .number (.posInt n)

/-- The fields of a transaction in front of others that the pool does not read. -/
def transactionFields (t : GbtReplyTransaction) : List (String × Json) :=
  [("data", .string (hexEncode t.data)), ("txid", .string t.txid), ("hash", .string t.hash), ("fee", posInt t.fee),
    ("weight", posInt t.weight)]

def optional (key : String) (value : Option String) : List (String × Json) := value.toList.map fun s => (key, .string s)

def templateFields (others : GbtReplyTransaction → List (String × Json)) (g : GbtReply) : List (String × Json) :=
  [("version", posInt g.version.toUInt64), ("rules", .array (g.rules.map .string)), ("previousblockhash", .string g.prevHash),
    ("transactions", .array (g.transactions.map fun t => .object (transactionFields t ++ others t))),
    ("coinbasevalue", posInt g.coinbaseValue), ("mintime", posInt g.minTime.toUInt64), ("curtime", posInt g.curTime.toUInt64),
    ("bits", .string g.bits), ("height", posInt g.height)] ++
    optional "longpollid" g.longpollId ++ optional "default_witness_commitment" g.defaultWitnessCommitment

theorem carriesTransaction_fields (t : GbtReplyTransaction) (others : List (String × Json)) :
    CarriesTransaction (.object (transactionFields t ++ others)) t where
  data := ⟨hexEncode t.data, rfl, hexDecode_hexEncode t.data⟩
  txid := rfl
  hash := rfl
  fee := rfl
  weight := rfl

theorem carries_fields (g : GbtReply) (others : GbtReplyTransaction → List (String × Json)) {more : List (String × Json)}
    (longpoll : more.lookup "longpollid" = none) (commitment : more.lookup "default_witness_commitment" = none) :
    Carries (.object (templateFields others g ++ more)) g where
  version := rfl
  prevHash := rfl
  bits := rfl
  curTime := rfl
  minTime := .inl rfl
  height := rfl
  coinbaseValue := rfl
  transactions := by
    show List.Forall₂ CarriesTransaction (g.transactions.map fun t => .object (transactionFields t ++ others t)) g.transactions
    rw [List.forall₂_map_left_iff]
    exact List.forall₂_same.mpr fun t _ => carriesTransaction_fields t (others t)
  longpollId := by
    have behind : (Json.object (templateFields others g ++ more)).get "longpollid" =
        ((optional "longpollid" g.longpollId ++ optional "default_witness_commitment" g.defaultWitnessCommitment) ++ more).lookup
          "longpollid" := rfl
    rw [behind]
    cases g.longpollId <;> cases g.defaultWitnessCommitment
    · exact (congrArg (fun o => o.bind Json.asStr) longpoll).symm
    · exact (congrArg (fun o => o.bind Json.asStr) longpoll).symm
    · rfl
    · rfl
  defaultWitnessCommitment := by
    have behind : (Json.object (templateFields others g ++ more)).get "default_witness_commitment" =
        ((optional "longpollid" g.longpollId ++ optional "default_witness_commitment" g.defaultWitnessCommitment) ++ more).lookup
          "default_witness_commitment" := rfl
    rw [behind]
    cases g.longpollId <;> cases g.defaultWitnessCommitment
    · exact (congrArg (fun o => o.bind Json.asStr) commitment).symm
    · rfl
    · exact (congrArg (fun o => o.bind Json.asStr) commitment).symm
    · rfl
  rules := by
    show g.rules = (g.rules.map Json.string).filterMap Json.asStr
    rw [List.filterMap_map]
    exact List.filterMap_some.symm

/-- Of the answer to `getblocktemplate`: it is accepted exactly when it carries what a template needs, and then the template
is what it carries; what a node writes for a template, with whatever else, reads back as that template; and an answer is
refused for the first of all the things that are wrong with it, so that a field named in an error is one the answer lacks or
has wrong. -/
theorem template_read_back :
    (∀ v g, getBlockTemplate v = .ok g ↔ Carries v g) ∧
    (∀ g others more, more.lookup "longpollid" = none → more.lookup "default_witness_commitment" = none →
      getBlockTemplate (.object (templateFields others g ++ more)) = .ok g) ∧
    (∀ v, (∃ g, getBlockTemplate v = .ok g) ↔ faults v = []) ∧
    ∀ v e, getBlockTemplate v = .error e ↔ (faults v).head? = some e :=
  ⟨fun _ _ => getBlockTemplate_ok,
    fun g others _ longpoll commitment => getBlockTemplate_ok.mpr (carries_fields g others longpoll commitment),
    fun _ => getBlockTemplate_first.ok_iff, fun _ e => getBlockTemplate_first.error_iff e⟩

def testReply : GbtReply where
  version := 0x20000000
  prevHash := genesisHash
  bits := "1d00ffff"
  curTime := 1700000000
  minTime := 1699999000
  height := 900000
  coinbaseValue := 312500000
  transactions := [{ data := [2, 0, 0, 0], txid := genesisHash, hash := genesisHash, fee := 1000, weight := 440 }]
  longpollId := some "7"
  defaultWitnessCommitment := none
  rules := ["csv", "!segwit"]

/-- An answer without a field is refused for the field that is read first. -/
theorem template_read_back_test :
    getBlockTemplate (.object (templateFields (fun _ => [("sigops", posInt 4)]) testReply ++ [("vbrequired", posInt 0)])) =
        .ok testReply ∧
      getBlockTemplate (.object []) = .error (.missingOrInvalid "version") :=
  ⟨template_read_back.2.1 testReply _ _ rfl rfl, (template_read_back.2.2.2 _ _).mpr rfl⟩

end SoloPool.Gbt
