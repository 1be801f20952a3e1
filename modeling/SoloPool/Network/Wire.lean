import SoloPool.Network.Handlers
import SoloPool.Protocol.Configure

/-!
# Stratum V1 on the wire

`protocol/sv1.rs`: requests and their parameters as JSON values, the replies of `ResponseBuilder`, and the error tuples
of `error.rs`; and `handle_line` of `network/session.rs` on the text of a line. How `serde_json` reads a request from text
is a parameter, and a reply is the value whose text is sent.
-/

namespace SoloPool
open Lib

/-! ### Numbers -/

/-- `n as f64`: the nearest number of 53 bits, of two the one with an even last bit. -/
def nearestF64 (n : Nat) : Nat :=
  let shift := n.log2 + 1 - 53
  let unit : Nat := 2 ^ shift
  let low := n % unit
  let rounded := if 2 * low > unit ∨ (2 * low = unit ∧ n / unit % 2 = 1) then n / unit + 1 else n / unit
  rounded * unit

def F64.ofBits (bits : UInt64) : F64 :=
  let negative := decide (bits.toNat / 2 ^ 63 = 1)
  let exponent : Nat := bits.toNat / 2 ^ 52 % 2 ^ 11
  let fraction : Nat := bits.toNat % 2 ^ 52
  let signed (value : Rat) : F64 := .finite (if negative then -value else value)
  if exponent = 2047 then if fraction = 0 then .infinite negative else .nan
  else if exponent = 0 then signed (mkRat fraction (2 ^ 1074))
  else if exponent < 1075 then signed (mkRat (2 ^ 52 + fraction) (2 ^ (1075 - exponent)))
  else signed (mkRat ((2 ^ 52 + fraction) * 2 ^ (exponent - 1075)) 1)

def Lib.Json.asF64 : Json → Option F64
  | .number (.posInt n) => some (.finite (nearestF64 n.toNat))
  | .number (.negInt n) => some (.finite (-(nearestF64 n.toInt.natAbs : Rat)))
  | .number (.float bits) => some (.ofBits bits)
  | _ => none

/-- `as u64`, which saturates. -/
def ratAsU64 (value : Rat) : UInt64 := UInt64.ofNat (min value.floor.toNat (2 ^ 64 - 1))

namespace Sv1

/-! ### Requests -/

structure StratumRequest where
  id : Json
  method : String
  params : Json

def strAt (arr : List Json) (idx : Nat) (method field : String) : Except PoolError String :=
  match (arr[idx]?).bind Json.asStr with
  | some s => .ok s
  | none => .error (.invalidParams method s!"missing or non-string field `{field}` at index {idx}")

structure SubscribeParams where
  userAgent : Option String
  sessionId : Option String
  deriving DecidableEq

def SubscribeParams.parse (params : Json) : Except PoolError SubscribeParams :=
  .ok {
    userAgent := (params.asArray.bind (·.head?)).bind Json.asStr
    sessionId := (params.asArray.bind (·[1]?)).bind Json.asStr }

structure AuthorizeParams where
  worker : String
  password : Option String
  deriving DecidableEq

def AuthorizeParams.parse (params : Json) : Except PoolError AuthorizeParams := do
  let some arr := params.asArray | throw (.invalidParams "mining.authorize" "params must be an array")
  let some worker := arr.head?.bind Json.asStr | throw (.invalidParams "mining.authorize" "missing worker name")
  return { worker, password := (arr[1]?).bind Json.asStr }

def hexField (detail : String) : Option UInt32 → Except PoolError UInt32
  | some n => .ok n
  | none => .error (.invalidParams "mining.submit" detail)

/-- The worker's name is required, and not looked at. -/
def parseSubmit (params : Json) : Except PoolError SubmitParams := do
  let some arr := params.asArray | throw (.invalidParams "mining.submit" "params must be an array")
  let _worker ← strAt arr 0 "mining.submit" "worker"
  let jobId ← strAt arr 1 "mining.submit" "job_id"
  let en2Hex ← strAt arr 2 "mining.submit" "extranonce2"
  let ntimeHex ← strAt arr 3 "mining.submit" "ntime"
  let nonceHex ← strAt arr 4 "mining.submit" "nonce"
  let .ok extranonce2 := hexDecode en2Hex | throw (.invalidParams "mining.submit" "extranonce2 is not valid hex")
  let ntime ← hexField "ntime is not valid hex u32" (u32FromStrRadix16 ntimeHex)
  let nonce ← hexField "nonce is not valid hex u32" (u32FromStrRadix16 nonceHex)
  return { jobId, extranonce2, ntime, nonce, versionBits := ((arr[5]?).bind Json.asStr).bind u32FromStrRadix16 }

/-- A number, alone or first in an array. -/
def parseSuggestDifficulty (params : Json) : Except PoolError UInt64 :=
  match (((params.asArray.bind (·.head?)).or (some params)).bind Json.asF64) with
  | none => .error (.invalidParams "mining.suggest_difficulty" "expected a numeric difficulty")
  | some (.finite d) =>
    if d < 1 then .error (.invalidParams "mining.suggest_difficulty" "difficulty must be a finite number >= 1")
    else .ok (ratAsU64 d)
  | some _ => .error (.invalidParams "mining.suggest_difficulty" "difficulty must be a finite number >= 1")

def ClientMessage.fromRequest (req : StratumRequest) : Except PoolError ClientMessage :=
  match req.method with
  | "mining.subscribe" => do
    let _params ← SubscribeParams.parse req.params
    return .subscribe
  | "mining.authorize" => do
    let params ← AuthorizeParams.parse req.params
    return .authorize params.worker
  | "mining.submit" => do
    let params ← parseSubmit req.params
    return .submit params
  | "mining.configure" => .ok (.configure (ConfigureFields.parse req.params).params)
  | "mining.suggest_difficulty" => do
    let difficulty ← parseSuggestDifficulty req.params
    return .suggestDifficulty difficulty
  | other => .ok (.unknown other)

/-! ### Replies -/

def number (n : Nat) : Json := .number (.posInt (UInt64.ofNat n))

inductive StratumErrCode where
  | unknown
  | jobNotFound
  | duplicateShare
  | lowDifficultyShare
  | unauthorized
  | notSubscribed

def StratumErrCode.code : StratumErrCode → Nat
  | unknown => 20
  | jobNotFound => 21
  | duplicateShare => 22
  | lowDifficultyShare => 23
  | unauthorized => 24
  | notSubscribed => 25

def StratumErrCode.message : StratumErrCode → String
  | unknown => "Unknown problem"
  | jobNotFound => "Job not found"
  | duplicateShare => "Duplicate share"
  | lowDifficultyShare => "Low difficulty share"
  | unauthorized => "Unauthorized worker"
  | notSubscribed => "Not subscribed"

def stratumErrCode : PoolError → StratumErrCode
  | .staleJob _ => .jobNotFound
  | .duplicateShare => .duplicateShare
  | .lowDifficulty => .lowDifficultyShare
  | .notAuthorized => .unauthorized
  | .notSubscribed => .notSubscribed
  | _ => .unknown

def errorTuple (code : StratumErrCode) (message : String) : Json := .array [number code.code, .string message, .null]

-- A wrong extranonce size keeps the unknown code, with a text of its own.
def toStratumError : PoolError → Json
  | .badExtranonceSize got expected =>
    errorTuple .unknown s!"Wrong extranonce2 size: got {got} bytes, expected {expected}"
  | e => errorTuple (stratumErrCode e) (stratumErrCode e).message

namespace ResponseBuilder

def ok (id result : Json) : Json := .object [("id", id), ("result", result), ("error", .null)]

def err (id error : Json) : Json := .object [("id", id), ("result", .null), ("error", error)]

def notification (method : String) (params : List Json) : Json :=
  .object [("id", .null), ("method", .string method), ("params", .array params)]

def subscribe (id : Json) (sessionId extranonce1Hex : String) (extranonce2Size : Nat) : Json :=
  ok id (.array [
    .array [
      .array [.string "mining.set_difficulty", .string sessionId],
      .array [.string "mining.notify", .string sessionId]],
    .string extranonce1Hex, number extranonce2Size])

def configure (id : Json) (versionRolling : Bool) (ourMask : UInt32) (minDifficulty : Option UInt64)
    (subscribeExtranonce : Bool) : Json :=
  ok id (.object (
    (if versionRolling then
      [("version-rolling", .bool true), ("version-rolling.mask", .string (hex08 ourMask))] else []) ++
    (match minDifficulty with
      | some md => [("minimum-difficulty", .bool true), ("minimum-difficulty.value", .number (.posInt md))]
      | none => []) ++
    (if subscribeExtranonce then [("subscribe-extranonce", .bool true)] else [])))

def setDifficulty (difficulty : UInt64) : Json := notification "mining.set_difficulty" [.number (.posInt difficulty)]

def notify (n : Notify) : Json :=
  notification "mining.notify" [
    .string n.jobId, .string n.prevHash, .string n.coinbase1, .string n.coinbase2,
    .array (n.merkleBranch.map .string), .string n.version, .string n.bits, .string n.ntime, .bool n.cleanJobs]

end ResponseBuilder

/-- What the reply to a request is made with, besides what the handler decided. -/
structure ReplyContext where
  id : Json
  sessionId : String
  subscribeExtranonce : Bool

def Line.render (ctx : ReplyContext) : Line → Json
  | .ok => ResponseBuilder.ok ctx.id (.bool true)
  | .err e => ResponseBuilder.err ctx.id (toStratumError e)
  | .unknownMethod _ => ResponseBuilder.err ctx.id (errorTuple .unknown StratumErrCode.unknown.message)
  | .configured versionRolling mask minimumDifficulty =>
    ResponseBuilder.configure ctx.id versionRolling mask (some minimumDifficulty) ctx.subscribeExtranonce
  | .subscribed extranonce1 extranonce2Size => ResponseBuilder.subscribe ctx.id ctx.sessionId extranonce1 extranonce2Size
  | .setDifficulty difficulty => ResponseBuilder.setDifficulty difficulty
  | .notify job cleanJobs => ResponseBuilder.notify (buildNotify job cleanJobs)

/-! ### Lines -/

/-- `StratumRequest::parse`. -/
abbrev Parse := String → Option StratumRequest

/-- The request on a line that is not blank. -/
def requestOn (parse : Parse) (line : String) : Option StratumRequest :=
  if (trim line).isEmpty then none else parse line

def clientLine (parse : Parse) (line : String) : ClientLine :=
  if (trim line).isEmpty then .blank
  else
    match parse line with
    | none => .malformed
    | some req =>
      match ClientMessage.fromRequest req with
      | .error e => .invalid e
      | .ok message => .message message

def replyContext (sessionId : String) (request : Option StratumRequest) : ReplyContext where
  id := (request.map (·.id)).getD .null
  sessionId := sessionId
  subscribeExtranonce := ((request.map (·.params)).map (fun params => (ConfigureFields.parse params).subscribeExtranonce)).getD false

/-- `handle_line` with the values that are written. -/
def handleText (parse : Parse) (sessionId : String) (env : Env) (token : Bool) (m : Miner Session) (line : String) :
    Result (Handled Session Json) := do
  let handled ← handleLine env token m (clientLine parse line)
  return { handled with sent := handled.sent.map (Line.render (replyContext sessionId (requestOn parse line))) }

/-! ### One session's loop -/

/-- A request that was read, or a value that was written. -/
inductive Traffic where
  | up (request : StratumRequest)
  | down (line : Json)

def requestsIn (traffic : List Traffic) : List Json :=
  traffic.filterMap fun
    | .up request => some request.id
    | .down _ => none

def writtenIn (traffic : List Traffic) : List Json :=
  traffic.filterMap fun
    | .up _ => none
    | .down line => some line

structure Conversation where
  miner : Miner Session
  traffic : List Traffic
  closed : Bool

namespace Conversation

inductive Event where
  | line (env : Env) (token : Bool) (text : String)
  | cacheJob (current : Option StratumJob)
  | broadcast (b : JobBroadcast)
  | retarget (retarget : RetargetStep) (now : Instant)
  /-- The calls of a handler are made, among those of other sessions; they leave the share record as it may be. -/
  | calls (history : ShareHistory)
  /-- A deadline, the end of the reader or of the broadcasts, or a panic. -/
  | leave
  /-- A write fails in a turn: only this much of what the turn adds to the traffic gets through. -/
  | breaks (turn : Event) (written : Nat)

def start (cfg : Config) (extranonce1 : Bytes) (now : Instant) : Conversation where
  miner := .new cfg (.new cfg extranonce1) now
  traffic := []
  closed := false

/-- The ids of the requests that were read. -/
def requests (s : Conversation) : List Json := requestsIn s.traffic

def written (s : Conversation) : List Json := writtenIn s.traffic

/-- The handler's lines go out and the loop goes on or ends; a panic ends it too. -/
def settle (s : Conversation) : Result (Handled Session Json) → Conversation
  | .ok handled =>
    { miner := handled.miner, traffic := s.traffic ++ handled.sent.map .down, closed := handled.disconnect.isSome }
  | .err _ | .panic => { s with closed := true }

-- Neither arm answers a request.
def announce (handled : Handled Session Line) : Handled Session Json :=
  { handled with sent := handled.sent.map (Line.render (replyContext "" none)) }

/-- A line without a token is not parsed. -/
def receive (parse : Parse) (s : Conversation) (token : Bool) (text : String) : Conversation :=
  { s with traffic := s.traffic ++ (if token then requestOn parse text else none).toList.map .up }

def turn (parse : Parse) (sessionId : String) (s : Conversation) : Event → Option Conversation
  | .line env token text => some ((s.receive parse token text).settle (handleText parse sessionId env token s.miner text))
  | .cacheJob current => some { s with miner := { s.miner with session := s.miner.session.cacheJob current } }
  | .broadcast b => some (s.settle (.ok (announce (handleBroadcast s.miner b))))
  | .retarget retarget now =>
    if s.miner.session.subscribed && s.miner.session.authorized then
      some (s.settle (do
        let handled ← handleRetarget retarget now s.miner
        return announce handled))
    else none
  | .calls history => some { s with miner := s.miner.setHistory history }
  | .leave => some { s with closed := true }
  | .breaks event written =>
    (s.turn parse sessionId event).map fun t =>
      { t with traffic := t.traffic.take (s.traffic.length + written), closed := true }

def step (parse : Parse) (sessionId : String) (s : Conversation) (event : Event) : Option Conversation :=
  if s.closed then none else s.turn parse sessionId event

end Conversation

end Sv1

end SoloPool
