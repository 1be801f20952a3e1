import SoloPool.Bitcoin.Rpc
import SoloPool.Config
import SoloPool.Lib.Run
import SoloPool.Lib.Text

/-!
# Credentials of the node

`call_with_refresh` of `bitcoin/rpc.rs` taken apart at its locks, with any number of calls side by side and a node that
restarts under a new cookie: what `callWithRefresh` of `Bitcoin/Rpc.lean` takes as given. The client is kept as the
credentials it was built with; the URL parsed once parses again.
-/

namespace SoloPool
open Lib

abbrev Cookie := String × String

/-- `read_cookie` on the contents of the file, if that can be read. -/
def readCookie (file : Option String) : Option Cookie := do
  let (user, password) ← splitOncePattern [':'] (trim (← file)).toList
  return (String.ofList user, String.ofList password)

/-- `rpc_auth`: the cookie file before explicit credentials. -/
def rpcAuth (file : Option String) (explicit : Option Cookie) : Option Cookie := readCookie file <|> explicit

/-- The node as its callers see it. -/
structure Node where
  file : Option String
  accepts : Cookie → Bool

structure Inner where
  client : Cookie
  cookie : Option Cookie

inductive RpcStage where
  | calling
  /-- The first attempt failed, whether or not its credentials were accepted. -/
  | reading (firstErr : PoolError) (through : Bool)
  | comparing (firstErr : PoolError) (through : Bool) (freshCookie : Cookie)
  | replacing (freshCookie : Cookie)
  | retrying

/-- How often the node and the client changed, recorded for the statements. -/
structure Mark where
  changes : Nat
  installs : Nat
  deriving DecidableEq

structure RpcCall where
  stage : RpcStage
  attempts : Nat
  started : Mark

/-- A call that has returned, with the node it returned under; `through` when its last attempt got past the credentials. -/
structure Returned (α : Type) where
  outcome : Result α
  through : Bool
  attempts : Nat
  started : Mark
  ended : Mark
  node : Node

/-- The client, the calls under way and the outcomes of those that have returned. -/
structure RpcClient (α : Type) where
  node : Node
  inner : Inner
  calls : List RpcCall
  mark : Mark
  returned : List (Returned α)

namespace RpcClient

variable {α : Type}

/-- The file is read twice: for the cookie to remember, when it held `before`, and for the credentials of the client. -/
def new (before : Option String) (node : Node) (explicit : Option Cookie) : Option (RpcClient α) := do
  let client ← rpcAuth node.file explicit
  return {
    node, inner := { client, cookie := readCookie before }, calls := []
    mark := { changes := 0, installs := 0 }, returned := [] }

inductive Action (α : Type) where
  /-- The node stops or starts, or its cookie file changes. -/
  | change (node : Node)
  | start
  /-- What the node answers should the next step of the call reach it. -/
  | proceed (i : Nat) (answer : Result α)

/-- The call itself, made under the read lock: without accepted credentials it fails on the transport. -/
def attempt (s : RpcClient α) (answer : Result α) : Result α × Bool :=
  if s.node.accepts s.inner.client then (answer, true) else (.err (.rpc .transport), false)

def finish (s : RpcClient α) (i : Nat) (call : RpcCall) (outcome : Result α) (through : Bool) : RpcClient α :=
  { s with
    calls := s.calls.eraseIdx i
    returned := s.returned ++ [{
      outcome, through, attempts := call.attempts, started := call.started, ended := s.mark, node := s.node }] }

def advance (s : RpcClient α) (i : Nat) (call : RpcCall) (stage : RpcStage) : RpcClient α :=
  { s with calls := s.calls.set i { call with stage } }

def proceed (s : RpcClient α) (i : Nat) (call : RpcCall) (answer : Result α) : RpcClient α :=
  match call.stage with
  | .calling =>
    let call := { call with attempts := call.attempts + 1 }
    match s.attempt answer with
    | (.err e, through) => s.advance i call (.reading e through)
    | (outcome, through) => s.finish i call outcome through
  | .reading firstErr through =>
    match readCookie s.node.file with
    | none => s.finish i call (.err firstErr) through
    | some freshCookie => s.advance i call (.comparing firstErr through freshCookie)
  | .comparing firstErr through freshCookie =>
    if s.inner.cookie = some freshCookie then s.finish i call (.err firstErr) through
    else s.advance i call (.replacing freshCookie)
  | .replacing freshCookie =>
    { s.advance i call .retrying with
      inner := { client := freshCookie, cookie := some freshCookie }
      mark := { s.mark with installs := s.mark.installs + 1 } }
  | .retrying =>
    let (outcome, through) := s.attempt answer
    s.finish i { call with attempts := call.attempts + 1 } outcome through

def step (s : RpcClient α) : Action α → Option (RpcClient α)
  | .change node => some { s with node, mark := { s.mark with changes := s.mark.changes + 1 } }
  | .start => some { s with calls := s.calls ++ [{ stage := .calling, attempts := 0, started := s.mark }] }
  | .proceed i answer => (s.calls[i]?).map fun call => s.proceed i call answer

end RpcClient

end SoloPool
