import SoloPool.Network.Wire

/-!
# The miner at the other end

What the values of a Stratum V1 session mean to the miner that reads them. The miner is no code of the source: it waits
for the answers in the order of its requests, and takes a result for what its request's method says.
-/

namespace SoloPool.Sv1
open Lib

structure Rig where
  awaiting : List StratumRequest
  extranonce1 : Option Bytes
  extranonce2Size : UInt64
  /-- The mask, while the version may be rolled. -/
  rolling : Option UInt32
  authorized : Bool
  difficulty : Option UInt64
  /-- Every job so far. -/
  works : List Notify

namespace Rig

def new : Rig where
  awaiting := []
  extranonce1 := none
  extranonce2Size := 0
  rolling := none
  authorized := false
  difficulty := none
  works := []

def send (r : Rig) (request : StratumRequest) : Rig := { r with awaiting := r.awaiting ++ [request] }

def notifyOf : List Json → Option Notify
  | [.string jobId, .string prevHash, .string coinbase1, .string coinbase2, .array branch, .string version, .string bits,
      .string ntime, .bool cleanJobs] => do
    let merkleBranch ← branch.mapM Json.asStr
    return { jobId, prevHash, coinbase1, coinbase2, merkleBranch, version, bits, ntime, cleanJobs }
  | _ => none

def hear (r : Rig) (method : String) (params : List Json) : Option Rig :=
  if method = "mining.set_difficulty" then
    match params with
    | [.number (.posInt difficulty)] => some { r with difficulty := some difficulty }
    | _ => none
  else if method = "mining.notify" then do
    let work ← notifyOf params
    return { r with works := r.works ++ [work] }
  else none

def learnSubscribe (r : Rig) : Json → Option Rig
  | .array [_, .string extranonce1Hex, .number (.posInt extranonce2Size)] =>
    match hexDecode extranonce1Hex with
    | .ok extranonce1 => some { r with extranonce1 := some extranonce1, extranonce2Size }
    | .error _ => none
  | _ => none

/-- A configuration without version rolling ends what was negotiated before. -/
def learnConfigure (r : Rig) (result : Json) : Option Rig :=
  match result.get "version-rolling" with
  | some (.bool true) => do
    let mask ← ((result.get "version-rolling.mask").bind Json.asStr).bind u32FromStrRadix16
    return { r with rolling := some mask }
  | _ => some { r with rolling := none }

/-- What a result makes of the miner that asked for it. -/
def learn (r : Rig) (method : String) (result : Json) : Option Rig :=
  if method = "mining.subscribe" then r.learnSubscribe result
  else if method = "mining.configure" then r.learnConfigure result
  else if method = "mining.authorize" then some { r with authorized := true }
  else some r

/-- What a line makes of the miner; none for a line it cannot make sense of. -/
def read (r : Rig) (line : Json) : Option Rig :=
  match line.get "method" with
  | some (.string method) => do
    let params ← (line.get "params").bind Json.asArray
    r.hear method params
  | _ =>
    match r.awaiting with
    | [] => none
    | oldest :: rest =>
      match line.get "result" with
      | some .null => some { r with awaiting := rest }
      | some result => { r with awaiting := rest }.learn oldest.method result
      | none => none

def readAll (r : Rig) (lines : List Json) : Option Rig := lines.foldlM read r

def follow (r : Rig) : Traffic → Option Rig
  | .up request => some (r.send request)
  | .down line => r.read line

def replay (traffic : List Traffic) : Option Rig := traffic.foldlM follow .new

end Rig

end SoloPool.Sv1
