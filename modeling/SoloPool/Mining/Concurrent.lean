import Mathlib.Logic.Function.Basic
import SoloPool.Lib.Run
import SoloPool.Mining.Engine

/-!
# Concurrent refreshes

The engine loop and the handlers of `POST /api/settings` all call `refresh`. Here each call is a task that advances
one lock-protected block at a time: it reads the address, fetches a template, builds a job, sets `current_job`, pushes
the history and broadcasts. Task 0 is the engine loop; every other task serves one settings request after another.
-/

namespace SoloPool
open Lib

/-- A job with the call of `build_job` that returned it and the number of the fetch its template came from. -/
structure Minted (p : Process) where
  job : StratumJob
  jobId : String
  gbt : GbtResult
  address : String
  fetchedAt : Nat
  built : buildJob p.crates jobId gbt address p.pool.coinbaseTag p.pool.extranonce1Size p.pool.extranonce2Size = .ok job

/-- Where a call of `refresh` stands: with the number of updates applied when it read the address, and from the set on
with its place in the order of all sets. -/
inductive Phase (p : Process) where
  | entered (cleanJobs : Bool)
  | addressRead (cleanJobs : Bool) (address : String) (readAt : Nat)
  | fetched (cleanJobs : Bool) (address : String) (gbt : GbtResult) (fetchedAt : Nat)
  | built (cleanJobs : Bool) (minted : Minted p)
  | set (minted : Minted p) (clean : Bool) (setAt : Nat)
  | pushed (minted : Minted p) (clean : Bool) (setAt : Nat)

/-- A caller of `refresh`: the engine loop, or a settings request with its address and the number of its update. -/
inductive Caller where
  | engineLoop
  | settingsPost (address : String) (update : Nat)
  deriving DecidableEq

inductive Task (p : Process) where
  | idle
  /-- `settings_post` has applied its update and not saved it yet. -/
  | updated (address : String) (update : Nat)
  | refreshing (caller : Caller) (phase : Phase p)
  /-- `force_refresh` is done and the response not sent yet. -/
  | finished (address : String) (update : Nat)

def Caller.afterRefresh {p : Process} : Caller → Task p
  | .engineLoop => .idle
  | .settingsPost address update => .finished address update

structure Refreshes (p : Process) where
  engine : Engine
  settings : RuntimeSettings
  persisted : Option String
  tasks : Nat → Task p
  fetches : Nat
  updates : Nat
  /-- The address of the last update, once its request has returned. -/
  settled : Option String
  /-- Every job that became `current_job`, with the clean flag computed for it. -/
  sets : List (Minted p × Bool)
  pushes : Nat
  broadcasts : List JobBroadcast

namespace Refreshes

variable {p : Process}

def start (settings : RuntimeSettings) : Refreshes p where
  engine := .new
  settings := settings
  persisted := none
  tasks := fun _ => .idle
  fetches := 0
  updates := 0
  settled := none
  sets := []
  pushes := 0
  broadcasts := []

inductive Action where
  | enter (cleanJobs : Bool)
  /-- `settings_post` passes or fails its gates, then validates and applies the trimmed address. -/
  | post (t : Nat) (admitted : Bool) (coinbaseAddress : String)
  /-- `save_setting`, whether or not it succeeds, and the call of `force_refresh`. -/
  | save (t : Nat) (persists : Bool)
  | readAddress (t : Nat)
  | fetch (t : Nat) (reply : Except PoolError GbtResult)
  | build (t : Nat)
  | set (t : Nat)
  | push (t : Nat)
  | broadcast (t : Nat)
  | respond (t : Nat)

def Action.task : Action → Nat
  | .enter _ => 0
  | .post t _ _ | .save t _ | .readAddress t | .fetch t _ | .build t | .set t | .push t | .broadcast t | .respond t => t

def setTask (s : Refreshes p) (t : Nat) (task : Task p) : Refreshes p :=
  { s with tasks := Function.update s.tasks t task }

def applyUpdate (s : Refreshes p) (t : Nat) (address : String) : Refreshes p :=
  match s.settings.update p.crates address with
  | .error _ => s
  | .ok settings =>
    { s.setTask t (.updated address (s.updates + 1)) with settings, updates := s.updates + 1, settled := none }

/-- `build_job` on a fetched template; the call of `refresh` ends here unless it returns a job. -/
def buildJob (s : Refreshes p) (t : Nat) (caller : Caller) (cleanJobs : Bool) (address : String) (gbt : GbtResult)
    (fetchedAt : Nat) : Refreshes p :=
  let jobId := nextJobId (jobEpoch p.startMillis) s.engine.jobCounter
  let drawn := { s.engine with jobCounter := s.engine.jobCounter + 1 }
  match built : SoloPool.buildJob p.crates jobId gbt address p.pool.coinbaseTag p.pool.extranonce1Size
      p.pool.extranonce2Size with
  | .ok job =>
    { s.setTask t (.refreshing caller (.built cleanJobs { job, jobId, gbt, address, fetchedAt, built })) with
      engine := drawn }
  | .err why => { s.setTask t caller.afterRefresh with engine := drawn.noteTemplateFailure (.buildJob why) }
  | .panic => { s.setTask t .idle with engine := drawn }

def setCurrent (s : Refreshes p) (t : Nat) (caller : Caller) (cleanJobs : Bool) (minted : Minted p) : Refreshes p :=
  let (engine, clean) := s.engine.setCurrent minted.job cleanJobs
  { s.setTask t (.refreshing caller (.set minted clean s.sets.length)) with
    engine, sets := s.sets ++ [(minted, clean)] }

def pushHistory (s : Refreshes p) (t : Nat) (caller : Caller) (minted : Minted p) (clean : Bool) (setAt : Nat) :
    Refreshes p :=
  { s.setTask t (.refreshing caller (.pushed minted clean setAt)) with
    engine := s.engine.pushHistory minted.job clean, pushes := s.pushes + 1 }

def sendBroadcast (s : Refreshes p) (t : Nat) (caller : Caller) (minted : Minted p) (clean : Bool) : Refreshes p :=
  { s.setTask t caller.afterRefresh with broadcasts := s.broadcasts ++ [{ job := minted.job, clean }] }

def step (s : Refreshes p) : Action → Option (Refreshes p)
  | .enter cleanJobs =>
    match s.tasks 0 with
    | .idle => some (s.setTask 0 (.refreshing .engineLoop (.entered cleanJobs)))
    | _ => none
  | .post t admitted coinbaseAddress =>
    match s.tasks t with
    | .idle =>
      if t = 0 then none else if admitted then some (s.applyUpdate t (trim coinbaseAddress)) else some s
    | _ => none
  | .save t persists =>
    match s.tasks t with
    | .updated address update =>
      some { s.setTask t (.refreshing (.settingsPost address update) (.entered true)) with
        persisted := if persists then some address else s.persisted }
    | _ => none
  | .readAddress t =>
    match s.tasks t with
    | .refreshing caller (.entered cleanJobs) =>
      match s.settings.validCoinbaseAddress with
      | some address => some (s.setTask t (.refreshing caller (.addressRead cleanJobs address s.updates)))
      | none =>
        some { s.setTask t caller.afterRefresh with engine := s.engine.noteTemplateFailure .miningPaused }
    | _ => none
  | .fetch t reply =>
    match s.tasks t with
    | .refreshing caller (.addressRead cleanJobs address _) =>
      match reply with
      | .ok gbt =>
        some { s.setTask t (.refreshing caller (.fetched cleanJobs address gbt s.fetches)) with
          fetches := s.fetches + 1 }
      | .error why =>
        some { s.setTask t caller.afterRefresh with engine := s.engine.noteTemplateFailure (.getBlockTemplate why) }
    | _ => none
  | .build t =>
    match s.tasks t with
    | .refreshing caller (.fetched cleanJobs address gbt fetchedAt) =>
      some (s.buildJob t caller cleanJobs address gbt fetchedAt)
    | _ => none
  | .set t =>
    match s.tasks t with
    | .refreshing caller (.built cleanJobs minted) => some (s.setCurrent t caller cleanJobs minted)
    | _ => none
  | .push t =>
    match s.tasks t with
    | .refreshing caller (.set minted clean setAt) => some (s.pushHistory t caller minted clean setAt)
    | _ => none
  | .broadcast t =>
    match s.tasks t with
    | .refreshing caller (.pushed minted clean _) => some (s.sendBroadcast t caller minted clean)
    | _ => none
  | .respond t =>
    match s.tasks t with
    | .finished address update =>
      some { s.setTask t .idle with settled := if update = s.updates then some address else s.settled }
    | _ => none

end Refreshes

end SoloPool
