import SoloPool.Lib.Run

/-!
# New blocks

`bitcoin/zmq.rs`: the listener that is told of new blocks, the poll that asks for the tip, and the verdict of the poll on
a listener that hears nothing. Each access to the second the two share is a step, and each reading of the clock; seconds
are those of the wall clock.
-/

namespace SoloPool
open Lib

def zmqGraceSecs : UInt64 := 10

inductive ZmqVerdict where
  | delivered
  | pending
  | silent
  deriving DecidableEq

def pollSlackSecs (pollIntervalMs : UInt64) : UInt64 := UInt64.ofNat ((pollIntervalMs.toNat + 999) / 1000) + 1

def zmqVerdict (zmqLastSeen observedAt now slack : UInt64) : ZmqVerdict :=
  if zmqLastSeen + slack ≥ observedAt then .delivered
  else if now.toNat - observedAt.toNat > zmqGraceSecs.toNat then .silent
  else .pending

/-- A message of the subscription: the second the listener read for it, and the one in which it stored it. -/
structure Notice where
  stampedAt : UInt64
  storedAt : UInt64
  deriving DecidableEq

/-- The verdict that the subscription is silent: when the tip change was observed, when the last message was looked up
and when the subscription was given up. -/
structure Alarm where
  observedAt : UInt64
  lookedAt : UInt64
  raisedAt : UInt64
  deriving DecidableEq

/-- Where the poll stands in its loop. -/
inductive PollPhase where
  | top
  /-- It has loaded the second of the last message and has yet to read the clock. -/
  | judging (heard : UInt64)
  /-- It waits for the node. -/
  | asking
  deriving DecidableEq

/-- The variables of `run_poll_fallback`, the second the listener has read and not yet stored, and the shared second of
the last message. Every message, the tips the node answered with, the signals the poll sent and its alarms are recorded
for the statements, and when the poll last looked and which messages were stored then. -/
structure TipWatch where
  lastHash : String
  seq : UInt64
  awaitingZmq : Option UInt64
  phase : PollPhase
  stamped : Option UInt64
  zmqLastSeen : UInt64
  clock : UInt64
  notices : List Notice
  lookedAt : UInt64
  known : List Notice
  tips : List String
  signals : Nat
  alarms : List Alarm

namespace TipWatch

inductive Event where
  /-- The listener has a message and reads the clock. -/
  | stamp
  | store
  /-- The poll starts over; with a change of the tip to judge it loads the second of the last message. -/
  | look
  | judge
  /-- The node's answer, if it gave one; the loop sleeps and starts over. -/
  | answer (bestBlockHash : Option String)

def start (now : UInt64) : TipWatch where
  lastHash := ""
  seq := 0
  awaitingZmq := none
  phase := .top
  stamped := none
  zmqLastSeen := 0
  clock := now
  notices := []
  lookedAt := now
  known := []
  tips := []
  signals := 0
  alarms := []

def judge (slack heard : UInt64) (s : TipWatch) : TipWatch :=
  match s.awaitingZmq with
  | none => s
  | some observedAt =>
    match zmqVerdict heard observedAt s.clock slack with
    | .pending => s
    | .delivered => { s with awaitingZmq := none }
    | .silent =>
      { s with
        awaitingZmq := none
        alarms := s.alarms ++ [{ observedAt, lookedAt := s.lookedAt, raisedAt := s.clock }] }

/-- The first tip is what the poll starts from; later ones are due on the subscription. -/
def observe (s : TipWatch) (hash : String) : TipWatch :=
  if hash ≠ s.lastHash then
    { s with
      awaitingZmq := if !s.lastHash.isEmpty && s.awaitingZmq.isNone then some s.clock else s.awaitingZmq
      lastHash := hash, seq := s.seq + 1, signals := s.signals + 1 }
  else s

def act (slack : UInt64) (s : TipWatch) : Event → Option TipWatch
  | .stamp => if s.stamped = none then some { s with stamped := some s.clock } else none
  | .store =>
    s.stamped.map fun stampedAt =>
      { s with
        stamped := none, zmqLastSeen := stampedAt
        notices := s.notices ++ [{ stampedAt, storedAt := s.clock }] }
  | .look =>
    if s.phase = .top then
      some { s with
        phase := if s.awaitingZmq.isSome then .judging s.zmqLastSeen else .asking
        lookedAt := s.clock, known := s.notices }
    else none
  | .judge =>
    match s.phase with
    | .judging heard => some { s.judge slack heard with phase := .asking }
    | _ => none
  | .answer hash =>
    if s.phase = .asking then
      some (match hash with
        | none => { s with phase := .top }
        | some hash => { s.observe hash with phase := .top, tips := s.tips ++ [hash] })
    else none

/-- A step at a second of the wall clock, which does not go back. -/
def step (slack : UInt64) (s : TipWatch) (event : UInt64 × Event) : Option TipWatch :=
  if s.clock ≤ event.1 then act slack { s with clock := event.1 } event.2 else none

end TipWatch

end SoloPool
