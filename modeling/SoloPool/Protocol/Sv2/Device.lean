import SoloPool.Protocol.Sv2.Handlers

/-!
# A channel and its device

The loop of `run` in `protocol/sv2/mod.rs` over one session, and the device at the other end. The device is no code of
the source: it is what the frames mean to a device that waits for its answers in the order of its requests and takes
nothing for a channel it has not been given.
-/

namespace SoloPool.Sv2
open Lib

/-! ### The device -/

/-- A request that the pool answers. -/
inductive Awaited where
  | setup
  | channel (requestId : UInt32)
  | share (sequenceNumber : UInt32)
  deriving DecidableEq

structure Channel where
  id : UInt32
  extranonceSize : Nat
  extranoncePrefix : Bytes
  target : Hash

structure Device where
  awaiting : List Awaited
  connected : Bool
  channel : Option Channel
  /-- Every job so far, under the id it came with. -/
  jobs : List (UInt32 × StratumJob)

namespace Device

def new : Device := { awaiting := [], connected := false, channel := none, jobs := [] }

def send (d : Device) : ClientFrame → Device
  | .setupConnection _ => { d with awaiting := d.awaiting ++ [.setup] }
  | .openExtended request => { d with awaiting := d.awaiting ++ [.channel request.requestId] }
  | .submitExtended submit => { d with awaiting := d.awaiting ++ [.share submit.sequenceNumber] }
  | .malformed | .other => d

/-- An answer is one to the oldest request that has none. -/
def answered (d : Device) (a : Awaited) : Option Device :=
  match d.awaiting with
  | oldest :: rest => if oldest = a then some { d with awaiting := rest } else none
  | [] => none

def onChannel (d : Device) (channelId : UInt32) : Option Channel := d.channel.filter (fun ch => ch.id == channelId)

/-- What a frame makes of the device; none for a frame it cannot make sense of. -/
def read (d : Device) : Frame → Option Device
  | .setupSuccess _ => do
    let d ← d.answered .setup
    return { d with connected := true }
  | .setupError .. => d.answered .setup
  | .openError requestId => d.answered (.channel requestId)
  | .openSuccess requestId channelId target extranonceSize extranoncePrefix => do
    let d ← d.answered (.channel requestId)
    if d.connected then some { d with channel := some { id := channelId, extranonceSize, extranoncePrefix, target } } else none
  | .job job channelId jobId _ | .futureJob job channelId jobId => do
    let _ ← d.onChannel channelId
    return { d with jobs := d.jobs ++ [(jobId, job)] }
  | .setTarget channelId target => do
    let ch ← d.onChannel channelId
    return { d with channel := some { ch with target } }
  | .submitSuccess channelId sequenceNumber _ | .submitError channelId sequenceNumber _ => do
    let _ ← d.onChannel channelId
    d.answered (.share sequenceNumber)

def readAll (d : Device) (frames : List Frame) : Option Device := frames.foldlM read d

end Device

/-- A frame of either side, in the order the session reads and writes them. -/
inductive Traffic where
  | up (frame : ClientFrame)
  | down (frame : Frame)

def Device.follow (d : Device) : Traffic → Option Device
  | .up frame => some (d.send frame)
  | .down frame => d.read frame

def Device.replay (traffic : List Traffic) : Option Device := traffic.foldlM Device.follow .new

/-! ### One session's loop -/

structure Conversation where
  miner : Miner Session
  traffic : List Traffic
  closed : Bool

namespace Conversation

inductive Event where
  /-- The counters are shared by all sessions. -/
  | frame (env : Env) (counters : Counters) (token : Bool) (frame : ClientFrame)
  | cacheJob (current : Option StratumJob)
  | broadcast (b : JobBroadcast)
  | retarget (retarget : RetargetStep) (now : Instant)
  /-- The calls of a handler are made, among those of other sessions; they leave the share record as it may be. -/
  | calls (history : ShareHistory)
  /-- A deadline, the end of the reader or of the broadcasts, a frame larger than allowed or a panic. -/
  | leave
  /-- A write fails in a turn: only this much of what the turn adds to the traffic gets through. -/
  | breaks (turn : Event) (written : Nat)

def start (cfg : Config) (extranoncePrefix : Bytes) (now : Instant) : Conversation where
  miner := .new cfg (.new cfg extranoncePrefix) now
  traffic := []
  closed := false

/-- The handler's frames go out and the loop goes on or ends; a panic ends it too. -/
def settle (s : Conversation) : Result (Handled Session Frame) → Conversation
  | .ok handled =>
    { miner := handled.miner, traffic := s.traffic ++ handled.sent.map .down, closed := handled.disconnect.isSome }
  | .err _ | .panic => { s with closed := true }

def receive (s : Conversation) (frame : ClientFrame) : Conversation := { s with traffic := s.traffic ++ [.up frame] }

def turn (s : Conversation) : Event → Option Conversation
  | .frame env counters token frame => some ((s.receive frame).settle (.ok (handleMessage env counters token s.miner frame).1))
  | .cacheJob current => some { s with miner := { s.miner with session := s.miner.session.cacheJob current } }
  | .broadcast b => some (s.settle (.ok (handleBroadcast s.miner b)))
  | .retarget retarget now =>
    if s.miner.session.channelOpen then some (s.settle (handleRetarget retarget now s.miner)) else none
  | .calls history => some { s with miner := s.miner.setHistory history }
  | .leave => some { s with closed := true }
  | .breaks event written =>
    (s.turn event).map fun t => { t with traffic := t.traffic.take (s.traffic.length + written), closed := true }

def step (s : Conversation) (event : Event) : Option Conversation := if s.closed then none else s.turn event

end Conversation

end SoloPool.Sv2
