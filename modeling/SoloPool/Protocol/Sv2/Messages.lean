import SoloPool.Lib.Stream
import SoloPool.Protocol.Sv2.Device

/-!
# Stratum V2 messages as bytes

`frame_bytes` and the messages the pool sends, of `protocol/sv2/messages.rs`, up to the encryption in
`NoiseWriter::send`. The crate that lays a payload out is not part of the source: it is a parameter, which follows the
layouts that `golden.rs` writes out field by field and holds the crate to. The reader at the end is what a device makes
of them.
-/

namespace SoloPool.Sv2
open Lib

/-! ### Data types -/

namespace Spec

def u16 (v : UInt16) : Bytes := leBytes 2 v.toNat

def u32 (v : UInt32) : Bytes := leBytes 4 v.toNat

def u64 (v : UInt64) : Bytes := leBytes 8 v.toNat

def bool (v : Bool) : Bytes := leBytes 1 v.toNat

def u256 (v : Hash) : Bytes := v.toList

/-- A length of `width` bytes, then the bytes; none for more of them than the type holds. -/
def counted (width limit : Nat) (v : Bytes) : Option Bytes :=
  if v.length ≤ limit then some (leBytes width v.length ++ v) else none

def str0255 : Bytes → Option Bytes := counted 1 255

def b032 : Bytes → Option Bytes := counted 1 32

def b064k : Bytes → Option Bytes := counted 2 65535

def seq0255U256 (v : List Hash) : Option Bytes :=
  if v.length ≤ 255 then some (leBytes 1 v.length ++ v.flatMap u256) else none

def optionU32 : Option UInt32 → Bytes
  | none => leBytes 1 0
  | some x => leBytes 1 1 ++ u32 x

end Spec

/-! ### Messages -/

inductive WireMessage where
  | setupConnectionSuccess (usedVersion : UInt16) (flags : UInt32)
  | setupConnectionError (flags : UInt32) (errorCode : Bytes)
  | openMiningChannelError (requestId : UInt32) (errorCode : Bytes)
  | openExtendedMiningChannelSuccess (requestId channelId : UInt32) (target : Hash) (extranonceSize : UInt16)
      (extranoncePrefix : Bytes) (groupChannelId : UInt32)
  | newExtendedMiningJob (job : NewExtendedMiningJob)
  | setNewPrevHash (activation : SetNewPrevHash)
  | setTarget (channelId : UInt32) (maximumTarget : Hash)
  | submitSharesSuccess (channelId lastSequenceNumber newSubmitsAcceptedCount : UInt32) (newSharesSum : UInt64)
  | submitSharesError (channelId sequenceNumber : UInt32) (errorCode : Bytes)
  deriving DecidableEq

namespace WireMessage

open Spec

/-- The payload field by field, unless a field is too long for its type. -/
def layout : WireMessage → Option Bytes
  | .setupConnectionSuccess usedVersion flags => some (u16 usedVersion ++ u32 flags)
  | .setupConnectionError flags errorCode => (str0255 errorCode).map (u32 flags ++ ·)
  | .openMiningChannelError requestId errorCode => (str0255 errorCode).map (u32 requestId ++ ·)
  | .openExtendedMiningChannelSuccess requestId channelId target extranonceSize extranoncePrefix groupChannelId =>
    (b032 extranoncePrefix).map fun extranonce =>
      u32 requestId ++ (u32 channelId ++ (u256 target ++ (u16 extranonceSize ++ (extranonce ++ u32 groupChannelId))))
  | .newExtendedMiningJob job => do
    let merklePath ← seq0255U256 job.merklePath
    let coinbaseTxPrefix ← b064k job.coinbaseTxPrefix
    let coinbaseTxSuffix ← b064k job.coinbaseTxSuffix
    return u32 job.channelId ++ (u32 job.jobId ++ (optionU32 job.minNtime ++ (u32 job.version ++
      (bool job.versionRollingAllowed ++ (merklePath ++ (coinbaseTxPrefix ++ coinbaseTxSuffix))))))
  | .setNewPrevHash activation =>
    some (u32 activation.channelId ++ (u32 activation.jobId ++ (u256 activation.prevHash ++
      (u32 activation.minNtime ++ u32 activation.nbits))))
  | .setTarget channelId maximumTarget => some (u32 channelId ++ u256 maximumTarget)
  | .submitSharesSuccess channelId lastSequenceNumber newSubmitsAcceptedCount newSharesSum =>
    some (u32 channelId ++ (u32 lastSequenceNumber ++ (u32 newSubmitsAcceptedCount ++ u64 newSharesSum)))
  | .submitSharesError channelId sequenceNumber errorCode =>
    (str0255 errorCode).map fun code => u32 channelId ++ (u32 sequenceNumber ++ code)

def msgType : WireMessage → UInt8
  | .setupConnectionSuccess .. => 0x01
  | .setupConnectionError .. => 0x02
  | .openMiningChannelError .. => 0x12
  | .openExtendedMiningChannelSuccess .. => 0x14
  | .submitSharesSuccess .. => 0x1c
  | .submitSharesError .. => 0x1d
  | .newExtendedMiningJob _ => 0x1f
  | .setNewPrevHash _ => 0x20
  | .setTarget .. => 0x21

/-- Whether the message is sent with the channel bit. -/
def channelMsg : WireMessage → Bool
  | .setupConnectionSuccess .. | .setupConnectionError .. | .openMiningChannelError ..
  | .openExtendedMiningChannelSuccess .. => false
  | .newExtendedMiningJob _ | .setNewPrevHash _ | .setTarget .. | .submitSharesSuccess .. | .submitSharesError .. => true

end WireMessage

/-- `binary_sv2::to_bytes` gives the layout of every message whose fields fit their types. -/
def FollowsLayout (toBytes : WireMessage → Option Bytes) : Prop :=
  ∀ m payload, m.layout = some payload → toBytes m = some payload

/-! ### Frames -/

def extType (channelMsg : Bool) : UInt16 := if channelMsg then 0x8000 else 0

/-- The header has room for three bytes of the length. -/
def frameBytes (msgType : UInt8) (channelMsg : Bool) (payload : Bytes) : Bytes :=
  Spec.u16 (extType channelMsg) ++ (leBytes 1 msgType.toNat ++ ((leBytes 4 payload.length).take 3 ++ payload))

/-- `NoiseWriter::send` up to the encryption: a frame whose header does not count its bytes is not written. -/
def WireMessage.send (toBytes : WireMessage → Option Bytes) (m : WireMessage) : Option Bytes := do
  let payload ← toBytes m
  if leNat ((leBytes 4 payload.length).take 3) = payload.length then some (frameBytes m.msgType m.channelMsg payload) else none

/-- The messages behind a frame, as the handlers build them. -/
def Frame.messages : Frame → Option (List WireMessage)
  | .setupSuccess usedVersion => some [.setupConnectionSuccess usedVersion 0]
  | .setupError code flags => some [.setupConnectionError flags (strBytes code)]
  | .openError requestId => some [.openMiningChannelError requestId (strBytes "unsupported-min-extranonce-size")]
  | .openSuccess requestId channelId target extranonceSize extranoncePrefix =>
    some [.openExtendedMiningChannelSuccess requestId channelId target (UInt16.ofNat extranonceSize) extranoncePrefix 0]
  | .job work channelId jobId future =>
    match buildNewExtendedJob work channelId jobId future with
    | .ok announced =>
      if future then
        match buildSetNewPrevHash work channelId jobId with
        | .ok activation => some [.newExtendedMiningJob announced, .setNewPrevHash activation]
        | _ => none
      else some [.newExtendedMiningJob announced]
    | _ => none
  | .futureJob work channelId jobId =>
    match buildNewExtendedJob work channelId jobId true with
    | .ok announced => some [.newExtendedMiningJob announced]
    | _ => none
  | .setTarget channelId target => some [.setTarget channelId target]
  | .submitSuccess channelId sequenceNumber sharesSum => some [.submitSharesSuccess channelId sequenceNumber 1 sharesSum]
  | .submitError channelId sequenceNumber code => some [.submitSharesError channelId sequenceNumber (strBytes code)]

/-- What the pool has written, before encryption. -/
def wire (toBytes : WireMessage → Option Bytes) (frames : List Frame) : Option (List WireMessage × Bytes) := do
  let messages ← frames.mapM Frame.messages
  let parts ← messages.flatten.mapM (WireMessage.send toBytes)
  return (messages.flatten, parts.flatten)

def Traffic.sent : Traffic → Option Frame
  | .up _ => none
  | .down frame => some frame

def Conversation.sent (s : Conversation) : List Frame := s.traffic.filterMap Traffic.sent

/-! ### The reader of a device -/

namespace Spec

def readU16 : Reader UInt16 := do return UInt16.ofNat (← readLe 2)

def readU32 : Reader UInt32 := do return UInt32.ofNat (← readLe 4)

def readU64 : Reader UInt64 := do return UInt64.ofNat (← readLe 8)

def readBool : Reader Bool := do
  let v ← readLe 1
  StateT.lift (if v = 0 then some false else if v = 1 then some true else none)

def readU256 : Reader Hash := readOctets 32

def readCounted (width : Nat) : Reader Bytes := do readBytes (← readLe width)

def readSeqU256 : Reader (List Hash) := do readMany readU256 (← readLe 1)

def readOptionU32 : Reader (Option UInt32) := do
  let count ← readLe 1
  if count = 0 then return none
  else if count = 1 then return some (← readU32)
  else StateT.lift none

end Spec

namespace WireMessage

def readPayload (msgType : UInt8) : Reader WireMessage :=
  match msgType.toNat with
  | 0x01 => do return .setupConnectionSuccess (← Spec.readU16) (← Spec.readU32)
  | 0x02 => do return .setupConnectionError (← Spec.readU32) (← Spec.readCounted 1)
  | 0x12 => do return .openMiningChannelError (← Spec.readU32) (← Spec.readCounted 1)
  | 0x14 => do
    return .openExtendedMiningChannelSuccess (← Spec.readU32) (← Spec.readU32) (← Spec.readU256) (← Spec.readU16)
      (← Spec.readCounted 1) (← Spec.readU32)
  | 0x1c => do return .submitSharesSuccess (← Spec.readU32) (← Spec.readU32) (← Spec.readU32) (← Spec.readU64)
  | 0x1d => do return .submitSharesError (← Spec.readU32) (← Spec.readU32) (← Spec.readCounted 1)
  | 0x1f => do
    return .newExtendedMiningJob {
      channelId := ← Spec.readU32, jobId := ← Spec.readU32, minNtime := ← Spec.readOptionU32
      version := ← Spec.readU32, versionRollingAllowed := ← Spec.readBool, merklePath := ← Spec.readSeqU256
      coinbaseTxPrefix := ← Spec.readCounted 2, coinbaseTxSuffix := ← Spec.readCounted 2 }
  | 0x20 => do
    return .setNewPrevHash {
      channelId := ← Spec.readU32, jobId := ← Spec.readU32, prevHash := ← Spec.readU256
      minNtime := ← Spec.readU32, nbits := ← Spec.readU32 }
  | 0x21 => do return .setTarget (← Spec.readU32) (← Spec.readU256)
  | _ => StateT.lift none

/-- A frame off the stream: its header, as many bytes as that says, and in them one message to the end. -/
def read : Reader WireMessage := do
  let ext ← Spec.readU16
  let msgType ← readLe 1
  let length ← readLe 3
  let payload ← readBytes length
  StateT.lift ((readWhole (readPayload (UInt8.ofNat msgType)) payload).filter fun m => decide (ext = extType m.channelMsg))

end WireMessage

end SoloPool.Sv2
