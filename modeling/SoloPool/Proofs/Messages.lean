import SoloPool.Proofs.HonestShare
import SoloPool.Protocol.Sv2.Messages

/-!
# What the pool writes reads back

Every frame a session sends can be laid out as bytes, none outgrows the length in its header, and a device that reads
the stream takes the same messages off it, however the bytes arrive.
-/

namespace SoloPool.Sv2
open Lib

/-! ### Data types -/

namespace Spec

theorem reads_u16 (v : UInt16) : Reads readU16 (u16 v) v := by
  have value := (Reads.le (show v.toNat < 256 ^ 2 from v.toNat_lt)).map UInt16.ofNat
  rwa [UInt16.ofNat_toNat] at value

theorem reads_u32 (v : UInt32) : Reads readU32 (u32 v) v := by
  have value := (Reads.le (show v.toNat < 256 ^ 4 from v.toNat_lt)).map UInt32.ofNat
  rwa [UInt32.ofNat_toNat] at value

theorem reads_u64 (v : UInt64) : Reads readU64 (u64 v) v := by
  have value := (Reads.le (show v.toNat < 256 ^ 8 from v.toNat_lt)).map UInt64.ofNat
  rwa [UInt64.ofNat_toNat] at value

theorem reads_bool (v : Bool) : Reads readBool (bool v) v := by
  have small : v.toNat < 256 ^ 1 := by cases v <;> decide
  have value : Reads readBool (leBytes 1 v.toNat ++ []) v := Reads.bind (Reads.le small) (.lift (by cases v <;> rfl))
  rwa [List.append_nil] at value

theorem reads_counted {width limit : Nat} {v bytes : Bytes} (room : limit < 256 ^ width)
    (counts : counted width limit v = some bytes) : Reads (readCounted width) bytes v := by
  obtain ⟨fits, counted⟩ := Option.ite_none_right_eq_some.mp counts
  obtain rfl := Option.some.inj counted
  exact (Reads.le (Nat.lt_of_le_of_lt fits room)).bind (.bytes_of v)

theorem reads_seq {v : List Hash} {bytes : Bytes} (counts : seq0255U256 v = some bytes) : Reads readSeqU256 bytes v := by
  obtain ⟨fits, counted⟩ := Option.ite_none_right_eq_some.mp counts
  obtain rfl := Option.some.inj counted
  exact (Reads.le (show v.length < 256 ^ 1 by omega)).bind (.many fun hash _ => .octets hash)

theorem reads_option (v : Option UInt32) : Reads readOptionU32 (optionU32 v) v := by
  cases v with
  | none =>
    have value : Reads readOptionU32 (leBytes 1 0 ++ []) none := Reads.bind (Reads.le (by decide)) (.pure none)
    rwa [List.append_nil] at value
  | some x => exact Reads.bind (Reads.le (by decide)) ((reads_u32 x).map some)

theorem counted_length {width limit : Nat} {v bytes : Bytes} (counts : counted width limit v = some bytes) :
    bytes.length ≤ width + limit := by
  obtain ⟨fits, counted⟩ := Option.ite_none_right_eq_some.mp counts
  obtain rfl := Option.some.inj counted
  rw [List.length_append, length_leBytes]
  omega

theorem seq_length {v : List Hash} {bytes : Bytes} (counts : seq0255U256 v = some bytes) : bytes.length ≤ 1 + 255 * 32 := by
  obtain ⟨fits, counted⟩ := Option.ite_none_right_eq_some.mp counts
  obtain rfl := Option.some.inj counted
  have each : v.map (fun hash => (u256 hash).length) = v.map fun _ => 32 :=
    List.map_congr_left fun hash _ => hash.length_toList
  have wide : (v.flatMap u256).length = v.length * 32 := by
    rw [List.length_flatMap, each, List.map_const', List.sum_replicate]
    rfl
  rw [List.length_append, length_leBytes, wide]
  omega

theorem option_length (v : Option UInt32) : (optionU32 v).length ≤ 5 := by
  cases v with
  | none => simp [optionU32]
  | some x => simp [optionU32, u32]

end Spec

/-! ### Messages -/

namespace WireMessage

open Spec

theorem readPayload_layout {m : WireMessage} {payload : Bytes} (encoded : m.layout = some payload) :
    Reads (readPayload m.msgType) payload m := by
  cases m with
  | setupConnectionSuccess usedVersion flags =>
    obtain rfl := Option.some.inj encoded
    exact (reads_u16 usedVersion).bind ((reads_u32 flags).map _)
  | setupConnectionError flags errorCode =>
    obtain ⟨code, counts, rfl⟩ := Option.map_eq_some_iff.mp encoded
    exact (reads_u32 flags).bind ((reads_counted (by decide) counts).map _)
  | openMiningChannelError requestId errorCode =>
    obtain ⟨code, counts, rfl⟩ := Option.map_eq_some_iff.mp encoded
    exact (reads_u32 requestId).bind ((reads_counted (by decide) counts).map _)
  | openExtendedMiningChannelSuccess requestId channelId target extranonceSize extranoncePrefix groupChannelId =>
    obtain ⟨extranonce, counts, rfl⟩ := Option.map_eq_some_iff.mp encoded
    exact (reads_u32 requestId).bind ((reads_u32 channelId).bind ((Reads.octets target).bind
      ((reads_u16 extranonceSize).bind ((reads_counted (by decide) counts).bind ((reads_u32 groupChannelId).map _)))))
  | newExtendedMiningJob job =>
    obtain ⟨merklePath, path, rest⟩ := Option.bind_eq_some_iff.mp encoded
    obtain ⟨coinbaseTxPrefix, front, rest⟩ := Option.bind_eq_some_iff.mp rest
    obtain ⟨coinbaseTxSuffix, back, rest⟩ := Option.bind_eq_some_iff.mp rest
    obtain rfl := Option.some.inj rest
    exact (reads_u32 job.channelId).bind ((reads_u32 job.jobId).bind ((reads_option job.minNtime).bind
      ((reads_u32 job.version).bind ((reads_bool job.versionRollingAllowed).bind ((reads_seq path).bind
        ((reads_counted (by decide) front).bind ((reads_counted (by decide) back).map _)))))))
  | setNewPrevHash activation =>
    obtain rfl := Option.some.inj encoded
    exact (reads_u32 activation.channelId).bind ((reads_u32 activation.jobId).bind ((Reads.octets activation.prevHash).bind
      ((reads_u32 activation.minNtime).bind ((reads_u32 activation.nbits).map _))))
  | setTarget channelId maximumTarget =>
    obtain rfl := Option.some.inj encoded
    exact (reads_u32 channelId).bind ((Reads.octets maximumTarget).map _)
  | submitSharesSuccess channelId lastSequenceNumber newSubmitsAcceptedCount newSharesSum =>
    obtain rfl := Option.some.inj encoded
    exact (reads_u32 channelId).bind ((reads_u32 lastSequenceNumber).bind ((reads_u32 newSubmitsAcceptedCount).bind
      ((reads_u64 newSharesSum).map _)))
  | submitSharesError channelId sequenceNumber errorCode =>
    obtain ⟨code, counts, rfl⟩ := Option.map_eq_some_iff.mp encoded
    exact (reads_u32 channelId).bind ((reads_u32 sequenceNumber).bind ((reads_counted (by decide) counts).map _))

/-- The longest payload is a job with a full merkle path and both halves of the coinbase as long as they may be. -/
theorem layout_length {m : WireMessage} {payload : Bytes} (encoded : m.layout = some payload) : payload.length < 2 ^ 24 := by
  have u16s : ∀ v, (u16 v).length = 2 := fun v => length_leBytes ..
  have u32s : ∀ v, (u32 v).length = 4 := fun v => length_leBytes ..
  have u64s : ∀ v, (u64 v).length = 8 := fun v => length_leBytes ..
  have bools : ∀ v, (bool v).length = 1 := fun v => length_leBytes ..
  have hashes : ∀ v, (u256 v).length = 32 := fun v => v.length_toList
  cases m with
  | setupConnectionSuccess usedVersion flags =>
    obtain rfl := Option.some.inj encoded
    simp only [List.length_append, u16s, u32s]
    omega
  | setupConnectionError flags errorCode =>
    obtain ⟨code, counts, rfl⟩ := Option.map_eq_some_iff.mp encoded
    have := counted_length counts
    simp only [List.length_append, u32s]
    omega
  | openMiningChannelError requestId errorCode =>
    obtain ⟨code, counts, rfl⟩ := Option.map_eq_some_iff.mp encoded
    have := counted_length counts
    simp only [List.length_append, u32s]
    omega
  | openExtendedMiningChannelSuccess requestId channelId target extranonceSize extranoncePrefix groupChannelId =>
    obtain ⟨extranonce, counts, rfl⟩ := Option.map_eq_some_iff.mp encoded
    have := counted_length counts
    simp only [List.length_append, u16s, u32s, hashes]
    omega
  | newExtendedMiningJob job =>
    obtain ⟨merklePath, path, rest⟩ := Option.bind_eq_some_iff.mp encoded
    obtain ⟨coinbaseTxPrefix, front, rest⟩ := Option.bind_eq_some_iff.mp rest
    obtain ⟨coinbaseTxSuffix, back, rest⟩ := Option.bind_eq_some_iff.mp rest
    obtain rfl := Option.some.inj rest
    have := seq_length path
    have := counted_length front
    have := counted_length back
    have := option_length job.minNtime
    simp only [List.length_append, u32s, bools]
    omega
  | setNewPrevHash activation =>
    obtain rfl := Option.some.inj encoded
    simp only [List.length_append, u32s, hashes]
    omega
  | setTarget channelId maximumTarget =>
    obtain rfl := Option.some.inj encoded
    simp only [List.length_append, u32s, hashes]
    omega
  | submitSharesSuccess channelId lastSequenceNumber newSubmitsAcceptedCount newSharesSum =>
    obtain rfl := Option.some.inj encoded
    simp only [List.length_append, u32s, u64s]
    omega
  | submitSharesError channelId sequenceNumber errorCode =>
    obtain ⟨code, counts, rfl⟩ := Option.map_eq_some_iff.mp encoded
    have := counted_length counts
    simp only [List.length_append, u32s]
    omega

variable {toBytes : WireMessage → Option Bytes}

theorem send_eq (follows : FollowsLayout toBytes) {m : WireMessage} {payload : Bytes} (encoded : m.layout = some payload) :
    m.send toBytes = some (u16 (extType m.channelMsg) ++ (leBytes 1 m.msgType.toNat ++ (leBytes 3 payload.length ++ payload))) := by
  have counts : leNat ((leBytes 4 payload.length).take 3) = payload.length :=
    leNat_leBytes_of_lt (show payload.length < 256 ^ 3 from layout_length encoded)
  rw [send, follows m payload encoded, Option.bind_eq_bind, Option.bind_some, if_pos counts]
  rfl

/-- A message with a layout is sent, and is taken off the stream again. -/
theorem send_read (follows : FollowsLayout toBytes) {m : WireMessage} {payload : Bytes} (encoded : m.layout = some payload) :
    ∃ frame, m.send toBytes = some frame ∧ Delimits read frame m ∧ frame ≠ [] := by
  refine ⟨_, send_eq follows encoded, ?_⟩
  have ext : Delimits readU16 (u16 (extType m.channelMsg)) (extType m.channelMsg) := by
    have value := (Delimits.le (show (extType m.channelMsg).toNat < 256 ^ 2 from (extType m.channelMsg).toNat_lt)).map UInt16.ofNat
    rwa [UInt16.ofNat_toNat] at value
  have whole : ((readWhole (readPayload (UInt8.ofNat m.msgType.toNat)) payload).filter fun m' =>
      decide (extType m.channelMsg = extType m'.channelMsg)) = some m := by
    rw [UInt8.ofNat_toNat, (readPayload_layout encoded).whole, Option.filter_some, if_pos (decide_eq_true rfl)]
  have message : Delimits read (u16 (extType m.channelMsg) ++ (leBytes 1 m.msgType.toNat ++ (leBytes 3 payload.length ++
      (payload ++ [])))) m :=
    ext.bind ((Delimits.le (show m.msgType.toNat < 256 ^ 1 from m.msgType.toNat_lt)).bind
      ((Delimits.le (show payload.length < 256 ^ 3 from layout_length encoded)).bind
        ((Delimits.bytes_of payload).bind (.lift whole))))
  rw [List.append_nil] at message
  exact ⟨message, by simp [u16, leBytes]⟩

theorem read_nil : read.run [] = none := rfl

end WireMessage

/-! ### Frames -/

/-- The extranonce size of an opened channel is said in two bytes. -/
def Frame.WidthFits : Frame → Prop
  | .openSuccess _ _ _ extranonceSize _ => extranonceSize < 2 ^ 16
  | _ => True

/-- Whatever the frame says can be laid out. -/
structure Frame.Sendable (frame : Frame) : Prop where
  laid : ∃ messages, frame.messages = some messages ∧ ∀ m ∈ messages, ∃ payload, m.layout = some payload
  width : frame.WidthFits

theorem counted_some {width limit : Nat} {v : Bytes} (fits : v.length ≤ limit) :
    ∃ bytes, Spec.counted width limit v = some bytes := ⟨_, if_pos fits⟩

theorem Frame.Sendable.one {frame : Frame} {m : WireMessage} {payload : Bytes} (message : frame.messages = some [m])
    (encoded : m.layout = some payload) (width : frame.WidthFits) : frame.Sendable :=
  ⟨⟨[m], message, by simpa using ⟨payload, encoded⟩⟩, width⟩

theorem setupError_sendable {code : String} (flags : UInt32) (short : (strBytes code).length ≤ 255) :
    (Frame.setupError code flags).Sendable := by
  obtain ⟨bytes, counts⟩ : ∃ bytes, Spec.str0255 (strBytes code) = some bytes := counted_some short
  exact .one rfl (Option.map_eq_some_iff.mpr ⟨bytes, counts, rfl⟩) trivial

theorem submitError_sendable {code : String} (channelId sequenceNumber : UInt32) (short : (strBytes code).length ≤ 255) :
    (Frame.submitError channelId sequenceNumber code).Sendable := by
  obtain ⟨bytes, counts⟩ : ∃ bytes, Spec.str0255 (strBytes code) = some bytes := counted_some short
  exact .one rfl (Option.map_eq_some_iff.mpr ⟨bytes, counts, rfl⟩) trivial

theorem openError_sendable (requestId : UInt32) : (Frame.openError requestId).Sendable := by
  obtain ⟨bytes, counts⟩ : ∃ bytes, Spec.str0255 (strBytes "unsupported-min-extranonce-size") = some bytes :=
    counted_some (by decide)
  exact .one rfl (Option.map_eq_some_iff.mpr ⟨bytes, counts, rfl⟩) trivial

theorem openSuccess_sendable (requestId channelId : UInt32) (target : Hash) (extranonceSize : Nat) {extranoncePrefix : Bytes}
    (short : extranoncePrefix.length ≤ 32) (width : extranonceSize < 2 ^ 16) :
    (Frame.openSuccess requestId channelId target extranonceSize extranoncePrefix).Sendable := by
  obtain ⟨bytes, counts⟩ : ∃ bytes, Spec.b032 extranoncePrefix = some bytes := counted_some short
  exact .one rfl (Option.map_eq_some_iff.mpr ⟨bytes, counts, rfl⟩) width

theorem bounded_ok {α : Type} {limit : Nat} {e : Nat → JobError} {xs ys : List α} (fits : bounded limit e xs = .ok ys) :
    ys = xs ∧ xs.length ≤ limit := by
  unfold bounded at fits
  split at fits
  · rename_i short
    obtain rfl := Outcome.ok.inj fits
    exact ⟨rfl, short⟩
  · cases fits

theorem newExtendedMiningJob_laid {job : StratumJob} {channelId jobId : UInt32} {future : Bool}
    {announced : NewExtendedMiningJob} (built : buildNewExtendedJob job channelId jobId future = .ok announced) :
    ∃ payload, (WireMessage.newExtendedMiningJob announced).layout = some payload := by
  unfold buildNewExtendedJob at built
  obtain ⟨merklePath, path, rest⟩ := Outcome.bind_ok.mp built
  obtain ⟨coinbaseTxPrefix, front, rest⟩ := Outcome.bind_ok.mp rest
  obtain ⟨coinbaseTxSuffix, back, rest⟩ := Outcome.bind_ok.mp rest
  obtain rfl := Outcome.ok.inj rest
  obtain ⟨rfl, pathFits⟩ := bounded_ok path
  obtain ⟨rfl, frontFits⟩ := bounded_ok front
  obtain ⟨rfl, backFits⟩ := bounded_ok back
  obtain ⟨hashes, countsPath⟩ : ∃ bytes, Spec.seq0255U256 job.merkleBranchRaw = some bytes := ⟨_, if_pos pathFits⟩
  obtain ⟨first, countsFront⟩ : ∃ bytes, Spec.b064k job.coinbase1 = some bytes := counted_some frontFits
  obtain ⟨second, countsBack⟩ : ∃ bytes, Spec.b064k job.coinbase2 = some bytes := counted_some backFits
  exact ⟨_, Option.bind_eq_some_iff.mpr ⟨hashes, countsPath, Option.bind_eq_some_iff.mpr
    ⟨first, countsFront, Option.bind_eq_some_iff.mpr ⟨second, countsBack, rfl⟩⟩⟩⟩

/-- Every frame a handler sends. -/
def AllSendable (frames : List Frame) : Prop := ∀ frame ∈ frames, frame.Sendable

theorem AllSendable.nil : AllSendable [] := nofun

theorem AllSendable.one {frame : Frame} (sendable : frame.Sendable) : AllSendable [frame] := by
  intro frame' among
  obtain rfl := List.mem_singleton.mp among
  exact sendable

theorem AllSendable.append {frames more : List Frame} (first : AllSendable frames) (second : AllSendable more) :
    AllSendable (frames ++ more) := by
  intro frame among
  rcases List.mem_append.mp among with before | after
  · exact first frame before
  · exact second frame after

theorem sendJob_sendable {s t : Session} {job : StratumJob} {future : Bool} {sent : Message}
    (sends : s.sendJob job future = (.ok sent, t)) (target : Hash) : (sent.frame target).Sendable := by
  unfold Session.sendJob at sends
  dsimp only at sends
  split at sends
  · rename_i announced built
    obtain ⟨payload, encoded⟩ := newExtendedMiningJob_laid built
    split at sends
    · rename_i future
      subst future
      split at sends
      · rename_i activation activated
        obtain rfl := Except.ok.inj (Prod.mk.inj sends).1
        refine ⟨⟨[.newExtendedMiningJob announced, .setNewPrevHash activation], ?_, ?_⟩, trivial⟩
        · unfold Frame.messages
          dsimp only [Message.frame]
          rw [built]
          dsimp only
          rw [if_pos rfl, activated]
        · simpa using ⟨⟨payload, encoded⟩, ⟨_, rfl⟩⟩
      · cases sends
    · rename_i immediate
      obtain rfl : future = false := by simpa using immediate
      obtain rfl := Except.ok.inj (Prod.mk.inj sends).1
      refine .one (m := .newExtendedMiningJob announced) ?_ encoded trivial
      unfold Frame.messages
      dsimp only [Message.frame]
      rw [built]
      rfl
  · cases sends

theorem sendJob_part_sendable {s t : Session} {job : StratumJob} {future : Bool} {part : List Message}
    (sends : s.sendJob job future = (.error part, t)) (target : Hash) : AllSendable (part.map (Message.frame target)) := by
  unfold Session.sendJob at sends
  dsimp only at sends
  split at sends
  · rename_i announced built
    obtain ⟨payload, encoded⟩ := newExtendedMiningJob_laid built
    split at sends
    · rename_i future
      subst future
      split at sends
      · cases sends
      · obtain rfl := Except.error.inj (Prod.mk.inj sends).1
        refine .one (.one (m := .newExtendedMiningJob announced) ?_ encoded trivial)
        unfold Frame.messages
        dsimp only [Message.frame]
        rw [built]
    · cases sends
  · obtain rfl := Except.error.inj (Prod.mk.inj sends).1
    exact .nil

/-! ### Handlers -/

section
variable {m : Miner Session}

theorem handleSetupConnection_sendable (m : Miner Session) (setup : SetupConn) :
    AllSendable (handleSetupConnection m setup).sent := by
  unfold handleSetupConnection Session.handleSetupConnection
  split_ifs
  · exact .one (setupError_sendable _ (by decide))
  · exact .one (setupError_sendable _ (by decide))
  · exact .one (setupError_sendable _ (by decide))
  · exact .one (.one rfl rfl trivial)

theorem handleOpenExtended_sendable (total : m.session.extranonceTotal ≤ 32) (counters : Counters) (request : OpenExtended) :
    AllSendable (handleOpenExtended counters m request).1.sent := by
  unfold handleOpenExtended Session.handleOpenExtended
  split
  · exact .nil
  · cases m.session.guard.checkWorkerName request.userIdentity with
    | error e => exact .nil
    | ok =>
      dsimp only
      split
      · exact .one (openError_sendable _)
      · rename_i fits
        cases SoloPool.Session.takeIdentity m.session.guard m.session.worker request.userIdentity with
        | none => exact .nil
        | some guard =>
          have short : (generateExtranonce1 counters.extranonce1
              (m.session.extranonceTotal - max request.minExtranonceSize.toNat 1)).length ≤ 32 := by
            rw [length_generateExtranonce1]
            omega
          have opened := AllSendable.one (openSuccess_sendable request.requestId counters.channelId
            (openTarget m.difficulty request.maxTarget) (max request.minExtranonceSize.toNat 1) short
            (by omega))
          dsimp only
          split
          · exact opened
          · split
            · rename_i sent session sends
              exact opened.append (.one (sendJob_sendable sends _))
            · rename_i part session sends
              exact opened.append (sendJob_part_sendable sends _)

theorem handleSubmit_sendable (env : Env) (m : Miner Session) (submit : SubmitSharesExtended) :
    AllSendable (handleSubmit env m submit).sent := by
  unfold handleSubmit
  generalize m.session.handleSubmit env.crates env.engine submit = submitted
  obtain ⟨outcome, disconnect, session⟩ := submitted
  cases outcome with
  | unauthorized => exact .nil
  | badExtranonce got expected =>
    cases disconnect with
    | true => exact .nil
    | false => exact .one (submitError_sendable _ _ (by decide))
  | jobNotFound => exact .one (submitError_sendable _ _ (by decide))
  | judged result =>
    dsimp only
    split
    · exact .nil
    · rename_i settled ends
      cases disconnect with
      | true => exact .nil
      | false =>
        obtain ⟨_ | e | e, miner, effects, credited⟩ := settled
        · exact .one (.one rfl rfl trivial)
        · exact .one (submitError_sendable _ _ (by decide))
        · exact .one (submitError_sendable _ _ (by cases rejectReason e <;> decide))

theorem handleMessage_sendable (total : m.session.extranonceTotal ≤ 32) (env : Env) (counters : Counters) (token : Bool)
    (frame : ClientFrame) : AllSendable (handleMessage env counters token m frame).1.sent := by
  cases token with
  | false => exact .nil
  | true =>
    cases frame with
    | setupConnection setup => exact handleSetupConnection_sendable m setup
    | openExtended request => exact handleOpenExtended_sendable total counters request
    | submitExtended submit => exact handleSubmit_sendable env m submit
    | malformed => exact .nil
    | other => exact .nil

theorem handleBroadcast_sendable (m : Miner Session) (b : JobBroadcast) : AllSendable (handleBroadcast m b).sent := by
  unfold handleBroadcast
  rw [Session.handleBroadcast_eq]
  dsimp only
  split
  · split
    · rename_i sent session sends
      exact .one (sendJob_sendable sends _)
    · rename_i part session sends
      exact sendJob_part_sendable sends _
  · exact .nil

theorem handleRetarget_sendable {retarget : RetargetStep} {now : Instant} {handled : Handled Session Frame}
    (checked : handleRetarget retarget now m = .ok handled) : AllSendable handled.sent := by
  unfold handleRetarget at checked
  obtain ⟨⟨change, vardiff⟩, _, replied⟩ := Outcome.bind_ok.mp checked
  cases change with
  | none =>
    obtain rfl := Outcome.ok.inj replied
    exact .nil
  | some difficulty =>
    obtain rfl := Outcome.ok.inj replied
    exact .one (.one rfl rfl trivial)

end

/-! ### Runs -/

theorem wire_sendable {toBytes : WireMessage → Option Bytes} (follows : FollowsLayout toBytes)
    {frames : List Frame} (sendable : AllSendable frames) : ∃ messages bytes,
    wire toBytes frames = some (messages, bytes) ∧
      (∀ m ∈ messages, ∃ frame, m.send toBytes = some frame ∧ Delimits WireMessage.read frame m ∧ frame ≠ []) ∧
      bytes = messages.flatMap fun m => (m.send toBytes).getD [] := by
  have first : ∃ messages, frames.mapM Frame.messages = some messages ∧
      ∀ m ∈ messages.flatten, ∃ payload, m.layout = some payload := by
    induction frames with
    | nil => exact ⟨[], rfl, nofun⟩
    | cons frame frames ih =>
      obtain ⟨messages, laid, encodes⟩ := (sendable frame List.mem_cons_self).laid
      obtain ⟨rest, laid', more⟩ := ih fun frame' among => sendable frame' (List.mem_cons_of_mem _ among)
      refine ⟨messages :: rest, ?_, ?_⟩
      · rw [List.mapM_cons, laid, laid']
        rfl
      · intro m among
        rw [List.flatten_cons] at among
        exact (List.mem_append.mp among).elim (encodes m) (more m)
  obtain ⟨messages, laid, encodes⟩ := first
  have sends : ∀ m ∈ messages.flatten, ∃ frame, m.send toBytes = some frame ∧ Delimits WireMessage.read frame m ∧ frame ≠ [] :=
    fun m among => (encodes m among).elim fun _ encoded => WireMessage.send_read follows encoded
  have parts : ∀ ms : List WireMessage, (∀ m ∈ ms, ∃ frame, m.send toBytes = some frame) →
      ms.mapM (WireMessage.send toBytes) = some (ms.map fun m => (m.send toBytes).getD []) := by
    intro ms sends
    induction ms with
    | nil => rfl
    | cons m ms ih =>
      obtain ⟨frame, sent⟩ := sends m List.mem_cons_self
      rw [List.mapM_cons, ih fun m among => sends m (List.mem_cons_of_mem _ among), List.map_cons, sent]
      rfl
  refine ⟨messages.flatten, _, ?_, sends, rfl⟩
  rw [wire, laid, Option.bind_eq_bind, Option.bind_some,
    parts _ fun m among => (sends m among).imp fun _ sent => sent.1, List.flatMap_def]
  rfl

namespace Conversation

variable {cfg : Config} {s t : Conversation} {event : Event}

theorem sent_receive (s : Conversation) (frame : ClientFrame) : (s.receive frame).sent = s.sent := by
  unfold sent receive
  rw [List.filterMap_append]
  exact List.append_nil _

theorem sent_settle (s : Conversation) (handled : Handled Session Frame) :
    (s.settle (.ok handled)).sent = s.sent ++ handled.sent := by
  unfold sent settle
  rw [List.filterMap_append, List.filterMap_map]
  exact congrArg _ (List.filterMap_some)

theorem step_sendable (total : s.miner.session.extranonceTotal ≤ 32) (sendable : AllSendable s.sent)
    (taken : s.step event = some t) : AllSendable t.sent := by
  obtain ⟨_, handled⟩ := Option.ite_none_left_eq_some.mp taken
  clear taken
  induction event generalizing t with
  | frame env counters token frame =>
    cases handled
    rw [sent_settle, sent_receive]
    exact sendable.append (handleMessage_sendable total env counters token frame)
  | cacheJob current =>
    cases handled
    exact sendable
  | broadcast b =>
    cases handled
    rw [sent_settle]
    exact sendable.append (handleBroadcast_sendable s.miner b)
  | retarget retarget now =>
    obtain ⟨_, same⟩ := Option.ite_none_right_eq_some.mp handled
    cases same
    cases checked : handleRetarget retarget now s.miner with
    | ok handled =>
      rw [sent_settle]
      exact sendable.append (handleRetarget_sendable checked)
    | err e => exact sendable
    | panic => exact sendable
  | calls history =>
    cases handled
    exact sendable
  | leave =>
    cases handled
    exact sendable
  | breaks event written ih =>
    obtain ⟨whole, turned, rfl⟩ := Option.map_eq_some_iff.mp handled
    exact fun frame among => ih turned frame (((List.take_sublist ..).filterMap _).mem among)

theorem reach_sendable {extranoncePrefix : Bytes} {now : Instant} (valid : cfg.validate = .ok ())
    (reached : Reach step Always (start cfg extranoncePrefix now) s) : AllSendable s.sent := by
  have accepted := Config.validate_accepted valid
  have some : 1 ≤ cfg.pool.extranonce1Size + cfg.pool.extranonce2Size := Nat.le_add_right_of_le accepted.extranonce1_pos
  have kept := reached.invariant (fun s => s.miner.session.Sized cfg ∧ AllSendable s.sent)
    ⟨Session.sized_new cfg extranoncePrefix, AllSendable.nil⟩ (fun _ _ _ _ ⟨sized, sendable⟩ _ taken =>
      ⟨step_sized some sized taken, step_sendable (by rw [sized.total]; exact accepted.extranonce_le) sendable taken⟩)
  exact kept.2

/-- In every run the frames that the pool has written stand for messages that all have a place on the wire, an extranonce
size in its two bytes among them; and wherever the stream of their bytes is cut, a device takes off it the messages that
have arrived whole, in their order, and is left with the beginning of the next. -/
theorem wire_reads_back {toBytes : WireMessage → Option Bytes} (follows : FollowsLayout toBytes)
    {extranoncePrefix : Bytes} {now : Instant} (valid : cfg.validate = .ok ())
    (reached : Reach step Always (start cfg extranoncePrefix now) s) :
    (∀ frame ∈ s.sent, frame.WidthFits) ∧
    ∃ messages bytes, wire toBytes s.sent = some (messages, bytes) ∧ ∀ arrived, arrived <+: bytes →
      ∃ done rest left, messages = done ++ rest ∧
        readAvailable WireMessage.read arrived.length arrived = (done, left) ∧ (rest = [] → left = []) ∧
        ∀ m ∈ rest.head?, ∃ frame, m.send toBytes = some frame ∧ left <+: frame ∧ left ≠ frame := by
  have sendable := reach_sendable valid reached
  obtain ⟨messages, bytes, laid, sends, rfl⟩ := wire_sendable follows sendable
  refine ⟨fun frame among => (sendable frame among).width, messages, _, laid, fun arrived cut => ?_⟩
  have each : ∀ m ∈ messages, Delimits WireMessage.read ((m.send toBytes).getD []) m ∧ (m.send toBytes).getD [] ≠ [] := by
    intro m among
    obtain ⟨frame, sent, read⟩ := sends m among
    rw [sent]
    exact read
  obtain ⟨done, rest, left, split, read, _, ends, next⟩ := readAvailable_cut each WireMessage.read_nil (Nat.le_refl _) cut
  refine ⟨done, rest, left, split, read, ends, fun m first => ?_⟩
  obtain ⟨frame, sent, _⟩ := sends m (by rw [split]; exact List.mem_append_right _ (List.mem_of_mem_head? first))
  have cutInside := next m first
  rw [sent] at cutInside
  exact ⟨frame, sent, cutInside⟩

/-- After the first 60 bytes of a session that opens a channel and gets work: the answer to the setup has arrived, and a
part of the answer to the open. -/
theorem wire_reads_back_opened :
    ∃ s, Reach step Always (start exampleConfig [0, 0, 0, 1] 0) s ∧ ∃ messages bytes first left,
      wire WireMessage.layout s.sent = some (messages, bytes) ∧ messages.length = 7 ∧ messages.head? = some first ∧
      readAvailable WireMessage.read (bytes.take 60).length (bytes.take 60) = ([first], left) ∧
      ∃ next, messages[1]? = some next ∧ ∃ frame, next.send WireMessage.layout = some frame ∧ left <+: frame ∧ left ≠ frame := by
  obtain ⟨s, reached, seven, one⟩ : ∃ s, Reach step Always (start exampleConfig [0, 0, 0, 1] 0) s ∧
      (wire WireMessage.layout s.sent).map (fun written => written.1.length) = some 7 ∧
      (wire WireMessage.layout s.sent).map (fun written =>
        (readAvailable WireMessage.read (written.2.take 60).length (written.2.take 60)).1.length) = some 1 :=
    Reach.of_run testEvents (by decide +kernel)
  obtain ⟨_, messages, bytes, written, cut⟩ := wire_reads_back (fun _ _ => id) (by decide) reached
  rw [written, Option.map_some] at seven one
  have all : messages.length = 7 := Option.some.inj seven
  obtain ⟨done, rest, left, split, read, _, next⟩ := cut (bytes.take 60) (List.take_prefix ..)
  rw [read] at one
  obtain ⟨first, rfl⟩ := List.length_eq_one_iff.mp (Option.some.inj one)
  cases rest with
  | nil =>
    rw [split] at all
    cases all
  | cons second rest =>
    refine ⟨s, reached, messages, bytes, first, left, written, all, by rw [split]; rfl, read, second, by rw [split]; rfl, ?_⟩
    exact next second rfl

end Conversation

end SoloPool.Sv2
