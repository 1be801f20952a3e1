import SoloPool.Network.Rig
import SoloPool.Proofs.Wire

/-!
# The session and its miner agree

Over every run of an SV1 session the miner can make sense of all it reads, and what it knows of its extranonce, its mask
and its difficulty is what the session validates its shares with.
-/

namespace SoloPool.Sv1
open Lib

/-! ### What a line tells -/

namespace Rig

variable {r : Rig} {req : StratumRequest} {rest : List StratumRequest}

theorem read_ok (waits : r.awaiting = req :: rest) {id result : Json} (some : result ≠ .null) :
    r.read (ResponseBuilder.ok id result) = { r with awaiting := rest }.learn req.method result := by
  have line : (ResponseBuilder.ok id result).get "method" = none ∧ (ResponseBuilder.ok id result).get "result" = result :=
    ⟨rfl, rfl⟩
  unfold read
  rw [line.1, waits, line.2]
  cases result with
  | null => exact (some rfl).elim
  | _ => rfl

theorem read_err (waits : r.awaiting = req :: rest) {id error : Json} :
    r.read (ResponseBuilder.err id error) = some { r with awaiting := rest } := by
  have line : (ResponseBuilder.err id error).get "method" = none ∧ (ResponseBuilder.err id error).get "result" = some .null :=
    ⟨rfl, rfl⟩
  unfold read
  rw [line.1, waits, line.2]

theorem read_setDifficulty (difficulty : UInt64) :
    r.read (ResponseBuilder.setDifficulty difficulty) = some { r with difficulty := some difficulty } := rfl

theorem mapM_asStr (texts : List String) : (texts.map Json.string).mapM Json.asStr = some texts := by
  induction texts with
  | nil => rfl
  | cons text texts ih =>
    rw [List.map_cons, List.mapM_cons, ih]
    rfl

theorem read_notify (n : Notify) : r.read (ResponseBuilder.notify n) = some { r with works := r.works ++ [n] } := by
  have line : (ResponseBuilder.notify n).get "method" = some (.string "mining.notify") := rfl
  have params : ((ResponseBuilder.notify n).get "params").bind Json.asArray = some [
      .string n.jobId, .string n.prevHash, .string n.coinbase1, .string n.coinbase2,
      .array (n.merkleBranch.map .string), .string n.version, .string n.bits, .string n.ntime, .bool n.cleanJobs] := rfl
  unfold read
  rw [line]
  dsimp only
  rw [params, Option.bind_eq_bind, Option.bind_some]
  unfold hear notifyOf
  rw [if_neg (by decide), if_pos rfl]
  dsimp only
  rw [mapM_asStr]
  rfl

theorem hear_awaiting {after : Rig} {method : String} {params : List Json} (heard : r.hear method params = some after) :
    after.awaiting = r.awaiting := by
  unfold hear at heard
  split at heard
  · split at heard
    · cases heard
      rfl
    · cases heard
  · split at heard
    · obtain ⟨work, _, same⟩ := Option.bind_eq_some_iff.mp heard
      cases same
      rfl
    · cases heard

theorem learn_awaiting {after : Rig} {method : String} {result : Json} (learnt : r.learn method result = some after) :
    after.awaiting = r.awaiting := by
  unfold learn at learnt
  split at learnt
  · unfold learnSubscribe at learnt
    split at learnt
    · split at learnt
      · cases learnt
        rfl
      · cases learnt
    · cases learnt
  · split at learnt
    · unfold learnConfigure at learnt
      split at learnt
      · obtain ⟨mask, _, same⟩ := Option.bind_eq_some_iff.mp learnt
        cases same
        rfl
      · cases learnt
        rfl
    · split at learnt <;> (cases learnt; rfl)

/-- A line answers at most what waits for an answer. -/
theorem read_awaiting {after : Rig} {line : Json} (read : r.read line = some after) :
    after.awaiting.length ≤ r.awaiting.length := by
  unfold Rig.read at read
  split at read
  · obtain ⟨params, _, heard⟩ := Option.bind_eq_some_iff.mp read
    rw [hear_awaiting heard]
  · split at read
    · cases read
    · rename_i oldest rest waits
      rw [waits, List.length_cons]
      split at read
      · cases read
        exact Nat.le_succ _
      · rw [learn_awaiting read]
        exact Nat.le_succ _
      · cases read

theorem readAll_awaiting {after : Rig} {lines : List Json} (read : r.readAll lines = some after) :
    after.awaiting.length ≤ r.awaiting.length := by
  induction lines generalizing r with
  | nil =>
    obtain rfl := Option.some.inj read
    exact Nat.le_refl _
  | cons line lines ih =>
    obtain ⟨next, first, rest⟩ := Option.bind_eq_some_iff.mp read
    exact (ih rest).trans (read_awaiting first)

/-- A method that nothing is learnt from. -/
theorem learn_quiet {method : String} (subscribe : method ≠ "mining.subscribe") (configure : method ≠ "mining.configure")
    (authorize : method ≠ "mining.authorize") (result : Json) : r.learn method result = some r := by
  unfold learn
  rw [if_neg subscribe, if_neg configure, if_neg authorize]

theorem learn_subscribe (ignored : Json) (extranonce1 : Bytes) (extranonce2Size : Nat) :
    r.learn "mining.subscribe" (.array [ignored, .string (hexEncode extranonce1), number extranonce2Size]) =
      some { r with extranonce1 := some extranonce1, extranonce2Size := UInt64.ofNat extranonce2Size } := by
  unfold learn learnSubscribe
  rw [if_pos rfl]
  dsimp only [number]
  rw [hexDecode_hexEncode]

theorem read_configure (waits : r.awaiting = req :: rest) (method : req.method = "mining.configure") (id : Json) (enabled : Bool)
    (mask : UInt32) (minimumDifficulty : UInt64) (subscribeExtranonce : Bool) :
    r.read (ResponseBuilder.configure id enabled mask (some minimumDifficulty) subscribeExtranonce) =
      some { r with awaiting := rest, rolling := if enabled then some mask else none } := by
  unfold ResponseBuilder.configure
  rw [read_ok waits Json.noConfusion, method, learn, if_neg (by decide), if_pos rfl]
  unfold learnConfigure
  cases enabled with
  | false => cases subscribeExtranonce <;> rfl
  | true =>
    rw [if_pos rfl, List.append_assoc, List.cons_append, List.cons_append, Json.get_cons, if_pos rfl]
    dsimp only
    rw [Json.get_cons, if_neg (by decide), Json.get_cons, if_pos rfl]
    dsimp only [Option.bind_some, Json.asStr]
    rw [u32FromStrRadix16_hex08]
    rfl

theorem readAll_nil : r.readAll [] = some r := rfl

theorem readAll_cons (line : Json) (lines : List Json) : r.readAll (line :: lines) = (r.read line).bind (·.readAll lines) := rfl

theorem replay_append (traffic more : List Traffic) :
    replay (traffic ++ more) = (replay traffic).bind (fun r => more.foldlM follow r) := List.foldlM_append

theorem follow_down (lines : List Json) : (lines.map Traffic.down).foldlM follow r = r.readAll lines := List.foldlM_map

end Rig

/-! ### Agreement -/

/-- What the miner knows is what the session goes by. -/
structure Follows (m : Miner Session) (r : Rig) : Prop where
  extranonce1 : r.extranonce1 = if m.session.subscribed then some m.session.extranonce1 else none
  extranonce2Size : m.session.subscribed = true → r.extranonce2Size = UInt64.ofNat m.session.extranonce2Size
  rolling : r.rolling = if m.session.versionRollingEnabled then some m.session.versionRollingMask else none
  authorized : r.authorized = m.session.authorized
  difficulty : m.session.authorized = true → r.difficulty = some m.difficulty
  subscribed : m.session.authorized = true → m.session.subscribed = true

/-- What the miner makes of a handler's lines: it reads them all, waits for no more than the request that is handled, and
agrees with a session that goes on. -/
def Told (ctx : ReplyContext) (r : Rig) (handled : Handled Session Line) : Prop :=
  ∃ after, r.readAll (handled.sent.map (Line.render ctx)) = some after ∧ after.awaiting.length ≤ 1 ∧
    (handled.disconnect = none → after.awaiting = [] ∧ Follows handled.miner after)

section Agreement

variable {m m' : Miner Session} {r : Rig} {ctx : ReplyContext} {req : StratumRequest} {env : Env}

theorem Follows.keep (follows : Follows m r) (subscribed : m'.session.subscribed = m.session.subscribed)
    (authorized : m'.session.authorized = m.session.authorized) (extranonce1 : m'.session.extranonce1 = m.session.extranonce1)
    (extranonce2Size : m'.session.extranonce2Size = m.session.extranonce2Size)
    (enabled : m'.session.versionRollingEnabled = m.session.versionRollingEnabled)
    (mask : m'.session.versionRollingMask = m.session.versionRollingMask) (difficulty : m'.difficulty = m.difficulty) :
    Follows m' r where
  extranonce1 := by rw [subscribed, extranonce1, follows.extranonce1]
  extranonce2Size := by rw [subscribed, extranonce2Size]; exact follows.extranonce2Size
  rolling := by rw [enabled, mask, follows.rolling]
  authorized := authorized ▸ follows.authorized
  difficulty := by rw [authorized, difficulty]; exact follows.difficulty
  subscribed := by rw [authorized, subscribed]; exact follows.subscribed

/-- The miner's queue does not matter to what it knows. -/
theorem Follows.queue (follows : Follows m r) (awaiting : List StratumRequest) : Follows m { r with awaiting } :=
  ⟨follows.extranonce1, follows.extranonce2Size, follows.rolling, follows.authorized, follows.difficulty, follows.subscribed⟩

theorem Told.closes {reason : String} {effects : List Effect} (few : r.awaiting.length ≤ 1) :
    Told ctx r (m.closes reason [] effects) := ⟨r, rfl, few, nofun⟩

/-- An answer from which the miner learns nothing. -/
theorem Told.refused (follows : Follows m' r) (waits : r.awaiting = [req]) {handled : Handled Session Line} {e : PoolError}
    (miner : handled.miner = m') (sent : handled.sent = [.err e]) : Told ctx r handled := by
  refine ⟨{ r with awaiting := [] }, ?_, Nat.zero_le _, fun _ => ⟨rfl, by rw [miner]; exact follows.queue []⟩⟩
  rw [sent]
  exact (congrArg (fun r => r.bind fun r => Rig.readAll r []) (Rig.read_err waits)).trans rfl

theorem Told.accepted (follows : Follows m' r) (waits : r.awaiting = [req]) {handled : Handled Session Line}
    (miner : handled.miner = m') (sent : handled.sent = [.ok]) (subscribe : req.method ≠ "mining.subscribe")
    (configure : req.method ≠ "mining.configure") (authorize : req.method ≠ "mining.authorize") : Told ctx r handled := by
  refine ⟨{ r with awaiting := [] }, ?_, Nat.zero_le _, fun _ => ⟨rfl, by rw [miner]; exact follows.queue []⟩⟩
  rw [sent, List.map_singleton, Rig.readAll_cons, Line.render, Rig.read_ok waits Json.noConfusion,
    Rig.learn_quiet subscribe configure authorize]
  rfl

/-- The method that a message is the request of. -/
def ClientMessage.method : ClientMessage → String
  | .configure _ => "mining.configure"
  | .subscribe => "mining.subscribe"
  | .authorize _ => "mining.authorize"
  | .submit _ => "mining.submit"
  | .suggestDifficulty _ => "mining.suggest_difficulty"
  | .unknown method => method

theorem fromRequest_method {message : ClientMessage} (read : ClientMessage.fromRequest req = .ok message) :
    req.method = message.method := by
  obtain ⟨id, method, params⟩ := req
  unfold ClientMessage.fromRequest at read
  dsimp only at read
  split at read
  · obtain ⟨_, _, read⟩ := except_bind_ok.mp read
    obtain rfl := Except.ok.inj read
    rfl
  · obtain ⟨_, _, read⟩ := except_bind_ok.mp read
    obtain rfl := Except.ok.inj read
    rfl
  · obtain ⟨_, _, read⟩ := except_bind_ok.mp read
    obtain rfl := Except.ok.inj read
    rfl
  · obtain rfl := Except.ok.inj read
    rfl
  · obtain ⟨_, _, read⟩ := except_bind_ok.mp read
    obtain rfl := Except.ok.inj read
    rfl
  · obtain rfl := Except.ok.inj read
    rfl

/-! ### What the handlers tell -/

theorem configure_told (follows : Follows m r) (waits : r.awaiting = [req]) (method : req.method = "mining.configure")
    (params : ConfigureParams) : Told ctx r (handleConfigure m params) := by
  have kept : (m.session.handleConfigure params).2 = { m.session with
      versionRollingEnabled := (m.session.handleConfigure params).2.versionRollingEnabled
      versionRollingMask := (m.session.handleConfigure params).2.versionRollingMask
      versionRollingMinBitCount := (m.session.handleConfigure params).2.versionRollingMinBitCount } := by
    unfold Session.handleConfigure
    dsimp only
    split <;> rfl
  refine ⟨{ r with
    awaiting := []
    rolling := if (m.session.handleConfigure params).2.versionRollingEnabled then
      some (m.session.handleConfigure params).2.versionRollingMask else none }, ?_, Nat.zero_le _, fun _ => ⟨rfl, ?_⟩⟩
  · unfold handleConfigure
    dsimp only [Miner.replies]
    rw [List.map_singleton, Rig.readAll_cons, Line.render, Rig.read_configure waits method]
    rfl
  · have session : (handleConfigure m params).miner.session = (m.session.handleConfigure params).2 := rfl
    have difficulty : (handleConfigure m params).miner.difficulty = m.difficulty := rfl
    refine ⟨?_, ?_, by rw [session], ?_, ?_, ?_⟩ <;> rw [session, kept]
    · exact follows.extranonce1
    · exact follows.extranonce2Size
    · exact follows.authorized
    · rw [difficulty]
      exact follows.difficulty
    · exact follows.subscribed

theorem subscribe_told (follows : Follows m r) (waits : r.awaiting = [req]) (method : req.method = "mining.subscribe") :
    Told ctx r (handleSubscribe m) := by
  refine ⟨{ r with
    awaiting := [], extranonce1 := some m.session.extranonce1
    extranonce2Size := UInt64.ofNat m.session.extranonce2Size }, ?_, Nat.zero_le _, fun _ => ⟨rfl, ?_⟩⟩
  · unfold handleSubscribe
    dsimp only [Miner.replies, Session.handleSubscribe]
    rw [List.map_singleton, Rig.readAll_cons, Line.render, ResponseBuilder.subscribe, Rig.read_ok waits Json.noConfusion, method,
      Rig.learn_subscribe]
    rfl
  · exact ⟨rfl, fun _ => rfl, follows.rolling, follows.authorized, follows.difficulty, fun _ => rfl⟩

theorem authorize_told (follows : Follows m r) (waits : r.awaiting = [req]) (method : req.method = "mining.authorize")
    (name : String) : Told ctx r (handleAuthorize env m name) := by
  unfold handleAuthorize
  split
  · exact .refused follows waits rfl rfl
  · rename_i subscribed
    have subscribed : m.session.subscribed = true := by simpa using subscribed
    cases check : m.session.guard.checkWorkerName name with
    | error e => exact .refused follows waits rfl rfl
    | ok =>
      dsimp only
      cases taken : Session.takeIdentity m.session.guard m.session.worker name with
      | none => exact .closes (by rw [waits]; exact Nat.le_refl 1)
      | some guard =>
        dsimp only
        rw [Session.handleAuthorize_admitted env.engine.currentJob subscribed check taken]
        let works := (m.session.currentJob.or env.engine.currentJob).toList.map (buildNotify · true)
        refine ⟨{ r with awaiting := [], authorized := true, difficulty := some m.difficulty, works := r.works ++ works }, ?_,
          Nat.zero_le _, fun _ => ⟨rfl, ?_⟩⟩
        · dsimp only [Miner.replies]
          rw [List.map_cons, Rig.readAll_cons, Line.render, Rig.read_ok waits Json.noConfusion, method]
          have learnt : ({ r with awaiting := [] } : Rig).learn "mining.authorize" (.bool true) =
              some { r with awaiting := [], authorized := true } := rfl
          rw [learnt, Option.bind_some, List.map_cons, Rig.readAll_cons, Line.render, Rig.read_setDifficulty, Option.bind_some]
          cases current : m.session.currentJob.or env.engine.currentJob with
          | none =>
            dsimp only [works]
            rw [current]
            exact congrArg some (by rw [Option.toList_none, List.map_nil, List.append_nil])
          | some job =>
            dsimp only [works]
            rw [current]
            rw [Option.toList_some, List.map_singleton, List.map_singleton, List.map_singleton, Rig.readAll_cons, Line.render,
              Rig.read_notify]
            rfl
        · refine ⟨?_, fun _ => follows.extranonce2Size subscribed, follows.rolling, rfl, fun _ => rfl, fun _ => subscribed⟩
          exact follows.extranonce1

theorem handleSubmit_sent (env : Env) (m : Miner Session) (params : SubmitParams) :
    ((∃ reason, (handleSubmit env m params).disconnect = some reason) ∧ (handleSubmit env m params).sent = []) ∨
      (handleSubmit env m params).sent = [.ok] ∨ ∃ e, (handleSubmit env m params).sent = [.err e] := by
  unfold handleSubmit
  generalize m.session.handleSubmit env.crates env.engine params = submitted
  obtain ⟨outcome, disconnect, session⟩ := submitted
  cases outcome with
  | unauthorized => exact .inr (.inr ⟨_, rfl⟩)
  | badExtranonce got expected =>
    cases disconnect with
    | true => exact .inl ⟨⟨_, rfl⟩, rfl⟩
    | false => exact .inr (.inr ⟨_, rfl⟩)
  | jobNotFound => exact .inr (.inr ⟨_, rfl⟩)
  | judged result =>
    dsimp only
    split
    · exact .inl ⟨⟨_, rfl⟩, rfl⟩
    · rename_i settled ends
      cases disconnect with
      | true => exact .inl ⟨⟨_, rfl⟩, rfl⟩
      | false =>
        obtain ⟨_ | e | e, settledMiner, effects, credited⟩ := settled
        · exact .inr (.inl rfl)
        · exact .inr (.inr ⟨e, rfl⟩)
        · exact .inr (.inr ⟨e, rfl⟩)

theorem submit_told (follows : Follows m r) (waits : r.awaiting = [req]) (method : req.method = "mining.submit")
    (params : SubmitParams) : Told ctx r (handleSubmit env m params) := by
  have session := (handleSubmit_ends env m params).session
  have difficulty := (handleSubmit_ends env m params).keeps.difficulty
  obtain ⟨guard, shareSet, frame⟩ := m.session.handleSubmit_frame env.crates env.engine params
  rw [frame] at session
  have stays : Follows (handleSubmit env m params).miner r := by
    apply follows.keep _ _ _ _ _ _ difficulty <;> rw [session]
  obtain ⟨⟨reason, ends⟩, sent⟩ | sent | ⟨e, sent⟩ := handleSubmit_sent env m params
  · refine ⟨r, by rw [sent]; rfl, by rw [waits]; exact Nat.le_refl 1, fun goesOn => ?_⟩
    rw [ends] at goesOn
    cases goesOn
  · refine .accepted stays waits rfl sent ?_ ?_ ?_ <;> rw [method] <;> decide
  · exact .refused stays waits rfl sent

theorem suggest_told (follows : Follows m r) (waits : r.awaiting = [req]) (method : req.method = "mining.suggest_difficulty")
    {difficulty : UInt64} {handled : Handled Session Line} (suggested : handleSuggestDifficulty env m difficulty = .ok handled) :
    Told ctx r handled := by
  unfold handleSuggestDifficulty at suggested
  obtain ⟨⟨applied, vardiff⟩, taken, suggested⟩ := Outcome.bind_ok.mp suggested
  obtain rfl := Outcome.ok.inj suggested
  have quiet : ∀ r : Rig, r.learn req.method (.bool true) = some r := fun r => by
    rw [method]
    exact Rig.learn_quiet (by decide) (by decide) (by decide) _
  cases subscribed : m.session.subscribed with
  | true =>
    refine ⟨{ r with awaiting := [], difficulty := some applied }, ?_, Nat.zero_le _, fun _ => ⟨rfl, ?_⟩⟩
    · dsimp only [Miner.replies]
      rw [if_pos rfl, List.map_cons, Rig.readAll_cons, Line.render, Rig.read_ok waits Json.noConfusion, quiet]
      rfl
    · exact ⟨follows.extranonce1, follows.extranonce2Size, follows.rolling, follows.authorized, fun _ => rfl, follows.subscribed⟩
  | false =>
    have unauthorized : m.session.authorized ≠ true := by
      intro on
      rw [follows.subscribed on] at subscribed
      cases subscribed
    refine ⟨{ r with awaiting := [] }, ?_, Nat.zero_le _, fun _ => ⟨rfl, ?_⟩⟩
    · dsimp only [Miner.replies]
      rw [if_neg Bool.false_ne_true, List.map_singleton, Rig.readAll_cons, Line.render, Rig.read_ok waits Json.noConfusion, quiet]
      rfl
    · exact ⟨follows.extranonce1, follows.extranonce2Size, follows.rolling, follows.authorized,
        fun on => (unauthorized on).elim, follows.subscribed⟩

theorem message_told (follows : Follows m r) (waits : r.awaiting = [req]) {message : ClientMessage}
    (read : ClientMessage.fromRequest req = .ok message) {handled : Handled Session Line}
    (taken : handleLine env true m (.message message) = .ok handled) : Told ctx r handled := by
  have method := fromRequest_method read
  cases message with
  | configure params =>
    obtain rfl := Outcome.ok.inj taken
    exact configure_told follows waits method params
  | subscribe =>
    obtain rfl := Outcome.ok.inj taken
    exact subscribe_told follows waits method
  | authorize name =>
    obtain rfl := Outcome.ok.inj taken
    exact authorize_told follows waits method name
  | submit params =>
    obtain rfl := Outcome.ok.inj taken
    exact submit_told follows waits method params
  | suggestDifficulty difficulty => exact suggest_told follows waits method taken
  | unknown method =>
    obtain rfl := Outcome.ok.inj taken
    refine ⟨{ r with awaiting := [] }, ?_, Nat.zero_le _, fun _ => ⟨rfl, follows.queue []⟩⟩
    exact (congrArg (fun r => r.bind fun r => Rig.readAll r []) (Rig.read_err waits)).trans rfl

/-- The line of a request that was read. -/
theorem request_told (follows : Follows m r) (waits : r.awaiting = []) {parse : Parse} {text : String}
    (found : requestOn parse text = some req) {handled : Handled Session Line}
    (taken : handleLine env true m (clientLine parse text) = .ok handled) : Told ctx (r.send req) handled := by
  have queued : (r.send req).awaiting = [req] := by rw [Rig.send, waits]; rfl
  have follows : Follows m (r.send req) := follows.queue _
  unfold requestOn at found
  unfold clientLine at taken
  split at found
  · cases found
  · rename_i some
    rw [if_neg some, found] at taken
    dsimp only at taken
    cases read : ClientMessage.fromRequest req with
    | error e =>
      rw [read] at taken
      obtain rfl := Outcome.ok.inj taken
      exact .refused follows queued rfl rfl
    | ok message =>
      rw [read] at taken
      exact message_told follows queued read taken

/-- A line of which no request is read: a blank one, or one that ends the session. -/
theorem handleLine_unheard {parse : Parse} {text : String} {token : Bool}
    (none : (if token then requestOn parse text else none) = none) {handled : Handled Session Line}
    (taken : handleLine env token m (clientLine parse text) = .ok handled) :
    handled = m.replies [] [] ∨ ∃ reason effects, handled = m.closes reason [] effects := by
  rcases clientLine_cases parse text with ⟨blank, _⟩ | ⟨malformed, _⟩ | ⟨some, req, found⟩
  · rw [blank] at taken
    exact .inl (Outcome.ok.inj taken).symm
  · rw [malformed] at taken
    cases token with
    | false => exact .inr ⟨_, _, (Outcome.ok.inj taken).symm⟩
    | true => exact .inr ⟨_, _, (Outcome.ok.inj taken).symm⟩
  · cases token with
    | false =>
      unfold handleLine at taken
      split at taken
      · rename_i blank
        exact (some blank).elim
      · exact .inr ⟨_, _, (Outcome.ok.inj taken).symm⟩
    | true =>
      rw [if_pos rfl, found] at none
      cases none

theorem unheard_told (follows : Follows m r) (waits : r.awaiting = []) {handled : Handled Session Line}
    (unheard : handled = m.replies [] [] ∨ ∃ reason effects, handled = m.closes reason [] effects) : Told ctx r handled := by
  obtain rfl | ⟨reason, effects, rfl⟩ := unheard
  · exact ⟨r, rfl, by rw [waits]; exact Nat.zero_le 1, fun _ => ⟨waits, follows⟩⟩
  · exact .closes (by rw [waits]; exact Nat.zero_le 1)

theorem broadcast_told (follows : Follows m r) (waits : r.awaiting = []) (b : JobBroadcast) :
    Told ctx r (handleBroadcast m b) := by
  unfold handleBroadcast
  rw [Session.handleBroadcast_eq]
  dsimp only
  cases on : m.session.subscribed && m.session.authorized with
  | false => exact ⟨r, rfl, by rw [waits]; exact Nat.zero_le 1, fun _ => ⟨waits, follows.keep rfl rfl rfl rfl rfl rfl rfl⟩⟩
  | true =>
    refine ⟨{ r with difficulty := some m.difficulty, works := r.works ++ [buildNotify b.job b.clean] }, ?_,
      by rw [waits]; exact Nat.zero_le 1, fun _ => ⟨waits, ?_⟩⟩
    · rw [if_pos rfl]
      dsimp only [Miner.replies]
      rw [List.map_cons, Rig.readAll_cons, Line.render, Rig.read_setDifficulty, Option.bind_some, List.map_singleton,
        Rig.readAll_cons, Line.render, Rig.read_notify]
      rfl
    · exact ⟨follows.extranonce1, follows.extranonce2Size, follows.rolling, follows.authorized, fun _ => rfl, follows.subscribed⟩

theorem retarget_told (follows : Follows m r) (waits : r.awaiting = []) {retarget : RetargetStep} {now : Instant}
    {handled : Handled Session Line} (checked : handleRetarget retarget now m = .ok handled) : Told ctx r handled := by
  unfold handleRetarget at checked
  obtain ⟨⟨change, vardiff⟩, _, replied⟩ := Outcome.bind_ok.mp checked
  cases change with
  | none =>
    obtain rfl := Outcome.ok.inj replied
    exact ⟨r, rfl, by rw [waits]; exact Nat.zero_le 1, fun _ => ⟨waits, follows.keep rfl rfl rfl rfl rfl rfl rfl⟩⟩
  | some difficulty =>
    obtain rfl := Outcome.ok.inj replied
    refine ⟨{ r with difficulty := some difficulty }, rfl, by rw [waits]; exact Nat.zero_le 1, fun _ => ⟨waits, ?_⟩⟩
    exact ⟨follows.extranonce1, follows.extranonce2Size, follows.rolling, follows.authorized, fun _ => rfl, follows.subscribed⟩

end Agreement

/-! ### Runs -/

namespace Conversation

variable {parse : Parse} {sessionId : String} {s t : Conversation} {event : Event}

/-- The miner has read all the traffic, and agrees with the session while that goes on. -/
def Followed (s : Conversation) : Prop :=
  ∃ r, Rig.replay s.traffic = some r ∧ r.awaiting.length ≤ 1 ∧ (s.closed = false → r.awaiting = [] ∧ Follows s.miner r)

theorem start_followed (cfg : Config) (extranonce1 : Bytes) (now : Instant) : (start cfg extranonce1 now).Followed :=
  ⟨.new, rfl, Nat.zero_le 1, fun _ => ⟨rfl, rfl, nofun, rfl, rfl, nofun, nofun⟩⟩

/-- A handler's lines, behind the request they are for. -/
theorem told_followed {r : Rig} {ctx : ReplyContext} {handled : Handled Session Line} {requests : List StratumRequest}
    {sent : List Json} (told : Told ctx r handled) (lines : sent = handled.sent.map (Line.render ctx))
    (reads : Rig.replay (s.traffic ++ requests.map .up) = some r) :
    (s.exchange requests handled.miner sent handled.disconnect.isSome).Followed := by
  obtain ⟨after, read, few, agreed⟩ := told
  refine ⟨after, ?_, few, fun goesOn => agreed (Option.isSome_eq_false_iff.mp goesOn |> Option.isNone_iff_eq_none.mp)⟩
  unfold exchange
  rw [Rig.replay_append, reads, Option.bind_some, Rig.follow_down, lines]
  exact read

theorem Followed.ends (followed : s.Followed) : ({ s with closed := true } : Conversation).Followed := by
  obtain ⟨r, reads, few, _⟩ := followed
  exact ⟨r, reads, few, nofun⟩

/-- What the miner makes of a line that it has sent itself. -/
theorem replay_receive {r : Rig} (reads : Rig.replay s.traffic = some r) (request : Option StratumRequest) :
    Rig.replay (s.traffic ++ request.toList.map .up) = some (request.elim r r.send) := by
  rw [Rig.replay_append, reads]
  cases request <;> rfl

theorem line_followed {env : Env} {token : Bool} {text : String} {r : Rig} (reads : Rig.replay s.traffic = some r)
    (waits : r.awaiting = []) (follows : Follows s.miner r) :
    ((s.receive parse token text).settle (handleText parse sessionId env token s.miner text)).Followed := by
  have sends := replay_receive reads (if token then requestOn parse text else none)
  have stops : ({ s.receive parse token text with closed := true } : Conversation).Followed := by
    refine ⟨_, sends, ?_, nofun⟩
    cases (if token then requestOn parse text else none : Option StratumRequest) with
    | none => exact waits ▸ Nat.zero_le 1
    | some req =>
      show (r.awaiting ++ [req]).length ≤ 1
      rw [waits]
      exact Nat.le_refl 1
  unfold handleText
  cases taken : handleLine env token s.miner (clientLine parse text) with
  | ok handled =>
    rw [Outcome.ok_bind, Outcome.pure_eq, settle, receive_exchange]
    have told : Told (replyContext sessionId (requestOn parse text))
        ((if token then requestOn parse text else none).elim r r.send) handled := by
      cases heard : (if token then requestOn parse text else none : Option StratumRequest) with
      | none => exact unheard_told follows waits (handleLine_unheard heard taken)
      | some req =>
        cases token with
        | false => cases heard
        | true =>
          rw [if_pos rfl] at heard
          exact request_told follows waits heard taken
    exact told_followed told rfl sends
  | err e => exact stops
  | panic => exact stops

/-- A miner that could read the whole turn can read the first part of it. -/
theorem breaks_followed {r : Rig} (reads : Rig.replay s.traffic = some r) (waits : r.awaiting = []) (whole : t.Followed)
    (taken : s.turn parse sessionId event = some t) (written : Nat) :
    ({ t with traffic := t.traffic.take (s.traffic.length + written), closed := true } : Conversation).Followed := by
  obtain ⟨requests, sent, few, same⟩ := turn_traffic taken
  obtain ⟨after, readsWhole, _⟩ := whole
  unfold Followed
  dsimp only
  rw [same] at readsWhole ⊢
  rcases take_turn (requests.map Traffic.up) (by rwa [List.length_map]) written with nothing | ⟨part, cut, some⟩
  · rw [nothing]
    exact ⟨r, reads, waits ▸ Nat.zero_le 1, nofun⟩
  · obtain ⟨first, ⟨rest, rfl⟩, rfl⟩ := List.prefix_map_iff.mp cut
    rw [some]
    rw [Rig.replay_append] at readsWhole
    obtain ⟨asked, sends, told⟩ := Option.bind_eq_some_iff.mp readsWhole
    have waiting : asked.awaiting.length ≤ 1 := by
      rw [Rig.replay_append, reads, Option.bind_some] at sends
      obtain rfl | ⟨request, rfl⟩ : requests = [] ∨ ∃ request, requests = [request] := by
        cases requests with
        | nil => exact .inl rfl
        | cons request others => exact .inr ⟨request, by simpa using few⟩
      · obtain rfl := Option.some.inj sends
        exact waits ▸ Nat.zero_le 1
      · obtain rfl := Option.some.inj sends
        show (r.awaiting ++ [request]).length ≤ 1
        rw [waits]
        exact Nat.le_refl 1
    rw [Rig.follow_down, Rig.readAll, List.foldlM_append] at told
    obtain ⟨half, read, _⟩ := Option.bind_eq_some_iff.mp told
    refine ⟨half, ?_, (Rig.readAll_awaiting read).trans waiting, nofun⟩
    rw [Rig.replay_append, sends, Option.bind_some, Rig.follow_down]
    exact read

theorem step_followed (followed : s.Followed) (taken : s.step parse sessionId event = some t) : t.Followed := by
  obtain ⟨running, handled⟩ := Option.ite_none_left_eq_some.mp taken
  obtain ⟨r, reads, few, goesOn⟩ := followed
  obtain ⟨waits, follows⟩ := goesOn (Bool.eq_false_of_not_eq_true running)
  have quiet : Rig.replay (s.traffic ++ [].map Traffic.up) = some r := by rw [List.map_nil, List.append_nil, reads]
  clear taken
  induction event generalizing t with
  | line env token text =>
    cases handled
    exact line_followed reads waits follows
  | cacheJob current =>
    cases handled
    refine ⟨r, reads, few, fun _ => ⟨waits, ?_⟩⟩
    cases current <;> exact follows.keep rfl rfl rfl rfl rfl rfl rfl
  | broadcast b =>
    cases handled
    rw [settle_exchange]
    exact told_followed (broadcast_told follows waits b) rfl quiet
  | retarget retarget now =>
    obtain ⟨_, same⟩ := Option.ite_none_right_eq_some.mp handled
    cases same
    cases checked : handleRetarget retarget now s.miner with
    | ok handled =>
      rw [Outcome.ok_bind, Outcome.pure_eq, settle_exchange]
      exact told_followed (retarget_told follows waits checked) rfl quiet
    | err e => exact ⟨r, reads, few, nofun⟩
    | panic => exact ⟨r, reads, few, nofun⟩
  | calls history =>
    cases handled
    exact ⟨r, reads, few, fun _ => ⟨waits, follows.keep rfl rfl rfl rfl rfl rfl rfl⟩⟩
  | leave =>
    cases handled
    exact ⟨r, reads, few, nofun⟩
  | breaks event written ih =>
    obtain ⟨whole, turned, rfl⟩ := Option.map_eq_some_iff.mp handled
    exact breaks_followed reads waits (ih turned) turned written

theorem reach_followed {cfg : Config} {extranonce1 : Bytes} {now : Instant}
    (reached : Reach (step parse sessionId) Always (start cfg extranonce1 now) s) : s.Followed :=
  reached.invariant Followed (start_followed cfg extranonce1 now)
    (fun _ _ _ _ followed _ taken => step_followed followed taken)

/-- In every run the miner can make sense of every line it gets, and at most the request that ended the session stays
without an answer. While the session goes on, the extranonce, the rolling mask and the authorization the miner was told
are the session's, and once it is authorized so is its difficulty. -/
theorem miner_follows {cfg : Config} {extranonce1 : Bytes} {now : Instant}
    (reached : Reach (step parse sessionId) Always (start cfg extranonce1 now) s) :
    ∃ r, Rig.replay s.traffic = some r ∧ r.awaiting.length ≤ 1 ∧
      (s.closed = false → r.awaiting = [] ∧ Follows s.miner r) := reach_followed reached

theorem miner_follows_three :
    ∃ s, Reach (step testParse "0000000000000001") Always (start exampleConfig [0, 0, 0, 1] 0) s ∧
      ∃ r, Rig.replay s.traffic = some r ∧ r.awaiting = [] ∧ r.extranonce1 = some [0, 0, 0, 1] ∧ r.difficulty = some 4096 := by
  obtain ⟨s, reached, goesOn, on, extranonce1, difficulty⟩ : ∃ s, Reach (step testParse "0000000000000001") Always
      (start exampleConfig [0, 0, 0, 1] 0) s ∧ s.closed = false ∧ s.miner.session.authorized = true ∧
        s.miner.session.extranonce1 = [0, 0, 0, 1] ∧ s.miner.difficulty = 4096 :=
    Reach.of_run testLines (by decide +kernel)
  obtain ⟨r, reads, _, agreed⟩ := miner_follows reached
  obtain ⟨waits, follows⟩ := agreed goesOn
  refine ⟨s, reached, r, reads, waits, ?_, ?_⟩
  · rw [follows.extranonce1, if_pos (follows.subscribed on), extranonce1]
  · rw [follows.difficulty on, difficulty]

end Conversation

end SoloPool.Sv1
