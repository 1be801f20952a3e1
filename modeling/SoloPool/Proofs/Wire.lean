import SoloPool.Lib.Faults
import SoloPool.Network.Wire
import SoloPool.Proofs.Turns

/-!
# Requests and their answers

Over every run of an SV1 session: each request that was read is answered once, in its turn and under its id, unless it
ended the session; what else is written is a notification, and work is sent to authorized miners only.
-/

namespace SoloPool.Sv1
open Lib

/-! ### Answers and notices -/

def Line.Answers : Line → Prop
  | .ok | .err _ | .unknownMethod _ | .configured .. | .subscribed .. => True
  | .setDifficulty _ | .notify .. => False

def Line.Work : Line → Prop
  | .notify .. => True
  | _ => False

/-- A response in the sense of the protocol: it carries the id, and one of a result and an error. -/
def Response (id line : Json) : Prop :=
  (∃ result, result ≠ .null ∧ line = ResponseBuilder.ok id result) ∨
    ∃ code message, line = ResponseBuilder.err id (errorTuple code message)

def Notification (line : Json) : Prop :=
  (∃ difficulty, line = ResponseBuilder.setDifficulty difficulty) ∨ ∃ n, line = ResponseBuilder.notify n

/-- The id under which a line answers. -/
def answeredId : Json → Option Json
  | .object fields => if (fields.lookup "result").isSome then fields.lookup "id" else none
  | _ => none

/-- Whether the line hands out work. -/
def isWork : Json → Bool
  | .object fields => decide (((fields.lookup "method").bind Json.asStr) = some "mining.notify")
  | _ => false

theorem toStratumError_eq (e : PoolError) : ∃ code message, toStratumError e = errorTuple code message := by
  unfold toStratumError
  split <;> exact ⟨_, _, rfl⟩

variable {ctx : ReplyContext} {line : Line}

theorem Line.render_answer (answers : line.Answers) : Response ctx.id (line.render ctx) := by
  cases line with
  | ok => exact .inl ⟨_, Json.noConfusion, rfl⟩
  | err e =>
    obtain ⟨code, message, tuple⟩ := toStratumError_eq e
    exact .inr ⟨code, message, by rw [render, tuple]⟩
  | unknownMethod method => exact .inr ⟨_, _, rfl⟩
  | configured versionRolling mask minimumDifficulty => exact .inl ⟨_, Json.noConfusion, rfl⟩
  | subscribed extranonce1 extranonce2Size => exact .inl ⟨_, Json.noConfusion, rfl⟩
  | setDifficulty difficulty => cases answers
  | notify job cleanJobs => cases answers

theorem Response.answeredId {id line : Json} (response : Response id line) : answeredId line = some id := by
  obtain ⟨_, _, rfl⟩ | ⟨_, _, rfl⟩ := response <;> rfl

theorem Line.render_notice (notice : ¬ line.Answers) : Notification (line.render ctx) := by
  cases line with
  | setDifficulty difficulty => exact .inl ⟨difficulty, rfl⟩
  | notify job cleanJobs => exact .inr ⟨buildNotify job cleanJobs, rfl⟩
  | _ => exact (notice trivial).elim

theorem Notification.answeredId {line : Json} (notification : Notification line) : answeredId line = none := by
  obtain ⟨_, rfl⟩ | ⟨_, rfl⟩ := notification <;> rfl

theorem Line.isWork_render : isWork (line.render ctx) = true ↔ line.Work := by
  cases line with
  | notify job cleanJobs => exact iff_of_true rfl trivial
  | setDifficulty difficulty =>
    refine iff_of_false ?_ False.elim
    change decide (some "mining.set_difficulty" = some "mining.notify") ≠ true
    decide
  | _ => exact iff_of_false Bool.false_ne_true False.elim

/-! ### What a handler writes -/

/-- A handler of a request closes the session without a word, or answers first and only then sends notices. -/
inductive Replied : Handled Session Line → Prop
  | closes {m : Miner Session} {reason : String} {effects : List Effect} : Replied (m.closes reason [] effects)
  | replies {m : Miner Session} {answer : Line} {notices : List Line} {effects : List Effect} {credited : Option String}
      (answers : answer.Answers) (rest : ∀ notice ∈ notices, ¬ notice.Answers)
      (works : (∃ notice ∈ notices, notice.Work) → m.session.authorized = true) :
      Replied { m.replies (answer :: notices) effects with credited }

/-- An answer alone. -/
theorem Replied.single {m : Miner Session} {answer : Line} {effects : List Effect} (answers : answer.Answers) :
    Replied (m.replies [answer] effects) := by
  refine @Replied.replies m answer [] effects none answers (by rintro _ ⟨⟩) ?_
  rintro ⟨_, ⟨⟩, _⟩

theorem Replied.credit {m : Miner Session} {answer : Line} {effects : List Effect} {credited : Option String}
    (answers : answer.Answers) : Replied { m.replies [answer] effects with credited } := by
  refine @Replied.replies m answer [] effects credited answers (by rintro _ ⟨⟩) ?_
  rintro ⟨_, ⟨⟩, _⟩

variable {env : Env} {m : Miner Session}

theorem handleSuggestDifficulty_replied {difficulty : UInt64} {handled : Handled Session Line}
    (suggested : handleSuggestDifficulty env m difficulty = .ok handled) : Replied handled := by
  unfold handleSuggestDifficulty at suggested
  obtain ⟨⟨applied, vardiff⟩, taken, suggested⟩ := Outcome.bind_ok.mp suggested
  obtain rfl := Outcome.ok.inj suggested
  split
  · refine @Replied.replies _ .ok [.setDifficulty applied] [] none trivial ?_ ?_
    · exact List.forall_mem_singleton.mpr id
    · rintro ⟨notice, among, work⟩
      obtain rfl := List.mem_singleton.mp among
      cases work
  · exact .single trivial

theorem handleAuthorize_replied (name : String) : Replied (handleAuthorize env m name) := by
  unfold handleAuthorize
  split
  · exact .single trivial
  · rename_i subscribed
    cases check : m.session.guard.checkWorkerName name with
    | error e => exact .single trivial
    | ok =>
      dsimp only
      cases taken : Session.takeIdentity m.session.guard m.session.worker name with
      | none => exact .closes
      | some guard =>
        have subscribed : m.session.subscribed = true := by simpa using subscribed
        have after := Session.handleAuthorize_admitted env.engine.currentJob subscribed check taken
        dsimp only
        rw [after]
        refine @Replied.replies _ .ok (.setDifficulty m.difficulty :: _) _ none trivial ?_ (fun _ => rfl)
        refine List.forall_mem_cons.mpr ⟨id, ?_⟩
        intro notice among
        obtain ⟨job, _, rfl⟩ := List.mem_map.mp among
        exact id

theorem handleSubmit_replied (params : SubmitParams) : Replied (handleSubmit env m params) := by
  unfold handleSubmit
  generalize m.session.handleSubmit env.crates env.engine params = submitted
  obtain ⟨outcome, disconnect, session⟩ := submitted
  cases outcome with
  | unauthorized => exact .single trivial
  | badExtranonce got expected =>
    cases disconnect with
    | true => exact .closes
    | false => exact .single trivial
  | jobNotFound => exact .single trivial
  | judged result =>
    dsimp only
    split
    · exact .closes
    · rename_i settled ends
      cases disconnect with
      | true => exact .closes
      | false =>
        refine .credit ?_
        cases settled with
        | mk verdict => cases verdict <;> trivial

/-- A line that is not blank: it ends the session or is answered. -/
theorem handleLine_replied {token : Bool} {line : ClientLine} {handled : Handled Session Line} (some : line ≠ .blank)
    (taken : handleLine env token m line = .ok handled) : Replied handled := by
  unfold handleLine at taken
  split at taken
  · exact (some rfl).elim
  · split at taken
    · obtain rfl := Outcome.ok.inj taken
      exact .closes
    · split at taken
      · exact (some rfl).elim
      · obtain rfl := Outcome.ok.inj taken
        exact .closes
      · obtain rfl := Outcome.ok.inj taken
        exact .single trivial
      · obtain rfl := Outcome.ok.inj taken
        exact .single trivial
      · obtain rfl := Outcome.ok.inj taken
        exact .single trivial
      · obtain rfl := Outcome.ok.inj taken
        exact handleAuthorize_replied _
      · obtain rfl := Outcome.ok.inj taken
        exact handleSubmit_replied _
      · exact handleSuggestDifficulty_replied taken
      · obtain rfl := Outcome.ok.inj taken
        exact .single trivial

/-- Without a token, and on a line that does not parse, the session ends. -/
theorem handleLine_unread {token : Bool} {line : ClientLine} {handled : Handled Session Line} (some : line ≠ .blank)
    (unread : token = false ∨ line = .malformed) (taken : handleLine env token m line = .ok handled) :
    handled.disconnect.isSome = true := by
  unfold handleLine at taken
  split at taken
  · exact (some rfl).elim
  · split at taken
    · obtain rfl := Outcome.ok.inj taken
      rfl
    · rename_i granted
      rcases unread with refused | rfl
      · exact (granted (by rw [refused]; rfl)).elim
      · obtain rfl := Outcome.ok.inj taken
        rfl

/-! ### The text of a line -/

theorem clientLine_cases (parse : Parse) (text : String) :
    (clientLine parse text = .blank ∧ requestOn parse text = none) ∨
      (clientLine parse text = .malformed ∧ requestOn parse text = none) ∨
      (clientLine parse text ≠ .blank ∧ ∃ req, requestOn parse text = some req) := by
  unfold clientLine requestOn
  split
  · exact .inl ⟨rfl, rfl⟩
  · cases parse text with
    | none => exact .inr (.inl ⟨rfl, rfl⟩)
    | some req =>
      refine .inr (.inr ⟨?_, req, rfl⟩)
      dsimp only
      split <;> exact ClientLine.noConfusion

/-- What a line leaves: nothing, the end of the session, or the answer to the request on it. -/
theorem handleText_cases {parse : Parse} {sessionId text : String} {token : Bool} {handled : Handled Session Json}
    (taken : handleText parse sessionId env token m text = .ok handled) :
    (handled.sent = [] ∧ requestOn parse text = none) ∨
      (handled.sent = [] ∧ handled.disconnect.isSome = true) ∨
      (∃ req answer notices, token = true ∧ requestOn parse text = some req ∧ handled.disconnect = none ∧
        handled.sent = answer :: notices ∧ Response req.id answer ∧ (∀ notice ∈ notices, Notification notice) ∧
        ((∃ line ∈ handled.sent, isWork line = true) → handled.miner.session.authorized = true)) := by
  obtain ⟨lines, handledLine, same⟩ := Outcome.bind_ok.mp taken
  obtain rfl := Outcome.ok.inj same
  rcases clientLine_cases parse text with ⟨blank, none⟩ | some
  · rw [blank] at handledLine
    obtain rfl := Outcome.ok.inj handledLine
    exact .inl ⟨rfl, none⟩
  · have some' : clientLine parse text ≠ .blank := by
      rcases some with ⟨malformed, _⟩ | ⟨some, _⟩
      · rw [malformed]
        exact ClientLine.noConfusion
      · exact some
    have unread := fun why => handleLine_unread some' why handledLine
    cases handleLine_replied some' handledLine with
    | closes => exact .inr (.inl ⟨rfl, rfl⟩)
    | @replies m' answer notices effects credited answers rest works =>
      have granted : token = true := by
        by_contra refused
        exact absurd (unread (.inl (Bool.eq_false_of_not_eq_true refused))) Bool.false_ne_true
      obtain ⟨req, found⟩ : ∃ req, requestOn parse text = Option.some req := by
        rcases some with ⟨malformed, _⟩ | ⟨_, found⟩
        · exact absurd (unread (.inr malformed)) Bool.false_ne_true
        · exact found
      refine .inr (.inr ⟨req, _, _, granted, found, rfl, rfl, ?_, ?_, ?_⟩)
      · rw [found]
        exact Line.render_answer answers
      · intro notice among
        obtain ⟨line, written, rfl⟩ := List.mem_map.mp among
        exact Line.render_notice (rest line written)
      · rintro ⟨_, among, work⟩
        obtain ⟨line, written, rfl⟩ := List.mem_map.mp among
        have work := Line.isWork_render.mp work
        refine works ⟨line, ?_, work⟩
        rcases List.mem_cons.mp written with rfl | later
        · cases line with
          | notify job cleanJobs => cases answers
          | _ => cases work
        · exact later

/-! ### An authorization stays -/

theorem handleConfigure_authorized (params : ConfigureParams) (on : m.session.authorized = true) :
    (handleConfigure m params).miner.session.authorized = true := by
  change (m.session.handleConfigure params).2.authorized = true
  unfold Session.handleConfigure
  dsimp only
  split <;> exact on

theorem handleAuthorize_authorized (name : String) (on : m.session.authorized = true) :
    (handleAuthorize env m name).miner.session.authorized = true := by
  unfold handleAuthorize
  split
  · exact on
  · rename_i subscribed
    cases check : m.session.guard.checkWorkerName name with
    | error e => exact on
    | ok =>
      dsimp only
      cases admitted : Session.takeIdentity m.session.guard m.session.worker name with
      | none => exact on
      | some guard =>
        have subscribed : m.session.subscribed = true := by simpa using subscribed
        dsimp only [Miner.replies]
        rw [Session.handleAuthorize_admitted env.engine.currentJob subscribed check admitted]

theorem handleSubmit_authorized (params : SubmitParams) (on : m.session.authorized = true) :
    (handleSubmit env m params).miner.session.authorized = true := by
  obtain ⟨guard, shareSet, frame⟩ := m.session.handleSubmit_frame env.crates env.engine params
  rw [(handleSubmit_ends env m params).session, frame]
  exact on

theorem handleLine_authorized {token : Bool} {line : ClientLine} {handled : Handled Session Line}
    (taken : handleLine env token m line = .ok handled) (on : m.session.authorized = true) :
    handled.miner.session.authorized = true := by
  unfold handleLine at taken
  split at taken
  · obtain rfl := Outcome.ok.inj taken
    exact on
  · split at taken
    · obtain rfl := Outcome.ok.inj taken
      exact on
    · split at taken
      · obtain rfl := Outcome.ok.inj taken
        exact on
      · obtain rfl := Outcome.ok.inj taken
        exact on
      · obtain rfl := Outcome.ok.inj taken
        exact on
      · obtain rfl := Outcome.ok.inj taken
        exact handleConfigure_authorized _ on
      · obtain rfl := Outcome.ok.inj taken
        exact on
      · obtain rfl := Outcome.ok.inj taken
        exact handleAuthorize_authorized _ on
      · obtain rfl := Outcome.ok.inj taken
        exact handleSubmit_authorized _ on
      · obtain ⟨_, _, suggested⟩ := Outcome.bind_ok.mp taken
        obtain rfl := Outcome.ok.inj suggested
        exact on
      · obtain rfl := Outcome.ok.inj taken
        exact on

/-! ### Whole sessions -/

namespace Conversation

variable {parse : Parse} {sessionId : String} {s t : Conversation} {event : Event}

structure Sound (s : Conversation) : Prop where
  inTurn : ∃ unanswered, s.requests = s.written.filterMap answeredId ++ unanswered ∧ unanswered.length ≤ 1 ∧
    (s.closed = false → unanswered = [])
  formed : ∀ line ∈ s.written, (∃ id ∈ s.requests, Response id line) ∨ Notification line
  works : (∃ line ∈ s.written, isWork line = true) → s.miner.session.authorized = true

theorem start_sound (cfg : Config) (extranonce1 : Bytes) (now : Instant) : (start cfg extranonce1 now).Sound where
  inTurn := ⟨[], rfl, Nat.zero_le _, fun _ => rfl⟩
  formed := by rintro _ ⟨⟩
  works := by rintro ⟨_, ⟨⟩, _⟩

/-- The session after it has read some requests and written some lines. -/
def exchange (s : Conversation) (requests : List StratumRequest) (m : Miner Session) (sent : List Json) (closed : Bool) :
    Conversation :=
  { miner := m, traffic := s.traffic ++ requests.map .up ++ sent.map .down, closed }

section
variable {requests : List StratumRequest} {m : Miner Session} {sent : List Json} {closed : Bool}

@[simp] theorem exchange_requests : (s.exchange requests m sent closed).requests = s.requests ++ requests.map (·.id) := by
  simp [exchange, Conversation.requests, requestsIn, List.filterMap_map, List.filterMap_eq_map']

@[simp] theorem exchange_written : (s.exchange requests m sent closed).written = s.written ++ sent := by
  simp [exchange, Conversation.written, writtenIn, List.filterMap_map]

/-- What is read is answered in turn, but for the request that ends the session. -/
theorem Sound.exchange (sound : s.Sound) (open_ : s.closed = false)
    (inTurn : ∃ unanswered, requests.map (·.id) = sent.filterMap answeredId ++ unanswered ∧ unanswered.length ≤ 1 ∧
      (closed = false → unanswered = []))
    (formed : ∀ line ∈ sent, (∃ req ∈ requests, Response req.id line) ∨ Notification line)
    (works : (∃ line ∈ sent, isWork line = true) → m.session.authorized = true)
    (still : s.miner.session.authorized = true → m.session.authorized = true) :
    (s.exchange requests m sent closed).Sound := by
  obtain ⟨waiting, earlier, _, none⟩ := sound.inTurn
  obtain ⟨unanswered, later, few, goesOn⟩ := inTurn
  refine ⟨⟨unanswered, ?_, few, goesOn⟩, ?_, ?_⟩
  · rw [exchange_requests, exchange_written, List.filterMap_append, earlier, none open_, later, List.append_nil,
      List.append_assoc]
  · intro line among
    rw [exchange_requests]
    rw [exchange_written] at among
    rcases List.mem_append.mp among with old | new
    · exact (sound.formed line old).imp_left (fun ⟨id, before, response⟩ => ⟨id, List.mem_append_left _ before, response⟩)
    · exact (formed line new).imp_left
        (fun ⟨req, read, response⟩ => ⟨req.id, List.mem_append_right _ (List.mem_map_of_mem read), response⟩)
  · rintro ⟨line, among, work⟩
    rw [exchange_written] at among
    rcases List.mem_append.mp among with old | new
    · exact still (sound.works ⟨line, old, work⟩)
    · exact works ⟨line, new, work⟩

/-- A session that goes on or ends with notices. -/
theorem Sound.notices (sound : s.Sound) (open_ : s.closed = false) (all : ∀ line ∈ sent, Notification line)
    (works : (∃ line ∈ sent, isWork line = true) → m.session.authorized = true)
    (still : s.miner.session.authorized = true → m.session.authorized = true) : (s.exchange [] m sent closed).Sound := by
  have quiet : sent.filterMap answeredId = [] :=
    List.filterMap_eq_nil_iff.mpr (fun line among => (all line among).answeredId)
  exact sound.exchange open_ ⟨[], by rw [quiet]; rfl, Nat.zero_le _, fun _ => rfl⟩ (fun line among => .inr (all line among))
    works still

/-- A session that ends on a request without answering it. -/
theorem Sound.ends (sound : s.Sound) (open_ : s.closed = false) (few : requests.length ≤ 1)
    (still : s.miner.session.authorized = true → m.session.authorized = true) : (s.exchange requests m [] true).Sound := by
  refine sound.exchange open_ ⟨requests.map (·.id), rfl, by rwa [List.length_map], fun open_ => Bool.noConfusion open_⟩ ?_ ?_
    still
  · rintro _ ⟨⟩
  · rintro ⟨_, ⟨⟩, _⟩

/-- A request that is answered before any notices. -/
theorem Sound.answers (sound : s.Sound) (open_ : s.closed = false) {req : StratumRequest} {answer : Json} {notices : List Json}
    (response : Response req.id answer) (rest : ∀ notice ∈ notices, Notification notice)
    (works : (∃ line ∈ answer :: notices, isWork line = true) → m.session.authorized = true)
    (still : s.miner.session.authorized = true → m.session.authorized = true) :
    (s.exchange [req] m (answer :: notices) false).Sound := by
  have quiet : notices.filterMap answeredId = [] :=
    List.filterMap_eq_nil_iff.mpr (fun line among => (rest line among).answeredId)
  refine sound.exchange open_ ⟨[], ?_, Nat.zero_le _, fun _ => rfl⟩ ?_ works still
  · rw [List.filterMap_cons, response.answeredId, quiet]
    rfl
  · intro line among
    rcases List.mem_cons.mp among with rfl | later
    · exact .inl ⟨req, List.mem_singleton_self req, response⟩
    · exact .inr (rest line later)

end

/-- The request on a line that has a token. -/
theorem receive_exchange (token : Bool) (text : String) (m : Miner Session) (sent : List Json) (closed : Bool) :
    { miner := m, traffic := (s.receive parse token text).traffic ++ sent.map .down, closed } =
      s.exchange (if token then requestOn parse text else none).toList m sent closed := rfl

theorem line_sound {env : Env} {token : Bool} {text : String} (sound : s.Sound) (open_ : s.closed = false) :
    ((s.receive parse token text).settle (handleText parse sessionId env token s.miner text)).Sound := by
  have few : (if token then requestOn parse text else none).toList.length ≤ 1 := by
    cases (if token then requestOn parse text else none : Option StratumRequest) with
    | none => exact Nat.zero_le _
    | some req => exact Nat.le_refl _
  have stops : ∀ m : Miner Session, (s.miner.session.authorized = true → m.session.authorized = true) →
      ({ miner := m, traffic := (s.receive parse token text).traffic, closed := true } : Conversation).Sound := by
    intro m still
    have ended := sound.ends open_ few still
    unfold Conversation.exchange at ended
    rw [List.map_nil, List.append_nil] at ended
    exact ended
  cases handling : handleText parse sessionId env token s.miner text with
  | ok handled =>
    obtain ⟨lines, handledLine, same⟩ := Outcome.bind_ok.mp handling
    have still : s.miner.session.authorized = true → handled.miner.session.authorized = true := by
      obtain rfl := Outcome.ok.inj same
      exact handleLine_authorized handledLine
    rcases handleText_cases handling with ⟨sent, none⟩ | ⟨sent, ends⟩ |
      ⟨req, answer, notices, granted, found, stays, sent, response, rest, works⟩
    · rw [settle, receive_exchange, sent, none, ite_self]
      exact sound.notices open_ (by rintro _ ⟨⟩) (by rintro ⟨_, ⟨⟩, _⟩) still
    · rw [settle, sent, ends, List.map_nil, List.append_nil]
      exact stops _ still
    · rw [settle, receive_exchange, sent, stays, granted, if_pos rfl, found]
      rw [sent] at works
      exact sound.answers open_ response rest works still
  | err e => exact stops _ id
  | panic => exact stops _ id

theorem announced_notices {handled : Handled Session Line} (quiet : ∀ line ∈ handled.sent, ¬ line.Answers) :
    ∀ line ∈ (announce handled).sent, Notification line := by
  intro line among
  obtain ⟨notice, sent, rfl⟩ := List.mem_map.mp among
  exact Line.render_notice (quiet notice sent)

theorem settle_exchange (handled : Handled Session Json) :
    s.settle (.ok handled) = s.exchange [] handled.miner handled.sent handled.disconnect.isSome := by
  rw [settle, exchange, List.map_nil, List.append_nil]

theorem broadcast_sound (sound : s.Sound) (open_ : s.closed = false) (b : JobBroadcast) :
    (s.settle (.ok (announce (handleBroadcast s.miner b)))).Sound := by
  have session : (handleBroadcast s.miner b).miner.session.authorized = s.miner.session.authorized := by
    unfold handleBroadcast
    rw [Session.handleBroadcast_eq]
    rfl
  have sent : (handleBroadcast s.miner b).sent =
      if s.miner.session.subscribed && s.miner.session.authorized then [.setDifficulty s.miner.difficulty, .notify b.job b.clean]
      else [] := by
    unfold handleBroadcast
    rw [Session.handleBroadcast_eq]
    rfl
  rw [settle_exchange]
  refine sound.notices open_ (announced_notices ?_) ?_ (fun on => session.trans on)
  · rw [sent]
    split
    · exact List.forall_mem_cons.mpr ⟨id, List.forall_mem_singleton.mpr id⟩
    · rintro _ ⟨⟩
  · rintro ⟨line, among, _⟩
    obtain ⟨notice, written, _⟩ := List.mem_map.mp among
    rw [sent] at written
    split at written
    · rename_i on
      exact session.trans (Bool.and_eq_true_iff.mp on).2
    · cases written

/-- The session ends where it is. -/
theorem Sound.stops (sound : s.Sound) (open_ : s.closed = false) : ({ s with closed := true } : Conversation).Sound := by
  have ended : (s.exchange [] s.miner [] true).Sound := sound.ends open_ (Nat.zero_le _) id
  unfold Conversation.exchange at ended
  rw [List.map_nil, List.map_nil, List.append_nil, List.append_nil] at ended
  exact ended

theorem retarget_sound (sound : s.Sound) (open_ : s.closed = false) (on : s.miner.session.authorized = true)
    (retarget : RetargetStep) (now : Instant) :
    (s.settle (do
      let handled ← handleRetarget retarget now s.miner
      return announce handled)).Sound := by
  cases checked : handleRetarget retarget now s.miner with
  | ok handled =>
    rw [Outcome.ok_bind, Outcome.pure_eq, settle_exchange]
    unfold handleRetarget at checked
    obtain ⟨⟨change, vardiff⟩, _, answered⟩ := Outcome.bind_ok.mp checked
    cases change with
    | none =>
      obtain rfl := Outcome.ok.inj answered
      exact sound.notices open_ (by rintro _ ⟨⟩) (by rintro ⟨_, ⟨⟩, _⟩) id
    | some difficulty =>
      obtain rfl := Outcome.ok.inj answered
      refine sound.notices open_ ?_ (fun _ => on) id
      exact List.forall_mem_singleton.mpr (Line.render_notice id)
  | err e => exact sound.stops open_
  | panic => exact sound.stops open_

theorem settle_traffic (result : Result (Handled Session Json)) :
    ∃ sent : List Json, (s.settle result).traffic = s.traffic ++ sent.map .down := by
  cases result with
  | ok handled => exact ⟨handled.sent, rfl⟩
  | err e => exact ⟨[], (List.append_nil _).symm⟩
  | panic => exact ⟨[], (List.append_nil _).symm⟩

/-- A turn reads at most one request, and then writes. -/
theorem turn_traffic (taken : s.turn parse sessionId event = some t) :
    ∃ (requests : List StratumRequest) (sent : List Json), requests.length ≤ 1 ∧
      t.traffic = s.traffic ++ requests.map .up ++ sent.map .down := by
  have quiet : ∀ sent : List Json, s.traffic ++ sent.map .down = s.traffic ++ ([] : List StratumRequest).map .up ++ sent.map .down :=
    fun sent => by rw [List.map_nil, List.append_nil]
  have still : s.traffic = s.traffic ++ ([] : List StratumRequest).map .up ++ ([] : List Json).map .down :=
    (List.append_nil _).symm.trans (quiet [])
  induction event generalizing t with
  | line env token text =>
    cases taken
    obtain ⟨sent, same⟩ :=
      settle_traffic (s := s.receive parse token text) (handleText parse sessionId env token s.miner text)
    refine ⟨_, sent, ?_, same⟩
    cases (if token then requestOn parse text else none : Option StratumRequest) with
    | none => exact Nat.zero_le _
    | some req => exact Nat.le_refl _
  | cacheJob current =>
    cases taken
    exact ⟨[], [], Nat.zero_le _, still⟩
  | broadcast b =>
    cases taken
    exact ⟨[], _, Nat.zero_le _, quiet _⟩
  | retarget retarget now =>
    obtain ⟨_, same⟩ := Option.ite_none_right_eq_some.mp taken
    cases same
    obtain ⟨sent, same⟩ := settle_traffic (s := s) (do
      let handled ← handleRetarget retarget now s.miner
      return announce handled)
    exact ⟨[], sent, Nat.zero_le _, same.trans (quiet sent)⟩
  | calls history =>
    cases taken
    exact ⟨[], [], Nat.zero_le _, still⟩
  | leave =>
    cases taken
    exact ⟨[], [], Nat.zero_le _, still⟩
  | breaks event written ih =>
    obtain ⟨whole, turned, rfl⟩ := Option.map_eq_some_iff.mp taken
    obtain ⟨requests, sent, few, same⟩ := ih turned
    dsimp only
    rw [same]
    rcases take_turn (requests.map Traffic.up) (by rwa [List.length_map]) written with none | ⟨part, cut, some⟩
    · exact ⟨[], [], Nat.zero_le _, none.trans still⟩
    · obtain ⟨first, _, rfl⟩ := List.prefix_map_iff.mp cut
      exact ⟨requests, first, few, some⟩

/-- A turn that breaks off leaves what it has read, and the first lines it has to write. -/
theorem Sound.breaks (sound : s.Sound) (open_ : s.closed = false) (whole : t.Sound)
    (taken : s.turn parse sessionId event = some t) (written : Nat) :
    ({ t with traffic := t.traffic.take (s.traffic.length + written), closed := true } : Conversation).Sound := by
  obtain ⟨requests, sent, few, same⟩ := turn_traffic taken
  obtain ⟨waiting, answered, _, none⟩ := sound.inTurn
  rw [none open_, List.append_nil] at answered
  have exchanged : t = s.exchange requests t.miner sent t.closed := by
    unfold Conversation.exchange
    rw [← same]
  have read : t.requests = s.requests ++ requests.map (·.id) := (congrArg Conversation.requests exchanged).trans exchange_requests
  have wrote : t.written = s.written ++ sent := (congrArg Conversation.written exchanged).trans exchange_written
  rw [same]
  rcases take_turn (requests.map Traffic.up) (by rwa [List.length_map]) written with nothing | ⟨part, cut, some⟩
  · rw [nothing]
    refine ⟨⟨[], by rw [List.append_nil]; exact answered, Nat.zero_le _, nofun⟩, sound.formed, ?_⟩
    rintro ⟨line, among, work⟩
    exact whole.works ⟨line, by rw [wrote]; exact List.mem_append_left _ among, work⟩
  · obtain ⟨first, ⟨rest, rfl⟩, rfl⟩ := List.prefix_map_iff.mp cut
    rw [some]
    show (s.exchange requests t.miner first true).Sound
    have among_whole : ∀ line ∈ s.written ++ first, line ∈ t.written := by
      intro line among
      rw [wrote, ← List.append_assoc]
      exact List.mem_append_left _ among
    refine ⟨?_, fun line among => ?_, ?_⟩
    · obtain ⟨unanswered, later, _⟩ := whole.inTurn
      rw [read, wrote, answered, ← List.append_assoc, List.filterMap_append, List.filterMap_append] at later
      simp only [List.append_assoc, List.append_cancel_left_eq] at later
      refine ⟨rest.filterMap answeredId ++ unanswered, ?_, ?_, nofun⟩
      · rw [exchange_requests, exchange_written, List.filterMap_append, answered, later, List.append_assoc]
      · have size := congrArg List.length later
        rw [List.length_map, List.length_append] at size
        omega
    · rw [exchange_written] at among
      rw [exchange_requests, ← read]
      exact whole.formed line (among_whole line among)
    · rintro ⟨line, among, work⟩
      rw [exchange_written] at among
      exact whole.works ⟨line, among_whole line among, work⟩

theorem step_sound (sound : s.Sound) (taken : s.step parse sessionId event = some t) : t.Sound := by
  obtain ⟨running, handled⟩ := Option.ite_none_left_eq_some.mp taken
  have open_ : s.closed = false := Bool.eq_false_of_not_eq_true running
  clear taken
  induction event generalizing t with
  | line env token text =>
    cases handled
    exact line_sound sound open_
  | cacheJob current =>
    cases handled
    refine ⟨sound.inTurn, sound.formed, fun written => ?_⟩
    cases current with
    | none => exact sound.works written
    | some job => exact sound.works written
  | broadcast b =>
    cases handled
    exact broadcast_sound sound open_ b
  | retarget retarget now =>
    obtain ⟨on, same⟩ := Option.ite_none_right_eq_some.mp handled
    cases same
    exact retarget_sound sound open_ (Bool.and_eq_true_iff.mp on).2 retarget now
  | calls history =>
    cases handled
    exact ⟨sound.inTurn, sound.formed, sound.works⟩
  | leave =>
    cases handled
    exact sound.stops open_
  | breaks event written ih =>
    obtain ⟨whole, turned, rfl⟩ := Option.map_eq_some_iff.mp handled
    exact sound.breaks open_ (ih turned) turned written

/-- In every run of a session the answers written are those to the requests read, in their order, less at most the one that
ended the session; whatever else is written is a notification, and no work is written to a miner that is not authorized. -/
theorem requests_answered_once {cfg : Config} {extranonce1 : Bytes} {now : Instant}
    (reached : Reach (step parse sessionId) Always (start cfg extranonce1 now) s) :
    (∃ unanswered, s.requests = s.written.filterMap answeredId ++ unanswered ∧ unanswered.length ≤ 1 ∧
      (s.closed = false → unanswered = [])) ∧
    (∀ line ∈ s.written, (∃ id ∈ s.requests, Response id line) ∨ Notification line) ∧
    ((∃ line ∈ s.written, isWork line = true) → s.miner.session.authorized = true) := by
  have sound : s.Sound :=
    reached.invariant Sound (start_sound cfg extranonce1 now) (fun _ _ _ _ sound _ taken => step_sound sound taken)
  exact ⟨sound.inTurn, sound.formed, sound.works⟩

/-! ### A session that subscribes, authorizes and submits -/

def subscribeLine : String := "\x7b\"id\":1,\"method\":\"mining.subscribe\",\"params\":[\"cgminer/4.10.0\"]\x7d"

def authorizeLine : String := "\x7b\"id\":2,\"method\":\"mining.authorize\",\"params\":[\"miner\",\"x\"]\x7d"

def submitLine : String :=
  "\x7b\"id\":3,\"method\":\"mining.submit\",\"params\":[\"miner\",\"7\",\"00000000\",\"6553f100\",\"00000001\"]\x7d"

/-- `serde_json` on three lines. -/
def testParse : Parse := fun text =>
  if text = subscribeLine then
    some { id := number 1, method := "mining.subscribe", params := .array [.string "cgminer/4.10.0"] }
  else if text = authorizeLine then
    some { id := number 2, method := "mining.authorize", params := .array [.string "miner", .string "x"] }
  else if text = submitLine then
    some {
      id := number 3, method := "mining.submit"
      params := .array [.string "miner", .string "7", .string "00000000", .string "6553f100", .string "00000001"] }
  else none

def testEnv : Env :=
  { crates := mainnetCrates, engine := .new, clock := { unix := 1700000000, instant := 0 }, submission := .ok (), serial := 0 }

/-- The submit names no job the engine knows, and the line before it is blank. -/
def testLines : List Event := [subscribeLine, authorizeLine, "\r", submitLine].map (.line testEnv true)

theorem requests_answered_once_three :
    ∃ s, Reach (step testParse "0000000000000001") Always (start exampleConfig [0, 0, 0, 1] 0) s ∧
      s.requests.map Json.asU64 = [some 1, some 2, some 3] ∧ s.requests = s.written.filterMap answeredId := by
  obtain ⟨s, reached, requests, open_⟩ : ∃ s, Reach (step testParse "0000000000000001") Always
      (start exampleConfig [0, 0, 0, 1] 0) s ∧ s.requests.map Json.asU64 = [some 1, some 2, some 3] ∧ s.closed = false :=
    Reach.of_run testLines (by decide +kernel)
  obtain ⟨unanswered, inTurn, _, none⟩ := (requests_answered_once reached).1
  rw [none open_, List.append_nil] at inTurn
  exact ⟨s, reached, requests, inTurn⟩

end Conversation

/-! ### The parameters of a submit -/

theorem strAt_ok {arr : List Json} {idx : Nat} {method field s : String} :
    strAt arr idx method field = .ok s ↔ arr[idx]? = some (.string s) := by
  unfold strAt
  cases arr[idx]? with
  | none => simp
  | some v => cases v <;> simp [Json.asStr]

theorem fiveStrings {arr : List Json} {a b c d e : String} (first : arr[0]? = some (.string a))
    (second : arr[1]? = some (.string b)) (third : arr[2]? = some (.string c)) (fourth : arr[3]? = some (.string d))
    (fifth : arr[4]? = some (.string e)) :
    ∃ rest, arr = .string a :: .string b :: .string c :: .string d :: .string e :: rest := by
  rcases arr with _ | ⟨v, _ | ⟨w, _ | ⟨x, _ | ⟨y, _ | ⟨z, rest⟩⟩⟩⟩⟩
  · cases first
  · cases second
  · cases third
  · cases fourth
  · cases fifth
  · cases first
    cases second
    cases third
    cases fourth
    cases fifth
    exact ⟨rest, rfl⟩

theorem hexField_ok {detail : String} {parsed : Option UInt32} {n : UInt32} : hexField detail parsed = .ok n ↔ parsed = some n := by
  unfold hexField
  cases parsed <;> simp

/-- What a miner sends for a share: its fields in hex, and the version bits where it rolls the version. -/
def submitParams (worker : String) (p : SubmitParams) : Json :=
  .array ([.string worker, .string p.jobId, .string (hexEncode p.extranonce2), .string (hex08 p.ntime), .string (hex08 p.nonce)] ++
    p.versionBits.toList.map (fun bits => .string (hex08 bits)))

/-- The parameters of a submit are accepted if and only if they start with five strings, the last three of which read as
bytes and two words; what comes sixth is taken for version bits if it reads as a word. -/
theorem parseSubmit_ok_iff {params : Json} {p : SubmitParams} :
    parseSubmit params = .ok p ↔ ∃ worker en2Hex ntimeHex nonceHex rest,
      params = .array (.string worker :: .string p.jobId :: .string en2Hex :: .string ntimeHex :: .string nonceHex :: rest) ∧
        hexDecode en2Hex = .ok p.extranonce2 ∧ u32FromStrRadix16 ntimeHex = some p.ntime ∧
        u32FromStrRadix16 nonceHex = some p.nonce ∧
        p.versionBits = (rest.head?.bind Json.asStr).bind u32FromStrRadix16 := by
  constructor
  · intro parsed
    unfold parseSubmit at parsed
    cases params with
    | array arr =>
      simp only [Json.asArray] at parsed
      obtain ⟨worker, first, parsed⟩ := except_bind_ok.mp parsed
      obtain ⟨jobId, second, parsed⟩ := except_bind_ok.mp parsed
      obtain ⟨en2Hex, third, parsed⟩ := except_bind_ok.mp parsed
      obtain ⟨ntimeHex, fourth, parsed⟩ := except_bind_ok.mp parsed
      obtain ⟨nonceHex, fifth, parsed⟩ := except_bind_ok.mp parsed
      split at parsed
      · rename_i extranonce2 decoded
        obtain ⟨ntime, time, parsed⟩ := except_bind_ok.mp parsed
        obtain ⟨nonce, number, parsed⟩ := except_bind_ok.mp parsed
        obtain rfl := Except.ok.inj parsed
        obtain ⟨rest, rfl⟩ := fiveStrings (strAt_ok.mp first) (strAt_ok.mp second) (strAt_ok.mp third) (strAt_ok.mp fourth)
          (strAt_ok.mp fifth)
        exact ⟨worker, en2Hex, ntimeHex, nonceHex, rest, rfl, decoded, hexField_ok.mp time, hexField_ok.mp number,
          by rw [List.head?_eq_getElem?]; rfl⟩
      · cases parsed
    | _ => cases parsed
  · rintro ⟨worker, en2Hex, ntimeHex, nonceHex, rest, rfl, decoded, time, number, bits⟩
    unfold parseSubmit
    simp only [Json.asArray]
    refine except_bind_ok.mpr ⟨worker, strAt_ok.mpr rfl, ?_⟩
    refine except_bind_ok.mpr ⟨p.jobId, strAt_ok.mpr rfl, ?_⟩
    refine except_bind_ok.mpr ⟨en2Hex, strAt_ok.mpr rfl, ?_⟩
    refine except_bind_ok.mpr ⟨ntimeHex, strAt_ok.mpr rfl, ?_⟩
    refine except_bind_ok.mpr ⟨nonceHex, strAt_ok.mpr rfl, ?_⟩
    rw [decoded]
    refine except_bind_ok.mpr ⟨p.ntime, hexField_ok.mpr time, ?_⟩
    refine except_bind_ok.mpr ⟨p.nonce, hexField_ok.mpr number, ?_⟩
    rw [List.head?_eq_getElem?] at bits
    obtain ⟨jobId, extranonce2, ntime, nonce, versionBits⟩ := p
    cases bits
    rfl

theorem strAt_error {arr : List Json} {idx : Nat} {method field : String} {e : PoolError}
    (refused : strAt arr idx method field = .error e) : ∃ detail, e = .invalidParams method detail := by
  unfold strAt at refused
  split at refused
  · cases refused
  · cases refused
    exact ⟨_, rfl⟩

theorem hexField_error {detail : String} {parsed : Option UInt32} {e : PoolError} (refused : hexField detail parsed = .error e) :
    e = .invalidParams "mining.submit" detail := by
  unfold hexField at refused
  split at refused <;> cases refused
  rfl

theorem parseSubmit_error {params : Json} {e : PoolError} (refused : parseSubmit params = .error e) :
    ∃ detail, e = .invalidParams "mining.submit" detail := by
  unfold parseSubmit at refused
  cases params with
  | array arr =>
    simp only [Json.asArray] at refused
    obtain bad | ⟨worker, refused⟩ := except_bind_error refused
    · exact strAt_error bad
    obtain bad | ⟨jobId, refused⟩ := except_bind_error refused
    · exact strAt_error bad
    obtain bad | ⟨en2Hex, refused⟩ := except_bind_error refused
    · exact strAt_error bad
    obtain bad | ⟨ntimeHex, refused⟩ := except_bind_error refused
    · exact strAt_error bad
    obtain bad | ⟨nonceHex, refused⟩ := except_bind_error refused
    · exact strAt_error bad
    split at refused
    · obtain bad | ⟨ntime, refused⟩ := except_bind_error refused
      · exact ⟨_, hexField_error bad⟩
      obtain bad | ⟨nonce, refused⟩ := except_bind_error refused
      · exact ⟨_, hexField_error bad⟩
      cases refused
    · cases refused
      exact ⟨_, rfl⟩
  | _ =>
    cases refused
    exact ⟨_, rfl⟩

theorem versionBits_read (versionBits : Option UInt32) :
    versionBits = (((versionBits.toList.map (fun bits => Json.string (hex08 bits))).head?).bind Json.asStr).bind
      u32FromStrRadix16 := by
  cases versionBits with
  | none => rfl
  | some bits => simp [Json.asStr]

theorem parseSubmit_submitParams (worker : String) (p : SubmitParams) : parseSubmit (submitParams worker p) = .ok p :=
  parseSubmit_ok_iff.mpr ⟨worker, _, _, _, _, rfl, hexDecode_hexEncode _, u32FromStrRadix16_hex08 _, u32FromStrRadix16_hex08 _,
    versionBits_read _⟩

/-- Of the parameters of a submit: what is accepted starts with the five strings a share needs and holds nothing else than
they say; what a miner writes for a share is accepted as that share; and what is refused is refused as invalid parameters
of the method, which the miner is told as an unknown problem. -/
theorem submit_params_read_back :
    (∀ params p, parseSubmit params = .ok p ↔ ∃ worker en2Hex ntimeHex nonceHex rest,
      params = .array (.string worker :: .string p.jobId :: .string en2Hex :: .string ntimeHex :: .string nonceHex :: rest) ∧
        hexDecode en2Hex = .ok p.extranonce2 ∧ u32FromStrRadix16 ntimeHex = some p.ntime ∧
        u32FromStrRadix16 nonceHex = some p.nonce ∧
        p.versionBits = (rest.head?.bind Json.asStr).bind u32FromStrRadix16) ∧
    (∀ worker p, parseSubmit (submitParams worker p) = .ok p) ∧
    ∀ params e, parseSubmit params = .error e →
      (∃ detail, e = .invalidParams "mining.submit" detail) ∧ toStratumError e = errorTuple .unknown "Unknown problem" := by
  refine ⟨fun params p => parseSubmit_ok_iff, parseSubmit_submitParams, fun params e refused => ?_⟩
  obtain ⟨detail, rfl⟩ := parseSubmit_error refused
  exact ⟨⟨detail, rfl⟩, rfl⟩

theorem submit_params_read_back_rolled :
    let p : SubmitParams :=
      { jobId := "7", extranonce2 := [0, 0, 0, 7], ntime := 1700000000, nonce := 5, versionBits := some 0x2000 }
    parseSubmit (submitParams "miner" p) = .ok p ∧
      toStratumError (.invalidParams "mining.submit" "params must be an array") = errorTuple .unknown "Unknown problem" :=
  ⟨submit_params_read_back.2.1 "miner" _, (submit_params_read_back.2.2 .null _ rfl).2⟩

end SoloPool.Sv1
