import SoloPool.Network.Pool
import SoloPool.Proofs.Server
import SoloPool.Proofs.Vardiff

/-!
# What a turn of a session does

A session's turn changes nobody's name, claims one, announces a retarget or credits a share (`Turned`), and each kind
makes its own calls. What a session knows of itself (`Peer.Sound`) survives every turn, and with a validated
configuration no turn panics.
-/

namespace SoloPool
open Lib Stats

/-! ### Calls by what they touch -/

/-- A call that touches neither a worker's presence nor a share record nor the share log. -/
def Effect.plain : Effect → Bool
  | .logShare .. | .markWorkerOnline .. | .markWorkerOffline _ | .updateWorkerVardiff .. | .stashShareHistory _
  | .takeShareHistory _ => false
  | _ => true

namespace Peer

/-- The session takes shares. -/
def active : Peer → Bool
  | .sv1 m _ => m.session.authorized
  | .sv2 m _ => m.session.channelOpen

def protocol : Peer → MinerProtocol
  | .sv1 _ _ => .sv1
  | .sv2 _ _ => .sv2

/-- The kinds of turns, each with all that it changes of the session's name and share record and all its calls. -/
inductive Turned (env : Env) (peer : Peer) (turn : Turn) : Prop where
  | quiet (worker : turn.peer.worker = peer.worker) (record : turn.peer.vardiff.shareTimes = peer.vardiff.shareTimes)
      (plain : ∀ effect ∈ turn.effects, effect.plain = true) (credited : turn.credited = none)
  | credit (credited : UInt64) (before after : List Effect) (active : peer.active = true)
      (worker : turn.peer.worker = peer.worker)
      (record : turn.peer.vardiff = peer.vardiff.recordShare env.clock.instant credited (some env.serial))
      (effects : turn.effects = before ++ .logShare (workerLabel peer.worker) credited env.serial :: after)
      (plain : ∀ effect ∈ before ++ after, effect.plain = true)
      (name : turn.credited = some (workerLabel peer.worker)) (stays : turn.closed = false)
  | claim (name : String) (difficulty : UInt64) (worker : turn.peer.worker = some name)
      (record : turn.peer.vardiff.shareTimes = peer.vardiff.shareTimes)
      (effects : turn.effects = switchIdentity peer.protocol peer.worker name difficulty) (credited : turn.credited = none)
  | retarget (difficulty : UInt64) (worker : turn.peer.worker = peer.worker)
      (record : turn.peer.vardiff.shareTimes = peer.vardiff.shareTimes)
      (effects : turn.effects = peer.worker.toList.map (.updateWorkerVardiff · difficulty))
      (credited : turn.credited = none) (stays : turn.closed = false)

end Peer

/-! ### Submits -/

/-- A judged share, seen through the turn it makes. -/
theorem settle_turned {σ : Type} {env : Env} {worker : String} {height : UInt64} {m : Miner σ} {result : Result ShareResult}
    {settled : Settled σ} (ends : m.settle env worker height result = some settled) :
    settled.miner.session = m.session ∧
    ((settled.credited = none ∧ settled.miner.vardiff = m.vardiff ∧ ∀ effect ∈ settled.effects, effect.plain = true) ∨
    ∃ credited before after, (∃ share, result = .ok share) ∧
      settled.miner.vardiff = m.vardiff.recordShare env.clock.instant credited (some env.serial) ∧
      settled.effects = before ++ .logShare worker credited env.serial :: after ∧
      (∀ effect ∈ before ++ after, effect.plain = true) ∧ settled.credited = some worker) := by
  unfold Miner.settle at ends
  split at ends
  · obtain rfl := Option.some.inj ends
    exact ⟨rfl, .inr ⟨_, [], _, ⟨_, rfl⟩, rfl, rfl, by simp [Effect.plain], rfl⟩⟩
  · split at ends <;> obtain rfl := Option.some.inj ends
    · refine ⟨rfl, .inr ⟨_, [.metric .blockFound, .metric .blockSubmissionSuccess, .blockFound worker _ height], _, ⟨_, rfl⟩,
        rfl, rfl, ?_, rfl⟩⟩
      simp [Effect.plain]
    · exact ⟨rfl, .inl ⟨rfl, rfl, by simp [Effect.plain]⟩⟩
  · obtain rfl := Option.some.inj ends
    exact ⟨rfl, .inl ⟨rfl, rfl, by simp [Effect.plain]⟩⟩
  · cases ends

/-- What no submit changes of a session: its difficulty and the vardiff's. -/
structure Miner.Keeps {σ : Type} (m m' : Miner σ) : Prop where
  difficulty : m'.difficulty = m.difficulty
  current : m'.vardiff.current = m.vardiff.current
  config : m'.vardiff.cfg = m.vardiff.cfg

theorem settle_keeps {σ : Type} {env : Env} {worker : String} {height : UInt64} {m : Miner σ} {result : Result ShareResult}
    {settled : Settled σ} (ends : m.settle env worker height result = some settled) : m.Keeps settled.miner := by
  unfold Miner.settle at ends
  split at ends
  · obtain rfl := Option.some.inj ends
    exact ⟨rfl, rfl, rfl⟩
  · split at ends <;> obtain rfl := Option.some.inj ends <;> exact ⟨rfl, rfl, rfl⟩
  · obtain rfl := Option.some.inj ends
    exact ⟨rfl, rfl, rfl⟩
  · cases ends

theorem recordInvalid_limit (g : SessionGuard) : g.recordInvalid.2.maxWorkerNameLen = g.maxWorkerNameLen := by
  unfold SessionGuard.recordInvalid
  split <;> rfl

theorem guardAfter_limit (g : SessionGuard) (result : Result ShareResult) :
    (guardAfter g result).2.maxWorkerNameLen = g.maxWorkerNameLen := by
  unfold guardAfter
  split
  · rfl
  · split
    · exact recordInvalid_limit g
    · rfl
  · rfl

theorem takeIdentity_limit {g taken : SessionGuard} {worker : Option String} {name : String}
    (admitted : Session.takeIdentity g worker name = some taken) : taken.maxWorkerNameLen = g.maxWorkerNameLen := by
  unfold Session.takeIdentity SessionGuard.recordNewAuthorization at admitted
  split at admitted
  · obtain rfl := Option.some.inj admitted
    rfl
  · split at admitted
    · rename_i recorded
      obtain rfl := Option.some.inj admitted
      split at recorded
      · obtain ⟨_, rfl⟩ := Prod.mk.inj recorded
        rfl
      · obtain ⟨_, rfl⟩ := Prod.mk.inj recorded
        rfl
    · cases admitted

theorem Session.handleSubmit_judged {c : Crates} {e : Engine} {s : Session} {params : SubmitParams}
    {submitted : Submitted Session} {result : Result ShareResult} (handled : s.handleSubmit c e params = submitted)
    (judged : submitted.outcome = .judged result) :
    s.authorized = true ∧ ((∃ share, result = .ok share) → submitted.disconnect = false) := by
  unfold handleSubmit at handled
  split at handled
  · subst handled
    cases judged
  · rename_i admitted
    refine ⟨by simpa using admitted, ?_⟩
    split at handled
    · subst handled
      cases judged
    · split at handled
      · subst handled
        cases judged
      · subst handled
        rintro ⟨share, valid⟩
        have same := SubmitOutcome.judged.inj judged
        rw [valid] at same
        dsimp only
        rw [same]
        rfl

theorem Session.handleSubmit_guard (c : Crates) (e : Engine) (s : Session) (params : SubmitParams) :
    (s.handleSubmit c e params).session.guard.maxWorkerNameLen = s.guard.maxWorkerNameLen := by
  unfold handleSubmit
  dsimp only
  split
  · rfl
  · split
    · exact recordInvalid_limit _
    · split
      · rfl
      · exact guardAfter_limit ..

theorem Sv2.Session.handleSubmit_judged {c : Crates} {e : Engine} {s : Sv2.Session} {submit : Sv2.SubmitSharesExtended}
    {submitted : Submitted Sv2.Session} {result : Result ShareResult} (handled : s.handleSubmit c e submit = submitted)
    (judged : submitted.outcome = .judged result) :
    s.channelOpen = true ∧ ((∃ share, result = .ok share) → submitted.disconnect = false) := by
  unfold handleSubmit at handled
  split at handled
  · subst handled
    cases judged
  · rename_i admitted
    refine ⟨by simpa using admitted, ?_⟩
    split at handled
    · subst handled
      cases judged
    · split at handled
      · subst handled
        cases judged
      · subst handled
        rintro ⟨share, valid⟩
        have same := SubmitOutcome.judged.inj judged
        rw [valid] at same
        dsimp only
        rw [same]
        rfl

theorem Sv2.Session.handleSubmit_guard (c : Crates) (e : Engine) (s : Sv2.Session) (submit : Sv2.SubmitSharesExtended) :
    (s.handleSubmit c e submit).session.guard.maxWorkerNameLen = s.guard.maxWorkerNameLen := by
  unfold handleSubmit
  dsimp only
  split
  · rfl
  · split
    · exact recordInvalid_limit _
    · split
      · rfl
      · exact guardAfter_limit ..

/-- How the handler of a submit ends in either protocol: with the share settled, or before it came to that. -/
inductive Ends {σ μ : Type} (env : Env) (worker : String) (m : Miner σ) (submitted : Submitted σ) (handled : Handled σ μ) :
    Prop where
  | early (miner : handled.miner = { m with session := submitted.session }) (credited : handled.credited = none)
      (plain : ∀ effect ∈ handled.effects, effect.plain = true)
  | settled (result : Result ShareResult) (height : UInt64) (settled : Settled σ)
      (judged : submitted.outcome = .judged result)
      (ends : ({ m with session := submitted.session } : Miner σ).settle env worker height result = some settled)
      (miner : handled.miner = settled.miner) (effects : handled.effects = settled.effects)
      (credited : handled.credited = if submitted.disconnect then none else settled.credited)
      (stays : submitted.disconnect = false → handled.disconnect = none)

theorem Sv1.handleSubmit_ends (env : Env) (m : Miner Session) (params : SubmitParams) :
    Ends env (workerLabel m.session.worker) m (m.session.handleSubmit env.crates env.engine params)
      (handleSubmit env m params) := by
  unfold handleSubmit
  generalize m.session.handleSubmit env.crates env.engine params = submitted
  obtain ⟨outcome, disconnect, session⟩ := submitted
  cases outcome with
  | unauthorized => exact .early rfl rfl (by simp [Miner.replies, Effect.plain])
  | badExtranonce got expected =>
    cases disconnect <;> exact .early rfl rfl (by simp [Miner.replies, Miner.closes, Effect.plain])
  | jobNotFound => exact .early rfl rfl (by simp [Miner.replies, Effect.plain])
  | judged result =>
    dsimp only
    split
    · exact .early rfl rfl nofun
    · rename_i settled ends
      cases disconnect <;> exact .settled result _ settled rfl ends rfl rfl rfl (by simp [Miner.replies])

theorem Sv2.handleSubmit_ends (env : Env) (m : Miner Session) (submit : SubmitSharesExtended) :
    Ends env (workerLabel m.session.worker) m (m.session.handleSubmit env.crates env.engine submit)
      (handleSubmit env m submit) := by
  unfold handleSubmit
  generalize m.session.handleSubmit env.crates env.engine submit = submitted
  obtain ⟨outcome, disconnect, session⟩ := submitted
  cases outcome with
  | unauthorized => exact .early rfl rfl nofun
  | badExtranonce got expected =>
    cases disconnect <;> exact .early rfl rfl (by simp [Miner.replies, Miner.closes, Effect.plain])
  | jobNotFound => exact .early rfl rfl (by simp [Miner.replies, Effect.plain])
  | judged result =>
    dsimp only
    split
    · exact .early rfl rfl nofun
    · rename_i settled ends
      cases disconnect <;> exact .settled result _ settled rfl ends rfl rfl rfl (by simp [Miner.replies])

section Ends

variable {σ μ : Type} {env : Env} {worker : String} {m : Miner σ} {submitted : Submitted σ} {handled : Handled σ μ}

theorem Ends.session (ends : Ends env worker m submitted handled) : handled.miner.session = submitted.session := by
  cases ends with
  | early miner => rw [miner]
  | settled _ _ _ _ ends miner =>
    rw [miner]
    exact (settle_turned ends).1

theorem Ends.keeps (ends : Ends env worker m submitted handled) : m.Keeps handled.miner := by
  cases ends with
  | early miner =>
    rw [miner]
    exact ⟨rfl, rfl, rfl⟩
  | settled _ _ _ _ ends miner =>
    rw [miner]
    obtain ⟨difficulty, current, config⟩ := settle_keeps ends
    exact ⟨difficulty, current, config⟩

theorem Ends.turned {peer : Peer} {turn : Turn} (ends : Ends env (workerLabel peer.worker) m submitted handled)
    (judged : ∀ result, submitted.outcome = .judged result →
      peer.active = true ∧ ((∃ share, result = .ok share) → submitted.disconnect = false))
    (before : peer.vardiff = m.vardiff) (same : turn.peer.worker = peer.worker)
    (after : turn.peer.vardiff = handled.miner.vardiff) (effects : turn.effects = handled.effects)
    (credited : turn.credited = handled.credited) (closed : turn.closed = handled.disconnect.isSome) :
    peer.Turned env turn := by
  cases ends with
  | early miner none plain =>
    refine .quiet same ?_ (effects ▸ plain) (credited.trans none)
    rw [after, before, miner]
  | settled result height settled outcome ends miner calls counted stays =>
    obtain ⟨active, open_valid⟩ := judged result outcome
    rw [miner] at after
    rcases (settle_turned ends).2 with ⟨none, record, plain⟩ | ⟨amount, early, late, valid, record, log, plain, name⟩
    · refine .quiet same ?_ (by rw [effects, calls]; exact plain) ?_
      · rw [after, before, record]
      · rw [credited, counted, none, ite_self]
    · have stay := open_valid valid
      rw [stay, if_neg Bool.false_ne_true] at counted
      refine .credit amount early late active same ?_ ((effects.trans calls).trans log) plain ?_ ?_
      · rw [after, before, record]
      · rw [credited, counted, name]
      · rw [closed, stays stay]
        rfl

end Ends

theorem Sv1.handleSubmit_turned (env : Env) (m : Miner Session) (params : SubmitParams) (written : List Line) :
    Peer.Turned env (.sv1 m written) (turn written (handleSubmit env m params)) := by
  have ends := handleSubmit_ends env m params
  obtain ⟨guard, shareSet, frame⟩ := m.session.handleSubmit_frame env.crates env.engine params
  refine ends.turned (fun _ outcome => Session.handleSubmit_judged rfl outcome) rfl ?_ rfl rfl rfl rfl
  dsimp only [turn, Peer.worker]
  rw [ends.session, frame]

theorem Sv2.handleSubmit_turned (env : Env) (m : Miner Session) (submit : SubmitSharesExtended) (written : List Frame) :
    Peer.Turned env (.sv2 m written) (turn written (handleSubmit env m submit)) := by
  have ends := handleSubmit_ends env m submit
  obtain ⟨guard, shareSet, frame⟩ := m.session.handleSubmit_frame env.crates env.engine submit
  refine ends.turned (fun _ outcome => Session.handleSubmit_judged rfl outcome) rfl ?_ rfl rfl rfl rfl
  dsimp only [turn, Peer.worker]
  rw [ends.session, frame]

/-! ### Names -/

theorem Session.handleAuthorize_admitted {s : Session} {name : String} {guard : SessionGuard}
    (engineJob : Option StratumJob) (subscribed : s.subscribed = true) (check : s.guard.checkWorkerName name = .ok ())
    (taken : takeIdentity s.guard s.worker name = some guard) :
    (s.handleAuthorize engineJob name).2 =
      { s with guard, authorized := true, worker := some name, currentJob := s.currentJob.or engineJob } := by
  unfold handleAuthorize
  rw [if_neg (by simp [subscribed]), check]
  dsimp only
  rw [taken]
  dsimp only
  cases next : s.currentJob.or engineJob with
  | none =>
    have held : s.currentJob = none := (Option.or_eq_none_iff.mp next).1
    rw [held]
  | some job => rfl

theorem Sv2.Session.handleOpenExtended_admitted {s : Session} {request : OpenExtended} {guard : SessionGuard}
    (counters : Counters) (setup : s.setupDone = true) (check : s.guard.checkWorkerName request.userIdentity = .ok ())
    (fits : ¬ request.minExtranonceSize.toNat > s.extranonceTotal)
    (taken : SoloPool.Session.takeIdentity s.guard s.worker request.userIdentity = some guard) :
    let after := (s.handleOpenExtended counters request).2.1
    after.worker = some request.userIdentity ∧ after.setupDone = true ∧ after.guard = guard ∧ 1 ≤ after.extranonceSize := by
  unfold handleOpenExtended
  rw [if_neg (by simp [setup]), check]
  dsimp only
  rw [if_neg fits, taken]
  dsimp only
  split
  · exact ⟨rfl, setup, rfl, Nat.le_max_right _ _⟩
  · rename_i job _
    rcases sendJob_cases { s with
      guard, worker := some request.userIdentity
      extranonceSize := max request.minExtranonceSize.toNat 1
      extranoncePrefix := generateExtranonce1 counters.extranonce1
        (s.extranonceTotal - max request.minExtranonceSize.toNat 1)
      channelId := counters.channelId, channelOpen := true } job true with eq | ⟨_, eq, _⟩ <;> rw [eq] <;>
      exact ⟨rfl, setup, rfl, Nat.le_max_right _ _⟩

theorem Sv1.handleAuthorize_turned (env : Env) (m : Miner Session) (name : String) (written : List Line) :
    Peer.Turned env (.sv1 m written) (turn written (handleAuthorize env m name)) := by
  unfold handleAuthorize
  split
  · exact .quiet rfl rfl nofun rfl
  · rename_i subscribed
    cases check : m.session.guard.checkWorkerName name with
    | error e => exact .quiet rfl rfl nofun rfl
    | ok =>
      dsimp only
      cases taken : Session.takeIdentity m.session.guard m.session.worker name with
      | none => exact .quiet rfl rfl nofun rfl
      | some guard =>
        have after := Session.handleAuthorize_admitted env.engine.currentJob (by simpa using subscribed) check taken
        refine .claim name m.difficulty ?_ rfl rfl rfl
        dsimp only [turn, Miner.replies, Peer.worker]
        rw [after]

theorem Sv2.Flow.handled_eq (target : Hash) (m : Miner Session) (effects : List Effect) (flow : Flow) :
    (flow.handled target m effects).miner = m ∧ (flow.handled target m effects).effects = effects ∧
      (flow.handled target m effects).credited = none := by
  cases flow <;> exact ⟨rfl, rfl, rfl⟩

theorem Sv2.handleOpenExtended_turned (env : Env) (counters : Counters) (m : Miner Session) (request : OpenExtended)
    (written : List Frame) : Peer.Turned env (.sv2 m written) (turn written (handleOpenExtended counters m request).1) := by
  unfold handleOpenExtended
  split
  · exact .quiet rfl rfl nofun rfl
  · rename_i setup
    cases check : m.session.guard.checkWorkerName request.userIdentity with
    | error e => exact .quiet rfl rfl nofun rfl
    | ok =>
      dsimp only
      split
      · exact .quiet rfl rfl nofun rfl
      · rename_i fits
        cases taken : SoloPool.Session.takeIdentity m.session.guard m.session.worker request.userIdentity with
        | none => exact .quiet rfl rfl nofun rfl
        | some guard =>
          obtain ⟨worker, _⟩ := Session.handleOpenExtended_admitted counters (by simpa using setup) check fits taken
          dsimp only
          generalize m.session.handleOpenExtended counters request = handled at worker
          obtain ⟨flow, session, counters⟩ := handled
          obtain ⟨miner, effects, credited⟩ := flow.handled_eq (openTarget m.difficulty request.maxTarget)
            { m with session } (switchIdentity .sv2 m.session.worker request.userIdentity m.difficulty)
          refine .claim request.userIdentity m.difficulty ?_ ?_ effects credited <;> dsimp only [turn] <;> rw [miner]
          · exact worker
          · rfl

/-! ### What an SV1 session knows of itself -/

/-- The name a session works under passed the check of worker names. -/
def Checked (cfg : Config) (worker : Option String) : Prop :=
  ∃ name, worker = some name ∧ validateWorkerName name cfg.security.maxWorkerNameLen = .ok ()

namespace Sv1

def Line.difficulty? : Line → Option UInt64
  | .setDifficulty difficulty => some difficulty
  | _ => none

/-- The difficulty of the last `mining.set_difficulty` written to the miner. -/
def announced (written : List Line) : Option UInt64 := (written.filterMap Line.difficulty?).getLast?

theorem announced_append (written sent : List Line) :
    announced (written ++ sent) = (announced sent).or (announced written) := by
  unfold announced
  rw [List.filterMap_append, List.getLast?_append]

structure Sound (cfg : Config) (m : Miner Session) (written : List Line) : Prop where
  limit : m.session.guard.maxWorkerNameLen = cfg.security.maxWorkerNameLen
  config : m.vardiff.cfg = cfg.vardiff
  named : m.session.authorized = true → m.session.subscribed = true ∧ Checked cfg m.session.worker
  current : m.difficulty = m.vardiff.current
  allowed : Vardiff.Allowed cfg.vardiff cfg.pool.initialDifficulty m.vardiff.current
  told : m.session.authorized = true → announced written = some m.difficulty

variable {cfg : Config} {m m' : Miner Session} {written sent : List Line} {env : Env}

theorem sound_new (cfg : Config) (extranonce1 : Bytes) (now : Instant) :
    Sound cfg (.new cfg (.new cfg extranonce1) now) [] where
  limit := rfl
  config := rfl
  named := nofun
  current := rfl
  allowed := .inl rfl
  told := nofun

/-- A turn that leaves the name and the difficulty, and announces no other. -/
theorem Sound.keep (sound : Sound cfg m written) (authorized : m'.session.authorized = m.session.authorized)
    (worker : m'.session.worker = m.session.worker)
    (subscribed : m.session.subscribed = true → m'.session.subscribed = true)
    (limit : m'.session.guard.maxWorkerNameLen = m.session.guard.maxWorkerNameLen)
    (difficulty : m'.difficulty = m.difficulty) (current : m'.vardiff.current = m.vardiff.current)
    (config : m'.vardiff.cfg = m.vardiff.cfg) (told : announced sent = none ∨ announced sent = some m.difficulty) :
    Sound cfg m' (written ++ sent) where
  limit := limit.trans sound.limit
  config := config.trans sound.config
  named := by
    rw [authorized, worker]
    exact fun on => ⟨subscribed (sound.named on).1, (sound.named on).2⟩
  current := by rw [difficulty, current, sound.current]
  allowed := by
    rw [current]
    exact sound.allowed
  told := by
    rw [authorized, difficulty, announced_append]
    intro on
    rcases told with quiet | again
    · rw [quiet, sound.told on]
      rfl
    · rw [again]
      rfl

/-- A turn that sets a difficulty and announces it to a miner that is authorized. -/
theorem Sound.announce (sound : Sound cfg m written) {difficulty : UInt64} {v : Vardiff} (current : v.current = difficulty)
    (config : v.cfg = m.vardiff.cfg) (moved : Vardiff.Moved m.vardiff v)
    (told : m.session.subscribed = true → announced sent = some difficulty) :
    Sound cfg { m with difficulty, vardiff := v } (written ++ sent) where
  limit := sound.limit
  config := config.trans sound.config
  named := sound.named
  current := current.symm
  allowed := moved.allowed sound.config sound.allowed
  told := by
    intro on
    rw [announced_append, told (sound.named on).1]
    rfl

theorem handleConfigure_sound (sound : Sound cfg m written) (params : ConfigureParams) :
    Sound cfg (handleConfigure m params).miner (written ++ (handleConfigure m params).sent) := by
  have session : (m.session.handleConfigure params).2.authorized = m.session.authorized ∧
      (m.session.handleConfigure params).2.worker = m.session.worker ∧
      (m.session.handleConfigure params).2.subscribed = m.session.subscribed ∧
      (m.session.handleConfigure params).2.guard = m.session.guard := by
    unfold Session.handleConfigure
    dsimp only
    split <;> exact ⟨rfl, rfl, rfl, rfl⟩
  obtain ⟨authorized, worker, subscribed, guard⟩ := session
  exact sound.keep authorized worker (fun on => subscribed.trans on) (congrArg _ guard) rfl rfl rfl (.inl rfl)

theorem handleSuggestDifficulty_sound (sound : Sound cfg m written) {difficulty : UInt64} {handled : Handled Session Line}
    (suggested : handleSuggestDifficulty env m difficulty = .ok handled) :
    Sound cfg handled.miner (written ++ handled.sent) := by
  unfold handleSuggestDifficulty at suggested
  obtain ⟨⟨applied, vardiff⟩, taken, suggested⟩ := Outcome.bind_ok.mp suggested
  obtain rfl := Outcome.ok.inj suggested
  obtain ⟨current, _, config⟩ := Vardiff.suggest_spec taken
  refine sound.announce current config (Vardiff.suggest_due taken).1 (fun subscribed => ?_)
  dsimp only [Miner.replies]
  rw [if_pos subscribed]
  rfl

theorem handleAuthorize_sound (sound : Sound cfg m written) (name : String) :
    Sound cfg (handleAuthorize env m name).miner (written ++ (handleAuthorize env m name).sent) := by
  have same : ∀ {sent : List Line}, announced sent = none → Sound cfg m (written ++ sent) :=
    fun quiet => sound.keep rfl rfl id rfl rfl rfl rfl (.inl quiet)
  unfold handleAuthorize
  split
  · exact same rfl
  · rename_i subscribed
    cases check : m.session.guard.checkWorkerName name with
    | error e => exact same rfl
    | ok =>
      dsimp only
      cases taken : Session.takeIdentity m.session.guard m.session.worker name with
      | none => exact same rfl
      | some guard =>
        have subscribed : m.session.subscribed = true := by simpa using subscribed
        have after := Session.handleAuthorize_admitted env.engine.currentJob subscribed check taken
        dsimp only [Miner.replies]
        rw [after]
        refine ⟨(takeIdentity_limit taken).trans sound.limit, sound.config, fun _ => ⟨subscribed, name, rfl, ?_⟩,
          sound.current, sound.allowed, fun _ => ?_⟩
        · rw [← sound.limit]
          exact check
        · rw [announced_append]
          cases m.session.currentJob.or env.engine.currentJob <;> rfl

theorem handleSubmit_sound (sound : Sound cfg m written) (params : SubmitParams) :
    Sound cfg (handleSubmit env m params).miner (written ++ (handleSubmit env m params).sent) := by
  have keeps := (handleSubmit_ends env m params).keeps
  have session := (handleSubmit_ends env m params).session
  obtain ⟨guard, shareSet, frame⟩ := m.session.handleSubmit_frame env.crates env.engine params
  have limit := m.session.handleSubmit_guard env.crates env.engine params
  have quiet : announced (handleSubmit env m params).sent = none := by
    unfold handleSubmit
    generalize m.session.handleSubmit env.crates env.engine params = submitted
    obtain ⟨outcome, disconnect, session⟩ := submitted
    cases outcome with
    | unauthorized | jobNotFound => rfl
    | badExtranonce got expected => cases disconnect <;> rfl
    | judged result =>
      dsimp only
      split
      · rfl
      · rename_i settled ends
        cases disconnect with
        | true => rfl
        | false => cases settled with | mk verdict => cases verdict <;> rfl
  rw [← session] at frame limit
  exact sound.keep (by rw [frame]) (by rw [frame]) (by rw [frame]; exact id) limit keeps.difficulty keeps.current
    keeps.config (.inl quiet)

theorem handleLine_sound (sound : Sound cfg m written) {token : Bool} {line : ClientLine} {handled : Handled Session Line}
    (taken : handleLine env token m line = .ok handled) : Sound cfg handled.miner (written ++ handled.sent) := by
  have same : ∀ {sent : List Line}, announced sent = none → Sound cfg m (written ++ sent) :=
    fun quiet => sound.keep rfl rfl id rfl rfl rfl rfl (.inl quiet)
  unfold handleLine at taken
  split at taken
  · obtain rfl := Outcome.ok.inj taken
    exact same rfl
  · split at taken
    · obtain rfl := Outcome.ok.inj taken
      exact same rfl
    · split at taken
      · obtain rfl := Outcome.ok.inj taken
        exact same rfl
      · obtain rfl := Outcome.ok.inj taken
        exact same rfl
      · obtain rfl := Outcome.ok.inj taken
        exact same rfl
      · obtain rfl := Outcome.ok.inj taken
        exact handleConfigure_sound sound _
      · obtain rfl := Outcome.ok.inj taken
        exact sound.keep rfl rfl (fun _ => rfl) rfl rfl rfl rfl (.inl rfl)
      · obtain rfl := Outcome.ok.inj taken
        exact handleAuthorize_sound sound _
      · obtain rfl := Outcome.ok.inj taken
        exact handleSubmit_sound sound _
      · exact handleSuggestDifficulty_sound sound taken
      · obtain rfl := Outcome.ok.inj taken
        exact same rfl

theorem handleBroadcast_sound (sound : Sound cfg m written) (b : JobBroadcast) :
    Sound cfg (handleBroadcast m b).miner (written ++ (handleBroadcast m b).sent) := by
  unfold handleBroadcast
  rw [Session.handleBroadcast_eq]
  refine sound.keep rfl rfl id rfl rfl rfl rfl ?_
  dsimp only [Miner.replies]
  split
  · exact .inr rfl
  · exact .inl rfl

theorem handleRetarget_sound (sound : Sound cfg m written) {retarget : RetargetStep} {now : Instant}
    {handled : Handled Session Line} (checked : handleRetarget retarget now m = .ok handled) :
    Sound cfg handled.miner (written ++ handled.sent) := by
  unfold handleRetarget at checked
  obtain ⟨⟨change, vardiff⟩, fired, checked⟩ := Outcome.bind_ok.mp checked
  obtain ⟨current, _, config⟩ := Vardiff.checkRetarget_spec fired
  cases change with
  | none =>
    obtain rfl := Outcome.ok.inj checked
    exact sound.keep rfl rfl id rfl rfl current config (.inl rfl)
  | some difficulty =>
    obtain rfl := Outcome.ok.inj checked
    exact sound.announce current config (Vardiff.checkRetarget_due fired).2.1 (fun _ => rfl)

end Sv1

/-! ### What an SV2 session knows of itself -/

namespace Sv2

/-- What an open channel rests on. -/
structure Session.Admitted (cfg : Config) (s : Session) : Prop where
  limit : s.guard.maxWorkerNameLen = cfg.security.maxWorkerNameLen
  named : s.channelOpen = true → s.setupDone = true ∧ Checked cfg s.worker
  granted : s.channelOpen = true → 1 ≤ s.extranonceSize

namespace Session

variable {cfg : Config} {s t : Session}

theorem admitted_new (cfg : Config) (extranoncePrefix : Bytes) : (Session.new cfg extranoncePrefix).Admitted cfg where
  limit := rfl
  named := nofun
  granted := nofun

theorem Admitted.keep (admitted : s.Admitted cfg) (channel : t.channelOpen = s.channelOpen) (worker : t.worker = s.worker)
    (setup : s.setupDone = true → t.setupDone = true) (limit : t.guard.maxWorkerNameLen = s.guard.maxWorkerNameLen)
    (size : t.extranonceSize = s.extranonceSize) : t.Admitted cfg where
  limit := limit.trans admitted.limit
  named := by
    rw [channel, worker]
    exact fun on => ⟨setup (admitted.named on).1, (admitted.named on).2⟩
  granted := by
    rw [channel, size]
    exact admitted.granted

theorem cacheJob_admitted (admitted : s.Admitted cfg) (current : Option StratumJob) : (s.cacheJob current).Admitted cfg := by
  cases current <;> exact admitted.keep rfl rfl id rfl rfl

theorem handleSetupConnection_admitted (admitted : s.Admitted cfg) (setup : SetupConn) :
    (s.handleSetupConnection setup).2.Admitted cfg := by
  unfold handleSetupConnection
  split
  · exact admitted
  · split
    · exact admitted
    · split
      · exact admitted
      · exact admitted.keep rfl rfl (fun _ => rfl) rfl rfl

theorem handleOpenExtended_keeps (admitted : s.Admitted cfg) (counters : Counters) (request : OpenExtended) :
    (s.handleOpenExtended counters request).2.1.Admitted cfg := by
  by_cases setup : s.setupDone = true
  · cases check : s.guard.checkWorkerName request.userIdentity with
    | error e =>
      unfold handleOpenExtended
      rw [if_neg (by simp [setup]), check]
      exact admitted
    | ok =>
      by_cases fits : request.minExtranonceSize.toNat > s.extranonceTotal
      · unfold handleOpenExtended
        rw [if_neg (by simp [setup]), check]
        dsimp only
        rw [if_pos fits]
        exact admitted
      · cases taken : SoloPool.Session.takeIdentity s.guard s.worker request.userIdentity with
        | none =>
          unfold handleOpenExtended
          rw [if_neg (by simp [setup]), check]
          dsimp only
          rw [if_neg fits, taken]
          exact admitted
        | some guard =>
          obtain ⟨worker, setup, guarded, granted⟩ := handleOpenExtended_admitted counters setup check fits taken
          refine ⟨?_, fun _ => ⟨setup, request.userIdentity, worker, ?_⟩, fun _ => granted⟩
          · rw [guarded, takeIdentity_limit taken, admitted.limit]
          · rw [← admitted.limit]
            exact check
  · unfold handleOpenExtended
    rw [if_pos (by simpa using setup)]
    exact admitted

theorem handleSubmit_admitted (admitted : s.Admitted cfg) (c : Crates) (e : Engine) (submit : SubmitSharesExtended) :
    (s.handleSubmit c e submit).session.Admitted cfg := by
  obtain ⟨guard, shareSet, frame⟩ := s.handleSubmit_frame c e submit
  have limit := s.handleSubmit_guard c e submit
  rw [frame] at limit ⊢
  exact admitted.keep rfl rfl id limit rfl

theorem handleBroadcast_admitted (admitted : s.Admitted cfg) (b : JobBroadcast) :
    (s.handleBroadcast b).2.Admitted cfg := by
  obtain ⟨shareSet, pendingJob, jobIds, nextJobId, frame⟩ := s.handleBroadcast_frame b
  rw [frame]
  exact admitted.keep rfl rfl id rfl rfl

end Session

structure Sound (cfg : Config) (m : Miner Session) : Prop where
  session : m.session.Admitted cfg
  config : m.vardiff.cfg = cfg.vardiff
  current : m.difficulty = m.vardiff.current
  allowed : Vardiff.Allowed cfg.vardiff cfg.pool.initialDifficulty m.vardiff.current

variable {cfg : Config} {m m' : Miner Session} {env : Env} {counters : Counters}

theorem sound_new (cfg : Config) (extranoncePrefix : Bytes) (now : Instant) :
    Sound cfg (.new cfg (.new cfg extranoncePrefix) now) where
  session := Session.admitted_new cfg extranoncePrefix
  config := rfl
  current := rfl
  allowed := .inl rfl

theorem handleSetupConnection_sound (sound : Sound cfg m) (setup : SetupConn) :
    Sound cfg (handleSetupConnection m setup).miner := by
  have session := Session.handleSetupConnection_admitted sound.session setup
  unfold handleSetupConnection
  split <;> rename_i handled <;> rw [handled] at session <;> exact ⟨session, sound.config, sound.current, sound.allowed⟩

theorem handleOpenExtended_sound (sound : Sound cfg m) (request : OpenExtended) :
    Sound cfg (handleOpenExtended counters m request).1.miner := by
  have session := Session.handleOpenExtended_keeps sound.session counters request
  unfold handleOpenExtended
  split
  · exact sound
  · cases check : m.session.guard.checkWorkerName request.userIdentity with
    | error e => exact sound
    | ok =>
      dsimp only
      split
      · exact sound
      · cases taken : SoloPool.Session.takeIdentity m.session.guard m.session.worker request.userIdentity with
        | none => exact sound
        | some guard =>
          dsimp only
          rw [(Flow.handled_eq ..).1]
          exact ⟨session, sound.config, sound.current, sound.allowed⟩

theorem handleSubmit_sound (sound : Sound cfg m) (submit : SubmitSharesExtended) :
    Sound cfg (handleSubmit env m submit).miner := by
  have keeps := (handleSubmit_ends env m submit).keeps
  have session := (handleSubmit_ends env m submit).session
  refine ⟨?_, keeps.config.trans sound.config, ?_, ?_⟩
  · rw [session]
    exact Session.handleSubmit_admitted sound.session ..
  · rw [keeps.difficulty, keeps.current, sound.current]
  · rw [keeps.current]
    exact sound.allowed

theorem handleMessage_sound (sound : Sound cfg m) (token : Bool) (frame : ClientFrame) :
    Sound cfg (handleMessage env counters token m frame).1.miner := by
  unfold handleMessage
  split
  · exact sound
  · cases frame with
    | setupConnection setup => exact handleSetupConnection_sound sound setup
    | openExtended request => exact handleOpenExtended_sound sound request
    | submitExtended submit => exact handleSubmit_sound sound submit
    | malformed | other => exact sound

theorem handleBroadcast_sound (sound : Sound cfg m) (b : JobBroadcast) : Sound cfg (handleBroadcast m b).miner := by
  unfold handleBroadcast
  dsimp only
  rw [(Flow.handled_eq ..).1]
  exact ⟨Session.handleBroadcast_admitted sound.session b, sound.config, sound.current, sound.allowed⟩

theorem handleRetarget_sound (sound : Sound cfg m) {retarget : RetargetStep} {now : Instant}
    {handled : Handled Session Frame} (checked : handleRetarget retarget now m = .ok handled) : Sound cfg handled.miner := by
  unfold handleRetarget at checked
  obtain ⟨⟨change, vardiff⟩, fired, checked⟩ := Outcome.bind_ok.mp checked
  obtain ⟨current, _, config⟩ := Vardiff.checkRetarget_spec fired
  have allowed := (Vardiff.checkRetarget_due fired).2.1.allowed sound.config sound.allowed
  cases change with
  | none =>
    obtain rfl := Outcome.ok.inj checked
    exact ⟨sound.session, config.trans sound.config, sound.current.trans current.symm, allowed⟩
  | some difficulty =>
    obtain rfl := Outcome.ok.inj checked
    exact ⟨sound.session, config.trans sound.config, current.symm, allowed⟩

end Sv2

/-! ### Turns of either protocol -/

theorem Sv1.handleLine_turned {env : Env} {token : Bool} {m : Miner Session} {line : ClientLine}
    {handled : Handled Session Line} (taken : handleLine env token m line = .ok handled) (written : List Line) :
    Peer.Turned env (.sv1 m written) (turn written handled) := by
  unfold handleLine at taken
  split at taken
  · obtain rfl := Outcome.ok.inj taken
    exact .quiet rfl rfl nofun rfl
  · split at taken
    · obtain rfl := Outcome.ok.inj taken
      exact .quiet rfl rfl (by simp [turn, Miner.closes, Effect.plain]) rfl
    · split at taken
      · obtain rfl := Outcome.ok.inj taken
        exact .quiet rfl rfl nofun rfl
      · obtain rfl := Outcome.ok.inj taken
        exact .quiet rfl rfl nofun rfl
      · obtain rfl := Outcome.ok.inj taken
        exact .quiet rfl rfl nofun rfl
      · rename_i params
        obtain rfl := Outcome.ok.inj taken
        refine .quiet ?_ rfl nofun rfl
        dsimp only [handleConfigure, Session.handleConfigure, turn, Miner.replies, Peer.worker]
        split <;> rfl
      · obtain rfl := Outcome.ok.inj taken
        exact .quiet rfl rfl nofun rfl
      · obtain rfl := Outcome.ok.inj taken
        exact handleAuthorize_turned ..
      · obtain rfl := Outcome.ok.inj taken
        exact handleSubmit_turned ..
      · unfold handleSuggestDifficulty at taken
        obtain ⟨⟨applied, vardiff⟩, suggested, taken⟩ := Outcome.bind_ok.mp taken
        obtain rfl := Outcome.ok.inj taken
        exact .quiet rfl (Vardiff.suggest_spec suggested).2.1 nofun rfl
      · obtain rfl := Outcome.ok.inj taken
        exact .quiet rfl rfl nofun rfl

theorem Sv2.handleMessage_turned (env : Env) (counters : Counters) (token : Bool) (m : Miner Session) (frame : ClientFrame)
    (written : List Frame) :
    Peer.Turned env (.sv2 m written) (turn written (handleMessage env counters token m frame).1) := by
  unfold handleMessage
  split
  · exact .quiet rfl rfl (by simp [turn, Miner.closes, Effect.plain]) rfl
  · cases frame with
    | setupConnection setup =>
      have worker : (m.session.handleSetupConnection setup).2.worker = m.session.worker := by
        unfold Session.handleSetupConnection
        split
        · rfl
        · split
          · rfl
          · split <;> rfl
      dsimp only
      unfold handleSetupConnection
      split <;> rename_i handled <;> rw [handled] at worker <;> exact .quiet worker rfl nofun rfl
    | openExtended request => exact handleOpenExtended_turned ..
    | submitExtended submit => exact handleSubmit_turned ..
    | malformed | other => exact .quiet rfl rfl nofun rfl

theorem Sv1.handleRetarget_turned {env : Env} {retarget : RetargetStep} {now : Instant} {m : Miner Session}
    {handled : Handled Session Line} (checked : handleRetarget retarget now m = .ok handled) (written : List Line) :
    Peer.Turned env (.sv1 m written) (turn written handled) := by
  unfold handleRetarget at checked
  obtain ⟨⟨change, vardiff⟩, fired, checked⟩ := Outcome.bind_ok.mp checked
  have record := (Vardiff.checkRetarget_spec fired).2.1
  cases change with
  | none =>
    obtain rfl := Outcome.ok.inj checked
    exact .quiet rfl record nofun rfl
  | some difficulty =>
    obtain rfl := Outcome.ok.inj checked
    exact .retarget difficulty rfl record rfl rfl rfl

theorem Sv2.handleRetarget_turned {env : Env} {retarget : RetargetStep} {now : Instant} {m : Miner Session}
    {handled : Handled Session Frame} (checked : handleRetarget retarget now m = .ok handled) (written : List Frame) :
    Peer.Turned env (.sv2 m written) (turn written handled) := by
  unfold handleRetarget at checked
  obtain ⟨⟨change, vardiff⟩, fired, checked⟩ := Outcome.bind_ok.mp checked
  have record := (Vardiff.checkRetarget_spec fired).2.1
  cases change with
  | none =>
    obtain rfl := Outcome.ok.inj checked
    exact .quiet rfl record nofun rfl
  | some difficulty =>
    obtain rfl := Outcome.ok.inj checked
    exact .retarget difficulty rfl record rfl rfl rfl

namespace Peer

def Sound (cfg : Config) : Peer → Prop
  | .sv1 m written => Sv1.Sound cfg m written
  | .sv2 m _ => Sv2.Sound cfg m

variable {cfg : Config} {env : Env} {counters counters' : Sv2.Counters} {peer : Peer} {input : Input} {turn : Turn}

theorem handle_turned (handled : peer.handle env counters input = some (.ok (turn, counters'))) : peer.Turned env turn := by
  cases peer with
  | sv1 m written =>
    cases input with
    | line token line =>
      obtain ⟨_, taken, same⟩ := Outcome.bind_ok.mp (Option.some.inj handled)
      obtain ⟨rfl, rfl⟩ := Prod.mk.inj (Outcome.ok.inj same)
      exact Sv1.handleLine_turned taken written
    | cacheJob current =>
      obtain ⟨rfl, rfl⟩ := Prod.mk.inj (Outcome.ok.inj (Option.some.inj handled))
      exact .quiet (by cases current <;> rfl) rfl nofun rfl
    | broadcast b =>
      obtain ⟨rfl, rfl⟩ := Prod.mk.inj (Outcome.ok.inj (Option.some.inj handled))
      refine .quiet ?_ rfl nofun rfl
      dsimp only [Sv1.handleBroadcast, Sv1.turn, Miner.replies, worker]
      rw [Session.handleBroadcast_eq]
    | retarget retarget =>
      simp only [handle] at handled
      split at handled
      · obtain ⟨_, checked, same⟩ := Outcome.bind_ok.mp (Option.some.inj handled)
        obtain ⟨rfl, rfl⟩ := Prod.mk.inj (Outcome.ok.inj same)
        exact Sv1.handleRetarget_turned checked written
      · cases handled
    | frame => cases handled
  | sv2 m written =>
    cases input with
    | frame token frame =>
      obtain ⟨rfl, rfl⟩ := Prod.mk.inj (Outcome.ok.inj (Option.some.inj handled))
      exact Sv2.handleMessage_turned ..
    | cacheJob current =>
      obtain ⟨rfl, rfl⟩ := Prod.mk.inj (Outcome.ok.inj (Option.some.inj handled))
      exact .quiet (by cases current <;> rfl) rfl nofun rfl
    | broadcast b =>
      obtain ⟨rfl, rfl⟩ := Prod.mk.inj (Outcome.ok.inj (Option.some.inj handled))
      obtain ⟨shareSet, pendingJob, jobIds, nextJobId, frame⟩ := m.session.handleBroadcast_frame b
      obtain ⟨miner, effects, credited⟩ := Sv2.Flow.handled_eq (.zero 32) { m with session := (m.session.handleBroadcast b).2 }
        [] (m.session.handleBroadcast b).1
      refine .quiet ?_ ?_ ?_ credited <;> dsimp only [Sv2.handleBroadcast, Sv2.turn, worker, vardiff]
      · rw [miner]
        dsimp only
        rw [frame]
      · rw [miner]
      · rw [effects]
        exact nofun
    | retarget retarget =>
      simp only [handle] at handled
      split at handled
      · obtain ⟨_, checked, same⟩ := Outcome.bind_ok.mp (Option.some.inj handled)
        obtain ⟨rfl, rfl⟩ := Prod.mk.inj (Outcome.ok.inj same)
        exact Sv2.handleRetarget_turned checked written
      · cases handled
    | line => cases handled

theorem handle_sound (sound : peer.Sound cfg)
    (handled : peer.handle env counters input = some (.ok (turn, counters'))) : turn.peer.Sound cfg := by
  cases peer with
  | sv1 m written =>
    cases input with
    | line token line =>
      obtain ⟨_, taken, same⟩ := Outcome.bind_ok.mp (Option.some.inj handled)
      obtain ⟨rfl, rfl⟩ := Prod.mk.inj (Outcome.ok.inj same)
      exact Sv1.handleLine_sound sound taken
    | cacheJob current =>
      obtain ⟨rfl, rfl⟩ := Prod.mk.inj (Outcome.ok.inj (Option.some.inj handled))
      cases current <;> exact Sv1.Sound.keep sound rfl rfl id rfl rfl rfl rfl (.inl rfl)
    | broadcast b =>
      obtain ⟨rfl, rfl⟩ := Prod.mk.inj (Outcome.ok.inj (Option.some.inj handled))
      exact Sv1.handleBroadcast_sound sound b
    | retarget retarget =>
      simp only [handle] at handled
      split at handled
      · obtain ⟨_, checked, same⟩ := Outcome.bind_ok.mp (Option.some.inj handled)
        obtain ⟨rfl, rfl⟩ := Prod.mk.inj (Outcome.ok.inj same)
        exact Sv1.handleRetarget_sound sound checked
      · cases handled
    | frame => cases handled
  | sv2 m written =>
    cases input with
    | frame token frame =>
      obtain ⟨rfl, rfl⟩ := Prod.mk.inj (Outcome.ok.inj (Option.some.inj handled))
      exact Sv2.handleMessage_sound sound token frame
    | cacheJob current =>
      obtain ⟨rfl, rfl⟩ := Prod.mk.inj (Outcome.ok.inj (Option.some.inj handled))
      exact ⟨Sv2.Session.cacheJob_admitted sound.session current, sound.config, sound.current, sound.allowed⟩
    | broadcast b =>
      obtain ⟨rfl, rfl⟩ := Prod.mk.inj (Outcome.ok.inj (Option.some.inj handled))
      exact Sv2.handleBroadcast_sound sound b
    | retarget retarget =>
      simp only [handle] at handled
      split at handled
      · obtain ⟨_, checked, same⟩ := Outcome.bind_ok.mp (Option.some.inj handled)
        obtain ⟨rfl, rfl⟩ := Prod.mk.inj (Outcome.ok.inj same)
        exact Sv2.handleRetarget_sound sound checked
      · cases handled
    | line => cases handled

/-- With a validated configuration every turn comes to its end. -/
theorem handle_ok (clamps : Vardiff.Clamps cfg.vardiff) (sound : peer.Sound cfg) {result : Result (Turn × Sv2.Counters)}
    (handled : peer.handle env counters input = some result) : ∃ turn counters', result = .ok (turn, counters') := by
  cases peer with
  | sv1 m written =>
    rw [← sound.config] at clamps
    cases input with
    | line token line =>
      obtain rfl := Option.some.inj handled
      have ok : ∃ handled, Sv1.handleLine env token m line = .ok handled := by
        unfold Sv1.handleLine
        split
        · exact ⟨_, rfl⟩
        · split
          · exact ⟨_, rfl⟩
          · cases line with
            | blank | malformed | invalid => exact ⟨_, rfl⟩
            | message message =>
              cases message with
              | suggestDifficulty difficulty =>
                obtain ⟨applied, suggested⟩ := Vardiff.suggest_ok clamps difficulty env.clock.instant
                dsimp only
                unfold Sv1.handleSuggestDifficulty
                rw [suggested]
                exact ⟨_, rfl⟩
              | _ => exact ⟨_, rfl⟩
      obtain ⟨_, ok⟩ := ok
      rw [ok]
      exact ⟨_, _, rfl⟩
    | cacheJob | broadcast =>
      obtain rfl := Option.some.inj handled
      exact ⟨_, _, rfl⟩
    | retarget retarget =>
      simp only [handle] at handled
      split at handled
      · obtain rfl := Option.some.inj handled
        obtain ⟨⟨change, vardiff⟩, checked⟩ := Vardiff.checkRetarget_ok clamps retarget env.clock.instant
        unfold Sv1.handleRetarget
        rw [checked]
        cases change <;> exact ⟨_, _, rfl⟩
      · cases handled
    | frame => cases handled
  | sv2 m written =>
    rw [← sound.config] at clamps
    cases input with
    | frame | cacheJob | broadcast =>
      obtain rfl := Option.some.inj handled
      exact ⟨_, _, rfl⟩
    | retarget retarget =>
      simp only [handle] at handled
      split at handled
      · obtain rfl := Option.some.inj handled
        obtain ⟨⟨change, vardiff⟩, checked⟩ := Vardiff.checkRetarget_ok clamps retarget env.clock.instant
        unfold Sv2.handleRetarget
        rw [checked]
        cases change <;> exact ⟨_, _, rfl⟩
      · cases handled
    | line => cases handled

theorem Sound.setVardiff (sound : peer.Sound cfg) {v : Vardiff} (current : v.current = peer.vardiff.current)
    (config : v.cfg = peer.vardiff.cfg) : (peer.setVardiff v).Sound cfg := by
  cases peer with
  | sv1 m written =>
    exact ⟨sound.limit, config.trans sound.config, sound.named, sound.current.trans current.symm, current ▸ sound.allowed,
      sound.told⟩
  | sv2 m written =>
    exact ⟨sound.session, config.trans sound.config, sound.current.trans current.symm, current ▸ sound.allowed⟩

/-- A session that takes shares has a name. -/
theorem Sound.worker (sound : peer.Sound cfg) (active : peer.active = true) : ∃ name, peer.worker = some name := by
  cases peer with
  | sv1 m written =>
    obtain ⟨name, named, _⟩ := (sound.named active).2
    exact ⟨name, named⟩
  | sv2 m written =>
    obtain ⟨name, named, _⟩ := (sound.session.named active).2
    exact ⟨name, named⟩

end Peer

theorem Peer.setVardiff_worker (peer : Peer) (v : Vardiff) : (peer.setVardiff v).worker = peer.worker := by
  cases peer <;> rfl

/-- The name the session has once its calls are made. -/
def Thread.destined (t : Thread) : Option String := if t.ending then none else t.peer.worker

theorem Thread.destined_running (t : Thread) (stays : t.ending = false) : t.destined = t.peer.worker := by
  unfold destined
  rw [stays]
  rfl

theorem Thread.destined_ending (t : Thread) (ends : t.ending = true) : t.destined = none := by
  unfold destined
  rw [ends]
  rfl

/-! ### Reading a session off its calls -/

/-- Something that goes with a session's name: what it is before a call, read off what it is after, and what it can be
after. -/
structure Track where
  before : Effect → Option String → Option String
  Leaves : Effect → Option String → Prop
  plain : ∀ effect, effect.plain = true → ∀ name, before effect name = name ∧ Leaves effect name
  log : ∀ worker credited serial name,
    before (.logShare worker credited serial) name = name ∧ Leaves (.logShare worker credited serial) name
  retarget : ∀ worker difficulty, before (.updateWorkerVardiff worker difficulty) (some worker) = some worker ∧
    Leaves (.updateWorkerVardiff worker difficulty) (some worker)
  release : ∀ worker, origin before (releaseIdentity worker) none = worker ∧
    Consistent before Leaves (releaseIdentity worker) none
  switch : ∀ protocol worker name difficulty,
    origin before (switchIdentity protocol worker name difficulty) (some name) = worker ∧
      Consistent before Leaves (switchIdentity protocol worker name difficulty) (some name)

namespace Track

variable (track : Track)

def of (t : Thread) : Option String := origin track.before t.pending t.destined

def Fits (t : Thread) : Prop := Consistent track.before track.Leaves t.pending t.destined

theorem of_idle {t : Thread} (idle : t.pending = []) : track.of t = t.destined := by
  unfold of
  rw [idle]
  rfl

theorem plain_calls {effects : List Effect} (plain : ∀ effect ∈ effects, effect.plain = true) (name : Option String) :
    origin track.before effects name = name ∧ Consistent track.before track.Leaves effects name :=
  ⟨origin_neutral (fun effect among name => (track.plain effect (plain effect among) name).1),
    consistent_neutral (fun effect among name => (track.plain effect (plain effect among) name).2)⟩

theorem turned {env : Env} {peer : Peer} {turn : Turn} (turned : peer.Turned env turn) :
    origin track.before turn.effects turn.peer.worker = peer.worker ∧
      Consistent track.before track.Leaves turn.effects turn.peer.worker := by
  cases turned with
  | quiet worker record plain credited =>
    rw [worker]
    exact track.plain_calls plain _
  | credit credited before after active worker record effects plain name stays =>
    rw [worker, effects]
    obtain ⟨first, fits⟩ :=
      track.plain_calls (fun effect among => plain effect (List.mem_append_left _ among)) peer.worker
    obtain ⟨last, ends⟩ :=
      track.plain_calls (fun effect among => plain effect (List.mem_append_right _ among)) peer.worker
    have log := track.log (workerLabel peer.worker) credited env.serial peer.worker
    have logged : origin track.before (.logShare (workerLabel peer.worker) credited env.serial :: after) peer.worker =
        peer.worker := by
      rw [origin_cons, last, log.1]
    rw [origin_append, consistent_append, logged]
    refine ⟨first, fits, ?_, ends⟩
    rw [last]
    exact log.2
  | claim name difficulty worker record effects credited =>
    rw [worker, effects]
    exact track.switch ..
  | retarget difficulty worker record effects credited stays =>
    rw [worker, effects]
    cases peer.worker with
    | none => exact ⟨rfl, trivial⟩
    | some name =>
      obtain ⟨same, fits⟩ := track.retarget name difficulty
      exact ⟨same, fits, trivial⟩

/-- Leaving the loop changes nothing before the calls that release the name. -/
theorem leave {t : Thread} (stays : t.ending = false) : track.of t.leave = track.of t ∧ (track.Fits t → track.Fits t.leave) := by
  obtain ⟨released, fits⟩ := track.release t.peer.worker
  have left : t.leave.destined = none := rfl
  have pending : t.leave.pending = t.pending ++ releaseIdentity t.peer.worker := rfl
  unfold of Fits
  rw [left, pending, origin_append, consistent_append, released, t.destined_running stays]
  exact ⟨rfl, fun before => ⟨before, fits⟩⟩

theorem thread {env : Env} {peer : Peer} {turn : Turn} (turned : peer.Turned env turn) :
    track.of turn.thread = peer.worker ∧ track.Fits turn.thread := by
  obtain ⟨moved, fits⟩ := track.turned turned
  unfold Turn.thread
  dsimp only
  split
  · obtain ⟨same, kept⟩ := track.leave (rfl : Thread.ending ⟨turn.peer, turn.effects, false⟩ = false)
    exact ⟨same.trans moved, kept fits⟩
  · exact ⟨moved, fits⟩

theorem called {t : Thread} {effect : Effect} {rest : List Effect} (next : t.pending = effect :: rest) (v : Vardiff) :
    let after : Thread := { t with peer := t.peer.setVardiff v, pending := rest }
    track.of t = track.before effect (track.of after) ∧
      (track.Fits t → track.Leaves effect (track.of after) ∧ track.Fits after) := by
  have destined : Thread.destined { t with peer := t.peer.setVardiff v, pending := rest } = t.destined := by
    unfold Thread.destined
    rw [Peer.setVardiff_worker]
  intro after
  unfold of Fits
  rw [next, destined]
  exact ⟨rfl, id⟩

end Track

theorem Effect.run_current (effect : Effect) (clock : Clock) (v : Vardiff) (shared : Shared) :
    (effect.run clock v shared).1.current = v.current ∧ (effect.run clock v shared).1.cfg = v.cfg := by
  cases effect with
  | takeShareHistory worker =>
    unfold Effect.run
    dsimp only
    cases (shared.stats.takeShareHistory worker clock.unix clock.instant).1 <;> exact ⟨rfl, rfl⟩
  | _ => exact ⟨rfl, rfl⟩

end SoloPool
