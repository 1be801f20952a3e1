import SoloPool.Proofs.Config
import SoloPool.Proofs.Credit
import SoloPool.Proofs.Device
import SoloPool.Proofs.EngineLoop
import SoloPool.Proofs.Extranonce
import SoloPool.Proofs.Headers
import SoloPool.Proofs.Rig

/-!
# Honest work is accepted

A miner that mines what it was told, within what it was told, has its share accepted: what `Proofs/Rig.lean` and
`Proofs/Device.lean` show it to know, the header of `Proofs/Headers.lean` and the validation of `Proofs/Validator.lean` put
together.
-/

namespace SoloPool
open Lib

section
variable {c : Crates} {gbt : GbtResult} {e1 e2 : Nat} {job : StratumJob}

/-- A header that the pool rebuilds and that meets one of the two targets passes on a live job. -/
theorem validateShareNoDedup_header (facts : JobFacts c gbt e1 e2 job) {params : ShareParams} {extranonce1 coinbase : Bytes}
    {header : Octets 80} (rebuilt : reconstruct c params job extranonce1 = .ok (coinbase, header))
    (window : NtimeInJobWindow job params) {entry : JobEntry} (live : entry.supersededByClean = false) {least : UInt64}
    (meets : leNat (doubleSha256 c header.toList).toList ≤ compactValue facts.bits ∨
      leNat (doubleSha256 c header.toList).toList ≤ beNat (difficultyToTarget least).toList) :
    ∃ result, validateShareNoDedup c params job entry extranonce1 least = .ok result ∧
      result.hash = doubleSha256 c header.toList ∧
      ((∃ hashDifficulty hex hash, result = .block hashDifficulty hex hash) →
        leNat (doubleSha256 c header.toList).toList ≤ beNat job.networkTarget.toList) := by
  have ntime : checkNtime params.ntime job.minTime job.curTime = .ok () := by
    unfold NtimeInJobWindow at window
    rw [facts.minTime_eq, facts.curTime_eq] at window ⊢
    exact checkNtime_ok.mpr window
  have judged : validateShareNoDedup c params job entry extranonce1 least = judge c job coinbase header least := by
    rw [validateShareNoDedup_eq, live, if_neg Bool.false_ne_true, ntime, rebuilt]
    rfl
  rw [← facts.target_eq] at meets
  have accepts : ∃ result, judge c job coinbase header least = .ok result := by
    by_cases block : leNat (doubleSha256 c header.toList).toList ≤ beNat job.networkTarget.toList
    · obtain ⟨_, _, _, accepted⟩ := judge_block.mpr block
      exact ⟨_, accepted⟩
    · obtain ⟨_, _, _, accepted⟩ := judge_valid.mpr ⟨Nat.not_le.mp block, meets.resolve_left block⟩
      exact ⟨_, accepted⟩
  obtain ⟨result, accepted⟩ := accepts
  refine ⟨result, judged.trans accepted, judge_hash accepted, ?_⟩
  rintro ⟨hashDifficulty, hex, hash, rfl⟩
  exact judge_block.mp ⟨hashDifficulty, hex, hash, accepted⟩

end

/-- A job on which every other header is a block. -/
def easyJob : Result StratumJob :=
  buildJob mainnetCrates "0000000000000001" easyTemplate testAddress exampleConfig.pool.coinbaseTag
    exampleConfig.pool.extranonce1Size exampleConfig.pool.extranonce2Size

deriving instance DecidableEq for Vec, StratumJob

/-! ### Stratum V1 -/

/-- What nothing in a session changes. -/
def Session.fixed (s : Session) : Bytes × Nat × UInt64 := (s.extranonce1, s.extranonce2Size, s.minDifficulty)

theorem Session.handleSubmit_validated {s : Session} {c : Crates} {e : Engine} {params : SubmitParams} {entry : JobEntry}
    {result : ShareResult} (authorized : s.authorized = true) (width : params.extranonce2.length = s.extranonce2Size)
    (found : e.findJob params.jobId = some entry)
    (validated : validateShareNoDedup c (s.shareParams params) entry.job entry s.extranonce1 s.minDifficulty = .ok result) :
    s.handleSubmit c e params =
      if s.shareSet.contains result.hash then
        { outcome := .judged (.err .duplicateShare), disconnect := s.guard.recordInvalid.1
          session := { s with guard := s.guard.recordInvalid.2 } }
      else
        { outcome := .judged (.ok result), disconnect := false,
          session := { s with shareSet := s.shareSet.insert result.hash } } := by
  unfold handleSubmit
  rw [if_neg (by rw [authorized]; decide), if_neg (not_not.mpr width), found]
  dsimp only
  rw [validated]
  cases known : s.shareSet.contains result.hash with
  | true =>
    rw [ShareSet.dedup_known known]
    rfl
  | false =>
    rw [ShareSet.dedup_fresh known]
    rfl

namespace Sv1

section
variable {env : Env} {m : Miner Session}

theorem handleAuthorize_fixed (name : String) : (handleAuthorize env m name).miner.session.fixed = m.session.fixed := by
  unfold handleAuthorize
  split
  · rfl
  · rename_i subscribed
    cases check : m.session.guard.checkWorkerName name with
    | error e => rfl
    | ok =>
      dsimp only
      cases taken : Session.takeIdentity m.session.guard m.session.worker name with
      | none => rfl
      | some guard =>
        dsimp only [Miner.replies]
        rw [Session.handleAuthorize_admitted env.engine.currentJob (by simpa using subscribed) check taken]
        rfl

theorem handleLine_fixed {token : Bool} {line : ClientLine} {handled : Handled Session Line}
    (taken : handleLine env token m line = .ok handled) : handled.miner.session.fixed = m.session.fixed := by
  cases line with
  | blank =>
    obtain rfl := Outcome.ok.inj taken
    rfl
  | malformed => cases token <;> (obtain rfl := Outcome.ok.inj taken; rfl)
  | invalid e => cases token <;> (obtain rfl := Outcome.ok.inj taken; rfl)
  | message message =>
    cases token with
    | false =>
      obtain rfl := Outcome.ok.inj taken
      rfl
    | true =>
      cases message with
      | configure params =>
        obtain rfl := Outcome.ok.inj taken
        show (m.session.handleConfigure params).2.fixed = m.session.fixed
        unfold Session.handleConfigure
        dsimp only
        split <;> rfl
      | subscribe =>
        obtain rfl := Outcome.ok.inj taken
        rfl
      | authorize name =>
        obtain rfl := Outcome.ok.inj taken
        exact handleAuthorize_fixed name
      | submit params =>
        obtain rfl := Outcome.ok.inj taken
        obtain ⟨guard, shareSet, frame⟩ := m.session.handleSubmit_frame env.crates env.engine params
        rw [(handleSubmit_ends env m params).session, frame]
        rfl
      | suggestDifficulty difficulty =>
        obtain ⟨_, _, suggested⟩ := Outcome.bind_ok.mp taken
        obtain rfl := Outcome.ok.inj suggested
        rfl
      | unknown method =>
        obtain rfl := Outcome.ok.inj taken
        rfl

end

namespace Conversation

variable {parse : Parse} {sessionId : String} {s t : Conversation} {event : Event}

theorem step_fixed (taken : s.step parse sessionId event = some t) : t.miner.session.fixed = s.miner.session.fixed := by
  obtain ⟨_, handled⟩ := Option.ite_none_left_eq_some.mp taken
  clear taken
  induction event generalizing t with
  | line env token text =>
    cases handled
    unfold handleText
    cases taken : handleLine env token s.miner (clientLine parse text) with
    | ok handled => exact handleLine_fixed taken
    | err e => rfl
    | panic => rfl
  | cacheJob current =>
    cases handled
    cases current <;> rfl
  | broadcast b =>
    cases handled
    show (handleBroadcast s.miner b).miner.session.fixed = _
    unfold handleBroadcast
    rw [Session.handleBroadcast_eq]
    rfl
  | retarget retarget now =>
    obtain ⟨_, same⟩ := Option.ite_none_right_eq_some.mp handled
    cases same
    cases checked : handleRetarget retarget now s.miner with
    | ok handled =>
      unfold handleRetarget at checked
      obtain ⟨⟨change, vardiff⟩, _, replied⟩ := Outcome.bind_ok.mp checked
      cases change <;> (obtain rfl := Outcome.ok.inj replied; rfl)
    | err e => rfl
    | panic => rfl
  | calls history =>
    cases handled
    rfl
  | leave =>
    cases handled
    rfl
  | breaks event written ih =>
    obtain ⟨whole, turned, rfl⟩ := Option.map_eq_some_iff.mp handled
    have kept := ih turned
    exact kept

theorem reach_fixed {cfg : Config} {extranonce1 : Bytes} {now : Instant}
    (reached : Reach (step parse sessionId) Always (start cfg extranonce1 now) s) :
    s.miner.session.fixed = (extranonce1, cfg.pool.extranonce2Size, cfg.vardiff.minDifficulty) :=
  reached.invariant (fun s => s.miner.session.fixed = (extranonce1, cfg.pool.extranonce2Size, cfg.vardiff.minDifficulty)) rfl
    (fun _ _ _ _ fixed _ taken => (step_fixed taken).trans fixed)

theorem step_ranged {cfg : Config} (ranged : ∃ written, Sv1.Sound cfg s.miner written)
    (taken : s.step parse sessionId event = some t) : ∃ written, Sv1.Sound cfg t.miner written := by
  obtain ⟨_, handled⟩ := Option.ite_none_left_eq_some.mp taken
  obtain ⟨written, sound⟩ := ranged
  clear taken
  induction event generalizing t with
  | line env token text =>
    cases handled
    unfold handleText
    cases taken : handleLine env token s.miner (clientLine parse text) with
    | ok handled => exact ⟨_, handleLine_sound sound taken⟩
    | err e => exact ⟨written, sound⟩
    | panic => exact ⟨written, sound⟩
  | cacheJob current =>
    cases handled
    refine ⟨_, @Sv1.Sound.keep _ _ _ _ [] sound ?_ ?_ ?_ ?_ rfl rfl rfl (.inl rfl)⟩ <;> cases current
    all_goals first | rfl | exact id
  | broadcast b =>
    cases handled
    exact ⟨_, handleBroadcast_sound sound b⟩
  | retarget retarget now =>
    obtain ⟨_, same⟩ := Option.ite_none_right_eq_some.mp handled
    cases same
    cases checked : handleRetarget retarget now s.miner with
    | ok handled => exact ⟨_, handleRetarget_sound sound checked⟩
    | err e => exact ⟨written, sound⟩
    | panic => exact ⟨written, sound⟩
  | calls history =>
    cases handled
    exact ⟨_, @Sv1.Sound.keep _ _ _ _ [] sound rfl rfl id rfl rfl rfl rfl (.inl rfl)⟩
  | leave =>
    cases handled
    exact ⟨written, sound⟩
  | breaks event count ih =>
    obtain ⟨whole, turned, rfl⟩ := Option.map_eq_some_iff.mp handled
    have kept := ih turned
    exact kept

/-- A session that starts no lower than the floor stays no lower. -/
theorem reach_floor {cfg : Config} {extranonce1 : Bytes} {now : Instant}
    (reached : Reach (step parse sessionId) Always (start cfg extranonce1 now) s)
    (floor : cfg.vardiff.minDifficulty ≤ cfg.pool.initialDifficulty) : cfg.vardiff.minDifficulty ≤ s.miner.difficulty := by
  obtain ⟨_, sound⟩ := reached.invariant (fun s => ∃ written, Sv1.Sound cfg s.miner written)
    ⟨[], sound_new cfg extranonce1 now⟩ (fun _ _ _ _ ranged _ taken => step_ranged ranged taken)
  rw [sound.current]
  exact sound.allowed.floor floor

end Conversation

/-- A submission that a miner makes of what it was told: of a job it got, inside the window and the mask, and with a header
that meets its difficulty or the network's target. -/
structure Mined (c : Crates) (r : Rig) (job : StratumJob) (p : SubmitParams) (header : Octets 80) : Prop where
  authorized : r.authorized = true
  named : p.jobId = job.jobId
  width : p.extranonce2.length = r.extranonce2Size.toNat
  window : job.minTime.toNat ≤ p.ntime.toNat ∧ p.ntime.toNat ≤ ntimeCeiling job.curTime
  rolled : ∀ mask ∈ r.rolling, ∀ bits ∈ p.versionBits, bits &&& ~~~mask = 0
  work : ∃ extranonce1 difficulty clean bits, r.extranonce1 = some extranonce1 ∧ r.difficulty = some difficulty ∧
    buildNotify job clean ∈ r.works ∧
    (buildNotify job clean).header c extranonce1 p.extranonce2 p.ntime p.nonce (r.rolling.getD 0)
      (r.rolling.bind fun _ => p.versionBits) = some header ∧
    u32FromStrRadix16 (buildNotify job clean).bits = some bits ∧
    (leNat (doubleSha256 c header.toList).toList ≤ beNat (difficultyToTarget difficulty).toList ∨
      leNat (doubleSha256 c header.toList).toList ≤ compactValue bits)

section
variable {c : Crates} {gbt : GbtResult} {e1 e2 : Nat} {job : StratumJob} {m : Miner Session} {r : Rig} {p : SubmitParams}
  {header : Octets 80}

/-- The pool rebuilds the header and finds it under its own target: the miner's is no easier. -/
theorem Mined.validated (mined : Mined c r job p header) (follows : Follows m r) (facts : JobFacts c gbt e1 e2 job)
    (region : m.session.extranonce1.length + p.extranonce2.length = e1 + e2) (floor : m.session.minDifficulty ≤ m.difficulty)
    {entry : JobEntry} (live : entry.supersededByClean = false) :
    ∃ result, validateShareNoDedup c (m.session.shareParams p) job entry m.session.extranonce1 m.session.minDifficulty =
        .ok result ∧
      result.hash = doubleSha256 c header.toList ∧
      ((∃ hashDifficulty hex hash, result = .block hashDifficulty hex hash) →
        leNat (doubleSha256 c header.toList).toList ≤ beNat job.networkTarget.toList) := by
  obtain ⟨extranonce1, difficulty, clean, bits, told, assigned, _, hashed, network, met⟩ := mined.work
  have authorized : m.session.authorized = true := follows.authorized.symm.trans mined.authorized
  have front : extranonce1 = m.session.extranonce1 := by
    have known := follows.extranonce1
    rw [told, if_pos (follows.subscribed authorized)] at known
    exact Option.some.inj known
  have current : difficulty = m.difficulty := Option.some.inj (assigned.symm.trans (follows.difficulty authorized))
  subst front current
  have rolling := follows.rolling
  have inside : VersionInMask (m.session.shareParams p) := by
    intro bits named
    cases enabled : m.session.versionRollingEnabled with
    | false =>
      unfold Session.shareParams at named
      rw [enabled] at named
      cases named
    | true =>
      rw [enabled, if_pos rfl] at rolling
      unfold Session.shareParams at named ⊢
      rw [enabled] at named ⊢
      exact mined.rolled _ rolling bits named
  obtain ⟨coinbase, rebuilt, reconstructed, notified⟩ := notify_header_eq facts region inside clean
  have same : header = rebuilt := by
    cases enabled : m.session.versionRollingEnabled with
    | false =>
      rw [enabled, if_neg Bool.false_ne_true] at rolling notified
      rw [rolling] at hashed
      exact Option.some.inj (hashed.symm.trans notified)
    | true =>
      rw [enabled, if_pos rfl] at rolling notified
      rw [rolling] at hashed
      exact Option.some.inj (hashed.symm.trans notified)
  subst same
  have networkBits : bits = facts.bits := by
    have read : u32FromStrRadix16 job.bits = some bits := network
    rw [facts.job_bits, facts.bits_eq] at read
    exact (Option.some.inj read).symm
  refine validateShareNoDedup_header facts reconstructed mined.window live ?_
  rcases met with share | block
  · right
    exact share.trans (difficultyToTarget_antitone floor)
  · left
    rw [← networkBits]
    exact block

end

theorem clientLine_submit {parse : Parse} {text worker : String} {id : Json} {p : SubmitParams}
    (sends : requestOn parse text = some { id, method := "mining.submit", params := submitParams worker p }) :
    clientLine parse text = .message (.submit p) := by
  unfold requestOn at sends
  unfold clientLine
  split at sends
  · cases sends
  · rename_i some
    rw [if_neg some, sends]
    have read : ClientMessage.fromRequest { id, method := "mining.submit", params := submitParams worker p } = .ok (.submit p) :=
      except_bind_ok.mpr ⟨p, parseSubmit_submitParams worker p, rfl⟩
    dsimp only
    rw [read]

namespace Conversation

variable {parse : Parse} {sessionId : String} {cfg : Config} {s : Conversation} {counter : UInt64} {now : Instant} {r : Rig}
  {env : Env} {engineJobId address tag : String} {gbt : GbtResult} {job : StratumJob} {entry : JobEntry} {p : SubmitParams}
  {header : Octets 80} {text worker : String} {id : Json}

/-- In every run of a session that starts no lower than the floor, a miner that mines what it was told has its share accepted:
if the engine holds the job and no clean one came after it, the line with a share whose header meets the difficulty the
miner was told last is answered with true, under its id, and credited to the session's worker, but for a block that the
node does not take; work that counted before is the one thing refused. -/
theorem honest_submit_accepted (valid : cfg.validate = .ok ())
    (reached : Reach (step parse sessionId) Always
      (start cfg (generateExtranonce1 counter cfg.pool.extranonce1Size) now) s) (goesOn : s.closed = false)
    (floor : cfg.vardiff.minDifficulty ≤ cfg.pool.initialDifficulty) (reads : Rig.replay s.traffic = some r)
    (built : buildJob env.crates engineJobId gbt address tag cfg.pool.extranonce1Size cfg.pool.extranonce2Size = .ok job)
    (held : env.engine.findJob job.jobId = some entry) (same : entry.job = job) (live : entry.supersededByClean = false)
    (mined : Mined env.crates r job p header)
    (sends : requestOn parse text = some { id, method := "mining.submit", params := submitParams worker p }) :
    let hash := doubleSha256 env.crates header.toList
    ∃ handled, handleText parse sessionId env true s.miner text = .ok handled ∧
      (s.miner.session.shareSet.contains hash = false → handled.disconnect = none ∧
        (handled.sent = [ResponseBuilder.ok id (.bool true)] ∧ handled.credited = some (workerLabel s.miner.session.worker) ∨
          leNat hash.toList ≤ beNat job.networkTarget.toList ∧
            ∃ e, env.submission = .error e ∧ handled.sent = [ResponseBuilder.err id (toStratumError e)])) ∧
      (s.miner.session.shareSet.contains hash = true → handled.credited = none ∧
        (handled.sent = [ResponseBuilder.err id (errorTuple .duplicateShare "Duplicate share")] ∨
          handled.disconnect = some "too many invalid shares")) := by
  have accepted := Config.validate_accepted valid
  obtain ⟨_, ⟨facts⟩⟩ := buildJob_facts built
  obtain ⟨r', reads', _, agreed⟩ := reach_followed reached
  obtain rfl : r = r' := Option.some.inj (reads.symm.trans reads')
  obtain ⟨_, follows⟩ := agreed goesOn
  have authorized : s.miner.session.authorized = true := follows.authorized.symm.trans mined.authorized
  obtain ⟨front, size, least⟩ : s.miner.session.extranonce1 = generateExtranonce1 counter cfg.pool.extranonce1Size ∧
      s.miner.session.extranonce2Size = cfg.pool.extranonce2Size ∧
      s.miner.session.minDifficulty = cfg.vardiff.minDifficulty := by simpa [Session.fixed] using reach_fixed reached
  have width : p.extranonce2.length = s.miner.session.extranonce2Size := by
    have small := accepted.extranonce_le
    rw [mined.width, follows.extranonce2Size (follows.subscribed authorized), size]
    exact UInt64.toNat_ofNat_of_lt' (by simp [UInt64.size]; omega)
  have region : s.miner.session.extranonce1.length + p.extranonce2.length =
      cfg.pool.extranonce1Size + cfg.pool.extranonce2Size := by
    rw [width, size, front, length_generateExtranonce1]
  obtain ⟨result, validated, hash, block⟩ := mined.validated follows facts region
    (by rw [least]; exact reach_floor reached floor) live
  subst same
  have submitted := Session.handleSubmit_validated authorized width (by rw [mined.named]; exact held) validated
  rw [hash] at submitted
  have handling : handleText parse sessionId env true s.miner text = .ok { handleSubmit env s.miner p with
      sent := (handleSubmit env s.miner p).sent.map (Line.render (replyContext sessionId (requestOn parse text))) } := by
    unfold handleText
    rw [clientLine_submit sends]
    rfl
  rw [sends] at handling
  refine ⟨_, handling, fun fresh => ?_, fun before => ?_⟩
  · rw [fresh, if_neg Bool.false_ne_true] at submitted
    unfold handleSubmit
    rw [submitted]
    cases result with
    | valid assigned hashDifficulty hash => exact ⟨rfl, .inl ⟨rfl, rfl⟩⟩
    | block hashDifficulty hex hash =>
      cases submission : env.submission with
      | ok =>
        dsimp only [Miner.settle]
        rw [submission]
        exact ⟨rfl, .inl ⟨rfl, rfl⟩⟩
      | error e =>
        dsimp only [Miner.settle]
        rw [submission]
        exact ⟨rfl, .inr ⟨block ⟨_, _, _, rfl⟩, e, rfl, rfl⟩⟩
  · rw [before, if_pos rfl] at submitted
    unfold handleSubmit
    rw [submitted]
    cases s.miner.session.guard.recordInvalid.1 with
    | true => exact ⟨rfl, .inr rfl⟩
    | false => exact ⟨rfl, .inl rfl⟩

/-! ### A miner that finds a block -/

def easyEnv (job : StratumJob) : Env :=
  { testEnv with engine := { Engine.new with currentJob := some job, jobHistory := [⟨job, true, false⟩] } }

def easyParams : SubmitParams where
  jobId := "0000000000000001"
  extranonce2 := [0, 0, 0, 7]
  ntime := 1700000000
  nonce := 0
  versionBits := none

/-- `serde_json` on three lines, the last of which has the share. -/
def easyParse : Parse := fun text =>
  if text = submitLine then some { id := number 3, method := "mining.submit", params := submitParams "miner" easyParams }
  else testParse text

theorem easyParse_submitLine : requestOn easyParse submitLine =
    some { id := number 3, method := "mining.submit", params := submitParams "miner" easyParams } := by
  unfold requestOn
  rw [if_neg (by decide +kernel), easyParse, if_pos rfl]

def easyLines (job : StratumJob) : List Event := [subscribeLine, authorizeLine].map (.line (easyEnv job) true)

theorem honest_submit_accepted_block :
    ∃ (job : StratumJob) (s : Conversation),
      Reach (step easyParse "0000000000000001") Always (start exampleConfig (generateExtranonce1 1 4) 0) s ∧
        ∃ handled, handleText easyParse "0000000000000001" (easyEnv job) true s.miner submitLine = .ok handled ∧
          handled.sent = [ResponseBuilder.ok (number 3) (.bool true)] := by
  obtain ⟨job, built, named, window, s, run, goesOn, difficulty, r, reads, authorized, width, rolling, extranonce1, assigned,
    told, header, hashed, bits, network, met, fresh⟩ : ∃ job, easyJob = .ok job ∧ easyParams.jobId = job.jobId ∧
      (job.minTime.toNat ≤ easyParams.ntime.toNat ∧ easyParams.ntime.toNat ≤ ntimeCeiling job.curTime) ∧
      ∃ s ∈ runActions (step easyParse "0000000000000001") Always (start exampleConfig (generateExtranonce1 1 4) 0) (easyLines job),
        s.closed = false ∧ s.miner.difficulty = 4096 ∧ ∃ r ∈ Rig.replay s.traffic, r.authorized = true ∧
          easyParams.extranonce2.length = r.extranonce2Size.toNat ∧ r.rolling = none ∧ r.extranonce1 = some [0, 0, 0, 1] ∧
          r.difficulty = some 4096 ∧ buildNotify job true ∈ r.works ∧
          ∃ header ∈ (buildNotify job true).header mainnetCrates [0, 0, 0, 1] easyParams.extranonce2 easyParams.ntime
              easyParams.nonce 0 none,
            ∃ bits ∈ u32FromStrRadix16 (buildNotify job true).bits,
              leNat (doubleSha256 mainnetCrates header.toList).toList ≤ compactValue bits ∧
                s.miner.session.shareSet.contains (doubleSha256 mainnetCrates header.toList) = false := by
    decide +kernel
  have reached := Reach.of_runActions .start run
  have built : buildJob (easyEnv job).crates "0000000000000001" easyTemplate testAddress exampleConfig.pool.coinbaseTag
      exampleConfig.pool.extranonce1Size exampleConfig.pool.extranonce2Size = .ok job := built
  have held : (easyEnv job).engine.findJob job.jobId = some ⟨job, true, false⟩ :=
    findJob_eq_some.mpr ⟨[], ⟨job, true, false⟩, [], rfl, nofun, rfl, rfl⟩
  have mined : Mined (easyEnv job).crates r job easyParams header := by
    refine ⟨authorized, named, width, window, by rw [rolling]; rintro _ ⟨⟩, _, _, true, bits, extranonce1, assigned, told, ?_,
      network, .inr met⟩
    rw [rolling]
    exact hashed
  obtain ⟨handled, handling, replied, _⟩ := honest_submit_accepted (by decide +kernel) reached goesOn (by decide) reads built
    held rfl rfl mined easyParse_submitLine
  obtain ⟨_, ⟨sent, _⟩ | ⟨_, e, failed, _⟩⟩ := replied fresh
  · exact ⟨job, s, reached, handled, handling, sent⟩
  · cases failed

end Conversation

end Sv1

end SoloPool

/-! ### Stratum V2 -/

namespace SoloPool.Sv2
open Lib

/-- The reserved extranonce region is split between pool and device, and the session validates against the configured
floor. -/
structure Session.Sized (cfg : Config) (s : Session) : Prop where
  total : s.extranonceTotal = cfg.pool.extranonce1Size + cfg.pool.extranonce2Size
  least : s.minDifficulty = cfg.vardiff.minDifficulty
  split : s.channelOpen = true → s.extranoncePrefix.length + s.extranonceSize = s.extranonceTotal

namespace Session

variable {cfg : Config} {s t : Session}

theorem sized_new (cfg : Config) (extranoncePrefix : Bytes) : (new cfg extranoncePrefix).Sized cfg := ⟨rfl, rfl, nofun⟩

theorem Sized.keep (sized : s.Sized cfg) (total : t.extranonceTotal = s.extranonceTotal) (least : t.minDifficulty = s.minDifficulty)
    (channel : t.channelOpen = s.channelOpen) (front : t.extranoncePrefix = s.extranoncePrefix)
    (size : t.extranonceSize = s.extranonceSize) : t.Sized cfg where
  total := total.trans sized.total
  least := least.trans sized.least
  split := by
    rw [channel, front, size, total]
    exact sized.split

theorem handleSetupConnection_sized (sized : s.Sized cfg) (setup : SetupConn) : (s.handleSetupConnection setup).2.Sized cfg := by
  unfold handleSetupConnection
  split_ifs
  · exact sized
  · exact sized
  · exact sized
  · exact sized.keep rfl rfl rfl rfl rfl

theorem handleOpenExtended_sized (valid : 1 ≤ cfg.pool.extranonce1Size + cfg.pool.extranonce2Size) (sized : s.Sized cfg)
    (counters : Counters) (request : OpenExtended) : (s.handleOpenExtended counters request).2.1.Sized cfg := by
  obtain ⟨_, flow, same, _⟩ | ⟨_, granted, guard, _, fits, flow, after, same, opened, _⟩ :=
    s.handleOpenExtended_cases counters request
  · rw [same]
    exact sized
  · rw [same]
    have total := sized.total
    have cut : ({ s with
        guard, worker := some request.userIdentity, extranonceSize := granted
        extranoncePrefix := generateExtranonce1 counters.extranonce1 (s.extranonceTotal - granted)
        channelId := counters.channelId, channelOpen := true } : Session).Sized cfg := by
      refine ⟨sized.total, sized.least, fun _ => ?_⟩
      dsimp only
      rw [length_generateExtranonce1]
      omega
    rcases opened with rfl | ⟨job, rfl⟩
    · exact cut
    · exact cut.keep rfl rfl rfl rfl rfl

theorem handleSubmit_sized (sized : s.Sized cfg) (c : Crates) (e : Engine) (submit : SubmitSharesExtended) :
    (s.handleSubmit c e submit).session.Sized cfg := by
  obtain ⟨guard, shareSet, frame⟩ := s.handleSubmit_frame c e submit
  rw [frame]
  exact sized.keep rfl rfl rfl rfl rfl

theorem handleBroadcast_sized (sized : s.Sized cfg) (b : JobBroadcast) : (s.handleBroadcast b).2.Sized cfg := by
  obtain ⟨shareSet, pendingJob, jobIds, nextJobId, frame⟩ := s.handleBroadcast_frame b
  rw [frame]
  exact sized.keep rfl rfl rfl rfl rfl

end Session

theorem handleMessage_sized {cfg : Config} {m : Miner Session} (valid : 1 ≤ cfg.pool.extranonce1Size + cfg.pool.extranonce2Size)
    (sized : m.session.Sized cfg) (env : Env) (counters : Counters) (token : Bool) (frame : ClientFrame) :
    (handleMessage env counters token m frame).1.miner.session.Sized cfg := by
  cases token with
  | false => exact sized
  | true =>
    cases frame with
    | setupConnection setup =>
      have session := Session.handleSetupConnection_sized sized setup
      show (handleSetupConnection m setup).miner.session.Sized cfg
      unfold handleSetupConnection
      split <;> rename_i handled <;> rw [handled] at session <;> exact session
    | openExtended request =>
      have session := Session.handleOpenExtended_sized valid sized counters request
      show (handleOpenExtended counters m request).1.miner.session.Sized cfg
      unfold handleOpenExtended
      split
      · exact sized
      · cases m.session.guard.checkWorkerName request.userIdentity with
        | error e => exact sized
        | ok =>
          dsimp only
          split
          · exact sized
          · cases SoloPool.Session.takeIdentity m.session.guard m.session.worker request.userIdentity with
            | none => exact sized
            | some guard =>
              dsimp only
              rw [(Flow.handled_eq ..).1]
              exact session
    | submitExtended submit =>
      have session := (handleSubmit_ends env m submit).session
      show (handleSubmit env m submit).miner.session.Sized cfg
      rw [session]
      exact Session.handleSubmit_sized sized ..
    | malformed => exact sized
    | other => exact sized

namespace Conversation

variable {cfg : Config} {s t : Conversation} {event : Event}

theorem step_sized (valid : 1 ≤ cfg.pool.extranonce1Size + cfg.pool.extranonce2Size) (sized : s.miner.session.Sized cfg)
    (taken : s.step event = some t) : t.miner.session.Sized cfg := by
  obtain ⟨_, handled⟩ := Option.ite_none_left_eq_some.mp taken
  clear taken
  induction event generalizing t with
  | frame env counters token frame =>
    cases handled
    exact handleMessage_sized valid sized env counters token frame
  | cacheJob current =>
    cases handled
    cases current <;> exact sized.keep rfl rfl rfl rfl rfl
  | broadcast b =>
    cases handled
    show (handleBroadcast s.miner b).miner.session.Sized cfg
    unfold handleBroadcast
    dsimp only
    rw [(Flow.handled_eq ..).1]
    exact Session.handleBroadcast_sized sized b
  | retarget retarget now =>
    obtain ⟨_, same⟩ := Option.ite_none_right_eq_some.mp handled
    cases same
    cases checked : handleRetarget retarget now s.miner with
    | ok handled =>
      unfold handleRetarget at checked
      obtain ⟨⟨change, vardiff⟩, _, replied⟩ := Outcome.bind_ok.mp checked
      cases change <;> obtain rfl := Outcome.ok.inj replied <;> exact sized
    | err e => exact sized
    | panic => exact sized
  | calls history =>
    cases handled
    exact sized
  | leave =>
    cases handled
    exact sized
  | breaks event written ih =>
    obtain ⟨whole, turned, rfl⟩ := Option.map_eq_some_iff.mp handled
    have kept := ih turned
    exact kept

theorem reach_sized (valid : 1 ≤ cfg.pool.extranonce1Size + cfg.pool.extranonce2Size) {extranoncePrefix : Bytes} {now : Instant}
    (reached : Reach step Always (start cfg extranoncePrefix now) s) : s.miner.session.Sized cfg :=
  reached.invariant (fun s => s.miner.session.Sized cfg) (Session.sized_new cfg extranoncePrefix)
    (fun _ _ _ _ sized _ taken => step_sized valid sized taken)

theorem step_ranged (ranged : Sv2.Sound cfg s.miner) (taken : s.step event = some t) : Sv2.Sound cfg t.miner := by
  obtain ⟨_, handled⟩ := Option.ite_none_left_eq_some.mp taken
  clear taken
  induction event generalizing t with
  | frame env counters token frame =>
    cases handled
    exact handleMessage_sound ranged token frame
  | cacheJob current =>
    cases handled
    exact ⟨Session.cacheJob_admitted ranged.session current, ranged.config, ranged.current, ranged.allowed⟩
  | broadcast b =>
    cases handled
    exact handleBroadcast_sound ranged b
  | retarget retarget now =>
    obtain ⟨_, same⟩ := Option.ite_none_right_eq_some.mp handled
    cases same
    cases checked : handleRetarget retarget now s.miner with
    | ok handled => exact handleRetarget_sound ranged checked
    | err e => exact ranged
    | panic => exact ranged
  | calls history =>
    cases handled
    exact ⟨ranged.session, ranged.config, ranged.current, ranged.allowed⟩
  | leave =>
    cases handled
    exact ranged
  | breaks event written ih =>
    obtain ⟨whole, turned, rfl⟩ := Option.map_eq_some_iff.mp handled
    have kept := ih turned
    exact kept

/-- A session that starts no lower than the floor stays no lower. -/
theorem reach_floor {extranoncePrefix : Bytes} {now : Instant}
    (reached : Reach step Always (start cfg extranoncePrefix now) s)
    (floor : cfg.vardiff.minDifficulty ≤ cfg.pool.initialDifficulty) : cfg.vardiff.minDifficulty ≤ s.miner.difficulty := by
  have sound := reached.invariant (fun s => Sv2.Sound cfg s.miner) (sound_new cfg extranoncePrefix now)
    (fun _ _ _ _ ranged _ taken => step_ranged ranged taken)
  rw [sound.current]
  exact sound.allowed.floor floor

end Conversation

/-! ### The submission -/

/-- A submission that a device makes of what it was told: of a job under its id, inside the window and the rolling mask,
over the tip of a `SetNewPrevHash` that names the job's, and with a header that meets the channel's target or the
network's. -/
structure Mined (c : Crates) (d : Device) (ch : Channel) (job : StratumJob) (submit : SubmitSharesExtended)
    (header : Octets 80) : Prop where
  known : (submit.jobId, job) ∈ d.jobs.rtake 16
  width : submit.extranonce.length = ch.extranonceSize
  window : NtimeInJobWindow job (Session.shareParams submit job.jobId)
  rolled : submit.version &&& ~~~versionRollingMask = job.version &&& ~~~versionRollingMask
  work : ∃ future message tip prev, buildNewExtendedJob job ch.id submit.jobId future = .ok message ∧ tip ∈ d.jobs ∧
    tip.2.prevHash = job.prevHash ∧ tip.2.bits = job.bits ∧ buildSetNewPrevHash tip.2 ch.id tip.1 = .ok prev ∧
    header = message.header c prev ch.extranoncePrefix submit.extranonce submit.ntime submit.nonce submit.version ∧
    (sv2TargetLe (doubleSha256 c header.toList) ch.target = true ∨
      leNat (doubleSha256 c header.toList).toList ≤ compactValue prev.nbits)

section
variable {c : Crates} {gbt : GbtResult} {e1 e2 : Nat} {job : StratumJob}

/-- The header of a device does not depend on which job of a tip brought the tip. -/
theorem buildSetNewPrevHash_tip {tip : StratumJob} (prevHash : tip.prevHash = job.prevHash) (bits : tip.bits = job.bits)
    {channelId tipId : UInt32} {prev : SetNewPrevHash} (built : buildSetNewPrevHash tip channelId tipId = .ok prev)
    (jobId : UInt32) :
    buildSetNewPrevHash job channelId jobId = .ok { prev with jobId, minNtime := job.curTime } := by
  obtain ⟨hash, converted, built⟩ := Outcome.bind_ok.mp built
  obtain ⟨nbits, parsed, built⟩ := Outcome.bind_ok.mp built
  obtain rfl := Outcome.ok.inj built
  rw [prevHash] at converted
  rw [bits] at parsed
  unfold buildSetNewPrevHash
  rw [converted, Outcome.ok_bind, parsed]
  rfl

/-- The pool rebuilds the header and finds it under its own target: the device's is no easier. -/
theorem Mined.validated {d : Device} {ch : Channel} {submit : SubmitSharesExtended} {header : Octets 80}
    (mined : Mined c d ch job submit header) (facts : JobFacts c gbt e1 e2 job)
    (region : ch.extranoncePrefix.length + ch.extranonceSize = e1 + e2) {difficulty least : UInt64}
    (told : sv2TargetLe ch.target (difficultyToSv2Target difficulty) = true) (floor : least ≤ difficulty)
    {entry : JobEntry} (live : entry.supersededByClean = false) :
    ∃ result, validateShareNoDedup c (Session.shareParams submit job.jobId) job entry ch.extranoncePrefix least = .ok result ∧
      result.hash = doubleSha256 c header.toList ∧
      ((∃ hashDifficulty hex hash, result = .block hashDifficulty hex hash) →
        leNat (doubleSha256 c header.toList).toList ≤ beNat job.networkTarget.toList) := by
  obtain ⟨future, message, tip, prev, sent, _, prevHash, bits, activated, same, met⟩ := mined.work
  have activated := buildSetNewPrevHash_tip prevHash bits activated submit.jobId
  have network : prev.nbits = facts.bits := by
    rw [buildSetNewPrevHash_eq facts] at activated
    exact congrArg SetNewPrevHash.nbits (Outcome.ok.inj activated).symm
  have width : ch.extranoncePrefix.length + submit.extranonce.length = e1 + e2 := by rw [mined.width, region]
  obtain ⟨coinbase, rebuilt, reconstructed, hashed⟩ := sv2_header_eq facts sent activated width mined.rolled job.jobId
  obtain rfl : header = rebuilt := same.trans hashed
  refine validateShareNoDedup_header facts reconstructed mined.window live ?_
  rcases met with share | block
  · right
    calc leNat (doubleSha256 c header.toList).toList
      _ ≤ leNat ch.target.toList := (sv2TargetLe_iff _ _).mp share
      _ ≤ leNat (difficultyToSv2Target difficulty).toList := (sv2TargetLe_iff _ _).mp told
      _ ≤ beNat (difficultyToTarget least).toList := difficultyToTarget_antitone floor
  · left
    rw [← network]
    exact block

end

theorem Session.handleSubmit_validated {s : Session} {c : Crates} {e : Engine} {submit : SubmitSharesExtended} {entry : JobEntry}
    {result : ShareResult} (opened : s.channelOpen = true) (width : submit.extranonce.length = s.extranonceSize)
    (found : (s.engineJobId submit.jobId).bind e.findJob = some entry)
    (validated : validateShareNoDedup c (shareParams submit entry.job.jobId) entry.job entry s.extranoncePrefix
      s.minDifficulty = .ok result) :
    s.handleSubmit c e submit =
      if s.shareSet.contains result.hash then
        { outcome := .judged (.err .duplicateShare), disconnect := s.guard.recordInvalid.1
          session := { s with guard := s.guard.recordInvalid.2 } }
      else
        { outcome := .judged (.ok result), disconnect := false,
          session := { s with shareSet := s.shareSet.insert result.hash } } := by
  unfold handleSubmit
  rw [if_neg (by rw [opened]; decide), if_neg (not_not.mpr width), found]
  dsimp only
  rw [validated]
  cases known : s.shareSet.contains result.hash with
  | true =>
    rw [ShareSet.dedup_known known]
    rfl
  | false =>
    rw [ShareSet.dedup_fresh known]
    rfl

namespace Conversation

variable {cfg : Config} {s : Conversation} {extranoncePrefix : Bytes} {now : Instant} {d : Device} {ch : Channel} {env : Env}
  {engineJobId address tag : String} {gbt : GbtResult} {job : StratumJob} {entry : JobEntry} {submit : SubmitSharesExtended}
  {header : Octets 80}

/-- In every run of a session that starts no lower than the floor, a device that mines what it was told has its share
accepted: if the engine holds the job and no clean one came after it, a header that meets the target the device was told
last is found good by the pool, whatever came before it. It is answered with success and credited to the channel's worker,
but for a block that the node does not take; work that counted before is the one thing refused. -/
theorem honest_share_accepted (valid : cfg.validate = .ok ()) (reached : Reach step Always (start cfg extranoncePrefix now) s)
    (goesOn : s.closed = false) (floor : cfg.vardiff.minDifficulty ≤ cfg.pool.initialDifficulty)
    (reads : Device.replay s.traffic = some d) (known : d.channel = some ch)
    (built : buildJob env.crates engineJobId gbt address tag cfg.pool.extranonce1Size cfg.pool.extranonce2Size = .ok job)
    (held : env.engine.findJob job.jobId = some entry) (same : entry.job = job) (live : entry.supersededByClean = false)
    (mined : Mined env.crates d ch job submit header) :
    let hash := doubleSha256 env.crates header.toList
    let handled := handleSubmit env s.miner submit
    (s.miner.session.shareSet.contains hash = false → handled.disconnect = none ∧
      (handled.sent = [.submitSuccess ch.id submit.sequenceNumber s.miner.difficulty] ∧
          handled.credited = some (workerLabel s.miner.session.worker) ∨
        leNat hash.toList ≤ beNat job.networkTarget.toList ∧ (∃ e, env.submission = .error e) ∧
          handled.sent = [.submitError ch.id submit.sequenceNumber "block-submit-failed"])) ∧
    (s.miner.session.shareSet.contains hash = true → handled.credited = none ∧
      (handled.sent = [.submitError ch.id submit.sequenceNumber "duplicate"] ∨
        handled.disconnect = some "too many invalid shares")) := by
  have accepted := Config.validate_accepted valid
  have sized := reach_sized (Nat.le_add_right_of_le accepted.extranonce1_pos) reached
  obtain ⟨_, ⟨facts⟩⟩ := buildJob_facts built
  obtain ⟨d', reads', numbered, _, agreed⟩ := reach_sound reached
  obtain rfl : d = d' := Option.some.inj (reads.symm.trans reads')
  obtain ⟨_, agrees⟩ := agreed goesOn
  have channel := agrees.channel
  rw [known, Option.map_some] at channel
  obtain ⟨opened, same'⟩ := Option.ite_none_right_eq_some.mp channel.symm
  obtain ⟨id, size, front⟩ : s.miner.session.channelId = ch.id ∧ s.miner.session.extranonceSize = ch.extranonceSize ∧
      s.miner.session.extranoncePrefix = ch.extranoncePrefix := by simpa using same'
  have region : ch.extranoncePrefix.length + ch.extranonceSize = cfg.pool.extranonce1Size + cfg.pool.extranonce2Size := by
    rw [← front, ← size, sized.split opened, sized.total]
  subst same
  obtain ⟨result, validated, hash, block⟩ := mined.validated facts region (agrees.target ch known)
    (reach_floor reached floor) live
  have resolves : s.miner.session.engineJobId submit.jobId = some entry.job.jobId :=
    (agrees.engineJobId numbered).mpr ⟨entry.job, mined.known, rfl⟩
  have submitted := Session.handleSubmit_validated opened (mined.width.trans size.symm)
    (by rw [resolves]; exact held) (by rw [front, sized.least]; exact validated)
  rw [hash] at submitted
  dsimp only
  constructor
  · intro fresh
    rw [fresh, if_neg Bool.false_ne_true] at submitted
    unfold handleSubmit
    rw [submitted]
    cases result with
    | valid assigned hashDifficulty hash => exact ⟨rfl, .inl ⟨by rw [← id]; rfl, rfl⟩⟩
    | block hashDifficulty hex hash =>
      cases submission : env.submission with
      | ok =>
        dsimp only [Miner.settle]
        rw [submission]
        exact ⟨rfl, .inl ⟨by rw [← id]; rfl, rfl⟩⟩
      | error e =>
        dsimp only [Miner.settle]
        rw [submission]
        exact ⟨rfl, .inr ⟨block ⟨_, _, _, rfl⟩, ⟨e, rfl⟩, by rw [← id]; rfl⟩⟩
  · intro before
    rw [before, if_pos rfl] at submitted
    unfold handleSubmit
    rw [submitted]
    cases invalid : s.miner.session.guard.recordInvalid.1 with
    | true =>
      exact ⟨rfl, .inr rfl⟩
    | false =>
      exact ⟨rfl, .inl (by rw [← id]; rfl)⟩

/-! ### A device that finds a block -/

/-- The channel opens on the job and gets it again, under its second id and with no new tip. -/
def easyEvents (job : StratumJob) : List Event :=
  [.cacheJob (some job),
   .frame testEnv .start true (.setupConnection { mining := true, minVersion := 2, maxVersion := 2, flags := 0 }),
   .frame testEnv .start true (.openExtended {
     requestId := 7, userIdentity := "miner", minExtranonceSize := 6, maxTarget := .zero 32 }),
   .broadcast { job, clean := false }]

def easyEnv (job : StratumJob) : Env := { testEnv with engine := { Engine.new with jobHistory := [⟨job, true, false⟩] } }

def easySubmit : SubmitSharesExtended where
  sequenceNumber := 1
  jobId := 2
  nonce := 0
  ntime := 1700000000
  version := 0x20002000
  extranonce := [0, 0, 0, 0, 0, 7]

theorem honest_share_accepted_block :
    ∃ (job : StratumJob) (s : Conversation), Reach step Always (start exampleConfig [0, 0, 0, 1] 0) s ∧
      (handleSubmit (easyEnv job) s.miner easySubmit).sent = [.submitSuccess s.miner.session.channelId 1 4096] := by
  obtain ⟨job, built, window, rolled, s, run, goesOn, difficulty, d, reads, ch, known, id, first, second, width, message, sent,
    prev, activated, met, fresh⟩ : ∃ job, easyJob = .ok job ∧ NtimeInJobWindow job (Session.shareParams easySubmit job.jobId) ∧
      easySubmit.version &&& ~~~versionRollingMask = job.version &&& ~~~versionRollingMask ∧
      ∃ s ∈ runActions step Always (start exampleConfig [0, 0, 0, 1] 0) (easyEvents job), s.closed = false ∧
        s.miner.difficulty = 4096 ∧ ∃ d ∈ Device.replay s.traffic, ∃ ch ∈ d.channel, ch.id = s.miner.session.channelId ∧
          (1, job) ∈ d.jobs ∧ (2, job) ∈ d.jobs.rtake 16 ∧ easySubmit.extranonce.length = ch.extranonceSize ∧
          ∃ message, buildNewExtendedJob job ch.id easySubmit.jobId false = .ok message ∧
            ∃ prev, buildSetNewPrevHash job ch.id 1 = .ok prev ∧
              let header := message.header mainnetCrates prev ch.extranoncePrefix easySubmit.extranonce easySubmit.ntime
                easySubmit.nonce easySubmit.version
              leNat (doubleSha256 mainnetCrates header.toList).toList ≤ compactValue prev.nbits ∧
                s.miner.session.shareSet.contains (doubleSha256 mainnetCrates header.toList) = false := by
    decide +kernel
  have reached := Reach.of_runActions .start run
  have built : buildJob (easyEnv job).crates "0000000000000001" easyTemplate testAddress exampleConfig.pool.coinbaseTag
      exampleConfig.pool.extranonce1Size exampleConfig.pool.extranonce2Size = .ok job := built
  have held : (easyEnv job).engine.findJob job.jobId = some ⟨job, true, false⟩ :=
    findJob_eq_some.mpr ⟨[], ⟨job, true, false⟩, [], rfl, nofun, rfl, rfl⟩
  have mined : Mined (easyEnv job).crates d ch job easySubmit _ :=
    ⟨second, width, window, rolled, false, message, (1, job), prev, sent, first, rfl, rfl, activated, rfl, .inr met⟩
  obtain ⟨_, replied⟩ := (honest_share_accepted (by decide +kernel) reached goesOn (by decide) reads known
    built held rfl rfl mined).1 fresh
  obtain ⟨accepted, _⟩ | ⟨_, ⟨e, failed⟩, _⟩ := replied
  · refine ⟨job, s, reached, ?_⟩
    rw [accepted, id, difficulty]
    rfl
  · cases failed

end Conversation

end SoloPool.Sv2
