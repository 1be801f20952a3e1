import SoloPool.Network.Server
import SoloPool.Proofs.Concurrent

/-!
# What a connection can go through

The handlers of both protocols seen through four things a session has: the job it holds, whether it passes broadcasts
on, its share set and its part of the extranonce. A property of one connection and the engine that survives each of the
connection's own steps holds along every run (`Reach.connection`).
-/

namespace SoloPool
open Lib

namespace Client

/-- The job a session holds: the one its miner got last, once it is active. -/
def job? : Client → Option StratumJob
  | .sv1 s => s.currentJob
  | .sv2 s => s.pendingJob

def active : Client → Bool
  | .sv1 s => s.subscribed && s.authorized
  | .sv2 s => s.channelOpen

def shareSet : Client → ShareSet
  | .sv1 s => s.shareSet
  | .sv2 s => s.shareSet

/-- The bytes of the extranonce that the pool gave, and how many the miner chooses. -/
def extranonce : Client → Bytes
  | .sv1 s => s.extranonce1
  | .sv2 s => s.extranoncePrefix

def granted : Client → Nat
  | .sv1 s => s.extranonce2Size
  | .sv2 s => s.extranonceSize

/-- What a new session starts with and every request keeps: an authorized session has subscribed, and an SV2 session
knows the whole width of the extranonce. -/
def WellFormed (cfg : Config) : Client → Prop
  | .sv1 s => (s.authorized = true → s.subscribed = true) ∧ s.extranonce2Size = cfg.pool.extranonce2Size
  | .sv2 s => s.extranonceTotal = cfg.pool.extranonce1Size + cfg.pool.extranonce2Size

end Client

/-! ### The handlers of each protocol -/

namespace Session

theorem handleBroadcast_eq (s : Session) (b : JobBroadcast) : s.handleBroadcast b =
    (.messages (if s.subscribed && s.authorized then [.notify b.job b.clean] else []),
      { s with shareSet := if b.clean then s.shareSet.clear else s.shareSet, currentJob := some b.job }) := by
  unfold handleBroadcast
  cases b.clean <;> rfl

def admits (s : Session) (name : String) : Bool :=
  s.subscribed && decide (s.guard.checkWorkerName name = .ok ()) && (takeIdentity s.guard s.worker name).isSome

theorem handleAuthorize_cases (s : Session) (engineJob : Option StratumJob) (name : String) :
    (s.admits name = false ∧ ∃ result, s.handleAuthorize engineJob name = (result, s) ∧ result.deliveries = []) ∨
    (s.admits name = true ∧ s.subscribed = true ∧ ∃ guard result, s.handleAuthorize engineJob name =
        (result, { s with guard, authorized := true, worker := some name, currentJob := s.currentJob.or engineJob }) ∧
      result.deliveries =
        (s.currentJob.or engineJob).toList.map (fun job => { prevHash := job.prevHash, clean := true })) := by
  unfold handleAuthorize admits
  by_cases subscribed : s.subscribed = true
  · rw [subscribed, Bool.not_true, if_neg Bool.false_ne_true]
    cases check : s.guard.checkWorkerName name with
    | error why => exact .inl ⟨rfl, _, rfl, rfl⟩
    | ok =>
      cases taken : takeIdentity s.guard s.worker name with
      | none => exact .inl ⟨rfl, _, rfl, rfl⟩
      | some guard =>
        refine .inr ⟨rfl, rfl, guard, ?_⟩
        dsimp only
        cases next : s.currentJob.or engineJob with
        | none =>
          have held : s.currentJob = none := (Option.or_eq_none_iff.mp next).1
          exact ⟨.messages [.ok], by rw [held], rfl⟩
        | some job => exact ⟨_, rfl, rfl⟩
  · rw [Bool.eq_false_iff.mpr subscribed]
    exact .inl ⟨rfl, _, rfl, rfl⟩

theorem handleSubmit_frame (s : Session) (c : Crates) (e : Engine) (params : SubmitParams) :
    ∃ guard shareSet, (s.handleSubmit c e params).session = { s with guard, shareSet } := by
  unfold handleSubmit
  split
  · exact ⟨_, _, rfl⟩
  · split
    · exact ⟨_, _, rfl⟩
    · split <;> exact ⟨_, _, rfl⟩

end Session

namespace Sv2.Session

theorem handleBroadcast_eq (s : Session) (b : JobBroadcast) : s.handleBroadcast b =
    let cleared : Session := { s with shareSet := if b.clean then s.shareSet.clear else s.shareSet }
    if s.channelOpen then
      match cleared.sendJob b.job b.clean with
      | (.ok sent, s) => (.continue [sent], { s with pendingJob := some b.job })
      | (.error part, s) => (.disconnect part "write", s)
    else (.continue [], { cleared with pendingJob := some b.job }) := by
  unfold handleBroadcast
  cases b.clean <;> rfl

theorem handleSubmit_frame (s : Session) (c : Crates) (e : Engine) (submit : SubmitSharesExtended) :
    ∃ guard shareSet, (s.handleSubmit c e submit).session = { s with guard, shareSet } := by
  unfold handleSubmit
  split
  · exact ⟨_, _, rfl⟩
  · split
    · exact ⟨_, _, rfl⟩
    · split <;> exact ⟨_, _, rfl⟩

/-- A job is sent whole, or the session ends with no more than a future job that nothing activates. -/
theorem sendJob_cases (s : Session) (job : StratumJob) (future : Bool) :
    s.sendJob job future =
      (.ok (.job job s.channelId (s.assignJobId job.jobId).1 future), (s.assignJobId job.jobId).2) ∨
    ∃ part, s.sendJob job future = (.error part, (s.assignJobId job.jobId).2) ∧
      (part = [] ∨ part = [.futureJob job s.channelId (s.assignJobId job.jobId).1]) := by
  unfold sendJob
  dsimp only
  split
  · split
    · split
      · exact .inl rfl
      · exact .inr ⟨_, rfl, .inr rfl⟩
    · exact .inl rfl
  · exact .inr ⟨_, rfl, .inl rfl⟩

/-- A broadcast touches the share set, the pending job and the job ids. -/
theorem handleBroadcast_frame (s : Session) (b : JobBroadcast) :
    ∃ shareSet pendingJob jobIds nextJobId, (s.handleBroadcast b).2 = { s with shareSet, pendingJob, jobIds, nextJobId } := by
  rw [handleBroadcast_eq]
  dsimp only
  split
  · rcases sendJob_cases { s with shareSet := if b.clean then s.shareSet.clear else s.shareSet } b.job b.clean with
      eq | ⟨_, eq, _⟩ <;> rw [eq] <;> exact ⟨_, _, _, _, rfl⟩
  · exact ⟨_, _, _, _, rfl⟩

def admits (s : Session) (request : OpenExtended) : Bool :=
  s.setupDone && decide (s.guard.checkWorkerName request.userIdentity = .ok ()) &&
    decide (request.minExtranonceSize.toNat ≤ s.extranonceTotal) &&
    (SoloPool.Session.takeIdentity s.guard s.worker request.userIdentity).isSome

/-- A refused channel leaves the session and the counters; an opened one draws a prefix of what the device leaves over
and gets the pending job. -/
theorem handleOpenExtended_cases (s : Session) (counters : Counters) (request : OpenExtended) :
    (s.admits request = false ∧
      ∃ flow, s.handleOpenExtended counters request = (flow, s, counters) ∧ flow.deliveries = []) ∨
    (s.admits request = true ∧ ∃ granted guard, 1 ≤ granted ∧ (granted ≤ s.extranonceTotal ∨ granted = 1) ∧
      let opened : Session := { s with
        guard, worker := some request.userIdentity, extranonceSize := granted
        extranoncePrefix := generateExtranonce1 counters.extranonce1 (s.extranonceTotal - granted)
        channelId := counters.channelId, channelOpen := true }
      ∃ flow after, s.handleOpenExtended counters request =
          (flow, after, { extranonce1 := counters.extranonce1 + 1, channelId := counters.channelId + 1 }) ∧
        (after = opened ∨ ∃ job, after = (opened.assignJobId job).2) ∧
        (flow.closes = false →
          flow.deliveries = s.pendingJob.toList.map (fun job => { prevHash := job.prevHash, clean := true }))) := by
  unfold handleOpenExtended admits
  by_cases setup : s.setupDone = true
  · rw [setup, Bool.not_true, if_neg Bool.false_ne_true]
    cases check : s.guard.checkWorkerName request.userIdentity with
    | error why => exact .inl ⟨rfl, _, rfl, rfl⟩
    | ok =>
      dsimp only
      by_cases asked : request.minExtranonceSize.toNat > s.extranonceTotal
      · rw [if_pos asked, decide_eq_false (Nat.not_le.mpr asked)]
        exact .inl ⟨rfl, _, rfl, rfl⟩
      · rw [if_neg asked, decide_eq_true (Nat.not_lt.mp asked)]
        cases taken : SoloPool.Session.takeIdentity s.guard s.worker request.userIdentity with
        | none => exact .inl ⟨rfl, _, rfl, rfl⟩
        | some guard =>
          refine .inr ⟨rfl, max request.minExtranonceSize.toNat 1, guard, by omega, by omega, ?_⟩
          dsimp only
          split
          · rename_i noJob
            exact ⟨_, _, rfl, .inl rfl, fun _ => by rw [noJob]; rfl⟩
          · rename_i job hasJob
            rcases sendJob_cases { s with
              guard, setupDone := true, worker := some request.userIdentity
              extranonceSize := max request.minExtranonceSize.toNat 1
              extranoncePrefix := generateExtranonce1 counters.extranonce1
                (s.extranonceTotal - max request.minExtranonceSize.toNat 1)
              channelId := counters.channelId, channelOpen := true } job true with eq | ⟨part, eq, _⟩ <;> rw [eq]
            · exact ⟨_, _, rfl, .inr ⟨job.jobId, rfl⟩, fun _ => by rw [hasJob]; rfl⟩
            · exact ⟨_, _, rfl, .inr ⟨job.jobId, rfl⟩, fun stays => by cases stays⟩
  · rw [Bool.eq_false_iff.mpr setup]
    exact .inl ⟨rfl, _, rfl, rfl⟩

end Sv2.Session

/-! ### The handlers of a client -/

namespace Client

variable {c : Crates} {e : Engine} {cfg : Config} {counters : Sv2.Counters} {client : Client} {request : Request}
  {served : Served}

def nextJob (e : Engine) : Client → Option StratumJob
  | .sv1 s => s.currentJob.or e.currentJob
  | .sv2 s => s.pendingJob

def admits : Client → Request → Bool
  | .sv1 s, .authorize name => s.admits name
  | .sv2 s, .openExtended request => s.admits request
  | _, _ => false

def offer (job : Option StratumJob) : List Delivery :=
  job.toList.map (fun job => { prevHash := job.prevHash, clean := true })

theorem handleBroadcast_spec (cfg : Config) {b : JobBroadcast} (handled : client.handleBroadcast counters b = served) :
    served.client.shareSet = (if b.clean then client.shareSet.clear else client.shareSet) ∧
    served.client.extranonce = client.extranonce ∧ served.client.granted = client.granted ∧
    (client.WellFormed cfg → served.client.WellFormed cfg) ∧
    (served.closed = false → served.client.job? = some b.job ∧ served.client.active = client.active ∧
      (client.active = true → served.sent = [{ prevHash := b.job.prevHash, clean := b.clean }]) ∧
      (client.active = false → served.sent = [])) := by
  cases client with
  | sv1 s =>
    simp only [handleBroadcast, Session.handleBroadcast_eq] at handled
    subst handled
    refine ⟨rfl, rfl, rfl, id, fun _ => ⟨rfl, rfl, ?_, ?_⟩⟩
    · intro on
      simp only [if_pos (show (s.subscribed && s.authorized) = true from on)]
      rfl
    · intro off
      simp only [show (s.subscribed && s.authorized) = false from off]
      rfl
  | sv2 s =>
    simp only [handleBroadcast, Sv2.Session.handleBroadcast_eq] at handled
    by_cases isOpen : s.channelOpen = true
    · rw [if_pos isOpen] at handled
      rcases Sv2.Session.sendJob_cases { s with shareSet := if b.clean then s.shareSet.clear else s.shareSet }
        b.job b.clean with eq | ⟨part, eq, _⟩ <;> rw [eq] at handled <;> subst handled
      · refine ⟨rfl, rfl, rfl, id, fun _ => ⟨rfl, rfl, fun _ => rfl, ?_⟩⟩
        intro off
        exact absurd isOpen (Bool.eq_false_iff.mp off)
      · exact ⟨rfl, rfl, rfl, id, fun stays => by cases stays⟩
    · rw [if_neg isOpen] at handled
      subst handled
      exact ⟨rfl, rfl, rfl, id, fun _ => ⟨rfl, rfl, fun on => absurd on isOpen, fun _ => rfl⟩⟩

/-- What a submit has validated: its parameters and the job the engine finds for it. -/
def submission (e : Engine) : Client → Request → Option (ShareParams × StratumJob)
  | .sv1 s, .submit params => (e.findJob params.jobId).map (fun entry => (s.shareParams params, entry.job))
  | .sv2 s, .submitExtended submit => ((s.engineJobId submit.jobId).bind e.findJob).map
    (fun entry => (Sv2.Session.shareParams submit entry.job.jobId, entry.job))
  | _, _ => none

/-- A share counts once it is valid on a job the engine finds and new to the share set, and is then recorded in it. -/
def Credits (c : Crates) (e : Engine) (client : Client) (request : Request) (served : Served) : Prop :=
  ∃ jobId entry params difficulty result, e.findJob jobId = some entry ∧
    client.submission e request = some (params, entry.job) ∧
    validateShareNoDedup c params entry.job entry client.extranonce difficulty = .ok result ∧
    client.shareSet.contains result.hash = false ∧
    served.credit = some { params, job := entry.job, extranonce1 := client.extranonce, result } ∧
    served.client.shareSet = client.shareSet.insert result.hash

/-- Everything a request does to what is seen of a session. -/
structure Spec (cfg : Config) (c : Crates) (e : Engine) (counters : Sv2.Counters) (client : Client) (request : Request)
    (served : Served) : Prop where
  wellFormed : served.client.WellFormed cfg
  admitted : client.admits request = true → served.closed = false →
    served.client.active = true ∧ served.client.job? = client.nextJob e ∧ served.sent = offer (client.nextJob e)
  refused : client.admits request = false →
    served.sent = [] ∧ served.client.job? = client.job? ∧ served.client.active = client.active
  shares : (served.credit = none ∧ served.client.shareSet = client.shareSet) ∨ Credits c e client request served
  extranonce : (served.counters.extranonce1 = counters.extranonce1 ∧ served.client.extranonce = client.extranonce ∧
      served.client.granted = client.granted) ∨
    (served.counters.extranonce1 = counters.extranonce1 + 1 ∧ 1 ≤ served.client.granted ∧
      (served.client.granted ≤ cfg.pool.extranonce1Size + cfg.pool.extranonce2Size ∨ served.client.granted = 1) ∧
      served.client.extranonce = generateExtranonce1 counters.extranonce1
        (cfg.pool.extranonce1Size + cfg.pool.extranonce2Size - served.client.granted))

theorem Spec.of_refused (wellFormed : served.client.WellFormed cfg) (refused : client.admits request = false)
    (same : served.client.job? = client.job? ∧ served.client.active = client.active ∧
      served.client.extranonce = client.extranonce ∧ served.client.granted = client.granted)
    (kept : served.counters = counters ∧ served.sent = [])
    (shares : (served.credit = none ∧ served.client.shareSet = client.shareSet) ∨ Credits c e client request served) :
    Spec cfg c e counters client request served where
  wellFormed := wellFormed
  admitted := fun admitted => absurd admitted (Bool.eq_false_iff.mp refused)
  refused := fun _ => ⟨kept.2, same.1, same.2.1⟩
  shares := shares
  extranonce := .inl ⟨by rw [kept.1], same.2.2⟩

theorem dedup_cases (set : ShareSet) (validated : Result ShareResult) :
    (∀ result, (set.dedup validated).1 ≠ .ok result) ∧ (set.dedup validated).2 = set ∨
    ∃ result, validated = .ok result ∧ set.contains result.hash = false ∧
      set.dedup validated = (.ok result, set.insert result.hash) := by
  unfold ShareSet.dedup
  cases validated with
  | ok result =>
    dsimp only
    by_cases seen : set.contains result.hash = true
    · rw [if_pos seen]
      exact .inl ⟨nofun, rfl⟩
    · rw [if_neg seen]
      exact .inr ⟨result, rfl, Bool.eq_false_iff.mpr seen, rfl⟩
  | err e => exact .inl ⟨nofun, rfl⟩
  | panic => exact .inl ⟨nofun, rfl⟩

theorem submit_credits (c : Crates) (e : Engine) (counters : Sv2.Counters) (s : Session) (params : SubmitParams) :
    let submitted := s.handleSubmit c e params
    let credit := submitted.outcome.credit (e.findJob params.jobId) (fun _ => s.shareParams params) s.extranonce1
    (credit = none ∧ submitted.session.shareSet = s.shareSet) ∨
    Credits c e (.sv1 s) (.submit params)
      { client := .sv1 submitted.session, counters, sent := [], credit, closed := submitted.disconnect } := by
  unfold Session.handleSubmit
  dsimp only
  split
  · exact .inl ⟨rfl, rfl⟩
  · split
    · exact .inl ⟨rfl, rfl⟩
    · split
      · exact .inl ⟨rfl, rfl⟩
      · rename_i entry found
        rcases dedup_cases s.shareSet (validateShareNoDedup c (s.shareParams params) entry.job entry s.extranonce1
          s.minDifficulty) with ⟨refused, kept⟩ | ⟨result, valid, fresh, outcome⟩
        · refine .inl ⟨?_, kept⟩
          unfold SubmitOutcome.credit
          split
          · rename_i result _ judged _
            exact absurd (SubmitOutcome.judged.inj judged) (refused result)
          · rfl
        · rw [outcome]
          exact .inr ⟨params.jobId, entry, _, _, result, found, by simp only [submission, found, Option.map_some], valid, fresh,
            by rw [found]; rfl, rfl⟩

theorem submitExtended_credits (c : Crates) (e : Engine) (counters : Sv2.Counters) (s : Sv2.Session)
    (submit : Sv2.SubmitSharesExtended) :
    let submitted := s.handleSubmit c e submit
    let credit := submitted.outcome.credit ((s.engineJobId submit.jobId).bind e.findJob)
      (fun entry => Sv2.Session.shareParams submit entry.job.jobId) s.extranoncePrefix
    (credit = none ∧ submitted.session.shareSet = s.shareSet) ∨
    Credits c e (.sv2 s) (.submitExtended submit)
      { client := .sv2 submitted.session, counters, sent := [], credit, closed := submitted.disconnect } := by
  unfold Sv2.Session.handleSubmit
  dsimp only
  split
  · exact .inl ⟨rfl, rfl⟩
  · split
    · exact .inl ⟨rfl, rfl⟩
    · split
      · exact .inl ⟨rfl, rfl⟩
      · rename_i entry found
        obtain ⟨jobId, _, lookup⟩ := Option.bind_eq_some_iff.mp found
        rcases dedup_cases s.shareSet (validateShareNoDedup c (Sv2.Session.shareParams submit entry.job.jobId) entry.job
          entry s.extranoncePrefix s.minDifficulty) with ⟨refused, kept⟩ | ⟨result, valid, fresh, outcome⟩
        · refine .inl ⟨?_, kept⟩
          unfold SubmitOutcome.credit
          split
          · rename_i result _ judged _
            exact absurd (SubmitOutcome.judged.inj judged) (refused result)
          · rfl
        · rw [outcome]
          exact .inr ⟨jobId, entry, _, _, result, lookup, by simp only [submission, found, Option.map_some], valid, fresh,
            by rw [found]; rfl, rfl⟩

theorem handle_spec (wf : client.WellFormed cfg) (handled : client.handle c e counters request = some served) :
    Spec cfg c e counters client request served := by
  cases client with
  | sv1 s =>
    cases request with
    | configure params =>
      simp only [handle, Session.handleConfigure] at handled
      split at handled <;> obtain rfl := Option.some.inj handled <;>
        exact .of_refused wf rfl ⟨rfl, rfl, rfl, rfl⟩ ⟨rfl, rfl⟩ (.inl ⟨rfl, rfl⟩)
    | subscribe =>
      obtain rfl := Option.some.inj handled
      refine .of_refused ⟨fun _ => rfl, wf.2⟩ rfl ⟨rfl, ?_, rfl, rfl⟩ ⟨rfl, rfl⟩ (.inl ⟨rfl, rfl⟩)
      dsimp only [active, Session.handleSubscribe]
      cases authorized : s.authorized with
      | false => rw [Bool.and_false, Bool.and_false]
      | true => rw [wf.1 authorized]
    | authorize name =>
      simp only [handle] at handled
      rcases s.handleAuthorize_cases e.currentJob name with
        ⟨refused, result, eq, none⟩ | ⟨admitted, subscribed, guard, result, eq, sent⟩
      · rw [eq] at handled
        obtain rfl := Option.some.inj handled
        exact .of_refused wf refused ⟨rfl, rfl, rfl, rfl⟩ ⟨rfl, none⟩ (.inl ⟨rfl, rfl⟩)
      · rw [eq] at handled
        obtain rfl := Option.some.inj handled
        exact { wellFormed := ⟨fun _ => subscribed, wf.2⟩
                admitted := fun _ _ => ⟨by simp only [active, subscribed, Bool.and_self], rfl, sent⟩
                refused := fun refused => absurd admitted (Bool.eq_false_iff.mp refused)
                shares := .inl ⟨rfl, rfl⟩
                extranonce := .inl ⟨rfl, rfl, rfl⟩ }
    | submit params =>
      have shares := submit_credits c e counters s params
      obtain ⟨guard, shareSet, after⟩ := s.handleSubmit_frame c e params
      simp only [handle] at handled
      obtain rfl := Option.some.inj handled
      refine .of_refused ?_ rfl ?_ ⟨rfl, rfl⟩ shares <;> rw [after]
      · exact wf
      · exact ⟨rfl, rfl, rfl, rfl⟩
    | _ => cases handled
  | sv2 s =>
    cases request with
    | setupConnection setup =>
      simp only [handle, Sv2.Session.handleSetupConnection] at handled
      have quiet : ∀ after : Sv2.Session, (∃ done, after = { s with setupDone := done }) → ∀ closed,
          Spec cfg c e counters (.sv2 s) (.setupConnection setup)
            { client := .sv2 after, counters, sent := [], credit := none, closed } := by
        rintro _ ⟨done, rfl⟩ closed
        exact .of_refused wf rfl ⟨rfl, rfl, rfl, rfl⟩ ⟨rfl, rfl⟩ (.inl ⟨rfl, rfl⟩)
      split at handled
      · obtain rfl := Option.some.inj handled
        exact quiet s ⟨s.setupDone, rfl⟩ _
      · split at handled
        · obtain rfl := Option.some.inj handled
          exact quiet s ⟨s.setupDone, rfl⟩ _
        · split at handled <;> obtain rfl := Option.some.inj handled
          · exact quiet s ⟨s.setupDone, rfl⟩ _
          · exact quiet _ ⟨true, rfl⟩ _
    | openExtended request =>
      simp only [handle] at handled
      have total : s.extranonceTotal = cfg.pool.extranonce1Size + cfg.pool.extranonce2Size := wf
      rcases s.handleOpenExtended_cases counters request with
        ⟨refused, flow, eq, none⟩ | ⟨admitted, granted, guard, positive, inside, flow, after, eq, opened, sent⟩
      · rw [eq] at handled
        obtain rfl := Option.some.inj handled
        exact .of_refused wf refused ⟨rfl, rfl, rfl, rfl⟩ ⟨rfl, none⟩ (.inl ⟨rfl, rfl⟩)
      · rw [eq] at handled
        obtain rfl := Option.some.inj handled
        rw [total] at inside
        rcases opened with rfl | ⟨job, rfl⟩ <;>
          exact { wellFormed := wf
                  admitted := fun _ stays => ⟨rfl, rfl, sent stays⟩
                  refused := fun refused => absurd admitted (Bool.eq_false_iff.mp refused)
                  shares := .inl ⟨rfl, rfl⟩
                  extranonce := .inr ⟨rfl, positive, inside, by rw [← total]; rfl⟩ }
    | submitExtended submit =>
      have shares := submitExtended_credits c e counters s submit
      obtain ⟨guard, shareSet, after⟩ := s.handleSubmit_frame c e submit
      simp only [handle] at handled
      obtain rfl := Option.some.inj handled
      refine .of_refused ?_ rfl ?_ ⟨rfl, rfl⟩ shares <;> rw [after]
      · exact wf
      · exact ⟨rfl, rfl, rfl, rfl⟩
    | _ => cases handled

end Client

/-! ### Steps of the server -/

namespace Server

variable {d : Deployment} {s t : Server d} {a : Action} {settings : RuntimeSettings} {good : Server d → Action → Prop}

inductive Step (s : Server d) : Action → Server d → Prop where
  | engine {a : Refreshes.Action} {refreshes : Refreshes d.process} (taken : s.refreshes.step a = some refreshes) :
      Step s (.engine a) { s with
        refreshes
        connections := fun id => (s.connections id).map
          (·.enqueue (refreshes.broadcasts.drop s.refreshes.broadcasts.length)) }
  | connect {id : Nat} {sv2 : Bool} (free : s.connections id = none) : Step s (.connect id sv2) (s.accept id sv2)
  | subscribe {id : Nat} {conn : Connection} (live : s.connections id = some conn) (stage : conn.stage = .accepted) :
      Step s (.subscribe id) (s.setConnection id (some { conn with stage := .subscribed }))
  | cacheJob {id : Nat} {conn : Connection} (live : s.connections id = some conn) (stage : conn.stage = .subscribed) :
      Step s (.cacheJob id) (s.setConnection id (some { conn with
        stage := .serving, client := conn.client.cacheJob s.refreshes.engine.currentJob }))
  | recv {id : Nat} {conn : Connection} {b : JobBroadcast} {rest : List JobBroadcast}
      (live : s.connections id = some conn) (stage : conn.stage = .serving) (queued : conn.queue = b :: rest) :
      Step s (.recv id) (s.receive id conn b rest)
  | request {id : Nat} {conn : Connection} {request : Request} {served : Served}
      (live : s.connections id = some conn) (stage : conn.stage = .serving)
      (handled : conn.client.handle d.crates s.refreshes.engine s.counters request = some served) :
      Step s (.request id request) (s.serve id conn served)
  | disconnect {id : Nat} {conn : Connection} (live : s.connections id = some conn) :
      Step s (.disconnect id) (s.setConnection id none)

theorem step_inv (taken : step s a = some t) : Step s a t := by
  cases a with
  | engine a =>
    simp only [step, Option.bind_eq_bind, Option.bind_eq_some_iff, Option.pure_def, Option.some.injEq] at taken
    obtain ⟨refreshes, moved, rfl⟩ := taken
    exact .engine moved
  | connect id sv2 =>
    simp only [step] at taken
    split at taken
    · cases taken
    · rename_i free
      obtain rfl := Option.some.inj taken
      exact .connect free
  | subscribe id =>
    simp only [step] at taken
    split at taken
    · rename_i conn live
      split at taken
      · rename_i stage
        obtain rfl := Option.some.inj taken
        exact .subscribe live stage
      · cases taken
    · cases taken
  | cacheJob id =>
    simp only [step] at taken
    split at taken
    · rename_i conn live
      split at taken
      · rename_i stage
        obtain rfl := Option.some.inj taken
        exact .cacheJob live stage
      · cases taken
    · cases taken
  | recv id =>
    simp only [step] at taken
    split at taken
    · rename_i conn live
      split at taken
      · rename_i b rest stage queued
        obtain rfl := Option.some.inj taken
        exact .recv live stage queued
      · cases taken
    · cases taken
  | request id request =>
    simp only [step] at taken
    split at taken
    · rename_i conn live
      split at taken
      · rename_i stage
        obtain ⟨served, handled, rfl⟩ := Option.map_eq_some_iff.mp taken
        exact .request live stage handled
      · cases taken
    · cases taken
  | disconnect id =>
    simp only [step] at taken
    obtain ⟨conn, live, rfl⟩ := Option.map_eq_some_iff.mp taken
    exact .disconnect live

theorem setConnection_cases {id i : Nat} {new : Option Connection} {conn : Connection}
    (live : (s.setConnection id new).connections i = some conn) :
    (i = id ∧ new = some conn) ∨ (i ≠ id ∧ s.connections i = some conn) := by
  unfold setConnection at live
  by_cases same : i = id
  · subst same
    exact .inl ⟨rfl, (Function.update_self i new s.connections).symm.trans live⟩
  · exact .inr ⟨same, (Function.update_of_ne same new s.connections).symm.trans live⟩

theorem reach_refreshes {good' : Refreshes d.process → Refreshes.Action → Prop}
    (projected : ∀ s a, good s (.engine a) → good' s.refreshes a) (reached : Reach step good (start settings) s) :
    Reach Refreshes.step good' (.start settings) s.refreshes := by
  induction reached with
  | start => exact .start
  | step before meets taken ih =>
    cases step_inv taken with
    | engine moved => exact .step ih (projected _ _ meets) moved
    | request => exact ih
    | _ => exact ih

/-- A property of one connection holds along every run when the connection's own steps and the engine's keep it. -/
theorem reach_connection (i : Nat) (inv : Server d → Connection → Prop)
    (frame : ∀ s t conn, t.refreshes = s.refreshes → s.generated ≤ t.generated → inv s conn → inv t conn)
    (engine : ∀ s a t conn, Reach step good (start settings) s → good s (.engine a) → s.connections i = some conn →
      inv s conn → s.refreshes.step a = some t.refreshes → t.generated = s.generated →
      inv t (conn.enqueue (t.refreshes.broadcasts.drop s.refreshes.broadcasts.length)))
    (accepted : ∀ s sv2, Reach step good (start settings) s → inv (s.accept i sv2)
      (.accepted d.config (generateExtranonce1 s.counters.extranonce1 d.config.pool.extranonce1Size) sv2 (s.generated + 1)))
    (subscribed : ∀ s conn, conn.stage = .accepted → inv s conn → inv s { conn with stage := .subscribed })
    (cached : ∀ s conn, Reach step good (start settings) s → conn.stage = .subscribed → inv s conn →
      inv s { conn with stage := .serving, client := conn.client.cacheJob s.refreshes.engine.currentJob })
    (received : ∀ s conn b rest, Reach step good (start settings) s → good s (.recv i) → s.connections i = some conn →
      conn.stage = .serving → conn.queue = b :: rest → inv s conn → (conn.client.handleBroadcast s.counters b).closed = false →
      inv s (conn.received b rest (conn.client.handleBroadcast s.counters b)))
    (answered : ∀ s conn request served, Reach step good (start settings) s → good s (.request i request) →
      s.connections i = some conn → conn.stage = .serving → inv s conn →
      conn.client.handle d.crates s.refreshes.engine s.counters request = some served → served.closed = false →
      inv (s.serve i conn served) (conn.answered served
        (if served.counters.extranonce1 ≠ s.counters.extranonce1 then s.generated + 1 else conn.drawn)))
    (reached : Reach step good (start settings) s) : ∀ conn, s.connections i = some conn → inv s conn := by
  induction reached with
  | start => exact fun conn live => by cases live
  | @step s t a before meets taken ih =>
    intro conn live
    cases step_inv taken with
    | engine moved =>
      obtain ⟨old, was, rfl⟩ := Option.map_eq_some_iff.mp live
      exact engine s _ _ old before meets was (ih old was) moved rfl
    | @connect id sv2 free =>
      rcases setConnection_cases live with ⟨rfl, new⟩ | ⟨-, was⟩
      · obtain rfl := Option.some.inj new
        exact accepted s sv2 before
      · exact frame s _ conn rfl (Nat.le_succ _) (ih conn was)
    | @subscribe id old was stage =>
      rcases setConnection_cases live with ⟨rfl, new⟩ | ⟨-, there⟩
      · obtain rfl := Option.some.inj new
        exact frame s _ _ rfl (Nat.le_refl _) (subscribed s old stage (ih old was))
      · exact frame s _ conn rfl (Nat.le_refl _) (ih conn there)
    | @cacheJob id old was stage =>
      rcases setConnection_cases live with ⟨rfl, new⟩ | ⟨-, there⟩
      · obtain rfl := Option.some.inj new
        exact frame s _ _ rfl (Nat.le_refl _) (cached s old before stage (ih old was))
      · exact frame s _ conn rfl (Nat.le_refl _) (ih conn there)
    | @recv id old b rest was stage queued =>
      rcases setConnection_cases live with ⟨rfl, new⟩ | ⟨-, there⟩
      · split at new
        · cases new
        · rename_i stays
          obtain rfl := Option.some.inj new
          exact frame s _ _ rfl (Nat.le_refl _)
            (received s old b rest before meets was stage queued (ih old was) (Bool.eq_false_iff.mpr stays))
      · exact frame s _ conn rfl (Nat.le_refl _) (ih conn there)
    | @request id old request served was stage handled =>
      rcases setConnection_cases live with ⟨rfl, new⟩ | ⟨-, there⟩
      · split at new
        · cases new
        · rename_i stays
          obtain rfl := Option.some.inj new
          have kept := answered s old request served before meets was stage (ih old was) handled (Bool.eq_false_iff.mpr stays)
          simpa only [decide_eq_true_eq] using kept
      · have grown : s.generated ≤ (s.serve id old served).generated := by
          unfold serve
          dsimp only
          split <;> omega
        exact frame s _ conn rfl grown (ih conn there)
    | @disconnect id old was =>
      rcases setConnection_cases live with ⟨rfl, new⟩ | ⟨-, there⟩
      · cases new
      · exact frame s _ conn rfl (Nat.le_refl _) (ih conn there)

@[simp] theorem enqueue_client (conn : Connection) (sent : List JobBroadcast) :
    (conn.enqueue sent).client = conn.client := by
  unfold Connection.enqueue
  split <;> rfl

theorem cacheJob_wellFormed {cfg : Config} {client : Client} (wf : client.WellFormed cfg) (current : Option StratumJob) :
    (client.cacheJob current).WellFormed cfg := by
  cases client <;> cases current <;> exact wf

theorem accepted_wellFormed (cfg : Config) (extranonce1 : Bytes) (sv2 : Bool) (drawn : Nat) :
    (Connection.accepted cfg extranonce1 sv2 drawn).client.WellFormed cfg := by
  cases sv2
  · exact ⟨nofun, rfl⟩
  · rfl

theorem reach_wellFormed (reached : Reach step good (start settings) s) {i : Nat} {conn : Connection}
    (live : s.connections i = some conn) : conn.client.WellFormed d.config := by
  refine reach_connection i (fun _ conn => conn.client.WellFormed d.config) ?_ ?_ ?_ ?_ ?_ ?_ ?_ reached conn live
  · intro s t conn _ _ wf
    exact wf
  · intro s a t conn _ _ _ wf _ _
    rw [enqueue_client]
    exact wf
  · intro s sv2 _
    exact accepted_wellFormed _ _ _ _
  · intro s conn _ wf
    exact wf
  · intro s conn _ _ wf
    exact cacheJob_wellFormed wf _
  · intro s conn b rest _ _ _ _ _ wf _
    exact (Client.handleBroadcast_spec d.config rfl).2.2.2.1 wf
  · intro s conn request served _ _ _ _ wf handled _
    exact (Client.handle_spec wf handled).wellFormed

/-! ### Runs of the example configuration -/

def testDeployment : Deployment := { crates := mainnetCrates, config := exampleConfig, startMillis := 0 }

def loopRefresh (cleanJobs : Bool) (gbt : GbtResult) : List Action := (Refreshes.loopRefresh cleanJobs gbt).map .engine

def joins (id : Nat) (sv2 : Bool) : List Action := [.connect id sv2, .subscribe id, .cacheJob id]

def authorizes (id : Nat) : List Action := [.request id .subscribe, .request id (.authorize "miner")]

def opens (id : Nat) (minExtranonceSize : UInt16) : List Action :=
  [.request id (.setupConnection { mining := true, minVersion := 2, maxVersion := 2, flags := 0 }),
   .request id (.openExtended { requestId := 1, userIdentity := "miner", minExtranonceSize, maxTarget := .zero 32 })]

end Server

end SoloPool
