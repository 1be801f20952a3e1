import SoloPool.Proofs.Extranonce
import SoloPool.Proofs.Pool

/-!
# SV2 channels

An open channel belongs to a session that was set up under a checked name, and its prefix and the device's part fill
what the jobs reserve for the extranonce. An open refused for its size changes nothing, also on a live channel.
-/

namespace SoloPool
open Lib

/-! ### Jobs the engine finds -/

theorem Refreshes.history_minted {p : Process} {s : Refreshes p} {settings : RuntimeSettings}
    (reached : Reach step Always (start settings) s) :
    ∀ entry ∈ s.engine.jobHistory, ∃ minted : Minted p, minted.job = entry.job := by
  refine reached.invariant (fun s => ∀ entry ∈ s.engine.jobHistory, ∃ minted : Minted p, minted.job = entry.job) nofun ?_
  intro s a t _ built _ taken
  rcases step_published taken with quiet | ⟨_, _, _, _, _, _, rfl⟩ | ⟨_, _, minted, clean, _, _, _, rfl⟩ |
    ⟨_, _, _, _, _, _, _, rfl⟩
  · rw [quiet.history]
    exact built
  · exact built
  · rw [pushHistory_history]
    intro entry among
    rcases List.mem_append.mp among with old | new
    · exact built entry ((makeRoom_suffix _ _).subset old)
    · obtain rfl := List.mem_singleton.mp new
      exact ⟨minted, rfl⟩
  · exact built

theorem Refreshes.found_minted {p : Process} {s : Refreshes p} {settings : RuntimeSettings}
    (reached : Reach step Always (start settings) s) {jobId : String} {entry : JobEntry}
    (found : s.engine.findJob jobId = some entry) : ∃ minted : Minted p, minted.job = entry.job := by
  obtain ⟨before, old, after, split, _, _, same⟩ := findJob_eq_some.mp found
  have among : old ∈ s.engine.jobHistory := by
    rw [split]
    exact List.mem_append_right _ List.mem_cons_self
  obtain ⟨minted, job⟩ := history_minted reached old among
  refine ⟨minted, job.trans ?_⟩
  rw [same]

/-! ### Sessions of the server -/

def Client.Admitted (cfg : Config) : Client → Prop
  | .sv1 _ => True
  | .sv2 s => s.Admitted cfg

theorem Client.handle_admitted {cfg : Config} {c : Crates} {e : Engine} {counters : Sv2.Counters} {client : Client}
    {request : Request} {served : Served} (admitted : client.Admitted cfg)
    (handled : client.handle c e counters request = some served) : served.client.Admitted cfg := by
  cases client with
  | sv1 s =>
    cases request with
    | configure | subscribe | authorize | submit =>
      obtain rfl := Option.some.inj handled
      trivial
    | _ => cases handled
  | sv2 s =>
    cases request with
    | setupConnection setup =>
      obtain rfl := Option.some.inj handled
      exact Sv2.Session.handleSetupConnection_admitted admitted setup
    | openExtended request =>
      obtain rfl := Option.some.inj handled
      exact Sv2.Session.handleOpenExtended_keeps admitted counters request
    | submitExtended submit =>
      obtain rfl := Option.some.inj handled
      exact Sv2.Session.handleSubmit_admitted admitted c e submit
    | _ => cases handled

theorem Client.handleBroadcast_admitted {cfg : Config} {counters : Sv2.Counters} {client : Client}
    (admitted : client.Admitted cfg) (b : JobBroadcast) : (client.handleBroadcast counters b).client.Admitted cfg := by
  cases client with
  | sv1 s => trivial
  | sv2 s => exact Sv2.Session.handleBroadcast_admitted admitted b

namespace Server

variable {d : Deployment} {s : Server d} {settings : RuntimeSettings} {i : Nat} {conn : Connection}

theorem reach_admitted (reached : Reach step Always (start settings) s) (live : s.connections i = some conn) :
    conn.client.Admitted d.config := by
  refine reach_connection i (fun _ conn => conn.client.Admitted d.config) ?_ ?_ ?_ ?_ ?_ ?_ ?_ reached conn live
  · intro s t conn _ _ admitted
    exact admitted
  · intro s a t conn _ _ _ admitted _ _
    rw [enqueue_client]
    exact admitted
  · intro s sv2 _
    cases sv2
    · trivial
    · exact Sv2.Session.admitted_new ..
  · intro s conn _ admitted
    exact admitted
  · intro s conn _ _ admitted
    revert admitted
    cases conn.client with
    | sv1 s => exact id
    | sv2 s => exact fun admitted => Sv2.Session.cacheJob_admitted admitted _
  · intro s conn b rest _ _ _ _ _ admitted _
    exact Client.handleBroadcast_admitted admitted b
  · intro s conn request served _ _ _ _ admitted handled _
    exact Client.handle_admitted admitted handled

end Server

/-! ### Refused opens -/

/-- An open refused for the size it asks for is answered; it changes nothing and calls nothing. -/
theorem Sv2.refused_open {m : Miner Sv2.Session} {request : Sv2.OpenExtended} (counters : Sv2.Counters)
    (setup : m.session.setupDone = true) (check : m.session.guard.checkWorkerName request.userIdentity = .ok ())
    (large : request.minExtranonceSize.toNat > m.session.extranonceTotal) :
    Sv2.handleOpenExtended counters m request = (m.replies [.openError request.requestId] [], counters) := by
  unfold Sv2.handleOpenExtended
  rw [if_neg (by simp [setup]), check]
  dsimp only
  rw [if_pos large]

/-- A turn of the pool that handles it leaves the rest of the pool alone too. -/
theorem Pool.refused_open {site : Site} {p q : Pool site} {j : Nat} {t : Thread} {m : Miner Sv2.Session}
    {written : List Sv2.Frame} {reading : Pool.Reading} {request : Sv2.OpenExtended}
    (running : p.threads[j]? = some (some t)) (peer : t.peer = .sv2 m written) (setup : m.session.setupDone = true)
    (check : m.session.guard.checkWorkerName request.userIdentity = .ok ())
    (large : request.minExtranonceSize.toNat > m.session.extranonceTotal)
    (taken : p.step (.handle j reading (.frame true (.openExtended request))) = some q) :
    q = p.setThread j (some { t with peer := .sv2 m (written ++ [.openError request.requestId]) }) := by
  have refused : t.peer.handle (p.env reading) p.counters (.frame true (.openExtended request)) =
      some (.ok (Sv2.turn written (m.replies [.openError request.requestId] []), p.counters)) := by
    rw [peer]
    dsimp only [Peer.handle, Sv2.handleMessage]
    rw [if_neg (by decide), Sv2.refused_open p.counters setup check large]
  cases step_inv taken with
  | handle running' idle stays handled =>
    obtain rfl := Option.some.inj (Option.some.inj (running.symm.trans running'))
    rw [refused] at handled
    obtain ⟨rfl, rfl⟩ := Prod.mk.inj (Outcome.ok.inj (Option.some.inj handled))
    cases t
    subst idle stays peer
    unfold turned
    rw [show (Sv2.turn written (m.replies [.openError request.requestId] [])).credited = none from rfl]
    simp [setThread, Turn.thread, Sv2.turn, Miner.replies]
  | panic running' idle handled fails =>
    obtain rfl := Option.some.inj (Option.some.inj (running.symm.trans running'))
    rw [refused] at handled
    exact absurd (Option.some.inj handled).symm (fails _)
  | background task => cases task

namespace Server

variable {d : Deployment} {s : Server d} {settings : RuntimeSettings} {i : Nat} {conn : Connection} {session : Sv2.Session}

/-- With a validated configuration, at every point of every run: an open channel has been set up under a checked name,
its prefix and the device's part are what the session has to give, and so is what every job found for it reserves, so
that a submit of the right length is spliced into the coinbase. Whatever the device asks for, the prefix is not cut
short of nothing. An open refused for its size is answered and leaves the session, its guard, the counters and, since it
calls nothing, the statistics as they are; so does a turn of the pool that handles one. What the loop does around every
frame, the token it takes and the hashrates it passes on, is not part of a turn. -/
theorem channel_kept (valid : d.config.validate = .ok ()) (reached : Reach step Always (start settings) s)
    (live : s.connections i = some conn) (sv2 : conn.client = .sv2 session) :
    (session.channelOpen = true →
      session.setupDone = true ∧
      (∃ name, session.worker = some name ∧ session.guard.checkWorkerName name = .ok ()) ∧
      session.extranoncePrefix.length + session.extranonceSize = session.extranonceTotal ∧ 1 ≤ session.extranonceSize) ∧
    (∀ requested, ¬ requested > session.extranonceTotal → max requested 1 ≤ session.extranonceTotal) ∧
    (∀ submit entry, submit.extranonce.length = session.extranonceSize →
      (session.engineJobId submit.jobId).bind s.refreshes.engine.findJob = some entry →
      entry.job.extranonce1Len + entry.job.extranonce2Len = session.extranonceTotal ∧
      entry.job.assembleCoinbase session.extranoncePrefix (Sv2.Session.shareParams submit entry.job.jobId).extranonce2 =
        .ok (entry.job.coinbase1 ++ session.extranoncePrefix ++ submit.extranonce ++ entry.job.coinbase2)) ∧
    (∀ {m : Miner Sv2.Session} {request : Sv2.OpenExtended} (counters : Sv2.Counters), m.session.setupDone = true →
      m.session.guard.checkWorkerName request.userIdentity = .ok () →
      request.minExtranonceSize.toNat > m.session.extranonceTotal →
      Sv2.handleOpenExtended counters m request = (m.replies [.openError request.requestId] [], counters)) ∧
    ∀ {site : Site} {p q : Pool site} {j : Nat} {t : Thread} {m : Miner Sv2.Session} {written : List Sv2.Frame}
      {reading : Pool.Reading} {request : Sv2.OpenExtended}, p.threads[j]? = some (some t) → t.peer = .sv2 m written →
      m.session.setupDone = true → m.session.guard.checkWorkerName request.userIdentity = .ok () →
      request.minExtranonceSize.toNat > m.session.extranonceTotal →
      p.step (.handle j reading (.frame true (.openExtended request))) = some q →
      q = p.setThread j (some { t with peer := .sv2 m (written ++ [.openError request.requestId]) }) := by
  have admitted := reach_admitted reached live
  have cut := reach_cut valid reached live
  have total := cut.wellFormed
  have width := cut.width
  rw [sv2] at admitted total width
  have total : session.extranonceTotal = d.config.pool.extranonce1Size + d.config.pool.extranonce2Size := total
  have width : session.extranoncePrefix.length + session.extranonceSize = session.extranonceTotal := width.trans total.symm
  have positive := (Config.validate_accepted valid).extranonce1_pos
  refine ⟨fun on => ⟨(admitted.named on).1, ?_, width, admitted.granted on⟩, fun requested fits => ?_,
    fun submit entry right found => ?_, Sv2.refused_open, Pool.refused_open⟩
  · obtain ⟨name, worker, checked⟩ := (admitted.named on).2
    rw [← admitted.limit] at checked
    exact ⟨name, worker, checked⟩
  · omega
  · obtain ⟨jobId, _, found⟩ := Option.bind_eq_some_iff.mp found
    obtain ⟨minted, job⟩ := Refreshes.found_minted (reach_refreshes (fun _ _ _ => trivial) reached) found
    obtain ⟨_, ⟨facts⟩⟩ := buildJob_facts minted.built
    rw [job] at facts
    refine ⟨?_, assembleCoinbase_split facts ?_⟩
    · rw [facts.extranonce1Len_eq, facts.extranonce2Len_eq, total]
      rfl
    · rw [show (Sv2.Session.shareParams submit entry.job.jobId).extranonce2 = submit.extranonce from rfl, right, width, total]
      rfl

def asksFor (minExtranonceSize : UInt16) : Sv2.OpenExtended :=
  { requestId := 1, userIdentity := "miner", minExtranonceSize, maxTarget := .zero 32 }

def reopens (minExtranonceSize : UInt16) : Pool.Action :=
  .handle 0 Pool.idleReading (.frame true (.openExtended (asksFor minExtranonceSize)))

/-- An SV2 session of the pool opens a channel. -/
def channelOpens : List Pool.Action :=
  [.connect true,
   .handle 0 Pool.idleReading (.frame true (.setupConnection { mining := true, minVersion := 2, maxVersion := 2, flags := 0 })),
   reopens 6, .call 0, .call 0, .call 0]

def exceeds (request : Sv2.OpenExtended) (t : Thread) : Bool :=
  match t.peer with
  | .sv2 m _ => m.session.setupDone && decide (m.session.guard.checkWorkerName request.userIdentity = .ok ()) &&
    decide (request.minExtranonceSize.toNat > m.session.extranonceTotal)
  | .sv1 _ _ => false

/-- The server's channel is open; on the pool's, a second open asks for more than there is. -/
theorem channel_kept_reopened : exampleConfig.validate = .ok () ∧
    ∃ s : Server testDeployment, Reach step Always (start testSettings) s ∧ ∃ conn session,
      s.connections 0 = some conn ∧ conn.client = .sv2 session ∧ session.channelOpen = true ∧
      session.extranoncePrefix.length + session.extranonceSize = session.extranonceTotal ∧
      ∃ p q : Pool Pool.testSite, Reach Pool.step Always (.boot none Pool.testClock) p ∧ p.step (reopens 99) = some q ∧
        (p.shared.stats.workerStates "miner").any (·.online) = true ∧ q.shared = p.shared := by
  have valid : exampleConfig.validate = .ok () := by decide
  refine ⟨valid, ?_⟩
  obtain ⟨s, reached, conn, live, shown⟩ : ∃ s : Server testDeployment, Reach step Always (start testSettings) s ∧
      ∃ conn ∈ s.connections 0, (match conn.client with | .sv2 session => session.channelOpen | .sv1 _ => false) = true :=
    Reach.of_run (loopRefresh true (testTemplate genesisHash "1d00ffff") ++ joins 0 true ++ opens 0 6) (by decide +kernel)
  obtain ⟨p, opened, online, again, running⟩ : ∃ p : Pool Pool.testSite,
      Reach Pool.step Always (.boot none Pool.testClock) p ∧
      ((p.shared.stats.workerStates "miner").any (·.online) = true ∧ (p.step (reopens 99)).isSome = true ∧
        (p.thread? 0).any (exceeds (asksFor 99)) = true) :=
    Reach.of_run channelOpens (by decide +kernel)
  cases client : conn.client with
  | sv1 session =>
    rw [client] at shown
    cases shown
  | sv2 session =>
    rw [client] at shown
    obtain ⟨first, _, _, _, refused⟩ := channel_kept valid reached live client
    refine ⟨s, reached, conn, session, live, client, shown, (first shown).2.2.1, ?_⟩
    obtain ⟨q, taken⟩ := Option.isSome_iff_exists.mp again
    obtain ⟨t, running, facts⟩ := (Option.any_eq_true _ _).mp running
    unfold exceeds at facts
    cases peer : t.peer with
    | sv1 m written =>
      rw [peer] at facts
      cases facts
    | sv2 m written =>
      rw [peer] at facts
      simp only [Bool.and_eq_true, decide_eq_true_eq] at facts
      have kept := refused (Pool.thread?_eq_some.mp running) peer facts.1.1 facts.1.2 facts.2 taken
      refine ⟨p, q, opened, taken, online, ?_⟩
      rw [kept]
      rfl

end Server

end SoloPool
