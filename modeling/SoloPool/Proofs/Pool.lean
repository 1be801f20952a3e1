import SoloPool.Proofs.Turns

/-!
# Steps of the pool

Every step of the pool is one of a session's or of a background task's (`Pool.Step`).
-/

namespace SoloPool
open Lib Stats

namespace Pool

variable {site : Site} {p q : Pool site} {a : Action} {good : Pool site → Action → Prop} {db : Option Database}
  {clock : Clock}

/-- A background task's call, with what it does to the statistics. -/
inductive Background (clock : Clock) : Action → (PoolStats → PoolStats) → Prop where
  | flushShareLog : Background clock .flushShareLog (·.flushShareLog clock.unix)
  | pruneIdleWorkers : Background clock .pruneIdleWorkers (·.pruneIdleWorkers clock.unix)
  | recordHashrateSnapshot (hps : F64) :
      Background clock (.recordHashrateSnapshot hps) (·.recordHashrateSnapshot clock.unix hps)
  | blockFound (worker hash : String) (height : UInt64) :
      Background clock (.blockFound worker hash height) (·.blockFound worker hash height clock.unix)

inductive Step (p : Pool site) : Action → Pool site → Prop where
  | connect {sv2 : Bool} (room : p.threads.countP Option.isSome < site.maxConnections.toNat) :
      Step p (.connect sv2) (p.accept sv2)
  | handle {i : Nat} {reading : Reading} {input : Input} {t : Thread} {turn : Turn} {counters : Sv2.Counters}
      (running : p.threads[i]? = some (some t)) (idle : t.pending = []) (stays : t.ending = false)
      (handled : t.peer.handle (p.env reading) p.counters input = some (.ok (turn, counters))) :
      Step p (.handle i reading input) (p.turned i turn counters)
  | panic {i : Nat} {reading : Reading} {input : Input} {t : Thread} {result : Result (Turn × Sv2.Counters)}
      (running : p.threads[i]? = some (some t)) (idle : t.pending = [])
      (handled : t.peer.handle (p.env reading) p.counters input = some result) (fails : ∀ done, result ≠ .ok done) :
      Step p (.handle i reading input) (p.setThread i none)
  | call {i : Nat} {t : Thread} {effect : Effect} {rest : List Effect} (running : p.threads[i]? = some (some t))
      (next : t.pending = effect :: rest) : Step p (.call i) (p.called i t effect rest)
  | disconnect {i : Nat} {t : Thread} (running : p.threads[i]? = some (some t)) (idle : t.pending = [])
      (stays : t.ending = false) : Step p (.disconnect i) (p.setThread i (some t.leave))
  | close {i : Nat} {t : Thread} (running : p.threads[i]? = some (some t)) (idle : t.pending = [])
      (ends : t.ending = true) : Step p (.close i) (p.setThread i none)
  | tick {unix : UInt64} {passed : Nat} :
      Step p (.tick unix passed) { p with clock := { unix, instant := p.clock.instant + passed } }
  | background {a : Action} {f : PoolStats → PoolStats} (task : Background p.clock a f) : Step p a (p.updateStats f)

theorem thread?_eq_some {i : Nat} {t : Thread} : p.thread? i = some t ↔ p.threads[i]? = some (some t) := by
  unfold thread?
  rw [Option.join_eq_some_iff]

theorem step_inv (taken : step p a = some q) : Step p a q := by
  cases a with
  | connect sv2 =>
    simp only [step] at taken
    split at taken
    · rename_i room
      obtain rfl := Option.some.inj taken
      exact .connect room
    · cases taken
  | handle i reading input =>
    simp only [step, Option.bind_eq_bind, Option.bind_eq_some_iff, thread?_eq_some] at taken
    obtain ⟨t, running, taken⟩ := taken
    by_cases idle : t.pending = [] ∧ t.ending = false
    · rw [if_pos idle, Option.bind_eq_some_iff] at taken
      obtain ⟨result, handled, taken⟩ := taken
      cases result with
      | ok done =>
        obtain rfl := Option.some.inj taken
        exact .handle running idle.1 idle.2 handled
      | err e =>
        obtain rfl := Option.some.inj taken
        exact .panic running idle.1 handled (fun _ same => by cases same)
      | panic =>
        obtain rfl := Option.some.inj taken
        exact .panic running idle.1 handled (fun _ same => by cases same)
    · rw [if_neg idle] at taken
      cases taken
  | call i =>
    simp only [step, Option.bind_eq_bind, Option.bind_eq_some_iff, thread?_eq_some] at taken
    obtain ⟨t, running, taken⟩ := taken
    split at taken
    · rename_i effect rest next
      obtain rfl := Option.some.inj taken
      exact .call running next
    · cases taken
  | disconnect i =>
    simp only [step, Option.bind_eq_bind, Option.bind_eq_some_iff, thread?_eq_some] at taken
    obtain ⟨t, running, taken⟩ := taken
    split at taken
    · rename_i idle
      obtain rfl := Option.some.inj taken
      exact .disconnect running idle.1 idle.2
    · cases taken
  | close i =>
    simp only [step, Option.bind_eq_bind, Option.bind_eq_some_iff, thread?_eq_some] at taken
    obtain ⟨t, running, taken⟩ := taken
    split at taken
    · rename_i idle
      obtain rfl := Option.some.inj taken
      exact .close running idle.1 idle.2
    · cases taken
  | tick unix passed =>
    obtain rfl := Option.some.inj taken
    exact .tick
  | flushShareLog =>
    obtain rfl := Option.some.inj taken
    exact .background .flushShareLog
  | pruneIdleWorkers =>
    obtain rfl := Option.some.inj taken
    exact .background .pruneIdleWorkers
  | recordHashrateSnapshot hps =>
    obtain rfl := Option.some.inj taken
    exact .background (.recordHashrateSnapshot hps)
  | blockFound worker hash height =>
    obtain rfl := Option.some.inj taken
    exact .background (.blockFound worker hash height)

/-- The statistics of a process that comes up: nothing but what the database holds, and no share of its own in the log. -/
theorem boot_stats (db : Option Database) (clock : Clock) : ∃ loaded ts store,
    (boot db clock : Pool site).shared.stats = .ofLoaded loaded ts store ∧
      ∀ row ∈ (store.map (·.shareLog)).getD [], row.serial = none := by
  dsimp only [boot, PoolStats.newWithStore]
  cases db with
  | none => exact ⟨_, _, _, rfl, nofun⟩
  | some db =>
    have unnamed : ∀ row ∈ db.shareLog.map ({ · with serial := none }), row.serial = none := by
      intro row among
      obtain ⟨_, _, rfl⟩ := List.mem_map.mp among
      rfl
    dsimp only [Option.map_some]
    split
    · exact ⟨_, _, _, rfl, nofun⟩
    · split <;> exact ⟨_, _, _, rfl, unnamed⟩

def Sound (p : Pool site) : Prop := ∀ t, some t ∈ p.threads → t.peer.Sound site.config

theorem Sound.set (sound : Sound p) {i : Nat} {next : Option Thread} (threads : q.threads = p.threads.set i next)
    (own : ∀ t, next = some t → t.peer.Sound site.config) : Sound q := by
  intro t among
  rw [threads] at among
  rcases List.mem_or_eq_of_mem_set among with old | new
  · exact sound t old
  · exact own t new.symm

theorem step_sound (sound : Sound p) (taken : step p a = some q) : Sound q := by
  cases step_inv taken with
  | connect room =>
    intro t among
    rcases List.mem_append.mp among with old | new
    · exact sound t old
    · obtain rfl := Option.some.inj (List.mem_singleton.mp new)
      dsimp only
      split
      · exact Sv2.sound_new ..
      · exact Sv1.sound_new ..
  | handle running idle stays handled =>
    refine sound.set rfl (fun t same => ?_)
    obtain rfl := Option.some.inj same
    have after := Peer.handle_sound (sound _ (mem_of_running running)) handled
    unfold Turn.thread
    dsimp only
    split <;> exact after
  | panic | close => exact sound.set rfl (fun _ same => by cases same)
  | @call i t effect rest running next =>
    refine sound.set rfl (fun t' same => ?_)
    obtain rfl := Option.some.inj same
    obtain ⟨current, config⟩ := effect.run_current p.clock t.peer.vardiff p.shared
    exact (sound _ (mem_of_running running)).setVardiff current config
  | @disconnect i t running idle stays =>
    refine sound.set rfl (fun t' same => ?_)
    obtain rfl := Option.some.inj same
    have before := sound t (mem_of_running running)
    exact before
  | tick => exact sound
  | background => exact sound

theorem reach_sound (reached : Reach step good (boot db clock) p) : Sound p :=
  reached.invariant _ (fun _ among => absurd among List.not_mem_nil) (fun _ _ _ _ sound _ taken => step_sound sound taken)

/-- At every point of every run an SV1 session that is authorized has subscribed under a checked name, the difficulty it
assigns is the vardiff's, and the miner of an authorized session was last told that difficulty. -/
theorem difficulty_announced (reached : Reach step Always (boot db clock) p) {i : Nat} {t : Thread} {m : Miner Session}
    {written : List Sv1.Line} (running : p.threads[i]? = some (some t)) (sv1 : t.peer = .sv1 m written) :
    (m.session.authorized = true → m.session.subscribed = true ∧
      ∃ name, m.session.worker = some name ∧ m.session.guard.checkWorkerName name = .ok ()) ∧
    m.difficulty = m.vardiff.current ∧
    (m.session.authorized = true → Sv1.announced written = some m.difficulty) := by
  have sound := reach_sound reached t (mem_of_running running)
  rw [sv1] at sound
  refine ⟨fun authorized => ?_, sound.current, sound.told⟩
  obtain ⟨subscribed, name, worker, checked⟩ := sound.named authorized
  rw [← sound.limit] at checked
  exact ⟨subscribed, name, worker, checked⟩

/-! ### Runs of the example configuration -/

def testSite : Site := { config := exampleConfig, maxConnections := 1000 }

def testClock : Clock := { unix := 1700000000, instant := 0 }

def idleReading : Reading := { crates := mainnetCrates, engine := .new, submission := .ok () }

def sends (i : Nat) (message : Sv1.ClientMessage) : Action := .handle i idleReading (.line true (.message message))

/-- An SV1 session comes up and takes a name. -/
def joinsAs (i : Nat) (name : String) : List Action :=
  [.connect false, sends i .subscribe, sends i (.authorize name), .call i, .call i, .call i]

def assigns (difficulty : UInt64) (t : Thread) : Bool :=
  match t.peer with
  | .sv1 m _ => m.session.authorized && m.difficulty == difficulty
  | .sv2 _ _ => false

theorem difficulty_announced_retargeted :
    ∃ p : Pool testSite, Reach step Always (boot none testClock) p ∧ ∃ t m written,
      p.threads[0]? = some (some t) ∧ t.peer = .sv1 m written ∧ m.difficulty = 1024 ∧
        Sv1.announced written = some m.difficulty := by
  obtain ⟨p, reached, assigned⟩ : ∃ p : Pool testSite, Reach step Always (boot none testClock) p ∧
      (p.thread? 0).any (assigns 1024) :=
    Reach.of_run (joinsAs 0 "miner" ++ [sends 0 (.suggestDifficulty 8192), .tick 1700000061 (secs 61),
      .handle 0 idleReading (.retarget fun _ _ _ _ => some 1024), .call 0]) (by decide +kernel)
  obtain ⟨t, running, facts⟩ := (Option.any_eq_true _ _).mp assigned
  rw [thread?_eq_some] at running
  unfold assigns at facts
  cases peer : t.peer with
  | sv1 m written =>
    rw [peer, Bool.and_eq_true, beq_iff_eq] at facts
    exact ⟨p, reached, t, m, written, running, peer, facts.2, (difficulty_announced reached running peer).2.2 facts.1⟩
  | sv2 m written =>
    rw [peer] at facts
    cases facts

end Pool

end SoloPool
