import Mathlib.Data.List.Perm.Subperm
import SoloPool.Lib.Run
import SoloPool.Lib.Tasks
import SoloPool.Network.Listener
import SoloPool.Proofs.BanList
import SoloPool.Proofs.RateLimiter

/-!
# Connection slots and admissions

Over every run of the accept loop, its sessions and the pruner: the active count is the number of session tasks, with one
more while the loop decides about a connection it has a slot for; the sessions of an address were admitted at the limiter's
pace; and a session has been let in past its address's bans for the only reasons the ban list knows.
-/

namespace SoloPool
open Lib

/-- The slots that the accept loop itself holds. -/
def Accepting.reserved : Accepting → Nat
  | .checkingBan _ | .limiting _ | .releasing | .spawning .. => 1
  | .waiting | .loading _ | .exchanging .. | .stopped => 0

/-- The admission that is not a session yet. -/
def Accepting.pending : Accepting → List (Instant × IpAddr)
  | .spawning peer admittedAt => [(admittedAt, peer)]
  | _ => []

def SessionTask.admission (task : SessionTask) : Instant × IpAddr := (task.admittedAt, task.peer)

/-- Every ban before the check had expired, or was followed by as many bans of other addresses as the list holds, of which
at most one was called for in vain. -/
def Clearance.Sound (cfg : ListenerConfig) (latest : Instant) (c : Clearance) (peer : IpAddr) : Prop :=
  ∀ time, (peer, time) ∈ c.bans → time + (secs cfg.banDurationSecs.toNat : Int) ≤ latest →
    time + (secs cfg.banDurationSecs.toNat : Int) ≤ c.time ∨
      BanList.Displaced latest (secs cfg.banDurationSecs.toNat) 65536 c.bans peer time

/-- The stages behind the session's own ban check. -/
def TaskStage.Inside : TaskStage → Prop
  | .handshaking | .serving _ => True
  | .detecting | .checkingBan _ | .ended => False

def SessionTask.Cleared (cfg : ListenerConfig) (latest : Instant) (task : SessionTask) : Prop :=
  task.stage.Inside → ∃ c, task.clearance = some c ∧ c.Sound cfg latest task.peer

namespace Listener

variable {cfg : ListenerConfig} {least latest : Instant} {s t : Listener} {a : Action}

structure Slots (cfg : ListenerConfig) (active : UInt64) (accepting : Accepting) (live : Nat) : Prop where
  count : active.toNat = live + accepting.reserved
  bound : live + accepting.reserved ≤ cfg.maxConnections.toNat
  room : ∀ peer current, accepting = .exchanging peer current → current < cfg.maxConnections

structure Limited (cfg : ListenerConfig) (least now : Instant) (limiter : ConnectionRateLimiter)
    (admitted : List (Instant × IpAddr)) : Prop where
  max : limiter.maxPerMinute = cfg.maxConnectionsPerIp
  tracks : 0 < cfg.maxConnectionsPerIp →
    ConnectionRateLimiter.Tracks least now limiter (ConnectionRateLimiter.Gate.admissions ⟨limiter, admitted⟩)
  none : cfg.maxConnectionsPerIp = 0 → admitted = []

structure Barred (cfg : ListenerConfig) (latest now : Instant) (banList : BanList) (bans : List (IpAddr × Instant)) : Prop where
  duration : banList.banDuration = secs cfg.banDurationSecs.toNat
  capacity : banList.maxEntries = 65536
  tracks : BanList.Tracks latest now banList bans

structure Inv (cfg : ListenerConfig) (least latest : Instant) (s : Listener) : Prop where
  started : least ≤ s.now
  slots : Slots cfg s.activeCount s.accepting s.sessions.length
  limited : Limited cfg least s.now s.limiter s.admitted
  barred : Barred cfg latest s.now s.banList s.bans
  holders : (s.sessions.map SessionTask.admission ++ s.accepting.pending).Subperm s.admitted
  cleared : ∀ task ∈ s.sessions, task.Cleared cfg latest

theorem Inv.start {now : Instant} (began : least ≤ now) : (start cfg now).Inv cfg least latest where
  started := began
  slots := ⟨rfl, Nat.zero_le _, by rintro _ _ ⟨⟩⟩
  limited := ⟨rfl, fun _ => ConnectionRateLimiter.tracks_new .., fun _ => rfl⟩
  barred := ⟨rfl, rfl, BanList.tracks_new ..⟩
  holders := List.nil_subperm
  cleared := by rintro _ ⟨⟩

/-! ### What the parts of a step do -/

theorem Limited.tick {now now' : Instant} {limiter : ConnectionRateLimiter} {admitted : List (Instant × IpAddr)}
    (limited : Limited cfg least now limiter admitted) (le : now ≤ now') : Limited cfg least now' limiter admitted :=
  ⟨limited.max, fun some => (limited.tracks some).tick le, limited.none⟩

theorem Barred.tick {now now' : Instant} {banList : BanList} {bans : List (IpAddr × Instant)}
    (barred : Barred cfg latest now banList bans) (le : now ≤ now') : Barred cfg latest now' banList bans :=
  ⟨barred.duration, barred.capacity, barred.tracks.drops le (.refl _ _)⟩

theorem Barred.drops {now now' : Instant} {banList banList' : BanList} {bans : List (IpAddr × Instant)}
    (barred : Barred cfg latest now banList bans) (le : now ≤ now') (drops : BanList.Drops now' banList banList') :
    Barred cfg latest now' banList' bans :=
  ⟨drops.duration.trans barred.duration, drops.capacity.trans barred.capacity, barred.tracks.drops le drops⟩

theorem Inv.withBans {time : Instant} {banList : BanList} {bans : List (IpAddr × Instant)} (inv : s.Inv cfg least latest)
    (le : s.now ≤ time) (barred : Barred cfg latest time banList bans) :
    { s with banList, now := time, bans }.Inv cfg least latest :=
  ⟨inv.started.trans le, inv.slots, inv.limited.tick le, barred, inv.holders, inv.cleared⟩

theorem Inv.banPeer {peer : IpAddr} {pruneAt time : Instant} {rank : IpAddr → Nat} (inv : s.Inv cfg least latest)
    (le : s.now ≤ pruneAt) (le' : pruneAt ≤ time) : (s.banPeer latest peer pruneAt time rank).Inv cfg least latest := by
  have limits := s.banList.apply_limits latest (.ban peer "message too large" pruneAt time rank)
  refine inv.withBans (le.trans le') ⟨limits.1.trans inv.barred.duration, limits.2.trans inv.barred.capacity, ?_⟩
  exact inv.barred.tracks.ban (by rw [inv.barred.capacity]; decide) le le'

/-- The accept loop moves on without a slot taken or given back. -/
theorem Inv.moveTo {accepting : Accepting} (inv : s.Inv cfg least latest)
    (reserved : accepting.reserved = s.accepting.reserved)
    (pending : accepting.pending = [])
    (room : ∀ peer current, accepting = .exchanging peer current → current < cfg.maxConnections) :
    { s with accepting }.Inv cfg least latest :=
  ⟨inv.started, ⟨by rw [reserved]; exact inv.slots.count, by rw [reserved]; exact inv.slots.bound, room⟩, inv.limited, inv.barred,
    by rw [pending, List.append_nil]; exact (List.sublist_append_left _ _).subperm.trans inv.holders, inv.cleared⟩

theorem Inv.refuse {refusal : ConnectionRefusal} {accepting : Accepting} (inv : { s with accepting }.Inv cfg least latest) :
    (s.refuse refusal accepting).Inv cfg least latest :=
  ⟨inv.started, inv.slots, inv.limited, inv.barred, inv.holders, inv.cleared⟩

theorem Inv.setStage {i : Nat} {task task' : SessionTask} {stage : TaskStage} (inv : s.Inv cfg least latest)
    (running : s.sessions[i]? = some task) (same : task'.admission = task.admission)
    (cleared : { task' with stage }.Cleared cfg latest) : (s.setStage i task' stage).Inv cfg least latest where
  started := inv.started
  slots := by
    change Slots cfg s.activeCount s.accepting (s.sessions.set i _).length
    rw [List.length_set]
    exact inv.slots
  limited := inv.limited
  barred := inv.barred
  holders := by
    have kept : (s.sessions.set i { task' with stage }).map SessionTask.admission = s.sessions.map SessionTask.admission := by
      have own : (s.sessions.map SessionTask.admission)[i]? = some (SessionTask.admission { task' with stage }) := by
        rw [List.getElem?_map, running]
        exact congrArg some same.symm
      obtain ⟨inside, own⟩ := List.getElem?_eq_some_iff.mp own
      rw [List.map_set, ← own, List.set_getElem_self]
    change ((s.sessions.set i _).map SessionTask.admission ++ _).Subperm _
    rw [kept]
    exact inv.holders
  cleared := forall_set inv.cleared cleared

/-! ### The accept loop -/

theorem Inv.idle (inv : s.Inv cfg least latest) (free : s.accepting.reserved = 0) {accepting : Accepting}
    (reserved : accepting.reserved = 0) (pending : accepting.pending = [])
    (room : ∀ peer current, accepting = .exchanging peer current → current < cfg.maxConnections) :
    { s with accepting }.Inv cfg least latest :=
  inv.moveTo (reserved.trans free.symm) pending room

/-- A slot is given back. -/
theorem Slots.release {accepting accepting' : Accepting} {active : UInt64} {live live' : Nat}
    (slots : Slots cfg active accepting live)
    (one : live + accepting.reserved = live' + accepting'.reserved + 1)
    (room : ∀ peer current, accepting' = .exchanging peer current → current < cfg.maxConnections) :
    Slots cfg (active - 1) accepting' live' where
  count := by
    have held := slots.count
    have some : (1 : UInt64) ≤ active := by
      rw [UInt64.le_iff_toNat_le, held, one]
      exact Nat.le_add_left ..
    rw [UInt64.toNat_sub_of_le _ _ some, held, one]
    rfl
  bound := by
    have bound := slots.bound
    omega
  room := room

theorem advance_inv (inv : s.Inv cfg least latest) (taken : s.advance cfg = some t) : t.Inv cfg least latest := by
  unfold advance at taken
  cases found : s.accepting with
  | loading peer =>
    rw [found] at taken
    dsimp only at taken
    have free : s.accepting.reserved = 0 := by rw [found]; rfl
    split at taken
    · cases taken
      exact (inv.idle free rfl rfl (by rintro _ _ ⟨⟩)).refuse
    · rename_i below
      cases taken
      refine inv.idle free rfl rfl ?_
      rintro _ _ ⟨⟩
      exact UInt64.not_le.mp below
  | exchanging peer current =>
    rw [found] at taken
    dsimp only at taken
    have free : s.accepting.reserved = 0 := by rw [found]; rfl
    split at taken
    · rename_i same
      cases taken
      subst same
      have room : s.activeCount < cfg.maxConnections := inv.slots.room peer s.activeCount found
      have count := inv.slots.count
      rw [free, Nat.add_zero] at count
      rw [UInt64.lt_iff_toNat_lt] at room
      have next : (s.activeCount + 1).toNat = s.sessions.length + 1 := by
        have small := cfg.maxConnections.toNat_lt
        rw [UInt64.toNat_add, UInt64.toNat_one, Nat.mod_eq_of_lt (by omega), count]
      refine ⟨inv.started, ⟨next, ?_, by rintro _ _ ⟨⟩⟩, inv.limited, inv.barred, ?_, inv.cleared⟩
      · change s.sessions.length + 1 ≤ _
        omega
      · have holders := inv.holders
        rw [found] at holders
        exact holders
    · cases taken
      exact inv.idle free rfl rfl (by rintro _ _ ⟨⟩)
  | releasing =>
    rw [found] at taken
    cases taken
    have slots := inv.slots
    rw [found] at slots
    refine ⟨inv.started, slots.release rfl (by rintro _ _ ⟨⟩), inv.limited, inv.barred, ?_, inv.cleared⟩
    have holders := inv.holders
    rw [found] at holders
    exact holders
  | spawning peer admittedAt =>
    rw [found] at taken
    cases taken
    have slots := inv.slots
    have holders := inv.holders
    rw [found] at slots holders
    refine ⟨inv.started, ⟨?_, ?_, by rintro _ _ ⟨⟩⟩, inv.limited, inv.barred, ?_, forall_append inv.cleared (by rintro ⟨⟩)⟩
    · rw [List.length_append]
      exact slots.count
    · rw [List.length_append]
      exact slots.bound
    · rw [List.map_append]
      exact (List.append_nil _).symm ▸ holders
  | _ => rw [found] at taken; cases taken

theorem checkBan_inv {first second : Instant} (inv : s.Inv cfg least latest) (le : s.now ≤ first) (le' : first ≤ second)
    (taken : s.checkBan first second = some t) : t.Inv cfg least latest := by
  unfold checkBan at taken
  cases found : s.accepting with
  | checkingBan peer =>
    rw [found] at taken
    dsimp only at taken
    have reserved : s.accepting.reserved = 1 := by rw [found]; rfl
    have checked : { s with banList := (s.banList.isBanned first second peer).2, now := second }.Inv cfg least latest :=
      inv.withBans (le.trans le') (inv.barred.drops (le.trans le') (BanList.isBanned_drops _ _ _ _))
    split at taken
    · cases taken
      refine Inv.refuse ?_
      exact checked.moveTo reserved.symm rfl (by rintro _ _ ⟨⟩)
    · cases taken
      exact checked.moveTo reserved.symm rfl (by rintro _ _ ⟨⟩)
  | _ => rw [found] at taken; cases taken

/-- What one call of the limiter does to it and to the admissions. -/
theorem Limited.call {now time : Instant} {limiter : ConnectionRateLimiter} {admitted : List (Instant × IpAddr)} {peer : IpAddr}
    (limited : Limited cfg least now limiter admitted) (le : now ≤ time) (began : least ≤ time) :
    Limited cfg least time (limiter.checkAndRecord least time peer).2
      (if (limiter.checkAndRecord least time peer).1 then admitted ++ [(time, peer)] else admitted) where
  max := (ConnectionRateLimiter.step_limits least ⟨limiter, admitted⟩ (time, .checkAndRecord peer)).1.trans limited.max
  tracks := by
    intro some
    exact ConnectionRateLimiter.step_tracks (s := ⟨limiter, admitted⟩) (limited.tracks some) (by rw [limited.max]; exact some) le
      began (.checkAndRecord peer)
  none := by
    intro zero
    have refused : (limiter.checkAndRecord least time peer).1 = false := by
      obtain ⟨_, _, answer⟩ | ⟨_, answer⟩ := limiter.checkAndRecord_cases least time peer
      · rw [answer]
      · have limit : (limiter.makeRoom least time peer).maxPerMinute = 0 :=
          (limiter.makeRoom_limits least time peer).1.trans (limited.max.trans zero)
        rw [answer, ConnectionRateLimiter.record, if_pos (by rw [limit]; exact Nat.zero_le _)]
    rw [refused, if_neg Bool.false_ne_true]
    exact limited.none zero

theorem limit_inv {time : Instant} (inv : s.Inv cfg least latest) (le : s.now ≤ time) (taken : s.limit least time = some t) :
    t.Inv cfg least latest := by
  unfold limit at taken
  cases found : s.accepting with
  | limiting peer =>
    rw [found] at taken
    dsimp only at taken
    have slots := inv.slots
    have holders := inv.holders
    rw [found] at slots holders
    change (s.sessions.map SessionTask.admission ++ []).Subperm _ at holders
    rw [List.append_nil] at holders
    have began : least ≤ time := inv.started.trans le
    have called := @Limited.call cfg least s.now time s.limiter s.admitted peer inv.limited le began
    split at taken
    · rename_i allowed
      cases taken
      rw [if_pos allowed] at called
      exact ⟨began, ⟨slots.count, slots.bound, by rintro _ _ ⟨⟩⟩, called, inv.barred.tick le,
        holders.append (List.Subperm.refl _), inv.cleared⟩
    · rename_i refused
      cases taken
      rw [if_neg refused] at called
      exact ⟨began, ⟨slots.count, slots.bound, by rintro _ _ ⟨⟩⟩, called, inv.barred.tick le,
        (List.append_nil (s.sessions.map SessionTask.admission)).symm ▸ holders, inv.cleared⟩
  | _ => rw [found] at taken; cases taken

/-! ### The session tasks -/

/-- What an answer that lets the peer in says about the bans before it. -/
theorem Barred.sound {first second : Instant} {banList : BanList} {bans : List (IpAddr × Instant)} {peer : IpAddr}
    (barred : Barred cfg latest first banList bans) (clear : (banList.isBanned first second peer).1 = false) :
    { time := first, bans : Clearance }.Sound cfg latest peer := by
  intro time among returned
  rw [← barred.duration] at returned ⊢
  by_cases live : first < time + banList.banDuration
  · refine .inr ?_
    rw [← barred.capacity]
    exact barred.tracks.lost among returned live clear
  · exact .inl (not_lt.mp live)

theorem sessionCheckBan_inv {i : Nat} {first second : Instant} (inv : s.Inv cfg least latest) (le : s.now ≤ first)
    (le' : first ≤ second) (taken : s.sessionCheckBan i first second = some t) : t.Inv cfg least latest := by
  obtain ⟨task, running, rest⟩ := Option.bind_eq_some_iff.mp taken
  have checked : { s with banList := (s.banList.isBanned first second task.peer).2, now := second }.Inv cfg least latest :=
    inv.withBans (le.trans le') (inv.barred.drops (le.trans le') (BanList.isBanned_drops _ _ _ _))
  split at rest
  · rename_i wire _
    cases banned : (s.banList.isBanned first second task.peer).1 with
    | true =>
      simp only [banned, if_true, Option.some.injEq] at rest
      subst rest
      exact checked.setStage running rfl (by rintro ⟨⟩)
    | false =>
      simp only [banned, Bool.false_eq_true, if_false, Option.some.injEq] at rest
      subst rest
      refine checked.setStage running rfl ?_
      exact fun _ => ⟨_, rfl, (inv.barred.tick le).sound banned⟩
  · cases rest

theorem setStage_inside {i : Nat} {task : SessionTask} {stage : TaskStage} (inv : s.Inv cfg least latest)
    (running : s.sessions[i]? = some task) (inside : stage.Inside → task.stage.Inside) :
    (s.setStage i task stage).Inv cfg least latest :=
  inv.setStage running rfl (fun reached => inv.cleared task (mem_of_running running) (inside reached))

theorem dropSlot_inv {i : Nat} {task : SessionTask} (inv : s.Inv cfg least latest) (running : s.sessions[i]? = some task) :
    { s with activeCount := s.activeCount - 1, sessions := s.sessions.eraseIdx i }.Inv cfg least latest := by
  have fewer : s.sessions.length = (s.sessions.eraseIdx i).length + 1 := (tasks_perm running).length_eq
  have one : s.sessions.length + s.accepting.reserved =
      (s.sessions.eraseIdx i).length + s.accepting.reserved + 1 := by
    rw [fewer]
    exact Nat.add_right_comm ..
  refine ⟨inv.started, inv.slots.release one inv.slots.room, inv.limited, inv.barred, ?_,
    fun task among => inv.cleared task (List.mem_of_mem_eraseIdx among)⟩
  exact (((List.eraseIdx_sublist _ _).map _).append_right _).subperm.trans inv.holders

theorem operate_inv (inv : s.Inv cfg least latest) (ordered : (s.now :: a.readings).Pairwise (· ≤ ·))
    (taken : s.operate cfg least latest a = some t) : t.Inv cfg least latest := by
  have first : ∀ r ∈ a.readings, s.now ≤ r := (List.pairwise_cons.mp ordered).1
  have within : a.readings.Pairwise (· ≤ ·) := (List.pairwise_cons.mp ordered).2
  have waits (waiting : s.accepting = .waiting) : s.accepting.reserved = 0 := by rw [waiting]; rfl
  cases a with
  | shutdown =>
    obtain ⟨waiting, same⟩ := Option.ite_none_right_eq_some.mp taken
    cases same
    exact inv.idle (waits waiting) rfl rfl (by rintro _ _ ⟨⟩)
  | acceptFails =>
    obtain ⟨_, same⟩ := Option.ite_none_right_eq_some.mp taken
    cases same
    exact inv
  | accept peer =>
    obtain ⟨waiting, same⟩ := Option.ite_none_right_eq_some.mp taken
    cases same
    exact inv.idle (waits waiting) rfl rfl (by rintro _ _ ⟨⟩)
  | advance => exact advance_inv inv taken
  | checkBan early late => exact checkBan_inv inv (first _ List.mem_cons_self) (List.pairwise_pair.mp within) taken
  | limit time => exact limit_inv inv (first _ List.mem_cons_self) taken
  | detect i peek =>
    obtain ⟨task, running, rest⟩ := Option.bind_eq_some_iff.mp taken
    obtain ⟨_, same⟩ := Option.ite_none_right_eq_some.mp rest
    cases same
    refine setStage_inside inv running ?_
    unfold detected
    split
    · split
      · exact False.elim
      · split <;> exact False.elim
    · exact False.elim
  | sessionCheckBan i early late =>
    exact sessionCheckBan_inv inv (first _ List.mem_cons_self) (List.pairwise_pair.mp within) taken
  | handshake i =>
    obtain ⟨task, running, rest⟩ := Option.bind_eq_some_iff.mp taken
    obtain ⟨stage, same⟩ := Option.ite_none_right_eq_some.mp rest
    cases same
    have served : (s.setStage i task (.serving .sv2)).Inv cfg least latest :=
      setStage_inside inv running (fun _ => by rw [stage]; trivial)
    exact ⟨served.started, served.slots, served.limited, served.barred, served.holders, served.cleared⟩
  | sessionBans i pruneAt time rank =>
    obtain ⟨task, running, rest⟩ := Option.bind_eq_some_iff.mp taken
    split at rest
    · cases rest
      exact setStage_inside (inv.banPeer (first _ List.mem_cons_self) (List.pairwise_pair.mp within)) running False.elim
    · cases rest
  | finish i =>
    obtain ⟨task, running, rest⟩ := Option.bind_eq_some_iff.mp taken
    split at rest
    · cases rest
    · cases rest
      exact setStage_inside inv running False.elim
  | dropSlot i =>
    obtain ⟨task, running, rest⟩ := Option.bind_eq_some_iff.mp taken
    obtain ⟨_, same⟩ := Option.ite_none_right_eq_some.mp rest
    cases same
    exact dropSlot_inv inv running
  | readerBans j pruneAt time rank =>
    obtain ⟨peer, _, same⟩ := Option.bind_eq_some_iff.mp taken
    cases same
    have banned := @Inv.banPeer cfg least latest s peer pruneAt time rank inv (first _ List.mem_cons_self)
      (List.pairwise_pair.mp within)
    exact ⟨banned.started, banned.slots, banned.limited, banned.barred, banned.holders, banned.cleared⟩
  | readerEnds j =>
    cases taken
    exact ⟨inv.started, inv.slots, inv.limited, inv.barred, inv.holders, inv.cleared⟩
  | pruneBans time =>
    cases taken
    have le := first time List.mem_cons_self
    exact inv.withBans le (inv.barred.drops le (BanList.prune_drops _ _))
  | pruneLimiter time =>
    cases taken
    have le := first time List.mem_cons_self
    refine ⟨inv.started.trans le, inv.slots, ⟨?_, ?_, inv.limited.none⟩, inv.barred.tick le, inv.holders, inv.cleared⟩
    · exact (s.limiter.prune_limits least time).1.trans inv.limited.max
    · exact fun some => ((inv.limited.tick le).tracks some).prune

theorem step_inv (inv : s.Inv cfg least latest) (taken : s.step cfg least latest a = some t) : t.Inv cfg least latest := by
  obtain ⟨ordered, operated⟩ := Option.ite_none_right_eq_some.mp taken
  exact operate_inv inv ordered operated

theorem reach_inv {now : Instant} (began : least ≤ now) (reached : Reach (step cfg least latest) Always (start cfg now) s) :
    s.Inv cfg least latest :=
  reached.invariant (Inv cfg least latest) (.start began) (fun _ _ _ _ inv _ taken => step_inv inv taken)

/-- The slots in use are those of the session tasks and the one the accept loop decides about; they stay within
`max_connections`, and a connection is refused for lack of capacity exactly when that many session tasks hold a slot. -/
theorem slots_counted {now : Instant} (began : least ≤ now)
    (reached : Reach (step cfg least latest) Always (start cfg now) s) :
    s.activeCount.toNat = s.sessions.length + s.accepting.reserved ∧
      s.sessions.length + s.accepting.reserved ≤ cfg.maxConnections.toNat ∧
      ∀ peer t, s.accepting = .loading peer → s.step cfg least latest .advance = some t →
        (t.refused = s.refused ++ [.capacity] ↔ s.sessions.length = cfg.maxConnections.toNat) := by
  have inv := reach_inv began reached
  refine ⟨inv.slots.count, inv.slots.bound, ?_⟩
  intro peer t loading taken
  obtain ⟨_, operated⟩ := Option.ite_none_right_eq_some.mp taken
  have count := inv.slots.count
  have bound := inv.slots.bound
  rw [loading, Accepting.reserved, Nat.add_zero] at count bound
  rw [operate, advance, loading] at operated
  dsimp only at operated
  split at operated
  · rename_i full
    cases operated
    refine iff_of_true rfl (Nat.le_antisymm bound ?_)
    rw [← count]
    exact UInt64.le_iff_toNat_le.mp full
  · rename_i below
    cases operated
    refine iff_of_false (fun same => ?_) (fun full => ?_)
    · exact absurd (congrArg List.length same) (by simp)
    · exact below (UInt64.le_iff_toNat_le.mpr (by rw [count, full]))

/-- An admission of the address in the minute that ends at `time`. -/
def inMinute (ip : IpAddr) (time : Instant) (admission : Instant × IpAddr) : Bool :=
  decide (admission.2 = ip ∧ time - secs 60 < admission.1 ∧ admission.1 ≤ time)

theorem countP_inMinute (limiter : ConnectionRateLimiter) (admitted : List (Instant × IpAddr)) (ip : IpAddr) (time : Instant) :
    admitted.countP (inMinute ip time) =
      (inSpan (secs 60) time (ConnectionRateLimiter.Gate.admissions ⟨limiter, admitted⟩ ip)).length := by
  rw [inSpan, ConnectionRateLimiter.Gate.admissions, ← List.countP_eq_length_filter, List.countP_map, List.countP_filter]
  refine List.countP_congr fun admission _ => ?_
  simp only [inMinute, Function.comp_apply, decide_eq_true_eq, Bool.and_eq_true]
  exact and_comm

theorem Limited.inSpan_le {now : Instant} {limiter : ConnectionRateLimiter} {admitted : List (Instant × IpAddr)}
    (limited : Limited cfg least now limiter admitted) (ip : IpAddr) (time : Instant) :
    (inSpan (secs 60) time (ConnectionRateLimiter.Gate.admissions ⟨limiter, admitted⟩ ip)).length ≤
      cfg.maxConnectionsPerIp.toNat := by
  by_cases some : 0 < cfg.maxConnectionsPerIp
  · rw [← limited.max]
    exact ((limited.tracks some).paced ip).inSpan_le time
  · have zero : cfg.maxConnectionsPerIp = 0 := UInt32.le_antisymm (UInt32.not_lt.mp some) (UInt32.zero_le)
    rw [limited.none zero]
    exact Nat.zero_le _

/-- The sessions of an address that were admitted within any minute stay within the limit, and every session behind its
ban check was let in when each earlier ban of its address had expired or had made room for 65536 later ones. -/
theorem sessions_admitted {now : Instant} (began : least ≤ now)
    (reached : Reach (step cfg least latest) Always (start cfg now) s) :
    (∀ ip (time : Instant), (s.sessions.filter fun task => decide (task.peer = ip ∧ time - secs 60 < task.admittedAt ∧
      task.admittedAt ≤ time)).length ≤ cfg.maxConnectionsPerIp.toNat) ∧
    ∀ task ∈ s.sessions, task.stage.Inside →
      ∃ c, task.clearance = some c ∧ c.Sound cfg latest task.peer := by
  have inv := reach_inv began reached
  refine ⟨fun ip time => ?_, inv.cleared⟩
  calc (s.sessions.filter _).length
      = (s.sessions.map SessionTask.admission).countP (inMinute ip time) := by
        rw [List.countP_map, List.countP_eq_length_filter]
        rfl
    _ ≤ s.admitted.countP (inMinute ip time) :=
        ((List.sublist_append_left _ _).subperm.trans inv.holders).countP_le _
    _ = (inSpan (secs 60) time (ConnectionRateLimiter.Gate.admissions ⟨s.limiter, s.admitted⟩ ip)).length :=
        countP_inMinute ..
    _ ≤ cfg.maxConnectionsPerIp.toNat := inv.limited.inSpan_le ip time

/-! ### A slot, a ban and its end -/

def testListener : ListenerConfig where
  maxConnections := 1
  maxConnectionsPerIp := 2
  banDurationSecs := 10
  sv2Enabled := true

/-- A miner connects and is banned while it holds the only slot. -/
def banned : List Action :=
  [.accept (.v4 1), .advance, .advance, .checkBan 0 0, .limit 0, .advance, .detect 0 (.byte 0x7b), .sessionCheckBan 0 1 1,
   .sessionBans 0 2 2 (fun _ => 0)]

/-- Another one finds no slot, and the first one, back within the ban, is refused too. -/
def refusedTwice : List Action :=
  [.accept (.v4 2), .advance, .dropSlot 0, .accept (.v4 1), .advance, .advance, .checkBan 3 3, .advance]

/-- After the ban the miner comes back with the other protocol. -/
def servedAgain : List Action :=
  [.accept (.v4 1), .advance, .advance, .checkBan (secs 20) (secs 20), .limit (secs 20), .advance, .detect 0 (.byte 0),
   .sessionCheckBan 0 (secs 21) (secs 21), .handshake 0]

theorem slots_counted_refused :
    ∃ s, Reach (step testListener 0 (2 ^ 63)) Always (start testListener 0) s ∧ s.refused = [.capacity, .banned] ∧
      s.activeCount.toNat = s.sessions.length + s.accepting.reserved ∧ s.sessions = [] := by
  obtain ⟨s, reached, refused, none⟩ : ∃ s, Reach (step testListener 0 (2 ^ 63)) Always (start testListener 0) s ∧
      s.refused = [.capacity, .banned] ∧ s.sessions.length = 0 :=
    Reach.of_run (banned ++ refusedTwice) (by decide +kernel)
  exact ⟨s, reached, refused, (slots_counted (le_refl 0) reached).1, List.length_eq_zero_iff.mp none⟩

theorem sessions_admitted_again :
    ∃ s, Reach (step testListener 0 (2 ^ 63)) Always (start testListener 0) s ∧ s.bans = [(.v4 1, 2)] ∧
      ∃ task ∈ s.sessions, task.stage = .serving .sv2 ∧
        ∃ c, task.clearance = some c ∧ c.Sound testListener (2 ^ 63) task.peer := by
  obtain ⟨s, reached, bans, task, among, serving⟩ : ∃ s, Reach (step testListener 0 (2 ^ 63)) Always (start testListener 0) s ∧
      s.bans = [(.v4 1, 2)] ∧ ∃ task ∈ s.sessions, task.stage = .serving .sv2 :=
    Reach.of_run (banned ++ refusedTwice ++ servedAgain) (by decide +kernel)
  exact ⟨s, reached, bans, task, among, serving,
    (sessions_admitted (le_refl 0) reached).2 task among (by rw [serving]; trivial)⟩

end Listener

end SoloPool
