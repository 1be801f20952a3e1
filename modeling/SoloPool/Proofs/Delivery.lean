import SoloPool.Proofs.Server

/-!
# Jobs across a tip change

What a miner gets after what. A job that does not tell the miner to drop its work is on the tip of the one before it, as
long as no session is given a job ahead of its queued broadcasts and no queue drops the broadcast that moves the tip.
-/

namespace SoloPool
open Lib

/-! ### The broadcasts of the engine -/

namespace Refreshes

variable {p : Process} {r r' : Refreshes p} {a : Action} {settings : RuntimeSettings}

/-- A job that is not clean is broadcast behind one on the same tip. -/
def SteadyBroadcast (r : Refreshes p) : Action → Prop
  | .broadcast t => ∀ u ∈ unsent (r.tasks t), u.pushed = true → u.clean = false →
      r.broadcasts.getLast?.map (·.job.prevHash) = some u.minted.job.prevHash
  | _ => True

theorem SteadyBroadcast.behind {caller : Caller} {minted : Minted p} {clean : Bool} {setAt t : Nat}
    (meets : r.SteadyBroadcast (.broadcast t)) (pushed : r.tasks t = .refreshing caller (.pushed minted clean setAt))
    (unclean : clean = false) : r.broadcasts.getLast?.map (·.job.prevHash) = some minted.job.prevHash :=
  meets { minted, clean, setAt, pushed := true } (by rw [pushed]; rfl) rfl unclean

theorem step_broadcasts (taken : step r a = some r') :
    r'.broadcasts = r.broadcasts ∨
    ∃ t caller minted clean setAt, a = .broadcast t ∧ r.tasks t = .refreshing caller (.pushed minted clean setAt) ∧
      r'.broadcasts = r.broadcasts ++ [{ job := minted.job, clean }] := by
  rcases step_published taken with quiet | ⟨_, _, _, _, _, _, rfl⟩ | ⟨_, _, _, _, _, _, _, rfl⟩ |
    ⟨t, caller, minted, clean, setAt, rfl, pushed, rfl⟩
  · exact .inl quiet.broadcasts
  · exact .inl rfl
  · exact .inl rfl
  · exact .inr ⟨t, caller, minted, clean, setAt, rfl, pushed, rfl⟩

theorem reach_steady (reached : Reach step SteadyBroadcast (start settings) r) :
    Steady (·.clean) (·.job.prevHash) r.broadcasts ∧ ∀ b ∈ r.broadcasts.head?, b.clean = true := by
  induction reached with
  | start =>
    refine ⟨Steady.nil, ?_⟩
    intro b first
    cases first
  | @step r r' a _ meets taken ih =>
    obtain ⟨steady, first⟩ := ih
    rcases step_broadcasts taken with same | ⟨t, caller, minted, clean, setAt, rfl, pushed, sent⟩
    · rw [same]
      exact ⟨steady, first⟩
    · rw [sent]
      have behind := meets.behind pushed
      constructor
      · apply steady.concat
        intro last isLast unclean
        have known := behind unclean
        rw [isLast] at known
        exact (Option.some.inj known).symm
      · intro b isFirst
        cases before : r.broadcasts with
        | nil =>
          rw [before] at isFirst behind
          obtain rfl := Option.some.inj isFirst
          cases clean with
          | true => rfl
          | false => cases behind rfl
        | cons head rest =>
          rw [before] at isFirst first
          exact first b isFirst

theorem reach_current (reached : Reach step Always (start settings) r) :
    r.engine.currentJob = none → r.broadcasts = [] ∧ ∀ t, unsent (r.tasks t) = none := by
  induction reached with
  | start => exact fun _ => ⟨rfl, fun _ => rfl⟩
  | @step r r' a _ _ taken ih =>
    intro none
    rcases step_published taken with quiet | ⟨_, _, _, minted, _, _, rfl⟩ | ⟨t, caller, minted, clean, setAt, _, set, rfl⟩ |
      ⟨t, caller, minted, clean, setAt, _, pushed, rfl⟩
    · rw [quiet.current] at none
      obtain ⟨silent, idle⟩ := ih none
      exact ⟨quiet.broadcasts.trans silent, fun t => (quiet.unsent t).trans (idle t)⟩
    · cases none
    · have idle := (ih none).2 t
      rw [set] at idle
      cases idle
    · have idle := (ih none).2 t
      rw [pushed] at idle
      cases idle

end Refreshes

/-! ### What a session hands on -/

/-- The broadcast moves the tip openly, or is on the tip of the job the miner has. -/
def follows (job : Option StratumJob) (b : JobBroadcast) : Bool :=
  b.clean || decide (job.map (·.prevHash) = some b.job.prevHash)

theorem follows_unclean {job : Option StratumJob} {b : JobBroadcast} (follow : follows job b = true)
    (unclean : b.clean = false) : job.map (·.prevHash) = some b.job.prevHash := by
  unfold follows at follow
  rw [unclean, Bool.false_or] at follow
  exact of_decide_eq_true follow

theorem follows_of {job : Option StratumJob} {b : JobBroadcast}
    (same : b.clean = false → job.map (·.prevHash) = some b.job.prevHash) : follows job b = true := by
  unfold follows
  cases unclean : b.clean with
  | true => rfl
  | false => exact decide_eq_true (same unclean)

def Carried (delivered : List Delivery) : Prop :=
  ∀ before x after, delivered = before ++ x :: after → x.clean = false →
    ∃ last, before.getLast? = some last ∧ last.prevHash = x.prevHash

theorem Carried.concat {delivered : List Delivery} {x : Delivery} (carried : Carried delivered)
    (next : x.clean = false → delivered.getLast?.map (·.prevHash) = some x.prevHash) : Carried (delivered ++ [x]) := by
  intro before y after split unclean
  rcases concat_eq_append_cons split with ⟨rfl, rfl⟩ | ⟨rest, _, inside⟩
  · obtain ⟨rfl, _⟩ := List.append_inj' split rfl
    obtain ⟨last, isLast, same⟩ := Option.map_eq_some_iff.mp (next unclean)
    exact ⟨last, isLast, same⟩
  · exact carried before y rest inside unclean

namespace Server

variable {d : Deployment} {s t : Server d} {settings : RuntimeSettings} {i : Nat}

/-- The broadcast comes in time for the session: with an empty queue it follows the job the miner has, where that is not
on the tip of the last one broadcast, and a full queue does not lose the move of the tip with its oldest entry. -/
def InTime (last : Option JobBroadcast) (conn : Connection) (b : JobBroadcast) : Prop :=
  match conn.queue with
  | [] => ∀ job ∈ conn.client.job?, last.map (·.job.prevHash) ≠ some job.prevHash → follows (some job) b = true
  | oldest :: rest => jobBroadcastCap ≤ conn.queue.length →
    oldest.clean = false ∨ (∀ next ∈ rest.head?, next.clean = true) ∨
      conn.client.job?.map (·.prevHash) = some oldest.job.prevHash

/-- The oldest broadcast a session has not received when its miner gets a job follows that job, and each broadcast
comes in time once it is active. -/
def KeepsUp (i : Nat) (s : Server d) : Action → Prop
  | .engine (.broadcast t) => ∀ conn ∈ s.connections i, ∀ u ∈ Refreshes.unsent (s.refreshes.tasks t),
      u.pushed = true → conn.client.active = true →
        InTime s.refreshes.broadcasts.getLast? conn { job := u.minted.job, clean := u.clean }
  | .request j request => j = i → ∀ conn ∈ s.connections i, conn.client.admits request = true →
      ∀ b ∈ conn.queue.head?, follows (conn.client.nextJob s.refreshes.engine) b = true
  | _ => True

def SteadyBroadcasts (s : Server d) : Action → Prop
  | .engine a => s.refreshes.SteadyBroadcast a
  | _ => True

def Followed (i : Nat) (s : Server d) (a : Action) : Prop := SteadyBroadcasts s a ∧ KeepsUp i s a

structure InStep (r : Refreshes d.process) (conn : Connection) : Prop where
  unread : conn.queue <:+ r.broadcasts
  deaf : conn.stage = .accepted → conn.queue = []
  early : conn.stage ≠ .serving → conn.client.active = false ∧ conn.client.job? = none
  waiting : conn.stage = .serving → conn.client.job? = none → conn.queue = r.broadcasts.rtake jobBroadcastCap
  next : conn.client.active = true → ∀ b ∈ conn.queue.head?, follows conn.client.job? b = true
  last : conn.client.active = true → ∀ job, conn.client.job? = some job →
    conn.delivered.getLast?.map (·.prevHash) = some job.prevHash
  carried : Carried conn.delivered

theorem enqueue_nil (conn : Connection) : conn.enqueue [] = conn := by
  unfold Connection.enqueue
  split <;> rfl

theorem enqueue_one {conn : Connection} (b : JobBroadcast) (heard : conn.stage ≠ .accepted) :
    conn.enqueue [b] = { conn with queue := pushBounded jobBroadcastCap conn.queue b } := by
  unfold Connection.enqueue
  split
  · rename_i stage
    exact absurd stage heard
  · rfl

theorem InStep.silent {r r' : Refreshes d.process} {conn : Connection} (inStep : InStep r conn)
    (same : r'.broadcasts = r.broadcasts) : InStep r' conn :=
  { inStep with unread := same ▸ inStep.unread, waiting := same ▸ inStep.waiting }

theorem head_pushBounded {queue : List JobBroadcast} {b x : JobBroadcast}
    (isHead : (pushBounded jobBroadcastCap queue b).head? = some x) :
    (queue = [] ∧ x = b) ∨ queue.head? = some x ∨
      ∃ oldest rest, queue = oldest :: rest ∧ jobBroadcastCap ≤ queue.length ∧ rest.head? = some x := by
  unfold pushBounded makeRoom at isHead
  cases queue with
  | nil =>
    have isB : some b = some x := isHead
    exact .inl ⟨rfl, (Option.some.inj isB).symm⟩
  | cons oldest rest =>
    by_cases full : jobBroadcastCap ≤ (oldest :: rest).length
    · rw [if_pos full] at isHead
      cases rest with
      | nil =>
        have short : jobBroadcastCap ≤ 1 := full
        exact absurd short (by decide)
      | cons next rest => exact .inr (.inr ⟨oldest, next :: rest, rfl, full, isHead⟩)
    · rw [if_neg full] at isHead
      exact .inr (.inl isHead)

/-- A miner that waits for its first job, with nothing queued, waits for the engine's first. -/
theorem InStep.unsent {r : Refreshes d.process} {conn : Connection} (inStep : InStep r conn)
    (active : conn.client.active = true) (jobless : conn.client.job? = none) (empty : conn.queue = []) :
    r.broadcasts = [] := by
  have serving : conn.stage = .serving := by
    by_contra early
    rw [(inStep.early early).1] at active
    cases active
  have queue := inStep.waiting serving jobless
  rw [empty] at queue
  cases log : r.broadcasts using List.reverseRecOn with
  | nil => rfl
  | append_singleton before last =>
    rw [log, show jobBroadcastCap = 63 + 1 from rfl, List.rtake_concat_succ] at queue
    simp at queue

/-- A broadcast that comes in time leaves the session's next one following the job its miner has. -/
theorem InStep.next_enqueued {r : Refreshes d.process} {conn : Connection} {b x : JobBroadcast} (inStep : InStep r conn)
    (steady : Steady (·.clean) (·.job.prevHash) r.broadcasts)
    (behind : b.clean = false → r.broadcasts.getLast?.map (·.job.prevHash) = some b.job.prevHash)
    (inTime : InTime r.broadcasts.getLast? conn b) (active : conn.client.active = true)
    (isHead : x ∈ (pushBounded jobBroadcastCap conn.queue b).head?) : follows conn.client.job? x = true := by
  unfold InTime at inTime
  rcases head_pushBounded isHead with ⟨empty, rfl⟩ | old | ⟨oldest, rest, split, full, second⟩
  · rw [empty] at inTime
    cases held : conn.client.job? with
    | some job =>
      by_cases newest : r.broadcasts.getLast?.map (·.job.prevHash) = some job.prevHash
      · -- A miner that has got every broadcast sees them in the engine's order.
        exact follows_of fun unclean => newest.symm.trans (behind unclean)
      · exact inTime job held newest
    | none =>
      apply follows_of
      intro unclean
      have last := behind unclean
      rw [inStep.unsent active held empty] at last
      cases last
  · exact inStep.next active x old
  · rw [split] at inTime
    have oldestNext : follows conn.client.job? oldest = true := inStep.next active oldest (by rw [split]; rfl)
    have behind : x.clean = false → x.job.prevHash = oldest.job.prevHash := by
      have chain := steady.suffix inStep.unread
      rw [split] at chain
      cases rest with
      | nil => cases second
      | cons next rest =>
        obtain rfl := Option.some.inj second
        exact (List.isChain_cons_cons.mp chain).1
    apply follows_of
    intro unclean
    rw [behind unclean]
    rcases inTime (by rw [← split]; exact full) with late | nextClean | held
    · exact follows_unclean oldestNext late
    · rw [nextClean x second] at unclean
      cases unclean
    · exact held

theorem enqueue_inStep {r r' : Refreshes d.process} {conn : Connection} {b : JobBroadcast} (inStep : InStep r conn)
    (sent : r'.broadcasts = r.broadcasts ++ [b]) (steady : Steady (·.clean) (·.job.prevHash) r.broadcasts)
    (behind : b.clean = false → r.broadcasts.getLast?.map (·.job.prevHash) = some b.job.prevHash)
    (inTime : conn.client.active = true → InTime r.broadcasts.getLast? conn b) :
    InStep r' (conn.enqueue [b]) := by
  by_cases stage : conn.stage = .accepted
  · have deaf : conn.enqueue [b] = conn := by
      unfold Connection.enqueue
      rw [stage]
    rw [deaf]
    refine { inStep with unread := ?_, waiting := ?_ }
    · rw [inStep.deaf stage]
      exact List.nil_suffix
    · intro serving
      rw [stage] at serving
      cases serving
  · rw [enqueue_one b stage]
    refine { inStep with unread := ?_, deaf := fun accepted => absurd accepted stage, waiting := ?_, next := ?_ }
    · obtain ⟨dropped, split⟩ := (makeRoom_suffix jobBroadcastCap conn.queue).trans inStep.unread
      refine ⟨dropped, ?_⟩
      show dropped ++ (makeRoom jobBroadcastCap conn.queue ++ [b]) = r'.broadcasts
      rw [sent, ← split, List.append_assoc]
    · intro serving none
      show pushBounded jobBroadcastCap conn.queue b = r'.broadcasts.rtake jobBroadcastCap
      rw [inStep.waiting serving none, sent]
      exact pushBounded_rtake 63 r.broadcasts b
    · exact fun active x isHead => inStep.next_enqueued steady behind (inTime active) active isHead

theorem received_inStep {conn : Connection} {b : JobBroadcast} {rest : List JobBroadcast} {served : Served}
    {r : Refreshes d.process} (inStep : InStep r conn) (steady : Steady (·.clean) (·.job.prevHash) r.broadcasts)
    (serving : conn.stage = .serving) (queued : conn.queue = b :: rest)
    (held : served.client.job? = some b.job) (active : served.client.active = conn.client.active)
    (sent : conn.client.active = true → served.sent = [{ prevHash := b.job.prevHash, clean := b.clean }])
    (silent : conn.client.active = false → served.sent = []) : InStep r (conn.received b rest served) := by
  have unread := inStep.unread
  rw [queued] at unread
  refine { unread := (List.suffix_cons b rest).trans unread, deaf := ?_, early := ?_, waiting := ?_, next := ?_,
           last := ?_, carried := ?_ }
  · intro accepted
    rw [show conn.stage = .accepted from accepted] at serving
    cases serving
  · intro early
    exact absurd serving early
  · intro _ jobless
    cases held.symm.trans jobless
  · intro _ x isHead
    show follows served.client.job? x = true
    rw [held]
    apply follows_of
    intro unclean
    have chain := steady.suffix unread
    cases rest with
    | nil => cases isHead
    | cons next rest =>
      obtain rfl := Option.some.inj isHead
      have same : next.job.prevHash = b.job.prevHash := (List.isChain_cons_cons.mp chain).1 unclean
      rw [same]
      rfl
  · intro on job has
    obtain rfl := Option.some.inj (held.symm.trans has)
    show (conn.delivered ++ served.sent).getLast?.map (·.prevHash) = some b.job.prevHash
    rw [sent (active ▸ on), List.getLast?_concat]
    rfl
  · show Carried (conn.delivered ++ served.sent)
    cases on : conn.client.active with
    | false =>
      rw [silent on, List.append_nil]
      exact inStep.carried
    | true =>
      rw [sent on]
      apply inStep.carried.concat
      intro unclean
      have follow := follows_unclean (inStep.next on b (by rw [queued]; rfl)) unclean
      obtain ⟨job, has, same⟩ := Option.map_eq_some_iff.mp follow
      rw [inStep.last on job has, same]

theorem nextJob_none {e : Engine} {client : Client} (jobless : client.nextJob e = none) : client.job? = none := by
  cases client with
  | sv1 s => exact (Option.or_eq_none_iff.mp jobless).1
  | sv2 s => exact jobless

theorem answered_inStep {conn : Connection} {request : Request} {served : Served} {r : Refreshes d.process}
    {cfg : Config} {c : Crates} {counters : Sv2.Counters} (inStep : InStep r conn) (serving : conn.stage = .serving)
    (spec : Client.Spec cfg c r.engine counters conn.client request served) (stays : served.closed = false)
    (ahead : conn.client.admits request = true →
      ∀ b ∈ conn.queue.head?, follows (conn.client.nextJob r.engine) b = true) (drawn : Nat) :
    InStep r (conn.answered served drawn) := by
  cases admitted : conn.client.admits request with
  | false =>
    obtain ⟨silent, job, active⟩ := spec.refused admitted
    refine { unread := inStep.unread, deaf := inStep.deaf, early := ?_, waiting := ?_, next := ?_, last := ?_,
             carried := ?_ }
    · intro early
      exact absurd serving early
    · intro _ none
      exact inStep.waiting serving (job ▸ none)
    · intro on
      show ∀ b ∈ conn.queue.head?, follows served.client.job? b = true
      rw [job]
      exact inStep.next (active ▸ on)
    · intro on j has
      show (conn.delivered ++ served.sent).getLast?.map (·.prevHash) = some j.prevHash
      rw [silent, List.append_nil]
      exact inStep.last (active ▸ on) j (job ▸ has)
    · show Carried (conn.delivered ++ served.sent)
      rw [silent, List.append_nil]
      exact inStep.carried
  | true =>
    obtain ⟨active, job, offered⟩ := spec.admitted admitted stays
    refine { unread := inStep.unread, deaf := inStep.deaf, early := ?_, waiting := ?_, next := ?_, last := ?_,
             carried := ?_ }
    · intro early
      exact absurd serving early
    · intro _ none
      exact inStep.waiting serving (nextJob_none (job ▸ none))
    · intro _
      show ∀ b ∈ conn.queue.head?, follows served.client.job? b = true
      rw [job]
      exact ahead admitted
    · intro _ j has
      show (conn.delivered ++ served.sent).getLast?.map (·.prevHash) = some j.prevHash
      rw [offered, ← job, show served.client.job? = some j from has]
      exact congrArg (Option.map _) List.getLast?_concat
    · show Carried (conn.delivered ++ served.sent)
      rw [offered]
      cases conn.client.nextJob r.engine with
      | none =>
        show Carried (conn.delivered ++ [])
        rw [List.append_nil]
        exact inStep.carried
      | some j =>
        apply inStep.carried.concat
        intro unclean
        cases unclean

theorem cacheJob_view (client : Client) (current : Option StratumJob) :
    (client.cacheJob current).job? = current.or client.job? ∧ (client.cacheJob current).active = client.active := by
  cases client <;> cases current <;> exact ⟨rfl, rfl⟩

theorem reach_inStep (reached : Reach step (Followed i) (start settings) s) {conn : Connection}
    (live : s.connections i = some conn) : InStep s.refreshes conn := by
  have steadyAt : ∀ {s : Server d}, Reach step (Followed i) (start settings) s →
      Steady (·.clean) (·.job.prevHash) s.refreshes.broadcasts ∧ ∀ b ∈ s.refreshes.broadcasts.head?, b.clean = true :=
    fun reached => Refreshes.reach_steady (reach_refreshes (fun _ _ meets => meets.1) reached)
  refine reach_connection i (fun s conn => InStep s.refreshes conn) ?_ ?_ ?_ ?_ ?_ ?_ ?_ reached conn live
  · intro s t conn same _ inStep
    rw [same]
    exact inStep
  · intro s a t conn before meets was inStep taken _
    obtain ⟨steady, _⟩ := steadyAt before
    rcases Refreshes.step_broadcasts taken with same | ⟨task, caller, minted, clean, setAt, rfl, pushed, sent⟩
    · rw [same, List.drop_length, enqueue_nil]
      exact inStep.silent same
    · rw [sent, List.drop_left]
      exact enqueue_inStep inStep sent steady (Refreshes.SteadyBroadcast.behind meets.1 pushed)
        (meets.2 conn was { minted, clean, setAt, pushed := true } (by rw [pushed]; rfl) rfl)
  · intro s sv2 _
    refine { unread := List.nil_suffix, deaf := fun _ => rfl, early := fun _ => ?_, waiting := ?_, next := ?_, last := ?_,
             carried := ?_ }
    · cases sv2 <;> exact ⟨rfl, rfl⟩
    · intro serving
      cases serving
    · intro active
      cases sv2 <;> cases active
    · intro active
      cases sv2 <;> cases active
    · intro before x after split
      simp [Connection.accepted] at split
  · intro s conn stage inStep
    have early := inStep.early (by rw [stage]; decide)
    refine { inStep with deaf := ?_, early := fun _ => early, waiting := ?_ }
    · intro accepted
      cases accepted
    · intro serving
      cases serving
  · intro s conn before stage inStep
    obtain ⟨inactive, _⟩ := inStep.early (by rw [stage]; decide)
    obtain ⟨job, active⟩ := cacheJob_view conn.client s.refreshes.engine.currentJob
    refine { unread := inStep.unread, deaf := ?_, early := ?_, waiting := ?_, next := ?_, last := ?_,
             carried := inStep.carried }
    · intro accepted
      cases accepted
    · intro early
      exact absurd rfl early
    · intro _ still
      have unset : s.refreshes.engine.currentJob = none := (Option.or_eq_none_iff.mp (job.symm.trans still)).1
      have alone : Reach Refreshes.step Always (.start settings) s.refreshes :=
        reach_refreshes (fun _ _ _ => trivial) before
      have silent := (Refreshes.reach_current alone unset).1
      have unread := inStep.unread
      rw [silent] at unread ⊢
      rw [List.suffix_nil.mp unread]
      rfl
    · intro on
      rw [active, inactive] at on
      cases on
    · intro on
      rw [active, inactive] at on
      cases on
  · intro s conn b rest before _ was serving queued inStep stays
    obtain ⟨_, _, _, _, outcome⟩ := Client.handleBroadcast_spec d.config
      (rfl : conn.client.handleBroadcast s.counters b = _)
    obtain ⟨held, active, sent, silent⟩ := outcome stays
    exact received_inStep inStep (steadyAt before).1 serving queued held active sent silent
  · intro s conn request served before meets was serving inStep handled stays
    have spec := Client.handle_spec (reach_wellFormed before was) handled
    refine answered_inStep inStep serving spec stays ?_ _
    exact meets.2 rfl conn was

/-! ### The job before -/

/-- In a run that session `i` keeps up with, each job its miner gets without being told to drop its work is on the tip
of the job it got just before. -/
theorem delivered_on_tip (reached : Reach step (Followed i) (start settings) s) {conn : Connection}
    (live : s.connections i = some conn) :
    ∀ before x after, conn.delivered = before ++ x :: after → x.clean = false →
      ∃ last, before.getLast? = some last ∧ last.prevHash = x.prevHash := by
  have inStep := reach_inStep reached live
  intro before x after split unclean
  exact inStep.carried before x after split unclean

instance (r : Refreshes d.process) : (a : Refreshes.Action) → Decidable (r.SteadyBroadcast a)
  | .broadcast t => by dsimp only [Refreshes.SteadyBroadcast]; infer_instance
  | .enter _ | .post _ _ _ | .save _ _ | .readAddress _ | .fetch _ _ | .build _ | .set _ | .push _ | .respond _ =>
    isTrue trivial

instance (s : Server d) : (a : Action) → Decidable (SteadyBroadcasts s a)
  | .engine a => inferInstanceAs (Decidable (s.refreshes.SteadyBroadcast a))
  | .connect _ _ | .subscribe _ | .cacheJob _ | .recv _ | .request _ _ | .disconnect _ => isTrue trivial

instance (last : Option JobBroadcast) (conn : Connection) (b : JobBroadcast) : Decidable (InTime last conn b) := by
  unfold InTime
  split <;> infer_instance

instance (s : Server d) : (a : Action) → Decidable (KeepsUp i s a)
  | .engine (.broadcast _) | .request _ _ => by dsimp only [KeepsUp]; infer_instance
  | .engine (.enter _) | .engine (.post _ _ _) | .engine (.save _ _) | .engine (.readAddress _) | .engine (.fetch _ _)
  | .engine (.build _) | .engine (.set _) | .engine (.push _) | .engine (.respond _)
  | .connect _ _ | .subscribe _ | .cacheJob _ | .recv _ | .disconnect _ => isTrue trivial

instance (s : Server d) (a : Action) : Decidable (Followed i s a) := inferInstanceAs (Decidable (_ ∧ _))

def genesisTip : String := "0a8ce26f72b3f1b646a2a6c14ff763ae65831e939c085ae10019d66800000000"

def nextTip : String := "18eb604820161bbf90947ee375428afcd76f411486ab5951839a8e6800000000"

theorem delivered_on_tip_refreshed :
    ∃ s : Server testDeployment, Reach step (Followed 0) (start testSettings) s ∧
      ∃ conn, s.connections 0 = some conn ∧ conn.delivered = [⟨genesisTip, true⟩, ⟨genesisTip, false⟩] ∧
        ∃ last, [(⟨genesisTip, true⟩ : Delivery)].getLast? = some last ∧ last.prevHash = genesisTip := by
  obtain ⟨s, reached, conn, live, got⟩ : ∃ s : Server testDeployment, Reach step (Followed 0) (start testSettings) s ∧
      ∃ conn ∈ s.connections 0, conn.delivered = [⟨genesisTip, true⟩, ⟨genesisTip, false⟩] :=
    Reach.of_run (loopRefresh true (testTemplate genesisHash "1d00ffff") ++ joins 0 false ++ authorizes 0 ++
      loopRefresh false (testTemplate genesisHash "1d00ffff") ++ [.recv 0]) (by decide +kernel)
  exact ⟨s, reached, conn, live, got, delivered_on_tip reached live [_] _ [] got rfl⟩

/-- Two miners subscribe to the broadcasts; an ntime refresh and a new tip are queued before they cache the current job.
Both get the job on the new tip first and then the ntime refresh on the old one. -/
theorem queued_job_moves_tip_back :
    genesisTip ≠ nextTip ∧
    ∃ s : Server testDeployment, Reach step SteadyBroadcasts (start testSettings) s ∧
      (∃ conn, s.connections 0 = some conn ∧ conn.delivered = [⟨nextTip, true⟩, ⟨genesisTip, false⟩]) ∧
      ∃ conn, s.connections 1 = some conn ∧ conn.delivered = [⟨nextTip, true⟩, ⟨genesisTip, false⟩] :=
  ⟨by decide +kernel, Reach.of_run (loopRefresh true (testTemplate genesisHash "1d00ffff") ++
    [.connect 0 false, .connect 1 true, .subscribe 0, .subscribe 1] ++
    loopRefresh false (testTemplate genesisHash "1d00ffff") ++ loopRefresh false (testTemplate Refreshes.nextHash "1d00ffff") ++
    [.cacheJob 0, .cacheJob 1] ++ authorizes 0 ++ opens 1 4 ++ [.recv 0, .recv 1]) (by decide +kernel)⟩

end Server

end SoloPool
