import SoloPool.Protocol.Sv2.Device
import SoloPool.Proofs.Difficulty
import SoloPool.Proofs.Turns

/-!
# The pool and the device agree

Over every run of an SV2 session the device can make sense of all it reads, and what it knows is what the session keeps:
its channel, its target and the jobs behind their ids.
-/

namespace SoloPool.Sv2
open Lib

/-! ### Job ids -/

/-- The id of the job with so many before it: the ids count up from 1 and skip 0 when they wrap. -/
def jobIdAt (n : Nat) : UInt32 := UInt32.ofNat (1 + n % (2 ^ 32 - 1))

theorem jobIdAt_toNat (n : Nat) : (jobIdAt n).toNat = 1 + n % (2 ^ 32 - 1) := by
  have below : n % (2 ^ 32 - 1) < 2 ^ 32 - 1 := Nat.mod_lt _ (by decide)
  rw [jobIdAt, UInt32.toNat_ofNat']
  omega

theorem jobIdAt_ne_zero (n : Nat) : jobIdAt n ≠ 0 := by
  intro zero
  have value := congrArg UInt32.toNat zero
  rw [jobIdAt_toNat, UInt32.toNat_zero] at value
  omega

theorem jobIdAt_succ (n : Nat) : (if jobIdAt n + 1 = 0 then 1 else jobIdAt n + 1) = jobIdAt (n + 1) := by
  have value : (jobIdAt n + 1).toNat = (1 + n % (2 ^ 32 - 1) + 1) % 2 ^ 32 := by
    rw [UInt32.toNat_add, jobIdAt_toNat]
    rfl
  have zero : jobIdAt n + 1 = 0 ↔ (jobIdAt n + 1).toNat = 0 := by rw [← UInt32.toNat_inj, UInt32.toNat_zero]
  rw [value] at zero
  have below : n % (2 ^ 32 - 1) < 2 ^ 32 - 1 := Nat.mod_lt _ (by decide)
  have next : (n + 1) % (2 ^ 32 - 1) = (n % (2 ^ 32 - 1) + 1) % (2 ^ 32 - 1) := (Nat.mod_add_mod n (2 ^ 32 - 1) 1).symm
  apply UInt32.toNat_inj.mp
  rw [jobIdAt_toNat, next]
  generalize n % (2 ^ 32 - 1) = k at below value zero ⊢
  split
  · rename_i wraps
    have wrapped := zero.mp wraps
    obtain rfl : k = 2 ^ 32 - 2 := by omega
    rfl
  · rename_i counts
    have small : k + 1 < 2 ^ 32 - 1 := by
      have last : k ≠ 2 ^ 32 - 2 := fun last => counts (zero.mpr (by rw [last]; rfl))
      omega
    rw [value, Nat.mod_eq_of_lt small]
    omega

/-- A table with every key once answers with its own entries. -/
theorem find_key_iff {α β : Type} [DecidableEq α] {table : List (α × β)} (distinct : (table.map (·.1)).Nodup) {a : α} {b : β} :
    (table.find? (fun entry => entry.1 == a)).map (·.2) = some b ↔ (a, b) ∈ table := by
  constructor
  · intro found
    obtain ⟨⟨key, value⟩, hit, rfl⟩ := Option.map_eq_some_iff.mp found
    have same : (key == a) = true := List.find?_some (p := fun entry : α × β => entry.1 == a) hit
    obtain rfl : key = a := beq_iff_eq.mp same
    exact List.mem_of_find?_eq_some hit
  · intro among
    have present : (table.find? (fun entry => entry.1 == a)).isSome = true := by
      rw [List.find?_isSome]
      exact ⟨(a, b), among, beq_self_eq_true a⟩
    obtain ⟨⟨key, value⟩, hit⟩ := Option.isSome_iff_exists.mp present
    have found : (key == a) = true := List.find?_some (p := fun entry : α × β => entry.1 == a) hit
    obtain rfl : key = a := beq_iff_eq.mp found
    have same : (key, value) = (key, b) := List.inj_on_of_nodup_map distinct (List.mem_of_find?_eq_some hit) among rfl
    rw [hit, ← Prod.mk.inj same |>.2]
    rfl

theorem jobIdAt_inj {i j : Nat} (before : i < j) (near : j - i < 2 ^ 32 - 1) : jobIdAt i ≠ jobIdAt j := by
  intro same
  have value := congrArg UInt32.toNat same
  rw [jobIdAt_toNat, jobIdAt_toNat] at value
  omega

namespace Device

def Numbered (d : Device) : Prop := d.jobs.map (·.1) = (List.range d.jobs.length).map jobIdAt

def jobTable (d : Device) : List (UInt32 × String) := d.jobs.map fun entry => (entry.1, entry.2.jobId)

variable {d : Device}

theorem Numbered.concat (numbered : d.Numbered) (job : StratumJob) :
    ({ d with jobs := d.jobs ++ [(jobIdAt d.jobs.length, job)] } : Device).Numbered := by
  unfold Numbered at numbered ⊢
  rw [List.map_append, numbered, List.length_append, List.length_singleton, List.range_succ, List.map_append]
  rfl

theorem Numbered.id (numbered : d.Numbered) {i : Nat} (bound : i < d.jobs.length) : d.jobs[i].1 = jobIdAt i := by
  have entry := congrArg (fun ids => ids[i]?) numbered
  simpa [bound] using entry

theorem Numbered.distinct (numbered : d.Numbered) : ((d.jobs.map (·.1)).rtake 16).Nodup := by
  have last : (d.jobs.map (·.1)).rtake 16 =
      (List.range' (d.jobs.length - 16) (d.jobs.length - (d.jobs.length - 16))).map jobIdAt := by
    rw [List.rtake, List.length_map, numbered, ← List.map_drop, List.range_eq_range', List.drop_range', Nat.mul_one, Nat.zero_add]
  rw [last]
  refine List.Nodup.map_on ?_ List.nodup_range'
  intro i first j second same
  rw [List.mem_range'_1] at first second
  by_contra different
  rcases Nat.lt_or_gt_of_ne different with before | behind
  · exact jobIdAt_inj before (by omega) same
  · exact jobIdAt_inj behind (by omega) same.symm

/-- The jobs up to some point are numbered as all of them are. -/
theorem Numbered.earlier {after : Device} (numbered : after.Numbered) (earlier : d.jobs <+: after.jobs) : d.Numbered := by
  obtain ⟨more, same⟩ := earlier
  have first := congrArg (List.take d.jobs.length) numbered
  rw [← List.map_take, ← List.map_take, ← same, List.take_left, List.take_range, List.length_append,
    Nat.min_eq_left (Nat.le_add_right ..)] at first
  exact first

theorem answered_queue {after : Device} {a : Awaited} (read : d.answered a = some after) :
    after.awaiting.length ≤ d.awaiting.length ∧ after.jobs = d.jobs := by
  unfold answered at read
  split at read
  · rename_i oldest rest waits
    obtain ⟨_, same⟩ := Option.ite_none_right_eq_some.mp read
    cases same
    rw [waits]
    exact ⟨Nat.le_succ _, rfl⟩
  · cases read

/-- A frame answers at most what waits for an answer, and takes no job back. -/
theorem read_queue {after : Device} {frame : Frame} (read : d.read frame = some after) :
    after.awaiting.length ≤ d.awaiting.length ∧ d.jobs <+: after.jobs := by
  have answers : ∀ {a : Awaited} {next : Device}, d.answered a = some next → next.awaiting.length ≤ d.awaiting.length ∧
      d.jobs <+: next.jobs := by
    intro a next answered
    obtain ⟨few, jobs⟩ := answered_queue answered
    exact ⟨few, jobs ▸ List.prefix_rfl⟩
  cases frame with
  | setupSuccess usedVersion =>
    obtain ⟨next, answered, same⟩ := Option.bind_eq_some_iff.mp read
    cases same
    have queue := answers answered
    exact queue
  | setupError code flags => exact answers read
  | openError requestId => exact answers read
  | openSuccess requestId channelId target extranonceSize extranoncePrefix =>
    obtain ⟨next, answered, same⟩ := Option.bind_eq_some_iff.mp read
    obtain ⟨_, same⟩ := Option.ite_none_right_eq_some.mp same
    cases same
    have queue := answers answered
    exact queue
  | job | futureJob =>
    obtain ⟨_, _, same⟩ := Option.bind_eq_some_iff.mp read
    cases same
    exact ⟨Nat.le_refl _, List.prefix_append ..⟩
  | setTarget channelId target =>
    obtain ⟨_, _, same⟩ := Option.bind_eq_some_iff.mp read
    cases same
    exact ⟨Nat.le_refl _, List.prefix_rfl⟩
  | submitSuccess channelId sequenceNumber sharesSum =>
    obtain ⟨_, _, answered⟩ := Option.bind_eq_some_iff.mp read
    exact answers answered
  | submitError channelId sequenceNumber code =>
    obtain ⟨_, _, answered⟩ := Option.bind_eq_some_iff.mp read
    exact answers answered

theorem readAll_queue {after : Device} {frames : List Frame} (read : d.readAll frames = some after) :
    after.awaiting.length ≤ d.awaiting.length ∧ d.jobs <+: after.jobs := by
  induction frames generalizing d with
  | nil =>
    obtain rfl := Option.some.inj read
    exact ⟨Nat.le_refl _, List.prefix_rfl⟩
  | cons frame frames ih =>
    obtain ⟨next, first, rest⟩ := Option.bind_eq_some_iff.mp read
    obtain ⟨few, jobs⟩ := read_queue first
    obtain ⟨fewer, more⟩ := ih rest
    exact ⟨fewer.trans few, jobs.trans more⟩

theorem readAll_append (frames more : List Frame) :
    d.readAll (frames ++ more) = (d.readAll frames).bind (fun d => d.readAll more) := List.foldlM_append

theorem readAll_singleton (frame : Frame) : d.readAll [frame] = d.read frame := by
  unfold readAll
  rw [List.foldlM_cons]
  cases d.read frame <;> rfl

theorem replay_up (traffic : List Traffic) (frame : ClientFrame) :
    replay (traffic ++ [.up frame]) = (replay traffic).map (fun d => d.send frame) := by
  unfold replay
  rw [List.foldlM_append]
  cases traffic.foldlM follow new <;> rfl

theorem replay_down (traffic : List Traffic) (frames : List Frame) :
    replay (traffic ++ frames.map .down) = (replay traffic).bind (fun d => d.readAll frames) := by
  unfold replay
  rw [List.foldlM_append]
  congr 1
  funext d
  exact List.foldlM_map

end Device

/-! ### Agreement -/

/-- The session and the device know the same of each other. -/
structure Agrees (m : Miner Session) (d : Device) : Prop where
  connected : m.session.setupDone = d.connected
  channel : d.channel.map (fun ch => (ch.id, ch.extranonceSize, ch.extranoncePrefix)) =
    if m.session.channelOpen then some (m.session.channelId, m.session.extranonceSize, m.session.extranoncePrefix) else none
  target : ∀ ch ∈ d.channel, sv2TargetLe ch.target (difficultyToSv2Target m.difficulty) = true
  jobIds : m.session.jobIds = d.jobTable.rtake 16
  nextJobId : m.session.nextJobId = jobIdAt d.jobs.length

/-- The device has all its answers. -/
def Device.Answered (d : Device) : Prop := d.awaiting = []

/-- What a device makes of a handler's frames: it reads them all, waits for no more than the request that is handled, and
agrees with a session that goes on. -/
def Followed (d : Device) (handled : Handled Session Frame) : Prop :=
  ∃ after, d.readAll handled.sent = some after ∧ after.Numbered ∧ after.awaiting.length ≤ 1 ∧
    (handled.disconnect = none → after.Answered ∧ Agrees handled.miner after)

section Agreement

variable {m m' : Miner Session} {d : Device}

theorem Agrees.keep (agrees : Agrees m d) (setupDone : m'.session.setupDone = m.session.setupDone)
    (channelOpen : m'.session.channelOpen = m.session.channelOpen) (channelId : m'.session.channelId = m.session.channelId)
    (extranonceSize : m'.session.extranonceSize = m.session.extranonceSize)
    (extranoncePrefix : m'.session.extranoncePrefix = m.session.extranoncePrefix)
    (jobIds : m'.session.jobIds = m.session.jobIds) (nextJobId : m'.session.nextJobId = m.session.nextJobId)
    (difficulty : m'.difficulty = m.difficulty) : Agrees m' d where
  connected := setupDone.trans agrees.connected
  channel := by rw [channelOpen, channelId, extranonceSize, extranoncePrefix, agrees.channel]
  target := by rw [difficulty]; exact agrees.target
  jobIds := jobIds.trans agrees.jobIds
  nextJobId := nextJobId.trans agrees.nextJobId

theorem Agrees.onChannel (agrees : Agrees m d) (opened : m.session.channelOpen = true) :
    ∃ ch, d.channel = some ch ∧ d.onChannel m.session.channelId = some ch := by
  have channel := agrees.channel
  rw [if_pos opened] at channel
  obtain ⟨ch, known, same⟩ := Option.map_eq_some_iff.mp channel
  have id : ch.id = m.session.channelId := congrArg Prod.fst same
  refine ⟨ch, known, ?_⟩
  rw [Device.onChannel, known, Option.filter_some, if_pos (beq_iff_eq.mpr id)]

/-- A job goes out under the next id. -/
theorem Agrees.sendJob (agrees : Agrees m d) (numbered : d.Numbered) (opened : m.session.channelOpen = true)
    {job : StratumJob} {future : Bool} {sent : Message} {session : Session} (target : Hash)
    (sends : m.session.sendJob job future = (.ok sent, session)) :
    ∃ after, d.read (sent.frame target) = some after ∧ after.Numbered ∧ after.awaiting = d.awaiting ∧
      Agrees { m with session } after := by
  rcases m.session.sendJob_cases job future with eq | ⟨_, eq, _⟩ <;> rw [sends] at eq
  swap
  · cases eq
  obtain ⟨message, session'⟩ := Prod.mk.inj eq
  obtain rfl := Except.ok.inj message
  obtain ⟨ch, known, onChannel⟩ := agrees.onChannel opened
  have id : (m.session.assignJobId job.jobId).1 = jobIdAt d.jobs.length := agrees.nextJobId
  refine ⟨{ d with jobs := d.jobs ++ [(jobIdAt d.jobs.length, job)] }, ?_, numbered.concat job, rfl, ?_⟩
  · rw [Message.frame, Device.read, onChannel, id]
    rfl
  · rw [session']
    refine ⟨agrees.connected, agrees.channel, agrees.target, ?_, ?_⟩
    · have table : (m.session.assignJobId job.jobId).2.jobIds = (m.session.jobIds ++ [(m.session.nextJobId, job.jobId)]).rtake 16 :=
        rfl
      rw [table, agrees.jobIds, agrees.nextJobId, Device.jobTable, Device.jobTable, List.map_append]
      exact rtake_concat_rtake ..
    · have next : (m.session.assignJobId job.jobId).2.nextJobId =
          if m.session.nextJobId + 1 = 0 then 1 else m.session.nextJobId + 1 := rfl
      rw [next, agrees.nextJobId, jobIdAt_succ, List.length_append, List.length_singleton]

/-- A job that is not sent whole reaches the device as a job it waits to mine, or not at all. -/
theorem Agrees.sendJob_part (agrees : Agrees m d) (numbered : d.Numbered) (opened : m.session.channelOpen = true)
    {job : StratumJob} {future : Bool} {part : List Message} {session : Session} (target : Hash)
    (sends : m.session.sendJob job future = (.error part, session)) :
    ∃ after, d.readAll (part.map (Message.frame target)) = some after ∧ after.Numbered ∧ after.awaiting = d.awaiting := by
  rcases m.session.sendJob_cases job future with eq | ⟨part', eq, alone⟩ <;> rw [sends] at eq
  · cases eq
  obtain rfl := Except.error.inj (Prod.mk.inj eq).1
  obtain rfl | rfl := alone
  · exact ⟨d, rfl, numbered, rfl⟩
  · obtain ⟨ch, known, onChannel⟩ := agrees.onChannel opened
    have id : (m.session.assignJobId job.jobId).1 = jobIdAt d.jobs.length := agrees.nextJobId
    refine ⟨{ d with jobs := d.jobs ++ [(jobIdAt d.jobs.length, job)] }, ?_, numbered.concat job, rfl⟩
    rw [List.map_singleton, Message.frame, Device.readAll_singleton, Device.read, onChannel, id]
    rfl

theorem Device.Answered.few (answered : d.Answered) : d.awaiting.length ≤ 1 := by
  rw [answered]
  exact Nat.zero_le 1

theorem Device.Answered.send (answered : d.Answered) (frame : ClientFrame) : (d.send frame).awaiting.length ≤ 1 := by
  have one : ∀ a : Awaited, (d.awaiting ++ [a]).length ≤ 1 := fun a => by rw [answered]; exact Nat.le_refl 1
  cases frame with
  | setupConnection setup => exact one _
  | openExtended request => exact one _
  | submitExtended submit => exact one _
  | malformed => exact answered.few
  | other => exact answered.few

theorem Followed.closes {reason : String} {effects : List Effect} (numbered : d.Numbered) (few : d.awaiting.length ≤ 1) :
    Followed d (m.closes reason [] effects) := ⟨d, rfl, numbered, few, nofun⟩

theorem Followed.breaksOff {reason : String} {sent : List Frame} {effects : List Effect} {after : Device}
    (read : d.readAll sent = some after) (numbered : after.Numbered) (answered : after.Answered) :
    Followed d (m.closes reason sent effects) := ⟨after, read, numbered, answered.few, nofun⟩

theorem Followed.goesOn {handled : Handled Session Frame} {after : Device} (read : d.readAll handled.sent = some after)
    (numbered : after.Numbered) (answered : after.Answered) (agrees : Agrees handled.miner after) : Followed d handled :=
  ⟨after, read, numbered, answered.few, fun _ => ⟨answered, agrees⟩⟩

/-! ### Handlers -/

/-- The answer to the only request in the air. -/
theorem Device.Answered.answer (answered : d.Answered) (a : Awaited) :
    ({ d with awaiting := d.awaiting ++ [a] } : Device).answered a = some d := by
  obtain ⟨awaiting, connected, channel, jobs⟩ := d
  obtain rfl : awaiting = [] := answered
  exact if_pos rfl

theorem setupConnection_followed (agrees : Agrees m d) (numbered : d.Numbered) (answered : d.Answered) (setup : SetupConn) :
    Followed (d.send (.setupConnection setup)) (handleSetupConnection m setup) := by
  have answer : (d.send (.setupConnection setup)).answered .setup = some d := answered.answer .setup
  have error : ∀ code, Followed (d.send (.setupConnection setup)) (m.closes code [.setupError code (setupErrorFlags code)] []) := by
    intro code
    refine ⟨d, ?_, numbered, answered.few, nofun⟩
    rw [Miner.closes, Device.readAll_singleton]
    exact answer
  unfold handleSetupConnection Session.handleSetupConnection
  split_ifs
  · exact error _
  · exact error _
  · exact error _
  · refine @Followed.goesOn _ _ { d with connected := true } ?_ numbered answered ?_
    · dsimp only [Miner.replies]
      rw [List.map_singleton, Message.frame, Device.readAll_singleton, Device.read, answer]
      rfl
    · exact ⟨rfl, agrees.channel, agrees.target, agrees.jobIds, agrees.nextJobId⟩

theorem openTarget_le (difficulty : UInt64) (maxTarget : Hash) :
    sv2TargetLe (openTarget difficulty maxTarget) (difficultyToSv2Target difficulty) = true := by
  rw [sv2TargetLe_iff]
  unfold openTarget
  dsimp only
  split
  · exact Nat.le_refl _
  · rename_i larger
    rw [sv2TargetLe_iff] at larger
    exact Nat.le_of_lt (Nat.not_le.mp larger)

theorem openExtended_followed (agrees : Agrees m d) (numbered : d.Numbered) (answered : d.Answered) (counters : Counters)
    (request : OpenExtended) : Followed (d.send (.openExtended request)) (handleOpenExtended counters m request).1 := by
  have answer : (d.send (.openExtended request)).answered (.channel request.requestId) = some d := answered.answer _
  have waiting : (d.send (.openExtended request)).awaiting.length ≤ 1 := answered.send _
  unfold handleOpenExtended Session.handleOpenExtended
  split
  · exact .closes numbered waiting
  · rename_i setup
    cases check : m.session.guard.checkWorkerName request.userIdentity with
    | error e => exact .closes numbered waiting
    | ok =>
      dsimp only
      split
      · refine .goesOn ?_ numbered answered agrees
        dsimp only [Miner.replies]
        rw [Device.readAll_singleton]
        exact answer
      · cases taken : SoloPool.Session.takeIdentity m.session.guard m.session.worker request.userIdentity with
        | none => exact .closes numbered waiting
        | some guard =>
          have connected : d.connected = true := agrees.connected.symm.trans (by simpa using setup)
          let granted := max request.minExtranonceSize.toNat 1
          let opened : Session := { m.session with
            guard, worker := some request.userIdentity, extranonceSize := granted
            extranoncePrefix := generateExtranonce1 counters.extranonce1 (m.session.extranonceTotal - granted)
            channelId := counters.channelId, channelOpen := true }
          let after : Device := { d with channel := some {
            id := opened.channelId, extranonceSize := granted, extranoncePrefix := opened.extranoncePrefix
            target := openTarget m.difficulty request.maxTarget } }
          have read : (d.send (.openExtended request)).read (.openSuccess request.requestId opened.channelId
              (openTarget m.difficulty request.maxTarget) granted opened.extranoncePrefix) = some after := by
            rw [Device.read, answer]
            exact if_pos connected
          have agreed : Agrees { m with session := opened } after :=
            ⟨agrees.connected, rfl, by rintro _ ⟨⟩; exact openTarget_le .., agrees.jobIds, agrees.nextJobId⟩
          dsimp only
          split
          · refine @Followed.goesOn _ _ after ?_ numbered answered agreed
            dsimp only [Flow.handled, Miner.replies]
            rw [List.map_singleton, Message.frame, Device.readAll_singleton]
            exact read
          · rename_i job pending
            split
            · rename_i sent session sends
              obtain ⟨last, readJob, numbered, awaiting, agreed⟩ :=
                @Agrees.sendJob { m with session := opened } after agreed numbered rfl job true sent session
                  (openTarget m.difficulty request.maxTarget) sends
              refine .goesOn ?_ numbered (awaiting.trans answered) agreed
              dsimp only [Flow.handled, Miner.replies]
              rw [List.map_cons, List.map_singleton, Message.frame]
              exact (Device.readAll_append [_] [_]).trans
                (by rw [Device.readAll_singleton, read, Option.bind_some, Device.readAll_singleton, readJob])
            · rename_i part session sends
              obtain ⟨last, readPart, numbered, awaiting⟩ :=
                @Agrees.sendJob_part { m with session := opened } after agreed numbered rfl job true part session
                  (openTarget m.difficulty request.maxTarget) sends
              refine .breaksOff ?_ numbered (awaiting.trans answered)
              rw [List.map_cons, Message.frame]
              exact (Device.readAll_append [_] _).trans
                (by rw [Device.readAll_singleton, read, Option.bind_some, readPart])

/-- A submit is answered once on the channel, or it ends the session. -/
theorem handleSubmit_sent (env : Env) (m : Miner Session) (submit : SubmitSharesExtended) :
    ((∃ reason, (handleSubmit env m submit).disconnect = some reason) ∧ (handleSubmit env m submit).sent = []) ∨
      (m.session.channelOpen = true ∧ ((∃ sum, (handleSubmit env m submit).sent =
          [.submitSuccess m.session.channelId submit.sequenceNumber sum]) ∨
        ∃ code, (handleSubmit env m submit).sent = [.submitError m.session.channelId submit.sequenceNumber code])) := by
  obtain ⟨guard, shareSet, frame⟩ := m.session.handleSubmit_frame env.crates env.engine submit
  have opened : (m.session.handleSubmit env.crates env.engine submit).outcome ≠ .unauthorized → m.session.channelOpen = true := by
    intro authorized
    by_contra closed
    apply authorized
    rw [Session.handleSubmit, if_pos (by simpa using closed)]
  have channel : (m.session.handleSubmit env.crates env.engine submit).session.channelId = m.session.channelId := by rw [frame]
  unfold handleSubmit
  generalize m.session.handleSubmit env.crates env.engine submit = submitted at opened channel ⊢
  obtain ⟨outcome, disconnect, session⟩ := submitted
  dsimp only at opened channel
  cases outcome with
  | unauthorized => exact .inl ⟨⟨_, rfl⟩, rfl⟩
  | badExtranonce got expected =>
    cases disconnect with
    | true => exact .inl ⟨⟨_, rfl⟩, rfl⟩
    | false => exact .inr ⟨opened nofun, .inr ⟨_, by rw [← channel]; rfl⟩⟩
  | jobNotFound => exact .inr ⟨opened nofun, .inr ⟨_, by rw [← channel]; rfl⟩⟩
  | judged result =>
    dsimp only
    split
    · exact .inl ⟨⟨_, rfl⟩, rfl⟩
    · rename_i settled ends
      have kept : settled.miner.session.channelId = m.session.channelId := by rw [(settle_turned ends).1, ← channel]
      cases disconnect with
      | true => exact .inl ⟨⟨_, rfl⟩, rfl⟩
      | false =>
        refine .inr ⟨opened nofun, ?_⟩
        obtain ⟨_ | e | e, settledMiner, effects, credited⟩ := settled
        · exact .inl ⟨_, by rw [← kept]; rfl⟩
        · exact .inr ⟨_, by rw [← kept]; rfl⟩
        · exact .inr ⟨_, by rw [← kept]; rfl⟩

theorem submit_followed (agrees : Agrees m d) (numbered : d.Numbered) (answered : d.Answered) (env : Env)
    (submit : SubmitSharesExtended) : Followed (d.send (.submitExtended submit)) (handleSubmit env m submit) := by
  have answer : (d.send (.submitExtended submit)).answered (.share submit.sequenceNumber) = some d := answered.answer _
  have waiting : (d.send (.submitExtended submit)).awaiting.length ≤ 1 := answered.send _
  have session := (handleSubmit_ends env m submit).session
  have difficulty := (handleSubmit_ends env m submit).keeps.difficulty
  obtain ⟨guard, shareSet, frame⟩ := m.session.handleSubmit_frame env.crates env.engine submit
  rw [frame] at session
  have stays : Agrees (handleSubmit env m submit).miner d := by
    apply agrees.keep _ _ _ _ _ _ _ difficulty <;> rw [session]
  obtain ⟨⟨reason, ends⟩, sent⟩ | ⟨opened, replies⟩ := handleSubmit_sent env m submit
  · refine ⟨d.send (.submitExtended submit), by rw [sent]; rfl, numbered, waiting, fun goesOn => ?_⟩
    rw [ends] at goesOn
    cases goesOn
  · obtain ⟨ch, known, onChannel⟩ := agrees.onChannel opened
    have channel : (d.send (.submitExtended submit)).onChannel m.session.channelId = some ch := onChannel
    refine .goesOn ?_ numbered answered stays
    obtain ⟨_, sent⟩ | ⟨_, sent⟩ := replies <;> rw [sent, Device.readAll_singleton, Device.read, channel] <;> exact answer

theorem message_followed (agrees : Agrees m d) (numbered : d.Numbered) (answered : d.Answered) (env : Env)
    (counters : Counters) (token : Bool) (frame : ClientFrame) :
    Followed (d.send frame) (handleMessage env counters token m frame).1 := by
  have queued : (d.send frame).Numbered := by cases frame <;> exact numbered
  cases token with
  | false => exact .closes queued (answered.send frame)
  | true =>
    cases frame with
    | setupConnection setup => exact setupConnection_followed agrees numbered answered setup
    | openExtended request => exact openExtended_followed agrees numbered answered counters request
    | submitExtended submit => exact submit_followed agrees numbered answered env submit
    | malformed => exact .closes numbered answered.few
    | other => exact .goesOn rfl numbered answered agrees

theorem broadcast_followed (agrees : Agrees m d) (numbered : d.Numbered) (answered : d.Answered) (b : JobBroadcast) :
    Followed d (handleBroadcast m b) := by
  let cleared : Miner Session := { m with session := { m.session with
    shareSet := if b.clean then m.session.shareSet.clear else m.session.shareSet } }
  have agreed : Agrees cleared d := agrees.keep rfl rfl rfl rfl rfl rfl rfl rfl
  unfold handleBroadcast
  rw [Session.handleBroadcast_eq]
  dsimp only
  split
  · rename_i opened
    split
    · rename_i sent session sends
      obtain ⟨after, readJob, numbered, awaiting, agreed⟩ := agreed.sendJob numbered opened (.zero 32) sends
      refine .goesOn ?_ numbered (awaiting.trans answered) (agreed.keep rfl rfl rfl rfl rfl rfl rfl rfl)
      dsimp only [Flow.handled, Miner.replies]
      rw [List.map_singleton, Device.readAll_singleton]
      exact readJob
    · rename_i part session sends
      obtain ⟨after, readPart, numbered, awaiting⟩ := agreed.sendJob_part numbered opened (.zero 32) sends
      exact .breaksOff readPart numbered (awaiting.trans answered)
  · exact .goesOn rfl numbered answered (agreed.keep rfl rfl rfl rfl rfl rfl rfl rfl)

theorem retarget_followed (agrees : Agrees m d) (numbered : d.Numbered) (answered : d.Answered)
    (opened : m.session.channelOpen = true) {retarget : RetargetStep} {now : Instant} {handled : Handled Session Frame}
    (checked : handleRetarget retarget now m = .ok handled) : Followed d handled := by
  unfold handleRetarget at checked
  obtain ⟨⟨change, vardiff⟩, _, replied⟩ := Outcome.bind_ok.mp checked
  cases change with
  | none =>
    obtain rfl := Outcome.ok.inj replied
    exact .goesOn rfl numbered answered (agrees.keep rfl rfl rfl rfl rfl rfl rfl rfl)
  | some difficulty =>
    obtain rfl := Outcome.ok.inj replied
    obtain ⟨ch, known, onChannel⟩ := agrees.onChannel opened
    have channel := agrees.channel
    rw [known] at channel
    refine @Followed.goesOn _ _ { d with channel := some { ch with target := difficultyToSv2Target difficulty } } ?_ numbered
      answered ?_
    · dsimp only [Miner.replies]
      rw [Device.readAll_singleton, Device.read, onChannel]
      rfl
    · refine ⟨agrees.connected, channel, ?_, agrees.jobIds, agrees.nextJobId⟩
      rintro _ ⟨⟩
      exact (sv2TargetLe_iff _ _).mpr (Nat.le_refl _)

theorem Agrees.engineJobId (agrees : Agrees m d) (numbered : d.Numbered) {id : UInt32}
    {engineJob : String} :
    m.session.engineJobId id = some engineJob ↔ ∃ job, (id, job) ∈ d.jobs.rtake 16 ∧ job.jobId = engineJob := by
  have table : d.jobTable.rtake 16 = (d.jobs.rtake 16).map fun entry => (entry.1, entry.2.jobId) := by
    rw [Device.jobTable, List.rtake, List.rtake, List.length_map, List.map_drop]
  have keys : (d.jobTable.rtake 16).map (·.1) = (d.jobs.map (·.1)).rtake 16 := by
    rw [table, List.map_map, List.rtake, List.rtake, List.length_map, List.map_drop]
    rfl
  unfold Session.engineJobId
  rw [agrees.jobIds, find_key_iff (by rw [keys]; exact numbered.distinct), table, List.mem_map]
  constructor
  · rintro ⟨⟨_, job⟩, among, same⟩
    cases same
    exact ⟨job, among, rfl⟩
  · rintro ⟨job, among, rfl⟩
    exact ⟨(id, job), among, rfl⟩

end Agreement

/-! ### Runs -/

namespace Conversation

variable {s t : Conversation} {event : Event}

/-- The device has read all the traffic, and agrees with the session while that goes on. -/
def Sound (s : Conversation) : Prop :=
  ∃ d, Device.replay s.traffic = some d ∧ d.Numbered ∧ d.awaiting.length ≤ 1 ∧ (s.closed = false → d.Answered ∧ Agrees s.miner d)

theorem start_sound (cfg : Config) (extranoncePrefix : Bytes) (now : Instant) : (start cfg extranoncePrefix now).Sound :=
  ⟨.new, rfl, rfl, Nat.zero_le 1, fun _ => ⟨rfl, rfl, rfl, by rintro _ ⟨⟩, rfl, rfl⟩⟩

theorem Sound.settle {d : Device} {handled : Handled Session Frame} (reads : Device.replay s.traffic = some d)
    (followed : Followed d handled) : (s.settle (.ok handled)).Sound := by
  obtain ⟨after, read, numbered, few, agreed⟩ := followed
  refine ⟨after, ?_, numbered, few, fun goesOn => agreed (Option.isSome_eq_false_iff.mp goesOn |> Option.isNone_iff_eq_none.mp)⟩
  exact (Device.replay_down _ _).trans (by rw [reads]; exact read)

theorem settle_traffic (result : Result (Handled Session Frame)) :
    ∃ sent : List Frame, (s.settle result).traffic = s.traffic ++ sent.map .down := by
  cases result with
  | ok handled => exact ⟨handled.sent, rfl⟩
  | err e => exact ⟨[], (List.append_nil _).symm⟩
  | panic => exact ⟨[], (List.append_nil _).symm⟩

/-- A turn reads at most one frame, and then sends. -/
theorem turn_traffic (taken : s.turn event = some t) :
    ∃ (read : List ClientFrame) (sent : List Frame), read.length ≤ 1 ∧
      t.traffic = s.traffic ++ read.map .up ++ sent.map .down := by
  have quiet : ∀ sent : List Frame, s.traffic ++ sent.map .down = s.traffic ++ ([] : List ClientFrame).map .up ++ sent.map .down :=
    fun sent => by rw [List.map_nil, List.append_nil]
  have still : s.traffic = s.traffic ++ ([] : List ClientFrame).map .up ++ ([] : List Frame).map .down :=
    (List.append_nil _).symm.trans (quiet [])
  induction event generalizing t with
  | frame env counters token frame =>
    cases taken
    exact ⟨[frame], _, Nat.le_refl _, rfl⟩
  | cacheJob current =>
    cases taken
    exact ⟨[], [], Nat.zero_le _, still⟩
  | broadcast b =>
    cases taken
    exact ⟨[], _, Nat.zero_le _, quiet _⟩
  | retarget retarget now =>
    obtain ⟨_, same⟩ := Option.ite_none_right_eq_some.mp taken
    cases same
    obtain ⟨sent, same⟩ := settle_traffic (s := s) (handleRetarget retarget now s.miner)
    exact ⟨[], sent, Nat.zero_le _, same.trans (quiet sent)⟩
  | calls history =>
    cases taken
    exact ⟨[], [], Nat.zero_le _, still⟩
  | leave =>
    cases taken
    exact ⟨[], [], Nat.zero_le _, still⟩
  | breaks event written ih =>
    obtain ⟨whole, turned, rfl⟩ := Option.map_eq_some_iff.mp taken
    obtain ⟨read, sent, few, same⟩ := ih turned
    dsimp only
    rw [same]
    rcases take_turn (read.map Traffic.up) (by rwa [List.length_map]) written with none | ⟨part, cut, some⟩
    · exact ⟨[], [], Nat.zero_le _, none.trans still⟩
    · obtain ⟨first, _, rfl⟩ := List.prefix_map_iff.mp cut
      exact ⟨read, first, few, some⟩

/-- A device that could read the whole turn can read the first part of it. -/
theorem breaks_sound {d : Device} (reads : Device.replay s.traffic = some d) (numbered : d.Numbered) (answered : d.Answered)
    (whole : t.Sound) (taken : s.turn event = some t) (written : Nat) :
    ({ t with traffic := t.traffic.take (s.traffic.length + written), closed := true } : Conversation).Sound := by
  obtain ⟨read, sent, few, same⟩ := turn_traffic taken
  obtain ⟨after, readsWhole, numberedWhole, _⟩ := whole
  unfold Sound
  dsimp only
  rw [same] at readsWhole ⊢
  rcases take_turn (read.map Traffic.up) (by rwa [List.length_map]) written with none | ⟨part, cut, some⟩
  · rw [none]
    exact ⟨d, reads, numbered, answered.few, nofun⟩
  · obtain ⟨first, ⟨rest, rfl⟩, rfl⟩ := List.prefix_map_iff.mp cut
    rw [some]
    rw [Device.replay_down] at readsWhole
    obtain ⟨asked, sends, told⟩ := Option.bind_eq_some_iff.mp readsWhole
    have waiting : asked.awaiting.length ≤ 1 := by
      obtain rfl | ⟨frame, rfl⟩ : read = [] ∨ ∃ frame, read = [frame] := by
        cases read with
        | nil => exact .inl rfl
        | cons frame others => exact .inr ⟨frame, by simpa using few⟩
      · rw [List.map_nil, List.append_nil, reads] at sends
        obtain rfl := Option.some.inj sends
        exact answered.few
      · rw [List.map_singleton, Device.replay_up, reads] at sends
        obtain rfl := Option.some.inj sends
        exact answered.send frame
    rw [Device.readAll_append] at told
    obtain ⟨half, readFirst, readRest⟩ := Option.bind_eq_some_iff.mp told
    refine ⟨half, ?_, numberedWhole.earlier (Device.readAll_queue readRest).2, (Device.readAll_queue readFirst).1.trans waiting,
      nofun⟩
    rw [Device.replay_down, sends]
    exact readFirst

theorem step_sound (sound : s.Sound) (taken : s.step event = some t) : t.Sound := by
  obtain ⟨running, handled⟩ := Option.ite_none_left_eq_some.mp taken
  obtain ⟨d, reads, numbered, few, open_⟩ := sound
  obtain ⟨answered, agrees⟩ := open_ (Bool.eq_false_of_not_eq_true running)
  clear taken
  induction event generalizing t with
  | frame env counters token frame =>
    cases handled
    have sends : Device.replay (s.receive frame).traffic = some (d.send frame) :=
      (Device.replay_up _ _).trans (by rw [reads]; rfl)
    exact Sound.settle sends (message_followed agrees numbered answered env counters token frame)
  | cacheJob current =>
    cases handled
    refine ⟨d, reads, numbered, few, fun _ => ⟨answered, ?_⟩⟩
    cases current <;> exact agrees.keep rfl rfl rfl rfl rfl rfl rfl rfl
  | broadcast b =>
    cases handled
    exact Sound.settle reads (broadcast_followed agrees numbered answered b)
  | retarget retarget now =>
    obtain ⟨opened, same⟩ := Option.ite_none_right_eq_some.mp handled
    cases same
    cases checked : handleRetarget retarget now s.miner with
    | ok handled => exact Sound.settle reads (retarget_followed agrees numbered answered opened checked)
    | err e => exact ⟨d, reads, numbered, few, nofun⟩
    | panic => exact ⟨d, reads, numbered, few, nofun⟩
  | calls history =>
    cases handled
    exact ⟨d, reads, numbered, few, fun _ => ⟨answered, agrees.keep rfl rfl rfl rfl rfl rfl rfl rfl⟩⟩
  | leave =>
    cases handled
    exact ⟨d, reads, numbered, few, nofun⟩
  | breaks event written ih =>
    obtain ⟨whole, turned, rfl⟩ := Option.map_eq_some_iff.mp handled
    exact breaks_sound reads numbered answered (ih turned) turned written

theorem reach_sound {cfg : Config} {extranoncePrefix : Bytes} {now : Instant}
    (reached : Reach step Always (start cfg extranoncePrefix now) s) : s.Sound :=
  reached.invariant Sound (start_sound cfg extranoncePrefix now) (fun _ _ _ _ sound _ taken => step_sound sound taken)

/-- In every run the device can make sense of every frame it gets: each answer is to the oldest request without one, each
frame about a channel is about the one it was given last, and no channel comes before the setup. At most the request that
ended the session stays without an answer. While the session goes on the two agree on the channel, on the extranonce, on
the jobs behind the last 16 ids, and on a target that is no easier than the session's difficulty. -/
theorem device_follows {cfg : Config} {extranoncePrefix : Bytes} {now : Instant}
    (reached : Reach step Always (start cfg extranoncePrefix now) s) :
    ∃ d, Device.replay s.traffic = some d ∧ d.awaiting.length ≤ 1 ∧
      (s.closed = false → d.awaiting = [] ∧ Agrees s.miner d) := by
  obtain ⟨d, reads, _, few, agreed⟩ := reach_sound reached
  exact ⟨d, reads, few, agreed⟩

/-- While a session goes on, the ids a device may mine under are those of the last 16 jobs it got, and each stands for
the engine's job it came with; a share under any other id is answered as stale. No id is 0, and fewer than 2^32 - 1 jobs
apart no two are the same. -/
theorem job_ids_resolve {cfg : Config} {extranoncePrefix : Bytes} {now : Instant}
    (reached : Reach step Always (start cfg extranoncePrefix now) s) (goesOn : s.closed = false) :
    ∃ d, Device.replay s.traffic = some d ∧
      (∀ id engineJob, s.miner.session.engineJobId id = some engineJob ↔
        ∃ job, (id, job) ∈ d.jobs.rtake 16 ∧ job.jobId = engineJob) ∧
      (∀ env submit, s.miner.session.channelOpen = true → submit.extranonce.length = s.miner.session.extranonceSize →
        (∀ job, (submit.jobId, job) ∉ d.jobs.rtake 16) →
        (handleSubmit env s.miner submit).sent =
          [.submitError s.miner.session.channelId submit.sequenceNumber "stale-job"]) ∧
      (∀ entry ∈ d.jobs, entry.1 ≠ 0) ∧
      ∀ i j (before : i < j) (bound : j < d.jobs.length), j - i < 2 ^ 32 - 1 → d.jobs[i].1 ≠ d.jobs[j].1 := by
  obtain ⟨d, reads, numbered, _, agreed⟩ := reach_sound reached
  obtain ⟨_, agrees⟩ := agreed goesOn
  have resolves : ∀ id engineJob, s.miner.session.engineJobId id = some engineJob ↔
      ∃ job, (id, job) ∈ d.jobs.rtake 16 ∧ job.jobId = engineJob := fun _ _ => agrees.engineJobId numbered
  refine ⟨d, reads, resolves, fun env submit opened width unknown => ?_, fun entry among => ?_, fun i j before bound near => ?_⟩
  · have missing : s.miner.session.engineJobId submit.jobId = none := by
      rw [Option.eq_none_iff_forall_ne_some]
      intro engineJob found
      obtain ⟨job, among, _⟩ := (resolves _ _).mp found
      exact unknown job among
    have refused : s.miner.session.handleSubmit env.crates env.engine submit =
        { outcome := .jobNotFound, disconnect := false, session := s.miner.session } := by
      unfold Session.handleSubmit
      rw [if_neg (by rw [opened]; decide), if_neg (not_not.mpr width), missing]
      rfl
    unfold handleSubmit
    rw [refused]
    rfl
  · obtain ⟨i, bound, rfl⟩ := List.getElem_of_mem among
    rw [numbered.id bound]
    exact jobIdAt_ne_zero i
  · rw [numbered.id (before.trans bound), numbered.id bound]
    exact jobIdAt_inj before near

/-! ### A channel that opens and works -/

def testJob : Result StratumJob :=
  buildJob mainnetCrates "0000000000000001" (testTemplate genesisHash "1d00ffff") testAddress
    exampleConfig.pool.coinbaseTag exampleConfig.pool.extranonce1Size exampleConfig.pool.extranonce2Size

def testEnv : Env :=
  { crates := mainnetCrates, engine := .new, clock := { unix := 1700000000, instant := 0 }, submission := .ok (), serial := 0 }

def testSubmit (sequenceNumber jobId : UInt32) : ClientFrame :=
  .submitExtended { sequenceNumber, jobId, nonce := 0, ntime := 0, version := 0, extranonce := [0, 0, 0, 0, 0, 0] }

/-- The second share is under an id that was never given out. -/
def testEvents : List Event :=
  match testJob with
  | .ok job =>
    [.cacheJob (some job),
     .frame testEnv .start true (.setupConnection { mining := true, minVersion := 2, maxVersion := 2, flags := 0 }),
     .frame testEnv .start true (.openExtended {
       requestId := 7, userIdentity := "miner", minExtranonceSize := 6, maxTarget := .zero 32 }),
     .broadcast { job, clean := false },
     .frame testEnv .start true (testSubmit 1 2),
     .frame testEnv .start true (testSubmit 2 3)]
  | _ => []

theorem device_follows_opened :
    ∃ s, Reach step Always (start exampleConfig [0, 0, 0, 1] 0) s ∧ ∃ d, Device.replay s.traffic = some d ∧ d.awaiting = [] ∧
      d.channel.isSome = true ∧ d.jobs.length = 2 := by
  obtain ⟨s, reached, goesOn, opened, next⟩ : ∃ s, Reach step Always (start exampleConfig [0, 0, 0, 1] 0) s ∧
      s.closed = false ∧ s.miner.session.channelOpen = true ∧ s.miner.session.jobIds.length = 2 :=
    Reach.of_run testEvents (by decide +kernel)
  obtain ⟨d, reads, _, agreed⟩ := device_follows reached
  obtain ⟨answered, agrees⟩ := agreed goesOn
  obtain ⟨ch, known, _⟩ := agrees.onChannel opened
  rw [agrees.jobIds, length_rtake, Device.jobTable, List.length_map] at next
  exact ⟨s, reached, d, reads, answered, by rw [known]; rfl, by omega⟩

theorem job_ids_resolve_two :
    ∃ s, Reach step Always (start exampleConfig [0, 0, 0, 1] 0) s ∧ ∃ d, Device.replay s.traffic = some d ∧
      (∃ job, (2, job) ∈ d.jobs.rtake 16) ∧ ∀ job, (3, job) ∉ d.jobs.rtake 16 := by
  obtain ⟨s, reached, goesOn, second, third⟩ : ∃ s, Reach step Always (start exampleConfig [0, 0, 0, 1] 0) s ∧
      s.closed = false ∧ (s.miner.session.engineJobId 2).isSome = true ∧ s.miner.session.engineJobId 3 = none :=
    Reach.of_run testEvents (by decide +kernel)
  obtain ⟨d, reads, resolves, _⟩ := job_ids_resolve reached goesOn
  obtain ⟨engineJob, found⟩ := Option.isSome_iff_exists.mp second
  obtain ⟨job, among, _⟩ := (resolves _ _).mp found
  refine ⟨s, reached, d, reads, ⟨job, among⟩, fun job among => ?_⟩
  rw [(resolves _ _).mpr ⟨job, among, rfl⟩] at third
  cases third

end Conversation

end SoloPool.Sv2
