import SoloPool.Mining.EngineLoop
import SoloPool.Proofs.Engine

/-!
# Blocks for the current tip

A job stays live as long as no clean job follows it in the history. The engine also sends a clean job when a second
signal arrives for a tip it already has, and that job retires work on the same tip.
-/

namespace SoloPool
open Lib

/-! ### What a refresh may bring -/

def Engine.kept (e : Engine) : List JobEntry := makeRoom jobHistoryDepth e.jobHistory

/-- The call has an address and a template, and they build this job. -/
def Engine.Builds (p : Process) (e : Engine) (call : RefreshCall) (job : StratumJob) : Prop :=
  ∃ gbt address, call.reply = .ok gbt ∧ call.settings.validCoinbaseAddress = some address ∧
    buildJob p.crates (nextJobId (jobEpoch p.startMillis) e.jobCounter) gbt address p.pool.coinbaseTag
      p.pool.extranonce1Size p.pool.extranonce2Size = .ok job

/-- A refresh that keeps work on the same tip: if the job it builds goes out clean, no kept entry has its previous block
hash, and its id is not in use. -/
def KeepsSameTip (p : Process) (e : Engine) (call : RefreshCall) : Prop :=
  ∀ job, e.Builds p call job →
    (call.cleanJobs = true ∨ e.currentJob.map (·.prevHash) ≠ some job.prevHash →
      ∀ entry ∈ e.kept, entry.job.prevHash ≠ job.prevHash) ∧
    ∀ entry ∈ e.kept, entry.job.jobId ≠ job.jobId

/-- No clean entry follows an entry on the current tip, and ids are distinct. -/
structure SameTipLive (e : Engine) : Prop where
  live : ∀ before entry after, e.jobHistory = before ++ entry :: after →
    e.currentJob.map (·.prevHash) = some entry.job.prevHash → after.any (·.clean) = false
  distinct : (e.jobHistory.map (·.job.jobId)).Nodup

theorem sameTipLive_new : SameTipLive Engine.new := ⟨by simp [Engine.new], by simp [Engine.new]⟩

theorem SameTipLive.kept {e : Engine} (inv : SameTipLive e) {before after : List JobEntry} {entry : JobEntry}
    (split : e.kept = before ++ entry :: after)
    (tip : e.currentJob.map (·.prevHash) = some entry.job.prevHash) : after.any (·.clean) = false := by
  obtain ⟨dropped, history⟩ := makeRoom_suffix jobHistoryDepth e.jobHistory
  refine inv.live (dropped ++ before) entry after ?_ tip
  rw [← history, List.append_assoc]
  exact congrArg (dropped ++ ·) split

theorem refresh_sameTipLive {p : Process} {e : Engine} (call : RefreshCall) (inv : SameTipLive e)
    (keeps : KeepsSameTip p e call) :
    SameTipLive (e.refresh p call.settings call.cleanJobs call.reply).1 := by
  obtain ⟨_, current, history, _⟩ | ⟨gbt, address, job, _, replied, valid, built, done⟩ := refresh_cases p call e
  · exact ⟨by rw [current, history]; exact inv.live, by rw [history]; exact inv.distinct⟩
  · obtain ⟨clears, fresh⟩ := keeps job ⟨gbt, address, replied, valid, built⟩
    rw [done]
    generalize cleanIs : (call.cleanJobs || tipMoved (e.currentJob.map (·.prevHash)) job.prevHash) = clean
    constructor
    · intro before entry after split tip
      change e.kept ++ [entryOf { job, clean }] = before ++ entry :: after at split
      have sameTip : job.prevHash = entry.job.prevHash := by simpa using tip
      obtain ⟨_, rfl⟩ | ⟨rest, rfl, kept⟩ := concat_eq_append_cons split
      · rfl
      · have member : entry ∈ e.kept := by rw [kept]; exact List.mem_append_right _ List.mem_cons_self
        -- A clean job would have the hash of a kept entry; an unclean one finds the tip where it was.
        have unclean : call.cleanJobs = false ∧ e.currentJob.map (·.prevHash) = some job.prevHash := by
          by_contra clears'
          exact clears (by grind) entry member sameTip.symm
        have live := inv.kept kept (by rw [unclean.2, sameTip])
        have unmarked : clean = false := by simp [← cleanIs, unclean, tipMoved]
        simp [live, entryOf, unmarked]
    · change ((e.kept ++ [entryOf { job, clean }]).map (·.job.jobId)).Nodup
      rw [List.map_append, List.nodup_append]
      refine ⟨inv.distinct.sublist ((makeRoom_suffix _ _).sublist.map _), by simp, ?_⟩
      intro a earlier b last same
      obtain ⟨entry, member, rfl⟩ := List.mem_map.mp earlier
      obtain rfl : job.jobId = b := by simpa [entryOf, eq_comm] using last
      exact fresh entry member same

/-! ### Whole runs of the loop -/

def EngineLoop.KeepsWork (p : Process) (settings : RuntimeSettings) (s : EngineLoop) (a : EngineLoop.Action) : Prop :=
  ∀ cleanJobs reply, a.refresh? = some (cleanJobs, reply) →
    KeepsSameTip p s.publication.engine { settings, cleanJobs, reply }

theorem loop_sameTipLive {p : Process} {settings : RuntimeSettings} {s : EngineLoop}
    (reached : Reach (EngineLoop.step p settings) (EngineLoop.KeepsWork p settings) .start s) :
    SameTipLive s.publication.engine := by
  refine reached.invariant (fun s => SameTipLive s.publication.engine) sameTipLive_new ?_
  intro s a t _ inv keeps taken
  have unsignalled : (s.signal a).publication = s.publication := by
    cases a <;> simp only [EngineLoop.signal]
    split <;> rfl
  unfold EngineLoop.step at taken
  split at taken
  · split at taken
    · rw [← Option.some.inj taken, unsignalled]
      exact inv
    · rename_i cleanJobs reply refreshes
      rw [← Option.some.inj taken]
      exact refresh_sameTipLive ⟨settings, cleanJobs, reply⟩ inv (keeps cleanJobs reply refreshes)
  · simp at taken

def NtimeInJobWindow (job : StratumJob) (params : ShareParams) : Prop :=
  job.minTime.toNat ≤ params.ntime.toNat ∧ params.ntime.toNat ≤ ntimeCeiling job.curTime

def SolvesBlock (c : Crates) (job : StratumJob) (params : ShareParams) (extranonce1 : Bytes) : Prop :=
  ∃ coinbase header, reconstruct c params job extranonce1 = .ok (coinbase, header) ∧
    meetsTarget (doubleSha256 c header.toList) job.networkTarget = true

instance (c : Crates) (job : StratumJob) (params : ShareParams) (extranonce1 : Bytes) :
    Decidable (SolvesBlock c job params extranonce1) :=
  match h : reconstruct c params job extranonce1 with
  | .ok (coinbase, header) =>
    decidable_of_iff (meetsTarget (doubleSha256 c header.toList) job.networkTarget = true)
      ⟨fun meets => ⟨coinbase, header, h, meets⟩, fun ⟨_, _, same, meets⟩ => by
        rw [h, Outcome.ok.injEq, Prod.mk.injEq] at same
        rwa [same.2]⟩
  | .err _ => isFalse (fun ⟨_, _, same, _⟩ => by rw [h] at same; cases same)
  | .panic => isFalse (fun ⟨_, _, same, _⟩ => by rw [h] at same; cases same)

theorem validateShareNoDedup_solved {c : Crates} {job : StratumJob} {params : ShareParams} {entry : JobEntry}
    {extranonce1 : Bytes} (live : entry.supersededByClean = false) (window : NtimeInJobWindow job params)
    (solves : SolvesBlock c job params extranonce1) (difficulty : UInt64) :
    ∃ d hex hash, validateShareNoDedup c params job entry extranonce1 difficulty = .ok (.block d hex hash) := by
  obtain ⟨coinbase, header, reconstructed, meets⟩ := solves
  have ntime : checkNtime params.ntime job.minTime job.curTime = .ok () := by
    obtain ⟨notEarly, notLate⟩ := window
    unfold checkNtime
    dsimp only
    rw [if_neg (by rw [UInt32.lt_iff_toNat_lt]; omega)]
    rfl
  rw [validateShareNoDedup_eq, live]
  simp only [ntime, reconstructed, Outcome.ok_bind, Bool.false_eq_true, if_false]
  exact judge_block.mpr ((meetsTarget_iff _ _).mp meets)

/-- In a run whose refreshes keep work on the same tip, a submission that solves a block on the current tip is accepted
as a block. -/
theorem loop_accepts_block {p : Process} {settings : RuntimeSettings} {s : EngineLoop}
    (reached : Reach (EngineLoop.step p settings) (EngineLoop.KeepsWork p settings) .start s) {entry : JobEntry}
    (retained : entry ∈ s.publication.engine.jobHistory)
    (tip : s.publication.engine.currentJob.map (·.prevHash) = some entry.job.prevHash) {params : ShareParams}
    {extranonce1 : Bytes} (named : params.jobId = entry.job.jobId) (window : NtimeInJobWindow entry.job params)
    (solves : SolvesBlock p.crates entry.job params extranonce1) (difficulty : UInt64) :
    ∃ d hex hash, s.publication.engine.judgeSubmission p.crates params extranonce1 difficulty =
      some (.ok (.block d hex hash)) := by
  have inv := loop_sameTipLive reached
  obtain ⟨before, after, split⟩ := List.append_of_mem retained
  have found : s.publication.engine.findJob params.jobId = some { entry with supersededByClean := false } := by
    refine findJob_eq_some.mpr ⟨before, entry, after, split, ?_, named.symm, by rw [inv.live before entry after split tip]⟩
    intro x earlier same
    have distinct := inv.distinct
    rw [split, List.map_append, List.map_cons, List.nodup_append] at distinct
    exact distinct.2.2 _ (List.mem_map_of_mem earlier) _ List.mem_cons_self (same.trans named)
  have live : ({ entry with supersededByClean := false } : JobEntry).supersededByClean = false := rfl
  obtain ⟨d, hex, hash, accepted⟩ := validateShareNoDedup_solved live window solves difficulty
  exact ⟨d, hex, hash, by rw [Engine.judgeSubmission, found, Option.map_some, accepted]⟩

def easyTemplate : GbtResult := testTemplate genesisHash "207fffff"

instance (job : StratumJob) (params : ShareParams) : Decidable (NtimeInJobWindow job params) :=
  inferInstanceAs (Decidable (_ ∧ _))

theorem loop_accepts_block_boot :
    ∃ s, EngineLoop.step testProcess testSettings .start (.boot (.ok easyTemplate)) = some s ∧
      ∃ d hex hash, s.publication.engine.judgeSubmission mainnetCrates (testParams 0) [0, 0, 0, 1] 512 =
        some (.ok (.block d hex hash)) := by
  obtain ⟨s, taken, entry, retained, tip, named, window, solves⟩ :
      ∃ s ∈ EngineLoop.step testProcess testSettings .start (.boot (.ok easyTemplate)),
        ∃ entry ∈ s.publication.engine.jobHistory,
          s.publication.engine.currentJob.map (·.prevHash) = some entry.job.prevHash ∧
          (testParams 0).jobId = entry.job.jobId ∧ NtimeInJobWindow entry.job (testParams 0) ∧
          SolvesBlock mainnetCrates entry.job (testParams 0) [0, 0, 0, 1] := by
    decide +kernel
  have keeps : EngineLoop.KeepsWork testProcess testSettings .start (.boot (.ok easyTemplate)) := by
    intro cleanJobs reply _ job _
    simp [EngineLoop.start, Engine.new, Engine.kept, makeRoom, jobHistoryDepth]
  exact ⟨s, taken, loop_accepts_block (.step .start keeps taken) retained tip named window solves 512⟩

/-- The poll signals the tip that the first refresh already has. The second clean job retires the first, and a block
on the current tip is refused as stale. -/
theorem loop_discards_block :
    ∃ s, Reach (EngineLoop.step testProcess testSettings) Always .start s ∧
      ∃ entry ∈ s.publication.engine.jobHistory,
        s.publication.engine.currentJob.map (·.prevHash) = some entry.job.prevHash ∧
        (testParams 0).jobId = entry.job.jobId ∧ NtimeInJobWindow entry.job (testParams 0) ∧
        VersionInMask (testParams 0) ∧ SolvesBlock mainnetCrates entry.job (testParams 0) [0, 0, 0, 1] ∧
        s.publication.engine.judgeSubmission mainnetCrates (testParams 0) [0, 0, 0, 1] 512 =
          some (.err (.staleJob (testParams 0).jobId)) :=
  Reach.of_run [.boot (.ok easyTemplate), .poll genesisHash, .newBlock (.ok easyTemplate)] (by decide +kernel)

end SoloPool
