import SoloPool.Mining.Engine
import SoloPool.Proofs.Validator

/-!
# Refreshes and the job history

The history is the window of the last eight publications. The clean flag is set whenever the tip moves, so along the
publications the previous block hash only changes at clean jobs, and a job with no clean one behind it still has the
newest one's.
-/

namespace SoloPool
open Lib

/-! ### Job ids -/

theorem nextJobId_inj {millis a b : UInt64}
    (same : nextJobId (jobEpoch millis) a = nextJobId (jobEpoch millis) b) : a.toNat % 2 ^ 32 = b.toNat % 2 ^ 32 := by
  have low : ∀ n : UInt64, (jobEpoch millis ||| (n &&& 0xFFFFFFFF)).toNat % 2 ^ 32 = n.toNat % 2 ^ 32 := by
    intro n
    have mask : n.toNat &&& 4294967295 = n.toNat % 2 ^ 32 := Nat.and_two_pow_sub_one_eq_mod _ 32
    have shifted : (jobEpoch millis).toNat % 2 ^ 32 = 0 := by
      simp only [jobEpoch, UInt64.toNat_shiftLeft, UInt64.reduceToNat, Nat.reduceMod, Nat.shiftLeft_eq]
      omega
    simp only [UInt64.toNat_or, UInt64.toNat_and, UInt64.reduceToNat, mask, Nat.or_mod_two_pow, shifted, Nat.zero_or]
    omega
  have equal := hex016_inj same
  rw [← low a, ← low b, equal]

def drawnIds (millis : UInt64) (drawn : Nat) : List String :=
  (List.range drawn).map (fun k => nextJobId (jobEpoch millis) (1 + UInt64.ofNat k))

theorem drawnIds_succ (millis : UInt64) (drawn : Nat) :
    drawnIds millis (drawn + 1) = drawnIds millis drawn ++ [nextJobId (jobEpoch millis) (1 + UInt64.ofNat drawn)] := by
  simp [drawnIds, List.range_succ]

theorem drawnIds_nodup {millis : UInt64} {drawn : Nat} (few : drawn ≤ 2 ^ 32) : (drawnIds millis drawn).Nodup := by
  apply List.Nodup.map_on _ List.nodup_range
  intro i inside j inside' same
  have apart := nextJobId_inj same
  simp only [List.mem_range] at inside inside'
  simp only [UInt64.toNat_add, UInt64.reduceToNat, UInt64.toNat_ofNat'] at apart
  omega

/-! ### `find_job` -/

def entryOf (b : JobBroadcast) : JobEntry := { job := b.job, clean := b.clean, supersededByClean := false }

/-- The first entry with the id is found, superseded when a clean entry follows it. -/
theorem findJob_eq_some {e : Engine} {jobId : String} {entry : JobEntry} :
    e.findJob jobId = some entry ↔ ∃ before found after, e.jobHistory = before ++ found :: after ∧
      (∀ x ∈ before, x.job.jobId ≠ jobId) ∧ found.job.jobId = jobId ∧
      entry = { found with supersededByClean := after.any (·.clean) } := by
  unfold Engine.findJob
  simp only [Option.bind_eq_bind, Option.bind_eq_some_iff, List.findIdx?_eq_some_iff_getElem]
  constructor
  · rintro ⟨idx, ⟨inside, hit, first⟩, found, at_idx, same⟩
    obtain rfl : e.jobHistory[idx] = found := by simpa [List.getElem?_eq_getElem inside] using at_idx
    refine ⟨e.jobHistory.take idx, _, e.jobHistory.drop (idx + 1), ?_, ?_, by simpa using hit, by simpa [eq_comm] using same⟩
    · rw [List.getElem_cons_drop, List.take_append_drop]
    · intro x member
      obtain ⟨j, within, rfl⟩ := List.getElem_of_mem member
      rw [List.length_take] at within
      simpa using first j (by omega)
  · rintro ⟨before, found, after, split, first, hit, rfl⟩
    refine ⟨before.length, ⟨by simp [split], by simp [split, hit], ?_⟩, found, by simp [split], by simp [split]⟩
    intro j earlier
    have within : j < e.jobHistory.length := by rw [split, List.length_append]; omega
    have member : e.jobHistory[j] ∈ before := by simp [split, List.getElem_append_left earlier]
    simpa using first _ member

/-- In a history that ends with the current job and changes tip only at clean entries, what is not superseded is on the
current tip. -/
theorem findJob_tip {e : Engine} (steady : Steady (·.clean) (·.job.prevHash) e.jobHistory)
    (newest : e.jobHistory.getLast?.map (·.job) = e.currentJob) {jobId : String} {found : JobEntry}
    (isFound : e.findJob jobId = some found) (unsuperseded : found.supersededByClean = false) :
    e.currentJob.map (·.prevHash) = some found.job.prevHash := by
  obtain ⟨before, hit, after, split, _, _, rfl⟩ := findJob_eq_some.mp isFound
  obtain ⟨last, isLast⟩ : ∃ last, (hit :: after).getLast? = some last := ⟨_, List.getLast?_cons⟩
  have same := Steady.getLast_eq (steady.suffix ⟨before, split.symm⟩) (by simpa using unsuperseded) isLast
  rw [← newest, split, List.getLast?_append, isLast]
  exact congrArg some same

theorem findJob_newest {e : Engine} (distinct : (e.jobHistory.map (·.job.jobId)).Nodup) {entry : JobEntry}
    (last : e.jobHistory.getLast? = some entry) :
    e.findJob entry.job.jobId = some { entry with supersededByClean := false } := by
  obtain ⟨before, split⟩ := List.getLast?_eq_some_iff.mp last
  refine findJob_eq_some.mpr ⟨before, entry, [], split, ?_, rfl, rfl⟩
  intro x earlier same
  rw [split, List.map_append, List.nodup_append] at distinct
  exact distinct.2.2 _ (List.mem_map_of_mem earlier) _ (by simp) same

/-! ### One refresh -/

/-- Everything a refresh can do: build nothing and leave jobs and history as they were, or publish one job. -/
theorem refresh_cases (p : Process) (call : RefreshCall) (e : Engine) :
    ((Engine.refresh p call.settings call.cleanJobs call.reply e).2 = none ∧
      (Engine.refresh p call.settings call.cleanJobs call.reply e).1.currentJob = e.currentJob ∧
      (Engine.refresh p call.settings call.cleanJobs call.reply e).1.jobHistory = e.jobHistory ∧
      (Engine.refresh p call.settings call.cleanJobs call.reply e).1.jobCounter =
        if call.drawsId then e.jobCounter + 1 else e.jobCounter) ∨
    ∃ gbt address job, call.drawsId = true ∧ call.reply = .ok gbt ∧
      call.settings.validCoinbaseAddress = some address ∧
      buildJob p.crates (nextJobId (jobEpoch p.startMillis) e.jobCounter) gbt address p.pool.coinbaseTag
        p.pool.extranonce1Size p.pool.extranonce2Size = .ok job ∧
      let clean := call.cleanJobs || tipMoved (e.currentJob.map (·.prevHash)) job.prevHash
      Engine.refresh p call.settings call.cleanJobs call.reply e =
        ({ currentJob := some job
           jobHistory := pushBounded jobHistoryDepth e.jobHistory (entryOf { job, clean })
           jobCounter := e.jobCounter + 1
           lastTemplateError := none }, some { job, clean }) := by
  obtain ⟨settings, cleanJobs, reply⟩ := call
  unfold Engine.refresh
  cases valid : settings.valid with
  | false => exact .inl (by simp [RuntimeSettings.validCoinbaseAddress, valid, RefreshCall.drawsId,
      Engine.noteTemplateFailure])
  | true =>
    have address : settings.validCoinbaseAddress = some settings.address := by
      simp [RuntimeSettings.validCoinbaseAddress, valid]
    cases reply with
    | error why => exact .inl (by simp [address, RefreshCall.drawsId, Engine.noteTemplateFailure])
    | ok gbt =>
      simp only [address, Engine.buildNext, RefreshCall.drawsId, valid, Bool.and_self, if_true]
      cases built : buildJob p.crates (nextJobId (jobEpoch p.startMillis) e.jobCounter) gbt settings.address
          p.pool.coinbaseTag p.pool.extranonce1Size p.pool.extranonce2Size with
      | err why => exact .inl ⟨rfl, rfl, rfl, rfl⟩
      | panic => exact .inl ⟨rfl, rfl, rfl, rfl⟩
      | ok job => exact .inr ⟨gbt, settings.address, job, trivial, rfl, rfl, built, rfl⟩

/-! ### Whole runs -/

/-- The engine as the window of its publications, after `drawn` job ids. -/
structure Windowed (p : Process) (drawn : Nat) (s : Publication) : Prop where
  history : s.engine.jobHistory = (s.published.map entryOf).rtake jobHistoryDepth
  current : s.engine.currentJob = s.published.getLast?.map (·.job)
  steady : Steady (·.clean) (·.job.prevHash) s.published
  counter : s.engine.jobCounter = 1 + UInt64.ofNat drawn
  ids : List.Sublist (s.published.map (·.job.jobId)) (drawnIds p.startMillis drawn)

theorem windowed_start (p : Process) : Windowed p 0 { engine := .new, published := [] } where
  history := rfl
  current := rfl
  steady := .nil
  counter := rfl
  ids := .slnil

theorem refresh_windowed {p : Process} {drawn : Nat} {s : Publication} (w : Windowed p drawn s) (call : RefreshCall) :
    Windowed p (if call.drawsId then drawn + 1 else drawn) (s.refresh p call) := by
  unfold Publication.refresh
  obtain ⟨silent, current, history, counter⟩ | ⟨gbt, address, job, draws, _, _, built, done⟩ :=
    refresh_cases p call s.engine
  · constructor
    · simpa [silent, history] using w.history
    · simpa [silent, current] using w.current
    · simpa [silent] using w.steady
    · rw [counter, w.counter]
      split
      · rw [UInt64.ofNat_add, UInt64.add_assoc]; rfl
      · rfl
    · simp only [silent, Option.toList_none, List.append_nil]
      split
      · rw [drawnIds_succ]
        exact w.ids.trans (List.sublist_append_left _ _)
      · exact w.ids
  · have named := (buildJob_facts built).1
    rw [draws, if_pos rfl]
    constructor
    · simp only [done, w.history, jobHistoryDepth, pushBounded_rtake, Option.toList_some, List.map_append,
        List.map_cons, List.map_nil]
    · simp [done]
    · simp only [done, Option.toList_some]
      refine w.steady.concat (fun last isLast unclean => ?_)
      -- A job that goes out unclean has the previous block hash of the current job.
      simp only [w.current, Option.mem_def.mp isLast, Option.map_some, tipMoved, Bool.or_eq_false_iff,
        decide_eq_false_iff_not, not_not, Option.some.injEq] at unclean
      exact unclean.2.symm
    · simp only [done, w.counter, UInt64.ofNat_add, UInt64.add_assoc]
      rfl
    · simp only [done, Option.toList_some, List.map_append, List.map_cons, List.map_nil, named, w.counter, drawnIds_succ]
      exact w.ids.append (List.Sublist.refl _)

theorem runRefreshes_windowed (p : Process) (calls : List RefreshCall) :
    Windowed p (calls.countP RefreshCall.drawsId) (runRefreshes p calls) := by
  suffices h : ∀ drawn s, Windowed p drawn s →
      Windowed p (drawn + calls.countP RefreshCall.drawsId) (calls.foldl (Publication.refresh p) s) by
    simpa [runRefreshes] using h 0 _ (windowed_start p)
  induction calls with
  | nil => exact fun _ _ w => w
  | cons call rest ih =>
    intro drawn s w
    have next := ih _ _ (refresh_windowed w call)
    rw [List.countP_cons]
    split at next <;> simp_all [Nat.add_assoc, Nat.add_comm 1]

namespace Windowed

variable {p : Process} {drawn : Nat} {s : Publication}

theorem history_map (w : Windowed p drawn s) :
    s.engine.jobHistory = (s.published.rtake jobHistoryDepth).map entryOf := by
  rw [w.history, List.rtake, List.rtake, List.map_drop, List.length_map]

theorem published_nodup (w : Windowed p drawn s) (few : drawn ≤ 2 ^ 32) :
    (s.published.map (·.job.jobId)).Nodup := (drawnIds_nodup few).sublist w.ids

theorem of_findJob (w : Windowed p drawn s) {jobId : String} {entry : JobEntry}
    (found : s.engine.findJob jobId = some entry) :
    ∃ before b after, s.published = before ++ b :: after ∧ after.length < jobHistoryDepth ∧ b.job.jobId = jobId ∧
      entry = { entryOf b with supersededByClean := after.any (·.clean) } := by
  obtain ⟨front, hit, back, split, _, named, rfl⟩ := findJob_eq_some.mp found
  rw [w.history_map, List.map_eq_append_iff] at split
  obtain ⟨before, rest, window, rfl, split⟩ := split
  obtain ⟨b, after, rfl, rfl, rfl⟩ := List.map_eq_cons_iff.mp split
  obtain ⟨dropped, log⟩ := rtake_eq_append_cons window
  have short := congrArg List.length window
  rw [length_rtake, List.length_append, List.length_cons] at short
  refine ⟨dropped ++ before, b, after, log, by omega, named, ?_⟩
  simp only [List.any_map]
  rfl

theorem findJob_eq (w : Windowed p drawn s) (few : drawn ≤ 2 ^ 32) {before after : List JobBroadcast}
    {b : JobBroadcast} (split : s.published = before ++ b :: after) (recent : after.length < jobHistoryDepth) :
    s.engine.findJob b.job.jobId = some { entryOf b with supersededByClean := after.any (·.clean) } := by
  have distinct := w.published_nodup few
  obtain ⟨k, window⟩ : ∃ k, s.published.rtake jobHistoryDepth = before.drop k ++ b :: after := by
    rw [split]
    exact rtake_of_append_cons recent
  refine findJob_eq_some.mpr ⟨(before.drop k).map entryOf, entryOf b, after.map entryOf, ?_, ?_, rfl, ?_⟩
  · rw [w.history_map, window, List.map_append, List.map_cons]
  · intro x member named
    obtain ⟨y, earlier, rfl⟩ := List.mem_map.mp member
    rw [split, List.map_append, List.map_cons, List.nodup_append] at distinct
    exact distinct.2.2 _ (List.mem_map_of_mem (List.mem_of_mem_drop earlier)) _ List.mem_cons_self named
  · simp only [List.any_map]
    rfl

theorem history_steady (w : Windowed p drawn s) : Steady (·.clean) (·.job.prevHash) s.engine.jobHistory := by
  have whole : Steady (·.clean) (·.job.prevHash) (s.published.map entryOf) := Steady.map w.steady
  rw [w.history]
  exact whole.suffix (rtake_suffix _ _)

theorem newest (w : Windowed p drawn s) : s.engine.jobHistory.getLast?.map (·.job) = s.engine.currentJob := by
  rw [w.current, w.history_map, List.getLast?_map, Option.map_map, jobHistoryDepth, getLast?_rtake_succ]
  rfl

end Windowed

/-- After any refreshes, the history holds the last eight publications in order under distinct ids, ends with the
current job, survives a failed refresh, and `find_job` tells exactly which of them a later clean job superseded. -/
theorem runRefreshes_history (p : Process) (calls : List RefreshCall)
    (few : calls.countP RefreshCall.drawsId < 2 ^ 32) :
    let s := runRefreshes p calls
    let retained := s.published.rtake jobHistoryDepth
    (s.engine.jobHistory = retained.map entryOf ∧ retained.length = min 8 s.published.length ∧
      (s.engine.jobHistory.map (·.job.jobId)).Nodup ∧
      s.engine.jobHistory.getLast?.map (·.job) = s.engine.currentJob) ∧
    (∀ call : RefreshCall, (s.engine.refresh p call.settings call.cleanJobs call.reply).2 = none →
      (s.engine.refresh p call.settings call.cleanJobs call.reply).1.jobHistory = s.engine.jobHistory ∧
      (s.engine.refresh p call.settings call.cleanJobs call.reply).1.currentJob = s.engine.currentJob) ∧
    (∀ jobId, (s.engine.findJob jobId).isSome = true ↔ ∃ b ∈ retained, b.job.jobId = jobId) ∧
    (∀ before b after, s.published = before ++ b :: after → after.length < 8 →
      ∃ entry, s.engine.findJob b.job.jobId = some entry ∧ entry.job = b.job ∧
        (entry.supersededByClean = true ↔ ∃ later ∈ after, later.clean = true)) ∧
    ∀ jobId entry, s.engine.findJob jobId = some entry → entry.supersededByClean = false →
      ∃ newest, s.engine.currentJob = some newest ∧ entry.job.prevHash = newest.prevHash := by
  intro s retained
  have w : Windowed p _ s := runRefreshes_windowed p calls
  have distinct := w.published_nodup few.le
  have window : retained <:+ s.published := rtake_suffix _ _
  refine ⟨⟨w.history_map, length_rtake _ _, ?_, ?_⟩, ?_, ?_, ?_, ?_⟩
  · rw [w.history_map, List.map_map]
    exact distinct.sublist (window.sublist.map _)
  · exact w.newest
  · intro call failed
    obtain ⟨_, current, history, _⟩ | ⟨_, _, _, _, _, _, _, done⟩ := refresh_cases p call s.engine
    · exact ⟨history, current⟩
    · rw [done] at failed
      simp at failed
  · intro jobId
    rw [Option.isSome_iff_exists]
    constructor
    · rintro ⟨entry, found⟩
      obtain ⟨before, b, after, split, recent, named, _⟩ := w.of_findJob found
      exact ⟨b, mem_rtake.mpr ⟨before, after, split, recent⟩, named⟩
    · rintro ⟨b, member, rfl⟩
      obtain ⟨before, after, split, recent⟩ := mem_rtake.mp member
      exact ⟨_, w.findJob_eq few.le split recent⟩
  · intro before b after split recent
    exact ⟨_, w.findJob_eq few.le split recent, rfl, by simp⟩
  · intro jobId entry found unsuperseded
    obtain ⟨newest, current, same⟩ :=
      Option.map_eq_some_iff.mp (findJob_tip w.history_steady w.newest found unsuperseded)
    exact ⟨newest, current, same.symm⟩

def testProcess : Process := { crates := mainnetCrates, pool := exampleConfig.pool, startMillis := 0 }

def testSettings : RuntimeSettings := { network := "mainnet", address := testAddress, valid := true }

theorem runRefreshes_history_testProcess :
    let calls : List RefreshCall := [⟨testSettings, true, .ok (testTemplate genesisHash "1d00ffff")⟩,
      ⟨testSettings, false, .ok (testTemplate genesisHash "1d00ffff")⟩]
    calls.countP RefreshCall.drawsId < 2 ^ 32 ∧
      (runRefreshes testProcess calls).engine.jobHistory =
        ((runRefreshes testProcess calls).published.rtake jobHistoryDepth).map entryOf := by
  intro calls
  have few : calls.countP RefreshCall.drawsId < 2 ^ 32 := by decide
  exact ⟨few, (runRefreshes_history testProcess calls few).1.1⟩

end SoloPool
