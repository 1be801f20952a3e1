import SoloPool.Proofs.BestShare
import SoloPool.Stats.ShareLog

/-!
# A worker's windows after a restart

Over every run of the share log with its failing writes and restarts: what the log hands a returning worker is each of
its committed shares of the last day once, and the hashrate windows of the new session are computed from just these.
-/

namespace SoloPool.Stats
open Lib

/-! ### Rows -/

def LoggedShare.row (share : LoggedShare) : ShareLogRow :=
  { worker := share.worker, ts := dbU64 share.ts, credited := dbU64 share.credited, serial := share.serial }

/-- A credit as the database gives it back. -/
def LoggedShare.stored (share : LoggedShare) : UInt64 := UInt64.ofNat (min share.credited.toNat i64Max)

def LoggedShare.read (share : LoggedShare) : ShareRow :=
  { ts := share.ts, credited := share.stored, serial := share.serial }

theorem getU64_dbU64 (v : UInt64) : getU64 (dbU64 v) = some (UInt64.ofNat (min v.toNat i64Max)) := by
  unfold getU64
  rw [if_pos (dbU64_nonneg v)]
  rfl

theorem dbU64_eq {v : UInt64} (dated : v.toNat < 2 ^ 63) : dbU64 v = v.toNat := by
  unfold dbU64 i64Max
  omega

theorem getU64_dbU64_eq {v : UInt64} (dated : v.toNat < 2 ^ 63) : getU64 (dbU64 v) = some v := by
  rw [getU64_dbU64, Nat.min_eq_left (by unfold i64Max; omega), UInt64.ofNat_toNat]

theorem shareCutoff_eq {now : UInt64} (dated : now.toNat < 2 ^ 63) :
    Database.shareCutoff now = ((now.toNat - 86400 : Nat) : Int) := by
  unfold Database.shareCutoff
  have value : (UInt64.ofNat (now.toNat - 86400)).toNat = now.toNat - 86400 := UInt64.toNat_ofNat_of_lt' (by
    show now.toNat - 86400 < 2 ^ 64
    omega)
  rw [dbU64_eq (by rw [value]; omega), value]

theorem shareCutoff_mono {a b : UInt64} (le : a ≤ b) : Database.shareCutoff a ≤ Database.shareCutoff b := by
  have below := UInt64.le_iff_toNat_le.mp le
  have bound := b.toNat_lt
  unfold Database.shareCutoff
  apply dbU64_mono
  rw [UInt64.le_iff_toNat_le, UInt64.toNat_ofNat_of_lt' (by show _ < 2 ^ 64; omega),
    UInt64.toNat_ofNat_of_lt' (by show _ < 2 ^ 64; omega)]
  omega

/-- A cut of the rows is the same cut of the shares. -/
theorem filter_rows (shares : List LoggedShare) (keep : ShareLogRow → Bool) :
    (shares.map LoggedShare.row).filter keep = (shares.filter fun share => keep share.row).map LoggedShare.row :=
  List.filter_map ..

/-- The later of two cuts is all that is left of both. -/
theorem filter_cutoffs {shares : List LoggedShare} {early late : Int} (le : early ≤ late) :
    (shares.filter fun share => decide (early ≤ dbU64 share.ts)).filter (fun share => decide (late ≤ dbU64 share.ts)) =
      shares.filter fun share => decide (late ≤ dbU64 share.ts) := by
  rw [List.filter_filter]
  apply List.filter_congr
  intro share _
  rw [← Bool.decide_and]
  exact decide_eq_decide.mpr ⟨And.left, fun above => ⟨above, le.trans above⟩⟩

namespace ShareLog

variable {s t : ShareLog} {event : Event}

/-! ### The log -/

/-- In the order of the log, which is that of time. -/
def Timed (clock : UInt64) (shares : List LoggedShare) : Prop :=
  shares.Pairwise (fun a b => a.ts ≤ b.ts) ∧ ∀ share ∈ shares, share.ts ≤ clock

theorem Timed.later {clock now : UInt64} {shares : List LoggedShare} (timed : Timed clock shares) (later : clock ≤ now) :
    Timed now shares := ⟨timed.1, fun share among => UInt64.le_trans (timed.2 share among) later⟩

theorem Timed.concat {shares : List LoggedShare} {share : LoggedShare} (timed : Timed share.ts shares) :
    Timed share.ts (shares ++ [share]) := by
  refine ⟨List.pairwise_append.mpr ⟨timed.1, List.pairwise_singleton _ _, ?_⟩, ?_⟩
  · intro earlier among last isLast
    rw [List.mem_singleton.mp isLast]
    exact timed.2 earlier among
  · intro any among
    rcases List.mem_append.mp among with earlier | isLast
    · exact timed.2 any earlier
    · rw [List.mem_singleton.mp isLast]
      exact UInt64.le_refl _

theorem Timed.sublist {clock : UInt64} {shares fewer : List LoggedShare} (timed : Timed clock shares)
    (sublist : fewer.Sublist shares) : Timed clock fewer :=
  ⟨timed.1.sublist sublist, fun share among => timed.2 share (sublist.subset among)⟩

/-- The rows are those of the committed shares since some second at least a day back, every share offered is committed,
waiting or lost, and none waits without a store. -/
structure Kept (s : ShareLog) : Prop where
  timed : Timed s.clock (s.written ++ s.stats.pendingShares)
  conserved : (s.written ++ s.stats.pendingShares ++ s.lost).Perm s.offered
  rows : ∀ rows ∈ tables s.stats, ∃ cutoff ≤ Database.shareCutoff s.clock,
    rows = (s.written.filter fun share => decide (cutoff ≤ dbU64 share.ts)).map LoggedShare.row
  storeless : s.stats.store = none → s.stats.pendingShares = []

theorem newWithStore_pending (db : Option Database) (now : UInt64) : (PoolStats.newWithStore db now).pendingShares = [] := by
  unfold PoolStats.newWithStore
  split
  · rfl
  · dsimp only
    split
    · rfl
    · split <;> rfl

/-- A boot keeps the table, if it can read the database at all. -/
theorem newWithStore_tables {db : Option Database} {now : UInt64} {rows : List ShareLogRow}
    (open_ : rows ∈ tables (.newWithStore db now)) : rows ∈ db.map (·.shareLog) := by
  unfold PoolStats.newWithStore at open_
  cases db with
  | none => cases open_
  | some db =>
    dsimp only at open_
    split at open_
    · cases open_
    · split at open_ <;> exact open_

theorem boot_kept {db : Option Database} (blank : ∀ d ∈ db, d.shareLog = []) (now : UInt64) : (boot db now).Kept := by
  have pending := newWithStore_pending db now
  refine ⟨?_, ?_, ?_, fun _ => pending⟩
  · show Timed now ([] ++ (PoolStats.newWithStore db now).pendingShares)
    rw [pending]
    exact ⟨List.Pairwise.nil, List.forall_mem_nil _⟩
  · show ([] ++ (PoolStats.newWithStore db now).pendingShares ++ []).Perm []
    rw [pending]
    exact List.Perm.nil
  · intro rows open_
    obtain ⟨d, isDb, rfl⟩ := Option.map_eq_some_iff.mp (newWithStore_tables open_)
    exact ⟨Database.shareCutoff now, le_refl _, blank d isDb⟩

theorem log_kept (kept : s.Kept) {share : LoggedShare} (later : s.clock ≤ share.ts) : (s.log share).Kept := by
  have timed := kept.timed.later later
  unfold log PoolStats.logShare
  split_ifs with dropped
  · refine ⟨timed, ?_, ?_, kept.storeless⟩
    · rw [← List.append_assoc]
      exact kept.conserved.append_right [share]
    · intro rows open_
      obtain ⟨cutoff, low, same⟩ := kept.rows rows open_
      exact ⟨cutoff, low.trans (shareCutoff_mono later), same⟩
  · refine ⟨?_, ?_, ?_, fun none => ?_⟩
    · show Timed share.ts (s.written ++ (s.stats.pendingShares ++ [share]))
      rw [← List.append_assoc]
      exact timed.concat
    · show (s.written ++ (s.stats.pendingShares ++ [share]) ++ s.lost).Perm (s.offered ++ [share])
      have moved : (s.written ++ (s.stats.pendingShares ++ [share]) ++ s.lost).Perm
          (s.written ++ s.stats.pendingShares ++ s.lost ++ [share]) := by
        rw [← List.append_assoc, List.append_assoc _ [share], List.append_assoc _ s.lost]
        exact List.perm_append_comm.append_left _
      exact moved.trans (kept.conserved.append_right [share])
    · intro rows open_
      obtain ⟨cutoff, low, same⟩ := kept.rows rows open_
      exact ⟨cutoff, low.trans (shareCutoff_mono later), same⟩
    · exact (dropped (.inl (Option.isNone_iff_eq_none.mpr none))).elim

theorem tryFlush_pending (kept : s.Kept) (now : UInt64) (committed : Bool) :
    (tryFlush s.stats now committed).pendingShares = [] := by
  unfold tryFlush PoolStats.flushShareLog
  split
  · split
    · rename_i none
      exact kept.storeless none
    · split
      · assumption
      · rfl
  · rfl

theorem tables_tryFlush_failed (p : PoolStats) (now : UInt64) : tables (tryFlush p now false) = tables p := by
  unfold tryFlush PoolStats.flushShareLog
  cases store : p.store with
  | none => rw [if_pos (.inr rfl)]
  | some db => simp [tables, store]

theorem tables_tryFlush_committed (p : PoolStats) (now : UInt64) :
    tables (tryFlush p now true) = (tables p).map fun rows =>
      if p.pendingShares = [] then rows
      else (rows ++ p.pendingShares.map LoggedShare.row).filter fun row => decide (Database.shareCutoff now ≤ row.ts) := by
  unfold tryFlush PoolStats.flushShareLog tables
  rw [if_pos (.inl rfl)]
  cases store : p.store with
  | none => simp [store]
  | some db =>
    dsimp only
    split
    · simp [store]
    · rfl

theorem flush_kept (kept : s.Kept) {now : UInt64} (later : s.clock ≤ now) (committed : Bool) : (s.flush now committed).Kept := by
  have timed := kept.timed.later later
  have pending := tryFlush_pending kept now committed
  have floor := shareCutoff_mono later
  cases committed with
  | false =>
    refine ⟨?_, ?_, ?_, fun _ => pending⟩
    · show Timed now (s.written ++ (tryFlush s.stats now false).pendingShares)
      rw [pending, List.append_nil]
      exact timed.sublist (List.sublist_append_left _ _)
    · show (s.written ++ (tryFlush s.stats now false).pendingShares ++ (s.lost ++ s.stats.pendingShares)).Perm s.offered
      rw [pending, List.append_nil]
      refine .trans ?_ kept.conserved
      rw [List.append_assoc]
      exact List.perm_append_comm.append_left _
    · intro rows open_
      rw [flush, tables_tryFlush_failed] at open_
      obtain ⟨cutoff, low, same⟩ := kept.rows rows open_
      exact ⟨cutoff, low.trans floor, same⟩
  | true =>
    refine ⟨?_, ?_, ?_, fun _ => pending⟩
    · show Timed now (s.written ++ s.stats.pendingShares ++ (tryFlush s.stats now true).pendingShares)
      rw [pending, List.append_nil]
      exact timed
    · show (s.written ++ s.stats.pendingShares ++ (tryFlush s.stats now true).pendingShares ++ s.lost).Perm s.offered
      rw [pending, List.append_nil]
      exact kept.conserved
    · intro rows open_
      rw [flush, tables_tryFlush_committed] at open_
      obtain ⟨before, present, rfl⟩ := Option.map_eq_some_iff.mp open_
      obtain ⟨cutoff, low, rfl⟩ := kept.rows before present
      have early : cutoff ≤ Database.shareCutoff now := low.trans floor
      split
      · rename_i idle
        refine ⟨cutoff, early, ?_⟩
        show _ = ((s.written ++ s.stats.pendingShares).filter _).map LoggedShare.row
        rw [idle, List.append_nil]
      · -- The prune of this flush cuts off whatever an earlier one did.
        refine ⟨Database.shareCutoff now, le_refl _, ?_⟩
        show _ = ((s.written ++ s.stats.pendingShares).filter _).map LoggedShare.row
        rw [List.filter_append, filter_rows, filter_rows, List.filter_append, List.map_append]
        congr 2
        exact filter_cutoffs early

theorem restart_kept (kept : s.Kept) {now : UInt64} (later : s.clock ≤ now) : (s.restart now).Kept := by
  have pending := newWithStore_pending s.stats.store now
  refine ⟨?_, ?_, ?_, fun _ => pending⟩
  · show Timed now (s.written ++ (PoolStats.newWithStore s.stats.store now).pendingShares)
    rw [pending, List.append_nil]
    exact (kept.timed.later later).sublist (List.sublist_append_left _ _)
  · show (s.written ++ (PoolStats.newWithStore s.stats.store now).pendingShares ++ (s.lost ++ s.stats.pendingShares)).Perm s.offered
    rw [pending, List.append_nil]
    have moved : (s.written ++ (s.lost ++ s.stats.pendingShares)).Perm (s.written ++ s.stats.pendingShares ++ s.lost) := by
      rw [List.append_assoc]
      exact List.perm_append_comm.append_left _
    exact moved.trans kept.conserved
  · intro rows open_
    obtain ⟨cutoff, low, same⟩ := kept.rows rows (newWithStore_tables open_)
    exact ⟨cutoff, low.trans (shareCutoff_mono later), same⟩

theorem step_kept (kept : s.Kept) (taken : s.step event = some t) : t.Kept := by
  cases event with
  | log worker credited now serial =>
    obtain ⟨later, same⟩ := Option.ite_none_right_eq_some.mp taken
    cases same
    exact log_kept kept later
  | flush now committed =>
    obtain ⟨later, same⟩ := Option.ite_none_right_eq_some.mp taken
    cases same
    exact flush_kept kept later committed
  | restart now =>
    obtain ⟨later, same⟩ := Option.ite_none_right_eq_some.mp taken
    cases same
    exact restart_kept kept later
  | call stats =>
    obtain ⟨⟨pending, same⟩, after⟩ := Option.ite_none_right_eq_some.mp taken
    cases after
    refine ⟨?_, ?_, fun rows open_ => kept.rows rows (same ▸ open_), fun gone => ?_⟩
    · rw [pending]
      exact kept.timed
    · rw [pending]
      exact kept.conserved
    · rw [pending]
      apply kept.storeless
      have blank : tables stats = none := Option.map_eq_none_iff.mpr gone
      rw [same] at blank
      exact Option.map_eq_none_iff.mp blank

theorem reach_kept {db : Option Database} (blank : ∀ d ∈ db, d.shareLog = []) {now : UInt64}
    (reached : Reach step Always (boot db now) s) : s.Kept :=
  reached.invariant Kept (boot_kept blank now) (fun _ _ _ _ kept _ taken => step_kept kept taken)

/-! ### What a returning worker gets -/

/-- The committed shares of a worker that the windows can still see. -/
def lastDay (s : ShareLog) (worker : String) (now : UInt64) : List LoggedShare :=
  s.written.filter fun share => decide (share.worker = worker ∧ now.toNat - 86400 ≤ share.ts.toNat)

/-- A share on the clock of the new process. -/
def onClock (now : UInt64) (instant : Instant) (share : LoggedShare) : ShareTime :=
  { time := instant - secs (now.toNat - share.ts.toNat), credited := share.stored, serial := share.serial }

theorem getShares_eq (kept : s.Kept) {d : Database} (stored : s.stats.store = some d) (worker : String) {now : UInt64}
    (later : s.clock ≤ now) (dated : now.toNat < 2 ^ 63) :
    d.getShares worker now = (s.lastDay worker now).map LoggedShare.read := by
  obtain ⟨cutoff, low, rows⟩ := kept.rows d.shareLog (by rw [tables, stored]; rfl)
  have timed : Timed now s.written := (kept.timed.later later).sublist (List.sublist_append_left _ _)
  have past : ∀ share ∈ s.written, share.ts.toNat < 2 ^ 63 := fun share among =>
    Nat.lt_of_le_of_lt (UInt64.le_iff_toNat_le.mp (timed.2 share among)) dated
  have cut : d.shareLog.filter (fun row => decide (row.worker = worker ∧ Database.shareCutoff now ≤ row.ts)) =
      (s.lastDay worker now).map LoggedShare.row := by
    rw [rows, filter_rows, List.filter_filter, lastDay]
    congr 1
    apply List.filter_congr
    intro share among
    rw [← Bool.decide_and]
    apply decide_eq_decide.mpr
    have early := low.trans (shareCutoff_mono later)
    rw [shareCutoff_eq dated] at early
    show (share.worker = worker ∧ Database.shareCutoff now ≤ dbU64 share.ts) ∧ cutoff ≤ dbU64 share.ts ↔ _
    rw [shareCutoff_eq dated, dbU64_eq (past share among)]
    exact ⟨fun ⟨⟨mine, recent⟩, _⟩ => ⟨mine, by omega⟩, fun ⟨mine, recent⟩ => ⟨⟨mine, by omega⟩, by omega⟩⟩
  have sorted : ((s.lastDay worker now).map LoggedShare.row).Pairwise (fun a b => a.ts ≤ b.ts) :=
    List.pairwise_map.mpr (((timed.sublist List.filter_sublist).1).imp dbU64_mono)
  unfold Database.getShares
  dsimp only
  rw [cut, List.Pairwise.insertionSort_eq sorted, List.filterMap_map, ← List.filterMap_eq_map]
  apply List.filterMap_congr
  intro share among
  have read : getU64 (dbU64 share.ts) = some share.ts := getU64_dbU64_eq (past share (List.mem_of_mem_filter among))
  simp only [Function.comp, LoggedShare.row, read, getU64_dbU64]
  rfl

theorem secs_le_retention {n : Nat} (recent : n ≤ 86400) : ¬ secs n > shareRetention := by
  unfold shareRetention secs
  omega

theorem fromUnixRows_read {shares : List LoggedShare} {now : UInt64} {instant : Instant}
    (recent : ∀ share ∈ shares, now.toNat - share.ts.toNat ≤ 86400) :
    ShareHistory.fromUnixRows (shares.map LoggedShare.read) now instant = shares.head?.map fun first =>
      { shareTimes := shares.map (onClock now instant), startedAt := (onClock now instant first).time } := by
  have times : (shares.map LoggedShare.read).filterMap (fun row =>
      if secs (now.toNat - row.ts.toNat) > shareRetention then none
      else some ({
        time := instant - secs (now.toNat - row.ts.toNat), credited := row.credited, serial := row.serial } : ShareTime)) =
      shares.map (onClock now instant) := by
    rw [List.filterMap_map, ← List.filterMap_eq_map]
    apply List.filterMap_congr
    intro share among
    rw [Function.comp_apply, if_neg (show ¬ secs (now.toNat - share.read.ts.toNat) > shareRetention from
      secs_le_retention (recent share among))]
    rfl
  unfold ShareHistory.fromUnixRows
  dsimp only
  rw [times, List.head?_map]
  cases shares.head? <;> rfl

theorem lastDay_recent {worker : String} {now : UInt64} {share : LoggedShare} (among : share ∈ s.lastDay worker now) :
    now.toNat - share.ts.toNat ≤ 86400 := by
  have recent := (of_decide_eq_true (List.mem_filter.mp among).2).2
  omega

/-- The work of a share list as a window adds it up. -/
theorem foldl_saturating (shares : List ShareTime) (sum : Nat) (bound : sum ≤ 2 ^ 64 - 1) :
    shares.foldl (fun sum share => min (sum + share.credited.toNat) (2 ^ 64 - 1)) sum =
      min (sum + (shares.map (·.credited.toNat)).sum) (2 ^ 64 - 1) := by
  induction shares generalizing sum with
  | nil => exact (Nat.min_eq_left bound).symm
  | cons share rest ih =>
    rw [List.foldl_cons, ih _ (Nat.min_le_right _ _), List.map_cons, List.sum_cons]
    omega

theorem elapsed_onClock (now : UInt64) (instant : Instant) (share : LoggedShare) :
    elapsed instant (onClock now instant share).time = secs (now.toNat - share.ts.toNat) := by
  unfold elapsed onClock
  dsimp only
  omega

theorem work_restored {shares : List LoggedShare} {now : UInt64} {instant : Instant} {history : ShareHistory}
    (recent : ∀ share ∈ shares, now.toNat - share.ts.toNat ≤ 86400)
    (restored : history.shareTimes = shares.map (onClock now instant)) (cfg : VardiffConfig) (difficulty : UInt64) (window : Nat) :
    ((((Vardiff.new cfg difficulty instant).restoreShareHistory instant history).workInWindow instant (secs window)).1).toNat =
      min ((shares.filter fun share => decide (now.toNat - share.ts.toNat ≤ window)).map (·.stored.toNat)).sum (2 ^ 64 - 1) := by
  have kept : history.shareTimes.filter (fun share => share.recent instant) = shares.map (onClock now instant) := by
    rw [restored, List.filter_eq_self]
    intro share among
    obtain ⟨logged, isLogged, rfl⟩ := List.mem_map.mp among
    unfold ShareTime.recent
    rw [elapsed_onClock]
    exact decide_eq_true (Nat.not_lt.mp (secs_le_retention (recent logged isLogged)))
  have inside : (shares.map (onClock now instant)).filter (fun share => decide (elapsed instant share.time ≤ secs window)) =
      (shares.filter fun share => decide (now.toNat - share.ts.toNat ≤ window)).map (onClock now instant) := by
    rw [List.filter_map]
    congr 1
    apply List.filter_congr
    intro share _
    apply decide_eq_decide.mpr
    rw [elapsed_onClock]
    unfold secs
    omega
  unfold Vardiff.workInWindow Vardiff.restoreShareHistory Vardiff.new
  dsimp only
  rw [kept, List.append_nil, inside, foldl_saturating _ 0 (Nat.zero_le _), Nat.zero_add, List.map_map,
    UInt64.toNat_ofNat_of_lt' (Nat.lt_of_le_of_lt (Nat.min_le_right _ _) (by decide))]
  rfl

/-- A worker that comes back after restarts, with no record parked in memory, gets a record of each of its committed
shares of the last 24 hours once, in their order and at their age, and a new session's windows add up just these. Of the
shares offered to the log every one is committed once, still waits, or was lost: to a full buffer, a failed transaction,
a restart, or for want of a store. -/
theorem restart_rebuilds_windows {db : Option Database} (blank : ∀ d ∈ db, d.shareLog = []) {booted : UInt64}
    (reached : Reach step Always (boot db booted) s) (worker : String) (now : UInt64) (instant : Instant)
    (stored : s.stats.store.isSome = true) (unparked : s.stats.workerShareHistory worker = none) (later : s.clock ≤ now)
    (dated : now.toNat < 2 ^ 63) :
    (s.stats.takeShareHistory worker now instant).1 = (s.lastDay worker now).head?.map (fun first =>
      { shareTimes := (s.lastDay worker now).map (onClock now instant), startedAt := (onClock now instant first).time }) ∧
    (∀ history, (s.stats.takeShareHistory worker now instant).1 = some history → ∀ cfg difficulty window,
      ((((Vardiff.new cfg difficulty instant).restoreShareHistory instant history).workInWindow instant (secs window)).1).toNat =
        min (((s.lastDay worker now).filter fun share => decide (now.toNat - share.ts.toNat ≤ window)).map
          (·.stored.toNat)).sum (2 ^ 64 - 1)) ∧
    (s.written ++ s.stats.pendingShares ++ s.lost).Perm s.offered := by
  have kept := reach_kept blank reached
  obtain ⟨d, isStore⟩ := Option.isSome_iff_exists.mp stored
  have taken : (s.stats.takeShareHistory worker now instant).1 = (s.lastDay worker now).head?.map (fun first =>
      { shareTimes := (s.lastDay worker now).map (onClock now instant), startedAt := (onClock now instant first).time }) := by
    unfold PoolStats.takeShareHistory
    rw [unparked, isStore]
    dsimp only [Option.bind_some]
    rw [getShares_eq kept isStore worker later dated, fromUnixRows_read fun share => lastDay_recent]
  refine ⟨taken, fun history got cfg difficulty window => ?_, kept.conserved⟩
  rw [taken] at got
  obtain ⟨first, _, rfl⟩ := Option.map_eq_some_iff.mp got
  exact work_restored (fun share => lastDay_recent) rfl cfg difficulty window

/-! ### A worker that comes back -/

/-- The second batch is lost with its transaction, the last share with the process; the first share is too old by then. -/
def returns : List Event :=
  [.log "miner" 512 1700000000 (some 0), .flush 1700000005 true,
   .log "miner" 1024 1700050000 (some 1), .log "other" 64 1700050001 (some 2), .flush 1700050005 true,
   .log "miner" 2048 1700060000 (some 3), .flush 1700060005 false,
   .log "miner" 4096 1700070000 (some 4), .restart 1700090000]

theorem restart_rebuilds_windows_miner :
    ∃ s, Reach step Always (boot (some .create) 1700000000) s ∧ ∃ history,
      (s.stats.takeShareHistory "miner" 1700090000 0).1 = some history ∧
        history.shareTimes.map (·.serial) = [some 1] ∧
        ((((Vardiff.new exampleConfig.vardiff 1 0).restoreShareHistory 0 history).workInWindow 0 (secs 43200)).1).toNat = 1024 := by
  obtain ⟨s, reached, stored, unparked, clock, day⟩ : ∃ s, Reach step Always (boot (some .create) 1700000000) s ∧
      s.stats.store.isSome = true ∧ s.stats.workerShareHistory "miner" = none ∧ s.clock = 1700090000 ∧
      s.lastDay "miner" 1700090000 = [{ worker := "miner", ts := 1700050000, credited := 1024, serial := some 1 }] :=
    Reach.of_run returns (by decide +kernel)
  obtain ⟨taken, work, _⟩ := restart_rebuilds_windows (by rintro d ⟨⟩; rfl) reached "miner" 1700090000 0
    stored unparked (by rw [clock]; exact UInt64.le_refl _) (by decide)
  rw [day] at taken
  refine ⟨s, reached, _, taken, rfl, ?_⟩
  rw [work _ taken, day]
  decide

end ShareLog

end SoloPool.Stats
