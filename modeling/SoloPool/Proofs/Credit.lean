import SoloPool.Proofs.Server
import SoloPool.Proofs.ShareSet

/-!
# One credit for one proof of work

A session's share set forgets its hashes at every clean job. From then on only the stale check keeps an old share out,
and it looks at the job the share names, not at the work: a live job that can rebuild an old header takes the share again.
-/

namespace SoloPool
open Lib

/-! ### The share set between two clears -/

namespace ShareSet

variable {set : ShareSet} {hashes : List Hash} {hash : Hash}

theorem clear_maxSize (set : ShareSet) : set.clear.maxSize = set.maxSize := rfl

theorem insert_seen (holds : set.seen = hashes.toFinset) (room : hashes.length < set.maxSize) :
    (set.insert hash).seen = (hashes ++ [hash]).toFinset := by
  have few : set.seen.card < set.maxSize := by
    have bound := List.toFinset_card_le hashes
    rw [← holds] at bound
    omega
  have grown : (hashes ++ [hash]).toFinset = Insert.insert hash set.seen := by
    rw [List.toFinset_append, holds, Finset.union_comm]
    rfl
  unfold insert
  by_cases known : set.contains hash = true
  · rw [if_pos known, grown]
    exact (Finset.insert_eq_of_mem (of_decide_eq_true known)).symm
  · rw [if_neg known, if_neg (Nat.not_le.mpr few), grown]

end ShareSet

/-! ### Headers that a job can rebuild -/

section
variable {c : Crates}

/-- The version bits and the extranonce that the session may bring to a share, now or later: the mask of an SV1 session
only narrows, and an SV2 session may open its channel again. -/
def Client.MayBring : Client → ShareParams → Bytes → Prop
  | .sv1 s, params, extranonce1 => extranonce1 = s.extranonce1 ∧
      (params.versionBits = none ∨
        ∃ mask, params.versionRollingMask = some mask ∧ mask &&& s.versionRollingMask = mask)
  | .sv2 s, params, extranonce1 => params.versionRollingMask = some versionRollingMask ∧
      (extranonce1 = s.extranoncePrefix ∨
        ∃ counter granted, 1 ≤ granted ∧ extranonce1 = generateExtranonce1 counter (s.extranonceTotal - granted))

/-- A submission of the session on the job can have the coinbase and the header of the credited share. -/
def Rebuilds (c : Crates) (client : Client) (job : StratumJob) (k : Credit) : Prop :=
  ∃ params extranonce1 work, client.MayBring params extranonce1 ∧ reconstruct c params job extranonce1 = .ok work ∧
    reconstruct c k.params k.job k.extranonce1 = .ok work

def Backed (c : Crates) (k : Credit) : Prop :=
  ∃ work, reconstruct c k.params k.job k.extranonce1 = .ok work ∧ k.result.hash = doubleSha256 c work.2.toList

/-- A submission with the hash of a credited share is the same work: SHA-256 does not collide on them. -/
def NoCollision (c : Crates) (credits : List Credit) (extranonce1 : Bytes) (submitted : ShareParams × StratumJob) : Prop :=
  ∀ work, reconstruct c submitted.1 submitted.2 extranonce1 = .ok work →
    ∀ k ∈ credits, ∀ credited, reconstruct c k.params k.job k.extranonce1 = .ok credited →
      doubleSha256 c work.2.toList = doubleSha256 c credited.2.toList → work = credited

instance (credits : List Credit) (extranonce1 : Bytes) (submitted : ShareParams × StratumJob) :
    Decidable (NoCollision c credits extranonce1 submitted) := by
  unfold NoCollision
  infer_instance

theorem judge_hash {job : StratumJob} {coinbase : Bytes} {header : Octets 80} {difficulty : UInt64}
    {result : ShareResult} (judged : judge c job coinbase header difficulty = .ok result) :
    result.hash = doubleSha256 c header.toList := by
  unfold judge at judged
  dsimp only at judged
  split at judged
  · obtain rfl := Outcome.ok.inj judged
    rfl
  · split at judged
    · obtain rfl := Outcome.ok.inj judged
      rfl
    · cases judged

theorem validated_work {job : StratumJob} {params : ShareParams} {entry : JobEntry} {extranonce1 : Bytes}
    {difficulty : UInt64} {result : ShareResult}
    (valid : validateShareNoDedup c params job entry extranonce1 difficulty = .ok result) :
    entry.supersededByClean = false ∧
      ∃ work, reconstruct c params job extranonce1 = .ok work ∧ result.hash = doubleSha256 c work.2.toList := by
  rw [validateShareNoDedup_eq] at valid
  split at valid
  · cases valid
  · rename_i current
    obtain ⟨_, _, valid⟩ := Outcome.bind_ok.mp valid
    obtain ⟨work, rebuilt, judged⟩ := Outcome.bind_ok.mp valid
    exact ⟨Bool.eq_false_iff.mpr current, work, rebuilt, judge_hash judged⟩

theorem buildHeader_prev {version : UInt32} {prevHash : String} {root : Hash} {ntime : UInt32} {bits : String}
    {nonce : UInt32} {header : Octets 80} (built : buildHeader version prevHash root ntime bits nonce = .ok header) :
    hexDecode prevHash = .ok (swapWords ((header.toList.drop 4).take 32)) := by
  unfold buildHeader at built
  dsimp only at built
  split at built
  · rename_i bytes decoded
    rw [pure_bind] at built
    obtain ⟨prev, copied, built⟩ := Outcome.bind_ok.mp built
    obtain ⟨compact, _, built⟩ := Outcome.bind_ok.mp built
    obtain rfl := Outcome.ok.inj built
    have field : ((headerBytes version prev root ntime compact nonce).toList.drop 4).take 32 = prev.toList := by
      simp only [headerBytes, List.append_assoc]
      rw [List.drop_left' (length_leBytes _ _), List.take_left' prev.length_toList]
    rw [field, Octets.copyFrom_ok.mp copied, swapWords_swapWords, decoded]
  · cases built

theorem reconstruct_prev {params : ShareParams} {job : StratumJob} {extranonce1 : Bytes} {work : Bytes × Octets 80}
    (rebuilt : reconstruct c params job extranonce1 = .ok work) :
    hexDecode job.prevHash = .ok (swapWords ((work.2.toList.drop 4).take 32)) := by
  unfold reconstruct at rebuilt
  obtain ⟨coinbase, _, rebuilt⟩ := Outcome.bind_ok.mp rebuilt
  obtain ⟨version, _, rebuilt⟩ := Outcome.bind_ok.mp rebuilt
  obtain ⟨header, built, rebuilt⟩ := Outcome.bind_ok.mp rebuilt
  obtain rfl := Outcome.ok.inj rebuilt
  exact buildHeader_prev built

theorem Rebuilds.same_tip {client : Client} {job : StratumJob} {k : Credit} (again : Rebuilds c client job k) :
    hexDecode job.prevHash = hexDecode k.job.prevHash := by
  obtain ⟨params, extranonce1, work, _, rebuilt, credited⟩ := again
  rw [reconstruct_prev rebuilt, reconstruct_prev credited]

end

/-! ### What a session may bring -/

namespace Client

variable {e : Engine} {counters : Sv2.Counters} {client : Client} {request : Request} {params : ShareParams}
  {extranonce1 : Bytes}

theorem submission_mayBring {job : StratumJob} (submitted : client.submission e request = some (params, job)) :
    client.MayBring params client.extranonce := by
  cases client with
  | sv1 s =>
    cases request with
    | submit submit =>
      obtain ⟨entry, _, same⟩ := Option.map_eq_some_iff.mp submitted
      obtain ⟨rfl, _⟩ := Prod.mk.inj same
      refine ⟨rfl, ?_⟩
      unfold Session.shareParams
      cases s.versionRollingEnabled with
      | false => exact .inl rfl
      | true => exact .inr ⟨_, rfl, UInt32.and_self⟩
    | _ => cases submitted
  | sv2 s =>
    cases request with
    | submitExtended submit =>
      obtain ⟨entry, _, same⟩ := Option.map_eq_some_iff.mp submitted
      obtain ⟨rfl, _⟩ := Prod.mk.inj same
      exact ⟨rfl, .inl rfl⟩
    | _ => cases submitted

theorem cacheJob_mayBring {current : Option StratumJob} (brings : (client.cacheJob current).MayBring params extranonce1) :
    client.MayBring params extranonce1 := by
  cases client <;> cases current <;> exact brings

theorem handleBroadcast_mayBring {b : JobBroadcast}
    (brings : (client.handleBroadcast counters b).client.MayBring params extranonce1) :
    client.MayBring params extranonce1 := by
  cases client with
  | sv1 s =>
    simp only [handleBroadcast, Session.handleBroadcast_eq] at brings
    exact brings
  | sv2 s =>
    obtain ⟨_, _, _, _, frame⟩ := s.handleBroadcast_frame b
    dsimp only [handleBroadcast] at brings
    rw [frame] at brings
    exact brings

theorem configure_mayBring {s : Session} (wanted : ConfigureParams)
    (brings : (Client.sv1 (s.handleConfigure wanted).2).MayBring params extranonce1) :
    (Client.sv1 s).MayBring params extranonce1 := by
  unfold Session.handleConfigure at brings
  dsimp only at brings
  split at brings
  · refine ⟨brings.1, brings.2.imp id ?_⟩
    rintro ⟨mask, same, inside⟩
    refine ⟨mask, same, ?_⟩
    cases asked : wanted.versionRollingMask with
    | none => simpa [asked] using inside
    | some bits =>
      have narrowed : mask &&& (bits &&& s.versionRollingMask) = mask := by simpa [asked] using inside
      rw [← narrowed, UInt32.and_assoc, UInt32.and_assoc, UInt32.and_self]
  · exact brings

/-- A request narrows the mask, draws another prefix of a width that leaves the device a byte, or leaves both alone. -/
theorem handle_mayBring {c : Crates} {served : Served} (handled : client.handle c e counters request = some served)
    (brings : served.client.MayBring params extranonce1) : client.MayBring params extranonce1 := by
  cases client with
  | sv1 s =>
    cases request with
    | configure wanted =>
      obtain rfl := Option.some.inj handled
      exact configure_mayBring wanted brings
    | subscribe =>
      obtain rfl := Option.some.inj handled
      exact brings
    | authorize name =>
      simp only [handle] at handled
      obtain rfl := Option.some.inj handled
      rcases s.handleAuthorize_cases e.currentJob name with ⟨_, _, eq, _⟩ | ⟨_, _, _, _, eq, _⟩ <;> rw [eq] at brings <;>
        exact brings
    | submit submit =>
      obtain ⟨guard, shareSet, after⟩ := s.handleSubmit_frame c e submit
      simp only [handle] at handled
      obtain rfl := Option.some.inj handled
      rw [after] at brings
      exact brings
    | _ => cases handled
  | sv2 s =>
    cases request with
    | setupConnection setup =>
      simp only [handle, Sv2.Session.handleSetupConnection] at handled
      split at handled
      · obtain rfl := Option.some.inj handled
        exact brings
      · split at handled
        · obtain rfl := Option.some.inj handled
          exact brings
        · split at handled <;> obtain rfl := Option.some.inj handled <;> exact brings
    | openExtended request =>
      simp only [handle] at handled
      obtain rfl := Option.some.inj handled
      rcases s.handleOpenExtended_cases counters request with
        ⟨_, _, eq, _⟩ | ⟨_, granted, _, positive, _, _, _, eq, opened, _⟩ <;> rw [eq] at brings
      · exact brings
      · have drawn : params.versionRollingMask = some versionRollingMask ∧
            (extranonce1 = generateExtranonce1 counters.extranonce1 (s.extranonceTotal - granted) ∨
              ∃ counter granted, 1 ≤ granted ∧
                extranonce1 = generateExtranonce1 counter (s.extranonceTotal - granted)) := by
          rcases opened with rfl | ⟨_, rfl⟩ <;> exact brings
        exact ⟨drawn.1, .inr (drawn.2.elim (fun same => ⟨_, granted, positive, same⟩) id)⟩
    | submitExtended submit =>
      obtain ⟨guard, shareSet, after⟩ := s.handleSubmit_frame c e submit
      simp only [handle] at handled
      obtain rfl := Option.some.inj handled
      rw [after] at brings
      exact brings
    | _ => cases handled

end Client

/-! ### Live jobs -/

/-- The entries of a history that no clean one follows: the jobs on which shares are not stale. -/
def liveEntries : List JobEntry → List JobEntry
  | [] => []
  | entry :: rest => if rest.any (·.clean) then liveEntries rest else entry :: liveEntries rest

theorem mem_liveEntries {history : List JobEntry} {entry : JobEntry} :
    entry ∈ liveEntries history ↔
      ∃ before after, history = before ++ entry :: after ∧ after.any (·.clean) = false := by
  induction history with
  | nil => simp [liveEntries]
  | cons head rest ih =>
    have deeper : (∃ before after, rest = before ++ entry :: after ∧ after.any (·.clean) = false) →
        ∃ before after, head :: rest = before ++ entry :: after ∧ after.any (·.clean) = false := by
      rintro ⟨before, after, rfl, unclean⟩
      exact ⟨head :: before, after, rfl, unclean⟩
    unfold liveEntries
    constructor
    · intro member
      split at member
      · exact deeper (ih.mp member)
      · rename_i unclean
        rcases List.mem_cons.mp member with rfl | member
        · exact ⟨[], rest, rfl, Bool.eq_false_iff.mpr unclean⟩
        · exact deeper (ih.mp member)
    · rintro ⟨before, after, split, unclean⟩
      cases before with
      | nil =>
        obtain ⟨rfl, rfl⟩ := List.cons.inj split
        rw [if_neg (Bool.eq_false_iff.mp unclean)]
        exact List.mem_cons_self
      | cons _ before =>
        obtain ⟨rfl, rfl⟩ := List.cons.inj split
        have member := ih.mpr ⟨before, after, rfl, unclean⟩
        split
        · exact member
        · exact List.mem_cons_of_mem _ member

theorem findJob_live {e : Engine} {jobId : String} {entry : JobEntry} (found : e.findJob jobId = some entry)
    (current : entry.supersededByClean = false) : ∃ live ∈ liveEntries e.jobHistory, live.job = entry.job := by
  obtain ⟨before, hit, after, split, _, _, rfl⟩ := findJob_eq_some.mp found
  exact ⟨hit, mem_liveEntries.mpr ⟨before, after, split, current⟩, rfl⟩

theorem liveEntries_pushBounded {depth : Nat} {history : List JobEntry} {entry pushed : JobEntry}
    (live : entry ∈ liveEntries (pushBounded depth history pushed)) :
    entry = pushed ∨ entry ∈ liveEntries history := by
  obtain ⟨before, after, split, unclean⟩ := mem_liveEntries.mp live
  rcases concat_eq_append_cons split with ⟨rfl, _⟩ | ⟨rest, rfl, window⟩
  · exact .inl rfl
  · right
    obtain ⟨dropped, whole⟩ := makeRoom_suffix depth history
    rw [List.any_append, Bool.or_eq_false_iff] at unclean
    refine mem_liveEntries.mpr ⟨dropped ++ before, rest, ?_, unclean.1⟩
    rw [← whole, window, List.append_assoc]

/-! ### What a session has credited -/

namespace Server

variable {d : Deployment} {s : Server d} {settings : RuntimeSettings} {i : Nat}

/-- Fewer than 4096 shares have counted since the share set of session `i` was cleared. -/
def FewShares (i : Nat) (s : Server d) : Action → Prop
  | .request j _ => j = i → ∀ conn ∈ s.connections i, conn.credits.length < conn.cleared + 4096
  | _ => True

def CollisionFree (i : Nat) (s : Server d) : Action → Prop
  | .request j request => j = i → ∀ conn ∈ s.connections i,
      ∀ submitted ∈ conn.client.submission s.refreshes.engine request,
        NoCollision d.crates conn.credits conn.client.extranonce submitted
  | _ => True

/-- A pushed job cannot rebuild what session `i` credited before its last clear, and at a clear no live job can rebuild
what it credited at all. -/
def RetiresWork (i : Nat) (s : Server d) : Action → Prop
  | .engine (.push t) => ∀ conn ∈ s.connections i, ∀ next ∈ Refreshes.unsent (s.refreshes.tasks t),
      ∀ k ∈ conn.credits.take conn.cleared, ¬ Rebuilds d.crates conn.client next.minted.job k
  | .recv j => j = i → ∀ conn ∈ s.connections i, ∀ b ∈ conn.queue.head?, b.clean = true →
      ∀ k ∈ conn.credits, ∀ entry ∈ liveEntries s.refreshes.engine.jobHistory,
        ¬ Rebuilds d.crates conn.client entry.job k
  | _ => True

def CountsWork (i : Nat) (s : Server d) (a : Action) : Prop := FewShares i s a ∧ CollisionFree i s a ∧ RetiresWork i s a

/-- The share set holds the hashes since the last clear, and no live job can rebuild the shares before it. -/
structure Ledger (c : Crates) (history : List JobEntry) (conn : Connection) : Prop where
  capacity : conn.client.shareSet.maxSize = 4096
  seen : conn.client.shareSet.seen = ((conn.credits.drop conn.cleared).map (·.result.hash)).toFinset
  cleared_le : conn.cleared ≤ conn.credits.length
  backed : ∀ k ∈ conn.credits, Backed c k
  retired : ∀ k ∈ conn.credits.take conn.cleared, ∀ entry ∈ liveEntries history, ¬ Rebuilds c conn.client entry.job k
  distinct : (conn.credits.map (·.result.hash)).Nodup

variable {c : Crates} {history : List JobEntry} {conn : Connection}

def BringsNoMore (conn conn' : Connection) : Prop :=
  ∀ params extranonce1, conn'.client.MayBring params extranonce1 → conn.client.MayBring params extranonce1

theorem BringsNoMore.rebuilds {conn' : Connection} (brings : BringsNoMore conn conn') {job : StratumJob} {k : Credit}
    (again : Rebuilds c conn'.client job k) : Rebuilds c conn.client job k := by
  obtain ⟨params, extranonce1, work, may, rebuilt⟩ := again
  exact ⟨params, extranonce1, work, brings params extranonce1 may, rebuilt⟩

theorem Ledger.frame {conn' : Connection} (ledger : Ledger c history conn) (brings : BringsNoMore conn conn')
    (set : conn'.client.shareSet = conn.client.shareSet) (credits : conn'.credits = conn.credits)
    (cleared : conn'.cleared = conn.cleared) : Ledger c history conn' where
  capacity := by rw [set, ledger.capacity]
  seen := by rw [set, credits, cleared, ledger.seen]
  cleared_le := by rw [credits, cleared]; exact ledger.cleared_le
  backed := by rw [credits]; exact ledger.backed
  retired := by
    rw [credits, cleared]
    exact fun k before entry live again => ledger.retired k before entry live (brings.rebuilds again)
  distinct := by rw [credits]; exact ledger.distinct

theorem Ledger.pushed {entry : JobEntry} (ledger : Ledger c history conn)
    (fresh : ∀ k ∈ conn.credits.take conn.cleared, ¬ Rebuilds c conn.client entry.job k) :
    Ledger c (pushBounded jobHistoryDepth history entry) conn := by
  refine { ledger with retired := ?_ }
  intro k before e live
  rcases liveEntries_pushBounded live with rfl | live
  · exact fresh k before
  · exact ledger.retired k before e live

theorem Ledger.cleared {conn' : Connection} (ledger : Ledger c history conn) (brings : BringsNoMore conn conn')
    (set : conn'.client.shareSet = conn.client.shareSet.clear) (credits : conn'.credits = conn.credits)
    (cleared : conn'.cleared = conn.credits.length)
    (fresh : ∀ k ∈ conn.credits, ∀ entry ∈ liveEntries history, ¬ Rebuilds c conn.client entry.job k) :
    Ledger c history conn' where
  capacity := by rw [set, ShareSet.clear_maxSize, ledger.capacity]
  seen := by rw [set, credits, cleared, List.drop_length]; rfl
  cleared_le := by rw [credits, cleared]
  backed := by rw [credits]; exact ledger.backed
  retired := by
    rw [credits, cleared, List.take_length]
    exact fun k before entry live again => fresh k before entry live (brings.rebuilds again)
  distinct := by rw [credits]; exact ledger.distinct

theorem Ledger.fresh {e : Engine} {jobId : String} {entry : JobEntry} {params : ShareParams} {extranonce1 : Bytes}
    {difficulty : UInt64} {result : ShareResult} (ledger : Ledger c e.jobHistory conn)
    (may : conn.client.MayBring params extranonce1)
    (found : e.findJob jobId = some entry)
    (valid : validateShareNoDedup c params entry.job entry extranonce1 difficulty = .ok result)
    (unseen : conn.client.shareSet.contains result.hash = false)
    (apart : NoCollision c conn.credits extranonce1 (params, entry.job)) :
    ∀ k ∈ conn.credits, k.result.hash ≠ result.hash := by
  obtain ⟨current, work, rebuilt, hash⟩ := validated_work valid
  obtain ⟨live, alive, job⟩ := findJob_live found current
  intro k member same
  rw [← List.take_append_drop conn.cleared conn.credits] at member
  rcases List.mem_append.mp member with before | since
  · obtain ⟨credited, rebuiltOnce, hashOnce⟩ := ledger.backed k (List.mem_of_mem_take before)
    have equal : work = credited :=
      apart work rebuilt k (List.mem_of_mem_take before) credited rebuiltOnce (by rw [← hash, ← hashOnce, same])
    subst equal
    exact ledger.retired k before live alive ⟨params, extranonce1, work, may, by rw [job]; exact rebuilt, rebuiltOnce⟩
  · have held : result.hash ∈ conn.client.shareSet.seen := by
      rw [ledger.seen, List.mem_toFinset, ← same]
      exact List.mem_map_of_mem since
    exact of_decide_eq_false unseen held

theorem Ledger.credited {conn' : Connection} {k : Credit} (ledger : Ledger c history conn)
    (brings : BringsNoMore conn conn') (set : conn'.client.shareSet = conn.client.shareSet.insert k.result.hash)
    (credits : conn'.credits = conn.credits ++ [k]) (cleared : conn'.cleared = conn.cleared)
    (few : conn.credits.length < conn.cleared + 4096) (backed : Backed c k)
    (fresh : ∀ old ∈ conn.credits, old.result.hash ≠ k.result.hash) : Ledger c history conn' where
  capacity := by rw [set, ShareSet.insert_maxSize, ledger.capacity]
  seen := by
    have room : ((conn.credits.drop conn.cleared).map (·.result.hash)).length < conn.client.shareSet.maxSize := by
      rw [List.length_map, List.length_drop, ledger.capacity]
      omega
    rw [set, credits, cleared, ShareSet.insert_seen ledger.seen room, List.drop_append_of_le_length ledger.cleared_le,
      List.map_append]
    rfl
  cleared_le := by
    have before := ledger.cleared_le
    rw [credits, cleared, List.length_append]
    omega
  backed := by
    intro old member
    rw [credits] at member
    rcases List.mem_append.mp member with member | last
    · exact ledger.backed old member
    · rw [List.mem_singleton.mp last]
      exact backed
  retired := by
    rw [credits, cleared, List.take_append_of_le_length ledger.cleared_le]
    exact fun old before entry live again => ledger.retired old before entry live (brings.rebuilds again)
  distinct := by
    rw [credits, List.map_append, List.nodup_append]
    refine ⟨ledger.distinct, List.nodup_singleton _, ?_⟩
    intro hash member last isLast
    obtain ⟨old, among, rfl⟩ := List.mem_map.mp member
    rw [List.mem_singleton.mp isLast]
    exact fresh old among

@[simp] theorem enqueue_credits (conn : Connection) (sent : List JobBroadcast) :
    (conn.enqueue sent).credits = conn.credits := by
  unfold Connection.enqueue
  split <;> rfl

@[simp] theorem enqueue_cleared (conn : Connection) (sent : List JobBroadcast) :
    (conn.enqueue sent).cleared = conn.cleared := by
  unfold Connection.enqueue
  split <;> rfl

theorem cacheJob_shareSet (client : Client) (current : Option StratumJob) :
    (client.cacheJob current).shareSet = client.shareSet := by
  cases client <;> cases current <;> rfl

theorem accepted_ledger (cfg : Config) (extranonce1 : Bytes) (sv2 : Bool) (drawn : Nat) :
    Ledger c history (.accepted cfg extranonce1 sv2 drawn) where
  capacity := by cases sv2 <;> rfl
  seen := by cases sv2 <;> rfl
  cleared_le := Nat.le_refl 0
  backed := nofun
  retired := nofun
  distinct := List.nodup_nil

theorem reach_ledger (reached : Reach step (CountsWork i) (start settings) s) {conn : Connection}
    (live : s.connections i = some conn) : Ledger d.crates s.refreshes.engine.jobHistory conn := by
  refine reach_connection i (fun s conn => Ledger d.crates s.refreshes.engine.jobHistory conn) ?_ ?_ ?_ ?_ ?_ ?_ ?_
    reached conn live
  · intro s t conn same _ ledger
    rw [same]
    exact ledger
  · intro s a t conn _ meets was ledger taken _
    have kept : Ledger d.crates t.refreshes.engine.jobHistory conn := by
      rcases Refreshes.step_published taken with quiet | ⟨_, _, _, _, _, _, next⟩ |
        ⟨task, caller, minted, clean, setAt, rfl, set, next⟩ | ⟨_, _, _, _, _, _, _, next⟩
      · rw [quiet.history]
        exact ledger
      · rw [next]
        exact ledger
      · rw [next]
        refine ledger.pushed (meets.2.2 conn was { minted, clean, setAt, pushed := false } ?_)
        rw [set]
        rfl
      · rw [next]
        exact ledger
    exact kept.frame (by rw [BringsNoMore, enqueue_client]; exact fun _ _ => id) (by rw [enqueue_client])
      (enqueue_credits ..) (enqueue_cleared ..)
  · intro s sv2 _
    exact accepted_ledger ..
  · intro s conn _ ledger
    exact ledger.frame (fun _ _ => id) rfl rfl rfl
  · intro s conn _ _ ledger
    exact ledger.frame (fun _ _ => Client.cacheJob_mayBring) (cacheJob_shareSet ..) rfl rfl
  · intro s conn b rest _ meets was _ queued ledger _
    obtain ⟨set, _⟩ := Client.handleBroadcast_spec d.config (rfl : conn.client.handleBroadcast s.counters b = _)
    have brings : BringsNoMore conn (conn.received b rest (conn.client.handleBroadcast s.counters b)) :=
      fun _ _ => Client.handleBroadcast_mayBring
    cases clean : b.clean with
    | false =>
      rw [clean] at set
      exact ledger.frame brings set rfl (by simp only [Connection.received, clean]; rfl)
    | true =>
      rw [clean] at set
      refine ledger.cleared brings set rfl (by simp only [Connection.received, clean]; rfl) ?_
      exact meets.2.2 rfl conn was b (by rw [queued]; rfl) clean
  · intro s conn request served before meets was _ ledger handled _
    have spec := Client.handle_spec (reach_wellFormed before was) handled
    have brings : ∀ drawn, BringsNoMore conn (conn.answered served drawn) := fun _ _ _ => Client.handle_mayBring handled
    rcases spec.shares with ⟨none, kept⟩ | ⟨jobId, entry, params, difficulty, result, found, submitted, valid, unseen,
      credit, inserted⟩
    · refine ledger.frame (brings _) kept ?_ rfl
      rw [Connection.answered, none]
      exact List.append_nil _
    · obtain ⟨_, work, rebuilt, hash⟩ := validated_work valid
      refine ledger.credited (k := { params, job := entry.job, extranonce1 := conn.client.extranonce, result }) (brings _)
        inserted ?_ rfl (meets.1 rfl conn was) ⟨work, rebuilt, hash⟩ ?_
      · rw [Connection.answered, credit]
        rfl
      · exact ledger.fresh (Client.submission_mayBring submitted) found valid unseen
          (meets.2.1 rfl conn was (params, entry.job) submitted)

/-! ### Tips that move -/

/-- Where `RetiresWork` asks for work that is not rebuilt, the jobs are on another tip. -/
def MovesTip (i : Nat) (s : Server d) : Action → Prop
  | .engine (.push t) => ∀ conn ∈ s.connections i, ∀ next ∈ Refreshes.unsent (s.refreshes.tasks t),
      ∀ k ∈ conn.credits.take conn.cleared, hexDecode next.minted.job.prevHash ≠ hexDecode k.job.prevHash
  | .recv j => j = i → ∀ conn ∈ s.connections i, ∀ b ∈ conn.queue.head?, b.clean = true →
      ∀ k ∈ conn.credits, ∀ entry ∈ liveEntries s.refreshes.engine.jobHistory,
        hexDecode entry.job.prevHash ≠ hexDecode k.job.prevHash
  | _ => True

theorem MovesTip.retiresWork {a : Action} (moves : MovesTip i s a) : RetiresWork i s a := by
  unfold MovesTip at moves
  unfold RetiresWork
  split
  · intro conn live next unsent k before again
    exact moves conn live next unsent k before again.same_tip
  · intro own conn live b first clean k credited entry alive again
    exact moves own conn live b first clean k credited entry alive again.same_tip
  · trivial

instance (s : Server d) : (a : Action) → Decidable (FewShares i s a)
  | .request _ _ => by dsimp only [FewShares]; infer_instance
  | .engine _ | .connect _ _ | .subscribe _ | .cacheJob _ | .recv _ | .disconnect _ => isTrue trivial

instance (s : Server d) : (a : Action) → Decidable (CollisionFree i s a)
  | .request _ _ => by dsimp only [CollisionFree]; infer_instance
  | .engine _ | .connect _ _ | .subscribe _ | .cacheJob _ | .recv _ | .disconnect _ => isTrue trivial

instance (s : Server d) : (a : Action) → Decidable (MovesTip i s a)
  | .engine (.push _) | .recv _ => by dsimp only [MovesTip]; infer_instance
  | .engine (.enter _) | .engine (.post _ _ _) | .engine (.save _ _) | .engine (.readAddress _) | .engine (.fetch _ _)
  | .engine (.build _) | .engine (.set _) | .engine (.broadcast _) | .engine (.respond _)
  | .connect _ _ | .subscribe _ | .cacheJob _ | .request _ _ | .disconnect _ => isTrue trivial

/-! ### No credit twice -/

/-- In a run that retires work before it forgets it, no header hash counts twice in session `i`. -/
theorem credited_once (reached : Reach step (CountsWork i) (start settings) s) {conn : Connection}
    (live : s.connections i = some conn) : (conn.credits.map (·.result.hash)).Nodup :=
  (reach_ledger reached live).distinct

def submits (id : Nat) (jobId : String) (nonce : UInt32) : Action :=
  .request id (.submit { jobId, extranonce2 := [0, 0, 0, 7], ntime := 1700000000, nonce, versionBits := none })

theorem credited_once_new_tip :
    ∃ s : Server testDeployment, Reach step (CountsWork 0) (start testSettings) s ∧
      ∃ conn, s.connections 0 = some conn ∧ conn.credits.length = 2 ∧ conn.cleared = 1 ∧
        (conn.credits.map (·.result.hash)).Nodup := by
  obtain ⟨s, moving, conn, live, two, forgotten⟩ : ∃ s : Server testDeployment,
      Reach step (fun s a => FewShares 0 s a ∧ CollisionFree 0 s a ∧ MovesTip 0 s a) (start testSettings) s ∧
      ∃ conn ∈ s.connections 0, conn.credits.length = 2 ∧ conn.cleared = 1 :=
    Reach.of_run (loopRefresh true (testTemplate genesisHash "207fffff") ++ joins 0 false ++ authorizes 0 ++
      [submits 0 "0000000000000001" 0] ++ loopRefresh true (testTemplate Refreshes.nextHash "207fffff") ++
      [.recv 0, submits 0 "0000000000000002" 0]) (by decide +kernel)
  have reached : Reach step (CountsWork 0) (start testSettings) s :=
    moving.mono fun _ _ _ meets => ⟨meets.1, meets.2.1, meets.2.2.retiresWork⟩
  exact ⟨s, reached, conn, live, two, forgotten, credited_once reached live⟩

/-- The node's template has not changed at a clean refresh: its job takes the share that the one before it took. -/
theorem replayed_share_credited :
    ∃ s : Server testDeployment, Reach step (FewShares 0) (start testSettings) s ∧
      ∃ conn, s.connections 0 = some conn ∧ conn.credits.map (·.job.jobId) = ["0000000000000001", "0000000000000002"] ∧
        ¬ (conn.credits.map (·.result.hash)).Nodup :=
  Reach.of_run (loopRefresh true (testTemplate genesisHash "207fffff") ++ joins 0 false ++ authorizes 0 ++
    [submits 0 "0000000000000001" 0] ++ loopRefresh true (testTemplate genesisHash "207fffff") ++
    [.recv 0, submits 0 "0000000000000002" 0]) (by decide +kernel)

end Server

end SoloPool
