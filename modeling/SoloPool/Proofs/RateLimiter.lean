import Mathlib.Data.List.MinMax
import SoloPool.Security.RateLimiter

/-!
# Admissions of the rate limiter

The limiter forgets timestamps when an address comes back, when `prune` drops its entry and when the map is full, and never
records a refusal. What it holds still agrees with the admissions it has made as far as the last minute goes
(`Tracks`), so its answers are those of the full history.
-/

namespace SoloPool
open Lib

namespace ConnectionRateLimiter

/-! ### One call -/

def stored (rl : ConnectionRateLimiter) (ip : IpAddr) : List Instant := (rl.windows.lookup ip).getD []

/-- The timestamps left of an address's entry by a call at `now`. -/
def evict (least now : Instant) (entry : List Instant) : List Instant :=
  match checkedSub least now (secs 60) with
  | some cutoff => entry.filter fun t => decide (t > cutoff)
  | none => entry

def setEntry (rl : ConnectionRateLimiter) (ip : IpAddr) (entry : List Instant) : ConnectionRateLimiter :=
  { rl with windows := rl.windows.insert ip entry }

/-- The map has no place for an address that is new to it. -/
def isFull (rl : ConnectionRateLimiter) (ip : IpAddr) : Bool :=
  decide (rl.windows.keys.length ≥ rl.maxTracked ∧ ip ∉ rl.windows)

def makeRoom (least : Instant) (rl : ConnectionRateLimiter) (now : Instant) (ip : IpAddr) : ConnectionRateLimiter :=
  if rl.isFull ip then rl.prune least now else rl

theorem prune_limits (least : Instant) (rl : ConnectionRateLimiter) (now : Instant) :
    (rl.prune least now).maxPerMinute = rl.maxPerMinute ∧ (rl.prune least now).maxTracked = rl.maxTracked := by
  unfold prune
  split <;> exact ⟨rfl, rfl⟩

theorem makeRoom_limits (least : Instant) (rl : ConnectionRateLimiter) (now : Instant) (ip : IpAddr) :
    (rl.makeRoom least now ip).maxPerMinute = rl.maxPerMinute ∧ (rl.makeRoom least now ip).maxTracked = rl.maxTracked := by
  unfold makeRoom
  split
  · exact prune_limits least rl now
  · exact ⟨rfl, rfl⟩

/-- What a call does with an address the map has room for. -/
def record (least : Instant) (rl : ConnectionRateLimiter) (now : Instant) (ip : IpAddr) : Bool × ConnectionRateLimiter :=
  if rl.maxPerMinute.toNat ≤ (evict least now (rl.stored ip)).length then
    (false, rl.setEntry ip (evict least now (rl.stored ip)))
  else (true, rl.setEntry ip (evict least now (rl.stored ip) ++ [now]))

theorem checkAndRecord_eq (least : Instant) (rl : ConnectionRateLimiter) (now : Instant) (ip : IpAddr) :
    rl.checkAndRecord least now ip =
      if rl.isFull ip && decide ((rl.makeRoom least now ip).windows.keys.length ≥ (rl.makeRoom least now ip).maxTracked) then
        (false, rl.makeRoom least now ip)
      else (rl.makeRoom least now ip).record least now ip := rfl

/-- A call finds no room for a new address, or it is judged on its own window. -/
theorem checkAndRecord_cases (least : Instant) (rl : ConnectionRateLimiter) (now : Instant) (ip : IpAddr) :
    (ip ∉ rl.windows ∧ rl.maxTracked ≤ (rl.prune least now).windows.keys.length ∧
      rl.checkAndRecord least now ip = (false, rl.prune least now)) ∨
    (((rl.makeRoom least now ip).windows.keys.length < rl.maxTracked ∨ ip ∈ (rl.makeRoom least now ip).windows) ∧
      rl.checkAndRecord least now ip = (rl.makeRoom least now ip).record least now ip) := by
  rw [checkAndRecord_eq, (rl.makeRoom_limits least now ip).2]
  cases full : rl.isFull ip with
  | true =>
    have room : rl.makeRoom least now ip = rl.prune least now := if_pos full
    rw [Bool.true_and, room]
    by_cases still : rl.maxTracked ≤ (rl.prune least now).windows.keys.length
    · exact .inl ⟨(of_decide_eq_true full).2, still, if_pos (decide_eq_true still)⟩
    · exact .inr ⟨.inl (Nat.not_le.mp still), if_neg fun many => still (of_decide_eq_true many)⟩
  | false =>
    have room : rl.makeRoom least now ip = rl := if_neg (by rw [full]; exact Bool.false_ne_true)
    rw [room]
    refine .inr ⟨?_, rfl⟩
    by_cases tracked : ip ∈ rl.windows
    · exact .inr tracked
    · exact .inl (Nat.not_le.mp fun many => of_decide_eq_false full ⟨many, tracked⟩)

/-! ### The stored timestamps and the admissions -/

/-- The limiter after its latest reading of the clock, beside the times at which it admitted each address. -/
structure Tracks (least now : Instant) (rl : ConnectionRateLimiter) (admissions : IpAddr → List Instant) : Prop where
  clock : ∀ ip, ∀ a ∈ admissions ip, least ≤ a ∧ a ≤ now
  recent : ∀ ip (t : Int), now ≤ t → later (t - secs 60) (rl.stored ip) = later (t - secs 60) (admissions ip)
  real : ∀ ip, ∀ a ∈ rl.stored ip, a ∈ admissions ip
  used : ∀ ip ∈ rl.windows, rl.stored ip ≠ []
  paced : ∀ ip, Paced (secs 60) rl.maxPerMinute.toNat (admissions ip)
  bounded : rl.windows.keys.length ≤ rl.maxTracked

section Steps

variable {least now now' : Instant} {rl : ConnectionRateLimiter} {admissions : IpAddr → List Instant}

theorem tracks_new (least now : Instant) (maxPerMinute : UInt32) (maxTracked : Nat) :
    Tracks least now (withCapacityLimit maxPerMinute maxTracked) fun _ => [] :=
  ⟨nofun, fun _ _ _ => rfl, nofun, nofun, fun _ => .nil, Nat.zero_le _⟩

theorem Tracks.tick (tracks : Tracks least now rl admissions) (le : now ≤ now') : Tracks least now' rl admissions :=
  { tracks with
    clock := fun ip a member => ⟨(tracks.clock ip a member).1, (tracks.clock ip a member).2.trans le⟩
    recent := fun ip t later => tracks.recent ip t (le.trans later) }

/-- No instant lies before the first one, so what `checked_sub` cannot cut off is recent. -/
theorem Tracks.evict_eq (tracks : Tracks least now rl admissions) (ip : IpAddr) :
    evict least now (rl.stored ip) = later (now - secs 60) (rl.stored ip) := by
  unfold evict checkedSub
  by_cases cuts : least ≤ now - secs 60
  · rw [if_pos cuts]
    rfl
  · rw [if_neg cuts]
    refine (later_eq_self fun a member => ?_).symm
    exact lt_of_lt_of_le (not_le.mp cuts) (tracks.clock ip a (tracks.real ip a member)).1

/-- What is left of an entry is the address's admissions of the last minute. -/
theorem Tracks.evict_inSpan (tracks : Tracks least now rl admissions) (ip : IpAddr) :
    evict least now (rl.stored ip) = inSpan (secs 60) now (admissions ip) := by
  rw [tracks.evict_eq, tracks.recent ip now le_rfl, later_eq_inSpan fun a member => (tracks.clock ip a member).2]

theorem stored_of_lookup {ip : IpAddr} {times : List Instant} (found : rl.windows.lookup ip = some times) :
    rl.stored ip = times := by
  rw [stored, found, Option.getD_some]

theorem mem_of_stored {ip : IpAddr} (some : rl.stored ip ≠ []) : ip ∈ rl.windows := by
  by_contra absent
  refine some ?_
  rw [stored, AList.lookup_eq_none.mpr absent, Option.getD_none]

/-- Pruning keeps an entry as it is, or drops one with nothing recent in it. -/
theorem stored_prune (least : Instant) (rl : ConnectionRateLimiter) (now : Instant) (ip : IpAddr) :
    (rl.prune least now).stored ip = rl.stored ip ∨
      ((rl.prune least now).stored ip = [] ∧ later (now - secs 60) (rl.stored ip) = []) := by
  unfold prune checkedSub
  by_cases cuts : least ≤ now - secs 60
  · rw [if_pos cuts]
    cases found : rl.windows.lookup ip with
    | none =>
      refine .inl ?_
      simp only [stored, lookup_retain, found, Option.filter_none]
    | some times =>
      rw [stored_of_lookup found]
      simp only [stored, lookup_retain, found, Option.filter_some]
      split
      · exact .inl rfl
      · rename_i stale
        refine .inr ⟨rfl, List.filter_eq_nil_iff.mpr fun a member => ?_⟩
        intro recent
        exact stale (List.any_eq_true.mpr ⟨a, member, recent⟩)
  · rw [if_neg cuts]
    exact .inl rfl

/-- An address that a pruned map still holds was admitted in the last minute. -/
theorem Tracks.recent_of_mem_prune (tracks : Tracks least now rl admissions) {ip : IpAddr}
    (tracked : ip ∈ (rl.prune least now).windows) :
    ∃ a ∈ (rl.prune least now).stored ip, now - secs 60 < a ∧ a ∈ admissions ip := by
  unfold prune checkedSub at tracked ⊢
  by_cases cuts : least ≤ now - secs 60
  · rw [if_pos cuts] at tracked ⊢
    obtain ⟨times, found⟩ := Option.isSome_iff_exists.mp (AList.lookup_isSome.mpr tracked)
    have kept := found
    rw [lookup_retain, Option.filter_eq_some_iff] at kept
    obtain ⟨a, member, recent⟩ := List.any_eq_true.mp kept.2
    rw [stored_of_lookup found]
    refine ⟨a, member, of_decide_eq_true recent, tracks.real ip a ?_⟩
    rwa [stored_of_lookup kept.1]
  · rw [if_neg cuts] at tracked ⊢
    obtain ⟨a, member⟩ := List.exists_mem_of_ne_nil _ (tracks.used ip tracked)
    have admitted := tracks.real ip a member
    exact ⟨a, member, lt_of_lt_of_le (not_le.mp cuts) (tracks.clock ip a admitted).1, admitted⟩

theorem length_keys_prune_le (least : Instant) (rl : ConnectionRateLimiter) (now : Instant) :
    (rl.prune least now).windows.keys.length ≤ rl.windows.keys.length := by
  unfold prune
  split
  · exact le_rfl
  · exact length_retain_le _ _

theorem Tracks.prune (tracks : Tracks least now rl admissions) : Tracks least now (rl.prune least now) admissions := by
  obtain ⟨sameMax, sameTracked⟩ := rl.prune_limits least now
  refine ⟨tracks.clock, fun ip t passed => ?_, fun ip a member => ?_, fun ip tracked => ?_, ?_, ?_⟩
  · rw [← tracks.recent ip t passed]
    obtain same | ⟨dropped, stale⟩ := stored_prune least rl now ip
    · rw [same]
    · rw [dropped, ← later_later (sub_le_sub_right passed _) (rl.stored ip), stale]
  · obtain same | ⟨dropped, -⟩ := stored_prune least rl now ip
    · exact tracks.real ip a (same ▸ member)
    · rw [dropped] at member
      cases member
  · obtain ⟨a, member, -⟩ := tracks.recent_of_mem_prune tracked
    exact List.ne_nil_of_mem member
  · rw [sameMax]
    exact tracks.paced
  · rw [sameTracked]
    exact (length_keys_prune_le least rl now).trans tracks.bounded

theorem Tracks.makeRoom (tracks : Tracks least now rl admissions) (ip : IpAddr) :
    Tracks least now (rl.makeRoom least now ip) admissions := by
  unfold ConnectionRateLimiter.makeRoom
  split
  · exact tracks.prune
  · exact tracks

theorem stored_setEntry (ip ip' : IpAddr) (entry : List Instant) :
    (rl.setEntry ip entry).stored ip' = if ip' = ip then entry else rl.stored ip' := by
  unfold stored setEntry
  by_cases same : ip' = ip
  · subst same
    rw [if_pos rfl, AList.lookup_insert, Option.getD_some]
  · rw [if_neg same, AList.lookup_insert_ne same]

theorem length_keys_setEntry {ip : IpAddr} {bound : Nat} (entry : List Instant) (fits : rl.windows.keys.length ≤ bound)
    (room : rl.windows.keys.length < bound ∨ ip ∈ rl.windows) : (rl.setEntry ip entry).windows.keys.length ≤ bound := by
  unfold setEntry
  rw [AList.keys_insert, List.length_cons]
  by_cases tracked : ip ∈ rl.windows
  · rw [List.length_erase_of_mem (AList.mem_keys.mp tracked)]
    have some := List.length_pos_of_mem (AList.mem_keys.mp tracked)
    omega
  · rw [List.erase_of_not_mem tracked]
    exact Nat.succ_le_of_lt (room.resolve_right tracked)

/-- A judged address keeps its recent timestamps, followed by the reading of the clock when it is admitted. -/
theorem Tracks.setEntry (tracks : Tracks least now rl admissions) (started : least ≤ now) {ip : IpAddr}
    (extra : List Instant) (isNow : ∀ a ∈ extra, a = now)
    (paced : Paced (secs 60) rl.maxPerMinute.toNat (admissions ip ++ extra))
    (some : evict least now (rl.stored ip) ++ extra ≠ [])
    (room : rl.windows.keys.length < rl.maxTracked ∨ ip ∈ rl.windows) :
    Tracks least now (rl.setEntry ip (evict least now (rl.stored ip) ++ extra))
      (Function.update admissions ip (admissions ip ++ extra)) := by
  refine ⟨fun ip' a => ?_, fun ip' t passed => ?_, fun ip' a => ?_, fun ip' tracked => ?_, fun ip' => ?_, ?_⟩
  · by_cases same : ip' = ip
    · subst same
      rw [Function.update_self, List.mem_append]
      rintro (earlier | fresh)
      · exact tracks.clock ip' a earlier
      · rw [isNow a fresh]
        exact ⟨started, le_rfl⟩
    · rw [Function.update_of_ne same]
      exact tracks.clock ip' a
  · rw [stored_setEntry]
    by_cases same : ip' = ip
    · subst same
      rw [if_pos rfl, Function.update_self, later_append, later_append, tracks.evict_eq,
        later_later (sub_le_sub_right passed _), tracks.recent ip' t passed]
    · rw [if_neg same, Function.update_of_ne same, tracks.recent ip' t passed]
  · rw [stored_setEntry]
    by_cases same : ip' = ip
    · subst same
      rw [if_pos rfl, Function.update_self, tracks.evict_eq, List.mem_append, List.mem_append]
      exact Or.imp_left fun kept => tracks.real ip' a (List.mem_of_mem_filter kept)
    · rw [if_neg same, Function.update_of_ne same]
      exact tracks.real ip' a
  · rw [stored_setEntry]
    by_cases same : ip' = ip
    · rwa [if_pos same]
    · rw [if_neg same]
      refine tracks.used ip' ?_
      exact ((AList.mem_insert _).mp tracked).resolve_left same
  · by_cases same : ip' = ip
    · subst same
      rwa [Function.update_self]
    · rw [Function.update_of_ne same]
      exact tracks.paced ip'
  · exact length_keys_setEntry _ tracks.bounded room

theorem record_false {ip : IpAddr} (refused : (rl.record least now ip).1 = false) :
    rl.maxPerMinute.toNat ≤ (evict least now (rl.stored ip)).length := by
  unfold record at refused
  by_contra few
  rw [if_neg few] at refused
  cases refused

/-- A call at an address the map has room for, beside what it admits. -/
theorem Tracks.record (tracks : Tracks least now rl admissions) (started : least ≤ now) (positive : 0 < rl.maxPerMinute)
    {ip : IpAddr} (room : rl.windows.keys.length < rl.maxTracked ∨ ip ∈ rl.windows) :
    Tracks least now (rl.record least now ip).2 (Function.update admissions ip
      (admissions ip ++ if (rl.record least now ip).1 then [now] else [])) := by
  unfold ConnectionRateLimiter.record
  split
  · rename_i full
    have some : evict least now (rl.stored ip) ++ [] ≠ [] := by
      rw [List.append_nil, ← List.length_pos_iff]
      exact lt_of_lt_of_le (UInt32.lt_iff_toNat_lt.mp positive) full
    have next := tracks.setEntry started [] nofun (by rw [List.append_nil]; exact tracks.paced ip) some room
    rwa [List.append_nil (evict least now (rl.stored ip))] at next
  · rename_i few
    rw [tracks.evict_inSpan] at few
    have paced := (tracks.paced ip).add (fun a member => (tracks.clock ip a member).2) (Nat.not_le.mp few)
    refine tracks.setEntry started [now] (fun a member => List.mem_singleton.mp member) paced ?_ room
    exact List.append_ne_nil_of_right_ne_nil _ (List.cons_ne_nil now [])

end Steps

/-! ### Whole runs -/

inductive Call where
  | checkAndRecord (ip : IpAddr)
  | prune

/-- The limiter and the connections it has admitted. -/
structure Gate where
  limiter : ConnectionRateLimiter
  admitted : List (Instant × IpAddr)

namespace Gate

def step (least : Instant) (s : Gate) (call : Instant × Call) : Gate :=
  match call.2 with
  | .prune => { s with limiter := s.limiter.prune least call.1 }
  | .checkAndRecord ip =>
    let (allowed, limiter) := s.limiter.checkAndRecord least call.1 ip
    { limiter, admitted := if allowed then s.admitted ++ [(call.1, ip)] else s.admitted }

def run (least : Instant) (maxPerMinute : UInt32) (maxTracked : Nat) (calls : List (Instant × Call)) : Gate :=
  calls.foldl (step least) ⟨withCapacityLimit maxPerMinute maxTracked, []⟩

def admissions (s : Gate) (ip : IpAddr) : List Instant :=
  (s.admitted.filter fun entry => decide (entry.2 = ip)).map Prod.fst

theorem admissions_append (limiter : ConnectionRateLimiter) (s : Gate) (now : Instant) (ip : IpAddr) :
    admissions ⟨limiter, s.admitted ++ [(now, ip)]⟩ = Function.update s.admissions ip (s.admissions ip ++ [now]) := by
  funext ip'
  unfold admissions
  by_cases same : ip' = ip
  · subst same
    rw [Function.update_self]
    simp
  · rw [Function.update_of_ne same]
    simp [Ne.symm same]

end Gate

/-- Every reading of the clock is one the platform can represent, and none lies before an earlier one. -/
def ClockRuns (least : Instant) (calls : List (Instant × Call)) : Prop :=
  (∀ call ∈ calls, least ≤ call.1) ∧ (calls.map Prod.fst).Pairwise (· ≤ ·)

section Runs

variable {least now now' : Instant} {s : Gate}

theorem step_tracks (tracks : Tracks least now s.limiter s.admissions) (positive : 0 < s.limiter.maxPerMinute)
    (le : now ≤ now') (started : least ≤ now') (call : Call) :
    Tracks least now' (s.step least (now', call)).limiter (s.step least (now', call)).admissions := by
  have ticked := tracks.tick le
  cases call with
  | prune => exact ticked.prune
  | checkAndRecord ip =>
    obtain ⟨-, -, answer⟩ | ⟨room, answer⟩ := s.limiter.checkAndRecord_cases least now' ip
    · simp only [Gate.step, answer]
      exact ticked.prune
    · have limits := s.limiter.makeRoom_limits least now' ip
      rw [← limits.2] at room
      have next := (ticked.makeRoom ip).record started (by rw [limits.1]; exact positive) room
      simp only [Gate.step, answer]
      cases allowed : ((s.limiter.makeRoom least now' ip).record least now' ip).1 with
      | true =>
        rw [if_pos rfl, Gate.admissions_append]
        rwa [allowed, if_pos rfl] at next
      | false =>
        rw [allowed, if_neg Bool.false_ne_true, List.append_nil, Function.update_eq_self] at next
        exact next

theorem step_limits (least : Instant) (s : Gate) (call : Instant × Call) :
    (s.step least call).limiter.maxPerMinute = s.limiter.maxPerMinute ∧
      (s.step least call).limiter.maxTracked = s.limiter.maxTracked := by
  obtain ⟨now, call⟩ := call
  cases call with
  | prune => exact s.limiter.prune_limits least now
  | checkAndRecord ip =>
    obtain ⟨-, -, answer⟩ | ⟨-, answer⟩ := s.limiter.checkAndRecord_cases least now ip
    · simp only [Gate.step, answer]
      exact s.limiter.prune_limits least now
    · simp only [Gate.step, answer, record]
      split <;> exact s.limiter.makeRoom_limits least now ip

theorem run_tracks {maxPerMinute : UInt32} (positive : 0 < maxPerMinute) (maxTracked : Nat)
    {calls : List (Instant × Call)} (clock : ClockRuns least calls) (now : Instant) (passed : ∀ call ∈ calls, call.1 ≤ now) :
    Tracks least now (Gate.run least maxPerMinute maxTracked calls).limiter
        (Gate.run least maxPerMinute maxTracked calls).admissions ∧
      (Gate.run least maxPerMinute maxTracked calls).limiter.maxPerMinute = maxPerMinute ∧
      (Gate.run least maxPerMinute maxTracked calls).limiter.maxTracked = maxTracked := by
  induction calls using List.reverseRecOn generalizing now with
  | nil => exact ⟨tracks_new least now maxPerMinute maxTracked, rfl, rfl⟩
  | append_singleton calls call ih =>
    obtain ⟨represented, ordered⟩ := clock
    rw [List.map_append, List.pairwise_append] at ordered
    have before : ∀ earlier ∈ calls, earlier.1 ≤ call.1 := fun earlier member =>
      ordered.2.2 _ (List.mem_map_of_mem member) _ (by simp)
    obtain ⟨tracks, sameMax, sameTracked⟩ :=
      ih ⟨fun earlier member => represented earlier (List.mem_append_left _ member), ordered.1⟩ call.1 before
    have limits := step_limits least (Gate.run least maxPerMinute maxTracked calls) call
    have next := step_tracks tracks (by rw [sameMax]; exact positive) le_rfl (represented call (by simp)) call.2
    simp only [Gate.run, List.foldl_append, List.foldl_cons, List.foldl_nil] at *
    exact ⟨next.tick (passed call (by simp)), limits.1.trans sameMax, limits.2.trans sameTracked⟩

/-- Why a call is refused, in terms of the admissions. -/
theorem Tracks.refused (tracks : Tracks least now s.limiter s.admissions) {ip : IpAddr}
    (refused : (s.limiter.checkAndRecord least now ip).1 = false) :
    s.limiter.maxPerMinute.toNat ≤ (inSpan (secs 60) now (s.admissions ip)).length ∨
    (ip ∉ s.limiter.windows ∧ ∃ others : List IpAddr, others.Nodup ∧ others.length = s.limiter.maxTracked ∧ ip ∉ others ∧
      ∀ other ∈ others, inSpan (secs 60) now (s.admissions other) ≠ []) := by
  obtain ⟨untracked, many, -⟩ | ⟨-, answer⟩ := s.limiter.checkAndRecord_cases least now ip
  · refine .inr ⟨untracked, (s.limiter.prune least now).windows.keys.take s.limiter.maxTracked,
      (AList.keys_nodup _).sublist (List.take_sublist _ _), ?_, fun among => ?_, fun other among => ?_⟩
    · rw [List.length_take, Nat.min_eq_left many]
    · obtain ⟨a, member, -⟩ := tracks.recent_of_mem_prune (AList.mem_keys.mpr (List.mem_of_mem_take among))
      obtain same | ⟨dropped, -⟩ := stored_prune least s.limiter now ip
      · exact untracked (mem_of_stored (List.ne_nil_of_mem (same ▸ member)))
      · rw [dropped] at member
        cases member
    · obtain ⟨a, -, recent, admitted⟩ := tracks.recent_of_mem_prune (AList.mem_keys.mpr (List.mem_of_mem_take among))
      refine List.ne_nil_of_mem (List.mem_filter.mpr ⟨admitted, decide_eq_true ⟨recent, ?_⟩⟩)
      exact (tracks.clock other a admitted).2
  · rw [answer] at refused
    have full := record_false refused
    rw [(tracks.makeRoom ip).evict_inSpan, (s.limiter.makeRoom_limits least now ip).1] at full
    exact .inl full

/-- Over every run of calls: no minute holds more admissions of an address than allowed, the map stays within its
capacity, and a connection is refused only at the address's own limit or, being untracked, when as many others as the map
holds were admitted in the last minute. -/
theorem admissions_limited {maxPerMinute : UInt32} (atLeastOne : 1 ≤ maxPerMinute) (maxTracked : Nat)
    {calls : List (Instant × Call)} (clock : ClockRuns least calls) :
    (∀ ip (t : Instant), (inSpan (secs 60) t ((Gate.run least maxPerMinute maxTracked calls).admissions ip)).length ≤
      maxPerMinute.toNat) ∧
    (Gate.run least maxPerMinute maxTracked calls).limiter.windows.keys.length ≤ maxTracked ∧
    ∀ (now : Instant) ip, (∀ call ∈ calls, call.1 ≤ now) →
      ((Gate.run least maxPerMinute maxTracked calls).limiter.checkAndRecord least now ip).1 = false →
      (inSpan (secs 60) now ((Gate.run least maxPerMinute maxTracked calls).admissions ip)).length = maxPerMinute.toNat ∨
      (ip ∉ (Gate.run least maxPerMinute maxTracked calls).limiter.windows ∧
        ∃ others : List IpAddr, others.Nodup ∧ others.length = maxTracked ∧ ip ∉ others ∧ ∀ other ∈ others,
          inSpan (secs 60) now ((Gate.run least maxPerMinute maxTracked calls).admissions other) ≠ []) := by
  have positive : 0 < maxPerMinute := UInt32.lt_of_lt_of_le (show (0 : UInt32) < 1 by decide) atLeastOne
  have passed : ∀ call ∈ calls, call.1 ≤ (calls.map Prod.fst).foldr max least := fun call member =>
    List.le_max_of_le' least (List.mem_map_of_mem member) le_rfl
  obtain ⟨tracks, sameMax, sameTracked⟩ := run_tracks positive maxTracked clock _ passed
  have paced : ∀ ip, Paced (secs 60) maxPerMinute.toNat ((Gate.run least maxPerMinute maxTracked calls).admissions ip) := by
    have paced := tracks.paced
    rwa [sameMax] at paced
  refine ⟨fun ip t => (paced ip).inSpan_le t, tracks.bounded.trans_eq sameTracked, fun now ip reached refused => ?_⟩
  obtain ⟨tracks, -⟩ := run_tracks positive maxTracked clock now reached
  have why := tracks.refused refused
  rw [sameMax, sameTracked] at why
  exact why.imp_left fun full => Nat.le_antisymm ((paced ip).inSpan_le now) full

/-- Two addresses fill the map, a third is refused until one of them has aged out. -/
def threeSources : List (Instant × Call) :=
  [(0, .checkAndRecord (.v4 1)), (secs 10, .checkAndRecord (.v4 2)), (secs 20, .checkAndRecord (.v4 3)),
    (secs 60, .checkAndRecord (.v4 3)), (secs 61, .prune)]

theorem admissions_limited_threeSources : ClockRuns 0 threeSources ∧
    (Gate.run 0 1 2 threeSources).admitted = [((0 : Int), .v4 1), (secs 10, .v4 2), (secs 60, .v4 3)] ∧
    ∀ ip (t : Instant), (inSpan (secs 60) t ((Gate.run 0 1 2 threeSources).admissions ip)).length ≤ 1 := by
  have clock : ClockRuns 0 threeSources := by
    refine ⟨?_, ?_⟩ <;> decide
  exact ⟨clock, by decide, (admissions_limited (show (1 : UInt32) ≤ 1 by decide) 2 clock).1⟩

end Runs

end ConnectionRateLimiter

end SoloPool
