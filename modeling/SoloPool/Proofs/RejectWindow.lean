import Mathlib.Algebra.BigOperators.Fin
import SoloPool.Lib.Window
import SoloPool.Stats.Worker

/-!
# The reject window against its log

A slot of the ring holds the newest minute that fell on it, with the counts of that minute, and the queue of other rejects
holds the last 256 of them except some that are an hour old. So a summary counts the log.
-/

namespace SoloPool.Stats
open Lib

namespace RejectWindow

variable {ρ : Type}

/-! ### The log -/

inductive Event (ρ : Type) where
  | accepted (ts : UInt64)
  | stale (ts : UInt64)
  | other (ts : UInt64) (reason : ρ)

namespace Event

def ts : Event ρ → UInt64
  | accepted ts | stale ts | other ts _ => ts

def minute (e : Event ρ) : Nat := e.ts.toNat / 60

def isAccepted : Event ρ → Bool
  | accepted _ => true
  | _ => false

def isStale : Event ρ → Bool
  | stale _ => true
  | _ => false

/-- What an event leaves in the queue of other rejects. -/
def entry : Event ρ → Option (UInt64 × ρ)
  | other ts reason => some (ts, reason)
  | _ => none

end Event

def record (w : RejectWindow ρ) : Event ρ → RejectWindow ρ
  | .accepted ts => w.recordAccepted ts
  | .stale ts => w.recordStale ts
  | .other ts reason => w.recordOther ts reason

def run (events : List (Event ρ)) : RejectWindow ρ := events.foldl record default

/-- The events of one kind that fall on one minute. -/
def inMinute (kind : Event ρ → Bool) (events : List (Event ρ)) (minute : Nat) : Nat :=
  events.countP fun e => kind e && decide (e.minute = minute)

/-- The minute is one of the sixty that end with the minute of `now`. -/
def Recent (now : UInt64) (minute : Nat) : Prop := now.toNat / 60 < minute + 60 ∧ minute ≤ now.toNat / 60

instance (now : UInt64) (minute : Nat) : Decidable (Recent now minute) := inferInstanceAs (Decidable (_ ∧ _))

/-- What is promised of a log: it is in order, not of the first hour, and no kind fills a counter in a minute. -/
structure Log (events : List (Event ρ)) : Prop where
  ordered : (events.map Event.ts).Pairwise (· ≤ ·)
  late : ∀ e ∈ events, 3600 ≤ e.ts
  fewAccepted : ∀ minute, inMinute Event.isAccepted events minute < 2 ^ 32
  fewStale : ∀ minute, inMinute Event.isStale events minute < 2 ^ 32

section Log

variable {events : List (Event ρ)} {e : Event ρ}

theorem inMinute_concat (kind : Event ρ → Bool) (events : List (Event ρ)) (e : Event ρ) (minute : Nat) :
    inMinute kind (events ++ [e]) minute =
      inMinute kind events minute + if kind e ∧ e.minute = minute then 1 else 0 := by
  unfold inMinute
  rw [List.countP_append, List.countP_singleton]
  simp

theorem inMinute_le_concat (kind : Event ρ → Bool) (events : List (Event ρ)) (e : Event ρ) (minute : Nat) :
    inMinute kind events minute ≤ inMinute kind (events ++ [e]) minute := by
  rw [inMinute_concat]
  exact Nat.le_add_right _ _

theorem Log.init (log : Log (events ++ [e])) : Log events where
  ordered := by
    have ordered := log.ordered
    rw [List.map_append, List.pairwise_append] at ordered
    exact ordered.1
  late := fun other among => log.late other (List.mem_append_left _ among)
  fewAccepted := fun minute => (inMinute_le_concat _ events e minute).trans_lt (log.fewAccepted minute)
  fewStale := fun minute => (inMinute_le_concat _ events e minute).trans_lt (log.fewStale minute)

theorem Log.before (log : Log (events ++ [e])) : ∀ other ∈ events, other.ts ≤ e.ts := by
  have ordered := log.ordered
  rw [List.map_append, List.pairwise_append] at ordered
  intro other among
  exact ordered.2.2 other.ts (List.mem_map_of_mem among) e.ts (List.mem_singleton_self _)

theorem Log.minute_pos (log : Log events) (among : e ∈ events) : 60 ≤ e.minute := by
  have late := UInt64.le_iff_toNat_le.mp (log.late e among)
  have hour : (3600 : UInt64).toNat = 3600 := rfl
  unfold Event.minute
  omega

end Log

/-! ### The ring -/

/-- A slot holds the newest of its minutes, with the counts of that minute; a slot that no share fell on is empty. -/
structure Slot (events : List (Event ρ)) (now : UInt64) (i : Nat) (b : MinuteCounts) : Prop where
  accepted : b.accepted.toNat = inMinute Event.isAccepted events b.minute.toNat
  stale : b.stale.toNat = inMinute Event.isStale events b.minute.toNat
  place : b.minute.toNat % 60 = i ∨ b.minute.toNat = 0
  past : b.minute.toNat ≤ now.toNat / 60
  newest : ∀ e ∈ events, e.isAccepted ∨ e.isStale → e.minute % 60 = i → e.minute ≤ b.minute.toNat

section Slot

variable {events : List (Event ρ)} {e : Event ρ} {now later : UInt64} {i : Nat} {b : MinuteCounts} {w : RejectWindow ρ}

theorem toNat_minute (now : UInt64) : (now / 60).toNat = now.toNat / 60 := UInt64.toNat_div now 60

theorem Slot.weaken (slot : Slot events now i b) (le : now ≤ later) : Slot events later i b := by
  have ordered := UInt64.le_iff_toNat_le.mp le
  have past := slot.past
  exact { slot with past := by omega }

theorem Slot.default (i : Nat) : Slot ([] : List (Event ρ)) now i { minute := 0, accepted := 0, stale := 0 } where
  accepted := rfl
  stale := rfl
  place := .inr rfl
  past := Nat.zero_le _
  newest := fun _ among => absurd among List.not_mem_nil

/-- An event that does not fall on the slot. -/
theorem Slot.skip (slot : Slot events now i b) (late : 60 ≤ e.minute)
    (apart : e.isAccepted ∨ e.isStale → e.minute % 60 ≠ i) : Slot (events ++ [e]) now i b := by
  have elsewhere : e.isAccepted ∨ e.isStale → e.minute ≠ b.minute.toNat := by
    intro share same
    have place := slot.place
    have outside := apart share
    omega
  refine ⟨?_, ?_, slot.place, slot.past, ?_⟩
  · rw [inMinute_concat, if_neg fun both => elsewhere (.inl both.1) both.2]
    exact slot.accepted
  · rw [inMinute_concat, if_neg fun both => elsewhere (.inr both.1) both.2]
    exact slot.stale
  · intro other among share here
    rcases List.mem_append.mp among with old | new
    · exact slot.newest other old share here
    · rw [List.mem_singleton.mp new] at share here
      exact absurd here (apart share)

theorem inMinute_eq_zero {kind : Event ρ → Bool} {minute : Nat} (none : ∀ e ∈ events, kind e → e.minute ≠ minute) :
    inMinute kind events minute = 0 := by
  refine List.countP_eq_zero.mpr fun e among counted => ?_
  rw [Bool.and_eq_true, decide_eq_true_iff] at counted
  exact none e among counted.1 counted.2

/-- The bucket of `now` holds the counts of its minute so far, whether the slot had them or was started afresh. -/
theorem Slot.bucket (slot : Slot events now (now.toNat / 60 % 60) (w.minutes (RejectWindow.slot (now / 60)))) :
    Slot events now (now.toNat / 60 % 60) (w.bucket now) ∧ (w.bucket now).minute.toNat = now.toNat / 60 := by
  unfold RejectWindow.bucket
  dsimp only
  split
  · rename_i older
    have older : (w.minutes (RejectWindow.slot (now / 60))).minute.toNat ≠ now.toNat / 60 := by
      rw [← toNat_minute]
      exact fun same => older (UInt64.toNat_inj.mp same)
    have past := slot.past
    have unseen : ∀ e ∈ events, e.isAccepted ∨ e.isStale → e.minute ≠ (now / 60).toNat := by
      intro e among share same
      rw [toNat_minute] at same
      have newest := slot.newest e among share (by rw [same])
      omega
    have fresh : (now / 60).toNat = now.toNat / 60 := toNat_minute now
    refine ⟨⟨?_, ?_, .inl (by rw [fresh]), fresh.le, ?_⟩, fresh⟩
    · exact (inMinute_eq_zero fun e among accepted => unseen e among (.inl accepted)).symm
    · exact (inMinute_eq_zero fun e among stale => unseen e among (.inr stale)).symm
    · intro e among share here
      have newest := slot.newest e among share here
      dsimp only
      omega
  · rename_i same
    exact ⟨slot, by rw [not_not.mp same, toNat_minute]⟩

theorem toNat_saturatingSucc {n : UInt32} (room : n.toNat + 1 < 2 ^ 32) : (saturatingSucc n).toNat = n.toNat + 1 := by
  unfold saturatingSucc
  rw [if_neg (by omega), UInt32.toNat_add]
  exact Nat.mod_eq_of_lt room

/-- A share on the minute of the slot that holds it. -/
theorem Slot.newest_concat (slot : Slot events now i b) (minute : e.minute = b.minute.toNat) :
    ∀ other ∈ events ++ [e], other.isAccepted ∨ other.isStale → other.minute % 60 = i → other.minute ≤ b.minute.toNat := by
  intro other among share here
  rcases List.mem_append.mp among with old | new
  · exact slot.newest other old share here
  · rw [List.mem_singleton.mp new]
    exact minute.le

/-- A counter that does not overflow counts the event. -/
theorem toNat_counted {kind : Event ρ → Bool} {n : UInt32} {minute : Nat} (held : n.toNat = inMinute kind events minute)
    (counted : kind e) (here : e.minute = minute) (few : inMinute kind (events ++ [e]) minute < 2 ^ 32) :
    (saturatingSucc n).toNat = inMinute kind (events ++ [e]) minute := by
  have one : inMinute kind (events ++ [e]) minute = inMinute kind events minute + 1 := by
    rw [inMinute_concat, if_pos ⟨counted, here⟩]
  rw [one, ← held] at few ⊢
  exact toNat_saturatingSucc few

theorem inMinute_uncounted {kind : Event ρ → Bool} (uncounted : kind e = false) (events : List (Event ρ)) (minute : Nat) :
    inMinute kind (events ++ [e]) minute = inMinute kind events minute := by
  rw [inMinute_concat, if_neg fun both => Bool.false_ne_true (uncounted.symm.trans both.1)]
  rfl

theorem Slot.accept {ts : UInt64} (slot : Slot events ts i b) (minute : b.minute.toNat = ts.toNat / 60)
    (log : Log (events ++ [.accepted ts])) :
    Slot (events ++ [.accepted ts]) ts i { b with accepted := saturatingSucc b.accepted } where
  accepted := toNat_counted slot.accepted rfl minute.symm (log.fewAccepted _)
  stale := slot.stale.trans (inMinute_uncounted rfl events _).symm
  place := slot.place
  past := slot.past
  newest := slot.newest_concat minute.symm

theorem Slot.goStale {ts : UInt64} (slot : Slot events ts i b) (minute : b.minute.toNat = ts.toNat / 60)
    (log : Log (events ++ [.stale ts])) :
    Slot (events ++ [.stale ts]) ts i { b with stale := saturatingSucc b.stale } where
  accepted := slot.accepted.trans (inMinute_uncounted rfl events _).symm
  stale := toNat_counted slot.stale rfl minute.symm (log.fewStale _)
  place := slot.place
  past := slot.past
  newest := slot.newest_concat minute.symm

theorem slot_val (now : UInt64) : (RejectWindow.slot (now / 60)).val = now.toNat / 60 % 60 := by
  rw [← toNat_minute]
  rfl

theorem slots_setBucket {counts : MinuteCounts} (slots : ∀ i, Slot events e.ts i.val (w.minutes i)) (late : 60 ≤ e.minute)
    (new : Slot (events ++ [e]) e.ts (e.ts.toNat / 60 % 60) counts) (i : Fin rejectWindowMinutes) :
    Slot (events ++ [e]) e.ts i.val ((w.setBucket e.ts counts).minutes i) := by
  unfold setBucket
  dsimp only
  by_cases here : i = RejectWindow.slot (e.ts / 60)
  · subst here
    rw [Function.update_self, slot_val]
    exact new
  · rw [Function.update_of_ne here]
    refine (slots i).skip late fun _ same => here (Fin.ext ?_)
    rw [slot_val]
    exact same.symm

end Slot

/-! ### The queue -/

/-- The queue has the last 256 other rejects, except some that are an hour old. -/
def Queue (events : List (Event ρ)) (now : UInt64) (other : List (UInt64 × ρ)) : Prop :=
  ∃ dropped, (events.filterMap Event.entry).rtake 256 = dropped ++ other ∧
    ∀ entry ∈ dropped, entry.1.toNat + 3600 ≤ now.toNat

section Queue

variable {events : List (Event ρ)} {now later : UInt64} {w : RejectWindow ρ}

theorem Queue.weaken {other : List (UInt64 × ρ)} (queue : Queue events now other) (le : now ≤ later) :
    Queue events later other := by
  obtain ⟨dropped, split, old⟩ := queue
  have ordered := UInt64.le_iff_toNat_le.mp le
  exact ⟨dropped, split, fun entry among => (old entry among).trans ordered⟩

/-- An element that makes room is one of the dropped ones, as long as there are some. -/
theorem makeRoom_append {α : Type} {dropped kept : List α} (bound : (dropped ++ kept).length ≤ 256) :
    ∃ gone, gone ⊆ dropped ∧
      makeRoom 256 (dropped ++ kept) = gone ++ if kept.length = 256 then kept.tail else kept := by
  rw [List.length_append] at bound
  unfold makeRoom
  rw [List.length_append]
  cases dropped with
  | nil =>
    refine ⟨[], List.Subset.refl _, ?_⟩
    rw [List.length_nil] at bound ⊢
    by_cases full : kept.length = 256
    · rw [if_pos (by omega), if_pos full]
      rfl
    · rw [if_neg (by omega), if_neg full]
  | cons first dropped =>
    rw [List.length_cons] at bound ⊢
    rw [if_neg (show ¬ kept.length = 256 by omega)]
    by_cases full : 256 ≤ dropped.length + 1 + kept.length
    · rw [if_pos full]
      exact ⟨dropped, List.subset_cons_self _ _, rfl⟩
    · rw [if_neg full]
      exact ⟨first :: dropped, List.Subset.refl _, rfl⟩

theorem Queue.recordOther {ts : UInt64} {reason : ρ} (queue : Queue events ts w.other) (late : 3600 ≤ ts.toNat) :
    Queue (events ++ [.other ts reason]) ts (w.recordOther ts reason).other := by
  obtain ⟨dropped, split, old⟩ := queue
  let stale (entry : UInt64 × ρ) : Bool := decide (entry.1.toNat ≤ ts.toNat - rejectWindowMinutes * 60)
  have pruned : (w.prune ts).other = w.other.dropWhile stale := rfl
  have whole : dropped ++ w.other = dropped ++ w.other.takeWhile stale ++ w.other.dropWhile stale := by
    rw [List.append_assoc, List.takeWhile_append_dropWhile]
  have gone : ∀ entry ∈ dropped ++ w.other.takeWhile stale, entry.1.toNat + 3600 ≤ ts.toNat := by
    intro entry among
    rcases List.mem_append.mp among with before | popped
    · exact old entry before
    · have expired : stale entry = true := List.mem_takeWhile_imp popped
      have expired : entry.1.toNat ≤ ts.toNat - rejectWindowMinutes * 60 := of_decide_eq_true expired
      have hour : rejectWindowMinutes * 60 = 3600 := rfl
      omega
  have bound : (dropped ++ w.other.takeWhile stale ++ w.other.dropWhile stale).length ≤ 256 := by
    rw [← whole, ← split, length_rtake]
    exact Nat.min_le_left _ _
  obtain ⟨left, among, room⟩ := makeRoom_append bound
  refine ⟨left, ?_, fun entry member => gone entry (among member)⟩
  have log : (events ++ [Event.other ts reason]).filterMap Event.entry = events.filterMap Event.entry ++ [(ts, reason)] := by
    rw [List.filterMap_append]
    rfl
  rw [log, ← pushBounded_rtake 255, split, whole, pushBounded, room, List.append_assoc]
  rfl

end Queue

/-! ### Over a log -/

structure Holds (events : List (Event ρ)) (now : UInt64) (w : RejectWindow ρ) : Prop where
  slots : ∀ i, Slot events now i.val (w.minutes i)
  queue : Queue events now w.other

section Run

variable {events : List (Event ρ)} {e : Event ρ} {now : UInt64} {w : RejectWindow ρ}

theorem Holds.bucket {ts : UInt64} (holds : Holds events ts w) :
    Slot events ts (ts.toNat / 60 % 60) (w.bucket ts) ∧ (w.bucket ts).minute.toNat = ts.toNat / 60 := by
  have slot := holds.slots (RejectWindow.slot (ts / 60))
  rw [slot_val] at slot
  exact slot.bucket

theorem Queue.quiet {other : List (UInt64 × ρ)} (queue : Queue events now other) (quiet : e.entry = none) :
    Queue (events ++ [e]) now other := by
  have same : (events ++ [e]).filterMap Event.entry = events.filterMap Event.entry := by
    rw [List.filterMap_append, List.filterMap_cons_none quiet, List.filterMap_nil, List.append_nil]
  unfold Queue
  rw [same]
  exact queue

theorem Holds.record (holds : Holds events e.ts w) (log : Log (events ++ [e])) : Holds (events ++ [e]) e.ts (w.record e) := by
  have late : 60 ≤ e.minute := log.minute_pos (List.mem_append_right _ (List.mem_singleton_self e))
  cases e with
  | accepted ts =>
    obtain ⟨slot, minute⟩ := Holds.bucket holds
    exact ⟨slots_setBucket holds.slots late (slot.accept minute log), holds.queue.quiet rfl⟩
  | stale ts =>
    obtain ⟨slot, minute⟩ := Holds.bucket holds
    exact ⟨slots_setBucket holds.slots late (slot.goStale minute log), holds.queue.quiet rfl⟩
  | other ts reason =>
    refine ⟨fun i => (holds.slots i).skip late ?_, holds.queue.recordOther ?_⟩
    · rintro (accepted | stale)
      · cases accepted
      · cases stale
    · exact UInt64.le_iff_toNat_le.mp (log.late _ (List.mem_append_right _ (List.mem_singleton_self _)))

theorem holds_run (log : Log events) (past : ∀ e ∈ events, e.ts ≤ now) : Holds events now (run events) := by
  induction events using List.reverseRecOn generalizing now with
  | nil => exact ⟨fun i => Slot.default i, [], by rw [List.filterMap_nil, List.rtake_nil]; rfl, List.forall_mem_nil _⟩
  | append_singleton events e ih =>
    have before : Holds events e.ts (run events) := ih log.init log.before
    have after : Holds (events ++ [e]) e.ts ((run events).record e) := before.record log
    have last : e.ts ≤ now := past e (List.mem_append_right _ (List.mem_singleton_self e))
    have whole : run (events ++ [e]) = (run events).record e := by
      unfold run
      rw [List.foldl_append]
      rfl
    rw [whole]
    exact ⟨fun i => (after.slots i).weaken last, after.queue.weaken last⟩

end Run

/-! ### The summary -/

section Summary

variable {events : List (Event ρ)} {now : UInt64} {w : RejectWindow ρ}

/-- The events of one kind in the window. -/
def inWindow (kind : Event ρ → Bool) (events : List (Event ρ)) (now : UInt64) : Nat :=
  events.countP fun e => kind e && decide (Recent now e.minute)

/-- The slot of a recent minute holds that minute. -/
theorem Slot.recent_iff {i : Nat} {b : MinuteCounts} {e : Event ρ} (slot : Slot events now i b) (log : Log events)
    (among : e ∈ events) (share : e.isAccepted ∨ e.isStale) :
    e.minute % 60 = i ∧ Recent now e.minute ↔ Recent now b.minute.toNat ∧ e.minute = b.minute.toNat := by
  have late := log.minute_pos among
  have place := slot.place
  have past := slot.past
  have newest := slot.newest e among share
  unfold Recent
  constructor
  · rintro ⟨here, recent⟩
    have last := newest here
    omega
  · rintro ⟨recent, same⟩
    omega

theorem Slot.inWindow {i : Nat} {b : MinuteCounts} {kind : Event ρ → Bool} (slot : Slot events now i b) (log : Log events)
    (share : ∀ e, kind e → e.isAccepted ∨ e.isStale) :
    events.countP (fun e => decide (e.minute % 60 = i) && (kind e && decide (Recent now e.minute))) =
      if Recent now b.minute.toNat then inMinute kind events b.minute.toNat else 0 := by
  have iff : ∀ e ∈ events, (decide (e.minute % 60 = i) && (kind e && decide (Recent now e.minute))) = true ↔
      (kind e && decide (Recent now b.minute.toNat ∧ e.minute = b.minute.toNat)) = true := by
    intro e among
    simp only [Bool.and_eq_true, decide_eq_true_iff]
    constructor
    · rintro ⟨here, counted, recent⟩
      exact ⟨counted, (slot.recent_iff log among (share e counted)).mp ⟨here, recent⟩⟩
    · rintro ⟨counted, recent⟩
      obtain ⟨here, recent⟩ := (slot.recent_iff log among (share e counted)).mpr recent
      exact ⟨here, counted, recent⟩
  rw [List.countP_congr iff]
  split
  · rename_i recent
    simp only [recent, true_and]
    rfl
  · rename_i old
    refine List.countP_eq_zero.mpr fun e _ counted => ?_
    rw [Bool.and_eq_true, decide_eq_true_iff] at counted
    exact old counted.2.1

/-- Every event falls on one slot. -/
theorem sum_slots (p : Event ρ → Bool) (events : List (Event ρ)) :
    ∑ i : Fin rejectWindowMinutes, events.countP (fun e => decide (e.minute % 60 = i.val) && p e) = events.countP p := by
  induction events with
  | nil => exact Finset.sum_const_zero
  | cons e events ih =>
    let place : Fin rejectWindowMinutes := ⟨e.minute % 60, Nat.mod_lt _ (by decide)⟩
    have one : ∀ i : Fin rejectWindowMinutes, (if (decide (e.minute % 60 = i.val) && p e) = true then 1 else 0) =
        if i = place then (if p e then 1 else 0) else 0 := by
      intro i
      by_cases here : i = place
      · subst here
        simp [place]
      · have apart : ¬ e.minute % 60 = i.val := fun same => here (Fin.ext same.symm)
        simp [here, apart]
    simp only [List.countP_cons, Finset.sum_add_distrib, ih, one, Finset.sum_ite_eq', Finset.mem_univ, if_true]

theorem foldl_addMinute (nowMinute : Nat) (slots : List MinuteCounts) (sums : Nat × Nat) :
    slots.foldl (addMinute nowMinute) sums =
      (sums.1 + (slots.map fun b => if b.minute.toNat + 60 > nowMinute ∧ b.minute.toNat ≤ nowMinute then b.accepted.toNat
          else 0).sum,
        sums.2 + (slots.map fun b => if b.minute.toNat + 60 > nowMinute ∧ b.minute.toNat ≤ nowMinute then b.stale.toNat
          else 0).sum) := by
  induction slots generalizing sums with
  | nil => rfl
  | cons b slots ih =>
    have hour : rejectWindowMinutes = 60 := rfl
    rw [List.foldl_cons, ih, addMinute, hour]
    split
    · rename_i counted
      simp [counted, Nat.add_assoc]
    · rename_i old
      simp [old]

theorem Holds.sum {kind : Event ρ → Bool} {f : MinuteCounts → Nat} (holds : Holds events now w) (log : Log events)
    (share : ∀ e, kind e → e.isAccepted ∨ e.isStale)
    (counts : ∀ i, f (w.minutes i) = inMinute kind events (w.minutes i).minute.toNat) :
    ((List.ofFn w.minutes).map fun b => if b.minute.toNat + 60 > now.toNat / 60 ∧ b.minute.toNat ≤ now.toNat / 60 then f b
      else 0).sum = inWindow kind events now := by
  rw [List.map_ofFn, List.sum_ofFn]
  unfold RejectWindow.inWindow
  rw [← sum_slots]
  refine Finset.sum_congr rfl fun i _ => ?_
  rw [(holds.slots i).inWindow log share, ← counts i]
  rfl

theorem foldl_addReason [DecidableEq ρ] (reasons : List ρ) (counts : ρ → Option Nat) (reason : ρ) :
    reasons.foldl addReason counts reason =
      if reasons.count reason = 0 then counts reason else some ((counts reason).getD 0 + reasons.count reason) := by
  induction reasons generalizing counts with
  | nil => rfl
  | cons first reasons ih =>
    rw [List.foldl_cons, ih, List.count_cons, addReason]
    by_cases same : first = reason
    · subst same
      rw [Function.update_self, if_pos (beq_self_eq_true first), if_neg (Nat.succ_ne_zero _)]
      split
      · rename_i none
        rw [none]
      · rw [Option.getD_some]
        congr 1
        omega
    · have other : (first == reason) = false := beq_false_of_ne same
      rw [Function.update_of_ne (Ne.symm same), other, if_neg Bool.false_ne_true, Nat.add_zero]

/-- What the summary filters is what the log has of the last hour. -/
theorem Holds.recent [DecidableEq ρ] (holds : Holds events now w) (log : Log events) (past : ∀ e ∈ events, e.ts ≤ now)
    (reason : ρ) :
    ((w.other.filter fun entry => decide (entry.1.toNat > now.toNat - rejectWindowMinutes * 60)).map (·.2)).count reason =
      ((events.filterMap Event.entry).rtake 256).countP fun entry =>
        decide (entry.2 = reason ∧ now.toNat < entry.1.toNat + 3600) := by
  obtain ⟨dropped, split, old⟩ := holds.queue
  have hour : rejectWindowMinutes * 60 = 3600 := rfl
  have known : ∀ entry ∈ w.other, 3600 ≤ now.toNat := by
    intro entry among
    have logged : entry ∈ (events.filterMap Event.entry).rtake 256 := by
      rw [split]
      exact List.mem_append_right _ among
    obtain ⟨e, member, -⟩ := List.mem_filterMap.mp ((rtake_suffix _ _).mem logged)
    exact UInt64.le_iff_toNat_le.mp (UInt64.le_trans (log.late e member) (past e member))
  have none : dropped.countP (fun entry => decide (entry.2 = reason ∧ now.toNat < entry.1.toNat + 3600)) = 0 := by
    refine List.countP_eq_zero.mpr fun entry among counted => ?_
    have expired := old entry among
    have recent := (of_decide_eq_true counted).2
    omega
  rw [split, List.countP_append, none, Nat.zero_add, List.count_eq_countP, List.countP_map, List.countP_filter]
  refine List.countP_congr fun entry among => ?_
  have late := known entry among
  have cutoff : now.toNat - rejectWindowMinutes * 60 < entry.1.toNat ↔ now.toNat < entry.1.toNat + 3600 := by
    rw [hour]
    omega
  simp only [Function.comp_apply, Bool.and_eq_true, decide_eq_true_iff, beq_iff_eq, gt_iff_lt, cutoff]

theorem Holds.summary_accepted [DecidableEq ρ] (holds : Holds events now w) (log : Log events) :
    (w.summary now).1 = inWindow Event.isAccepted events now := by
  have sum := holds.sum (f := fun b => b.accepted.toNat) log (fun e accepted => .inl accepted)
    fun i => (holds.slots i).accepted
  unfold summary
  rw [foldl_addMinute, sum]
  exact Nat.zero_add _

theorem Holds.summary_stale [DecidableEq ρ] (holds : Holds events now w) (log : Log events) :
    (w.summary now).2.1 = inWindow Event.isStale events now := by
  have sum := holds.sum (f := fun b => b.stale.toNat) log (fun e stale => .inr stale) fun i => (holds.slots i).stale
  unfold summary
  rw [foldl_addMinute, sum]
  exact Nat.zero_add _

theorem Holds.summary_other [DecidableEq ρ] (holds : Holds events now w) (log : Log events)
    (past : ∀ e ∈ events, e.ts ≤ now) (reason : ρ) :
    (w.summary now).2.2 reason =
      let count := ((events.filterMap Event.entry).rtake 256).countP fun entry =>
        decide (entry.2 = reason ∧ now.toNat < entry.1.toNat + 3600)
      if count = 0 then none else some count := by
  unfold summary
  dsimp only
  rw [foldl_addReason, holds.recent log past, Option.getD_none, Nat.zero_add]

end Summary

/-- A summary counts the events of the last sixty minutes, and by reason the last 256 other rejects of the last hour. -/
theorem summary_counts_log [DecidableEq ρ] {events : List (Event ρ)} (log : Log events) {now : UInt64}
    (past : ∀ e ∈ events, e.ts ≤ now) :
    ((run events).summary now).1 = inWindow Event.isAccepted events now ∧
    ((run events).summary now).2.1 = inWindow Event.isStale events now ∧
    ∀ reason, ((run events).summary now).2.2 reason =
      let count := ((events.filterMap Event.entry).rtake 256).countP fun entry =>
        decide (entry.2 = reason ∧ now.toNat < entry.1.toNat + 3600)
      if count = 0 then none else some count := by
  have holds := holds_run log past
  exact ⟨holds.summary_accepted log, holds.summary_stale log, holds.summary_other log past⟩

/-- Two shares more than an hour apart, and a fault between them. -/
def hourLog : List (Event String) := [.accepted 3600, .stale 3719, .other 3720 "duplicate", .accepted 7300]

theorem summary_counts_log_hour :
    ((run hourLog).summary 7319).1 = 1 ∧ ((run hourLog).summary 7319).2.1 = 0 ∧
      ((run hourLog).summary 7319).2.2 "duplicate" = some 1 := by
  have few : ∀ kind minute, inMinute kind hourLog minute < 2 ^ 32 := by
    intro kind minute
    exact Nat.lt_of_le_of_lt List.countP_le_length (by decide)
  obtain ⟨accepted, stale, other⟩ := @summary_counts_log String _ hourLog
    ⟨by decide, by decide, few _, few _⟩ 7319 (by decide)
  exact ⟨accepted.trans (by decide), stale.trans (by decide), (other "duplicate").trans (by decide)⟩

end RejectWindow

end SoloPool.Stats
