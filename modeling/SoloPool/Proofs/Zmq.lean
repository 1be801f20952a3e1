import SoloPool.Bitcoin.Zmq
import SoloPool.Lib.Tasks

/-!
# What the poll makes of a silent subscription

Over every interleaving of the listener's and the poll's reads and writes while the wall clock does not go back: an alarm
means that no message around a new tip had been stored when the poll looked, a verdict after the grace raises one exactly
then, and every change of the tip is signalled once.
-/

namespace SoloPool.TipWatch
open Lib

theorem pollSlackSecs_toNat (pollIntervalMs : UInt64) :
    (pollSlackSecs pollIntervalMs).toNat = (pollIntervalMs.toNat + 999) / 1000 + 1 := by
  have bound := pollIntervalMs.toNat_lt
  unfold pollSlackSecs
  rw [UInt64.toNat_add, UInt64.toNat_ofNat_of_lt' (by show _ < 2 ^ 64; omega), UInt64.toNat_one]
  omega

theorem pollSlackSecs_small (pollIntervalMs : UInt64) : (pollSlackSecs pollIntervalMs).toNat < 2 ^ 63 := by
  have bound := pollIntervalMs.toNat_lt
  rw [pollSlackSecs_toNat]
  omega

theorem zmqVerdict_silent {zmqLastSeen observedAt now slack : UInt64} (dated : zmqLastSeen.toNat < 2 ^ 63)
    (small : slack.toNat < 2 ^ 63) : zmqVerdict zmqLastSeen observedAt now slack = .silent ↔
      zmqLastSeen.toNat + slack.toNat < observedAt.toNat ∧ observedAt.toNat + 10 < now.toNat := by
  have sum : (zmqLastSeen + slack).toNat = zmqLastSeen.toNat + slack.toNat := by
    rw [UInt64.toNat_add]
    omega
  have grace : zmqGraceSecs.toNat = 10 := rfl
  unfold zmqVerdict
  split
  · rename_i heard
    rw [ge_iff_le, UInt64.le_iff_toNat_le, sum] at heard
    exact iff_of_false ZmqVerdict.noConfusion fun silent => absurd silent.1 (Nat.not_lt.mpr heard)
  · rename_i unheard
    rw [ge_iff_le, UInt64.le_iff_toNat_le, sum] at unheard
    rw [grace]
    split
    · rename_i late
      exact iff_of_true rfl ⟨Nat.not_le.mp unheard, by omega⟩
    · rename_i early
      exact iff_of_false ZmqVerdict.noConfusion fun silent => early (by omega)

/-- How often the tip changes along the answers. -/
def changes : String → List String → Nat
  | _, [] => 0
  | last, hash :: rest => (if hash ≠ last then 1 else 0) + changes hash rest

theorem changes_concat (last : String) (tips : List String) (hash : String) :
    changes last (tips ++ [hash]) = changes last tips + if hash ≠ tips.getLastD last then 1 else 0 := by
  induction tips generalizing last with
  | nil => simp [changes]
  | cons tip rest ih =>
    rw [List.cons_append, changes, changes, ih, List.getLastD_cons]
    omega

variable {slack : UInt64} {s t : TipWatch}

/-- The second of the last of these messages, 0 before any. -/
def Heard (notices : List Notice) (second : UInt64) : Prop :=
  ((notices = [] ∧ second = 0) ∨ ∃ m ∈ notices, m.stampedAt = second) ∧ ∀ m ∈ notices, m.stampedAt ≤ second

/-- What the poll judges by stands for every message it goes back to. -/
theorem Heard.before {notices : List Notice} {second : UInt64} (heard : Heard notices second) {bound : Nat} :
    second.toNat + slack.toNat < bound ↔
      slack.toNat < bound ∧ ∀ m ∈ notices, m.stampedAt.toNat + slack.toNat < bound := by
  obtain ⟨from_, last⟩ := heard
  constructor
  · intro before
    refine ⟨by omega, fun m among => ?_⟩
    have below := UInt64.le_iff_toNat_le.mp (last m among)
    omega
  · rintro ⟨blank, before⟩
    rcases from_ with ⟨_, zero⟩ | ⟨m, among, same⟩
    · rw [zero, UInt64.toNat_zero]
      omega
    · rw [← same]
      exact before m among

/-- The listener stamps and stores its messages one after another. -/
structure Listened (clock : UInt64) (stamped : Option UInt64) (zmqLastSeen : UInt64) (notices : List Notice) : Prop where
  heard : Heard notices zmqLastSeen
  timely : ∀ m ∈ notices, m.stampedAt ≤ m.storedAt ∧ m.storedAt ≤ clock
  ordered : notices.Pairwise (fun a b => a.storedAt ≤ b.stampedAt)
  pending : ∀ second ∈ stamped, second ≤ clock ∧ ∀ m ∈ notices, m.storedAt ≤ second

section
variable {clock : UInt64} {stamped : Option UInt64} {zmqLastSeen : UInt64} {notices : List Notice}

theorem Listened.seen (listened : Listened clock stamped zmqLastSeen notices) : zmqLastSeen ≤ clock := by
  rcases listened.heard.1 with ⟨_, zero⟩ | ⟨m, among, same⟩
  · rw [zero]
    exact UInt64.zero_le
  · rw [← same]
    exact UInt64.le_trans (listened.timely m among).1 (listened.timely m among).2

theorem Listened.later (listened : Listened clock stamped zmqLastSeen notices) {now : UInt64} (later : clock ≤ now) :
    Listened now stamped zmqLastSeen notices where
  heard := listened.heard
  timely m among := ⟨(listened.timely m among).1, UInt64.le_trans (listened.timely m among).2 later⟩
  ordered := listened.ordered
  pending second isStamped :=
    ⟨UInt64.le_trans (listened.pending second isStamped).1 later, (listened.pending second isStamped).2⟩

theorem Listened.stamp (listened : Listened clock stamped zmqLastSeen notices) :
    Listened clock (some clock) zmqLastSeen notices where
  heard := listened.heard
  timely := listened.timely
  ordered := listened.ordered
  pending second isStamped := by
    obtain rfl := Option.some.inj isStamped
    exact ⟨UInt64.le_refl _, fun m among => (listened.timely m among).2⟩

/-- The message comes after every one stored before it. -/
theorem Listened.store {stampedAt : UInt64} (listened : Listened clock (some stampedAt) zmqLastSeen notices) :
    Listened clock none stampedAt (notices ++ [{ stampedAt, storedAt := clock }]) := by
  obtain ⟨past, after⟩ := listened.pending stampedAt rfl
  refine ⟨⟨.inr ⟨_, List.mem_append_right _ (List.mem_singleton_self _), rfl⟩, ?_⟩, ?_, ?_, nofun⟩
  · refine forall_append (fun m among => ?_) (UInt64.le_refl stampedAt)
    exact UInt64.le_trans (listened.timely m among).1 (after m among)
  · exact forall_append listened.timely ⟨past, UInt64.le_refl _⟩
  · refine List.pairwise_append.mpr ⟨listened.ordered, List.pairwise_singleton _ _, fun m among last isLast => ?_⟩
    rw [List.mem_singleton.mp isLast]
    exact after m among

end

/-- No message that was stored before the poll looked falls within `slack` seconds before the change, or later. -/
def Alarm.Silent (slack : UInt64) (notices : List Notice) (alarm : Alarm) : Prop :=
  alarm.observedAt.toNat + 10 < alarm.raisedAt.toNat ∧ alarm.observedAt ≤ alarm.lookedAt ∧ alarm.lookedAt ≤ alarm.raisedAt ∧
    ∀ m ∈ notices, m.stampedAt.toNat + slack.toNat < alarm.observedAt.toNat ∨ alarm.lookedAt ≤ m.storedAt

structure Watched (slack : UInt64) (s : TipWatch) : Prop where
  listened : Listened s.clock s.stamped s.zmqLastSeen s.notices
  looked : s.lookedAt ≤ s.clock
  known : ∀ m ∈ s.notices, m ∈ s.known ∨ s.lookedAt ≤ m.storedAt
  judging : ∀ heard, s.phase = .judging heard → Heard s.known heard ∧ heard ≤ s.clock ∧
    ∃ observedAt, s.awaitingZmq = some observedAt ∧ observedAt ≤ s.lookedAt
  awaiting : ∀ observedAt ∈ s.awaitingZmq, observedAt ≤ s.clock ∧ ∀ alarm ∈ s.alarms, alarm.raisedAt ≤ observedAt
  silent : ∀ alarm ∈ s.alarms, alarm.raisedAt ≤ s.clock ∧ Alarm.Silent slack s.notices alarm
  apart : s.alarms.Pairwise (fun a b => a.raisedAt ≤ b.observedAt)
  tip : s.lastHash = s.tips.getLastD ""
  signalled : s.signals = changes "" s.tips

theorem start_watched (now : UInt64) : (start now).Watched slack where
  listened := ⟨⟨.inl ⟨rfl, rfl⟩, List.forall_mem_nil _⟩, List.forall_mem_nil _, .nil, nofun⟩
  looked := UInt64.le_refl now
  known := List.forall_mem_nil _
  judging := nofun
  awaiting := nofun
  silent := List.forall_mem_nil _
  apart := .nil
  tip := rfl
  signalled := rfl

/-- The clock moves on. -/
theorem Watched.later (watched : s.Watched slack) {now : UInt64} (later : s.clock ≤ now) :
    ({ s with clock := now } : TipWatch).Watched slack where
  listened := watched.listened.later later
  looked := UInt64.le_trans watched.looked later
  known := watched.known
  judging heard judging := by
    obtain ⟨last, past, awaited⟩ := watched.judging heard judging
    exact ⟨last, UInt64.le_trans past later, awaited⟩
  awaiting observedAt awaited :=
    ⟨UInt64.le_trans (watched.awaiting observedAt awaited).1 later, (watched.awaiting observedAt awaited).2⟩
  silent alarm among := ⟨UInt64.le_trans (watched.silent alarm among).1 later, (watched.silent alarm among).2⟩
  apart := watched.apart
  tip := watched.tip
  signalled := watched.signalled

theorem stamp_watched (watched : s.Watched slack) :
    ({ s with stamped := some s.clock } : TipWatch).Watched slack where
  listened := watched.listened.stamp
  looked := watched.looked
  known := watched.known
  judging := watched.judging
  awaiting := watched.awaiting
  silent := watched.silent
  apart := watched.apart
  tip := watched.tip
  signalled := watched.signalled

/-- What is stored now is stored after the poll has looked. -/
theorem store_watched (watched : s.Watched slack) {stampedAt : UInt64} (stamped : s.stamped = some stampedAt) :
    ({ s with
        stamped := none, zmqLastSeen := stampedAt
        notices := s.notices ++ [{ stampedAt, storedAt := s.clock }] } : TipWatch).Watched slack where
  listened := (stamped ▸ watched.listened).store
  looked := watched.looked
  known := forall_append watched.known (.inr watched.looked)
  judging := watched.judging
  awaiting := watched.awaiting
  silent alarm among := by
    obtain ⟨past, late, since, looked, quiet⟩ := watched.silent alarm among
    exact ⟨past, late, since, looked, forall_append quiet (.inr (UInt64.le_trans looked past))⟩
  apart := watched.apart
  tip := watched.tip
  signalled := watched.signalled

theorem look_watched (watched : s.Watched slack) :
    ({ s with
        phase := if s.awaitingZmq.isSome then .judging s.zmqLastSeen else .asking
        lookedAt := s.clock, known := s.notices } : TipWatch).Watched slack where
  listened := watched.listened
  looked := UInt64.le_refl _
  known _ among := .inl among
  judging heard judging := by
    dsimp only at judging
    split at judging
    · rename_i waiting
      obtain rfl := PollPhase.judging.inj judging
      obtain ⟨observedAt, awaited⟩ := Option.isSome_iff_exists.mp waiting
      exact ⟨watched.listened.heard, watched.listened.seen, observedAt, awaited, (watched.awaiting observedAt awaited).1⟩
    · cases judging
  awaiting := watched.awaiting
  silent := watched.silent
  apart := watched.apart
  tip := watched.tip
  signalled := watched.signalled

/-- The poll is through with its verdict. -/
theorem Watched.judged (watched : s.Watched slack) {phase : PollPhase} (through : ∀ heard, phase ≠ .judging heard) :
    ({ s with phase } : TipWatch).Watched slack where
  listened := watched.listened
  looked := watched.looked
  known := watched.known
  judging heard judging := absurd judging (through heard)
  awaiting := watched.awaiting
  silent := watched.silent
  apart := watched.apart
  tip := watched.tip
  signalled := watched.signalled

theorem judge_alarms {heard observedAt : UInt64} (awaited : s.awaitingZmq = some observedAt) :
    (s.judge slack heard).alarms ≠ s.alarms ↔ zmqVerdict heard observedAt s.clock slack = .silent := by
  unfold judge
  rw [awaited]
  dsimp only
  split
  · rename_i pending
    exact iff_of_false (fun changed => changed rfl) (by rw [pending]; exact ZmqVerdict.noConfusion)
  · rename_i delivered
    exact iff_of_false (fun changed => changed rfl) (by rw [delivered]; exact ZmqVerdict.noConfusion)
  · rename_i silent
    exact iff_of_true (fun same => absurd (congrArg List.length same) (by simp)) silent

theorem judge_watched (watched : s.Watched slack) {heard : UInt64} (judging : s.phase = .judging heard)
    (dated : s.clock.toNat < 2 ^ 63) (small : slack.toNat < 2 ^ 63) :
    ({ s.judge slack heard with phase := .asking } : TipWatch).Watched slack := by
  obtain ⟨last, past, observedAt, awaited, since⟩ := watched.judging heard judging
  have still : ({ s with phase := .asking } : TipWatch).Watched slack := watched.judged nofun
  have below : heard.toNat < 2 ^ 63 := by
    have below := UInt64.le_iff_toNat_le.mp past
    omega
  unfold judge
  rw [awaited]
  dsimp only
  split
  · exact still
  · exact ⟨still.listened, still.looked, still.known, nofun, nofun, still.silent, still.apart, still.tip, still.signalled⟩
  · rename_i silent
    obtain ⟨unheard, late⟩ := (zmqVerdict_silent below small).mp silent
    refine ⟨still.listened, still.looked, still.known, nofun, nofun, ?_, ?_, still.tip, still.signalled⟩
    · refine forall_append still.silent ⟨UInt64.le_refl _, late, since, watched.looked, fun m among => ?_⟩
      exact (watched.known m among).imp_left ((last.before.mp unheard).2 m)
    · refine List.pairwise_append.mpr ⟨still.apart, List.pairwise_singleton _ _, fun earlier among alarm isLast => ?_⟩
      rw [List.mem_singleton.mp isLast]
      exact (watched.awaiting observedAt awaited).2 earlier among

theorem observe_watched (watched : s.Watched slack) (hash : String) :
    ({ s.observe hash with phase := .top, tips := s.tips ++ [hash] } : TipWatch).Watched slack := by
  have tip : hash = (s.tips ++ [hash]).getLastD "" := by rw [List.getLastD_concat]
  have signals := changes_concat "" s.tips hash
  rw [← watched.tip, ← watched.signalled] at signals
  unfold observe
  split
  · rename_i changed
    rw [if_pos changed] at signals
    refine ⟨watched.listened, watched.looked, watched.known, nofun, ?_, watched.silent, watched.apart, tip, signals.symm⟩
    intro observedAt awaited
    dsimp only at awaited
    split at awaited
    · obtain rfl := Option.some.inj awaited
      exact ⟨UInt64.le_refl _, fun alarm among => (watched.silent alarm among).1⟩
    · exact watched.awaiting observedAt awaited
  · rename_i same
    rw [if_neg same] at signals
    exact ⟨watched.listened, watched.looked, watched.known, nofun, watched.awaiting, watched.silent, watched.apart,
      (not_not.mp same).symm.trans tip, signals.symm⟩

theorem act_judge (taken : s.act slack .judge = some t) :
    ∃ heard, s.phase = .judging heard ∧ t = { s.judge slack heard with phase := .asking } := by
  simp only [act] at taken
  split at taken
  · rename_i heard judging
    exact ⟨heard, judging, (Option.some.inj taken).symm⟩
  · cases taken

theorem act_watched (small : slack.toNat < 2 ^ 63) (watched : s.Watched slack) (dated : s.clock.toNat < 2 ^ 63)
    {event : Event} (taken : s.act slack event = some t) : t.Watched slack := by
  cases event with
  | stamp =>
    obtain ⟨_, same⟩ := Option.ite_none_right_eq_some.mp taken
    cases same
    exact stamp_watched watched
  | store =>
    obtain ⟨stampedAt, stamped, same⟩ := Option.map_eq_some_iff.mp taken
    cases same
    exact store_watched watched stamped
  | look =>
    obtain ⟨_, same⟩ := Option.ite_none_right_eq_some.mp taken
    cases same
    exact look_watched watched
  | judge =>
    obtain ⟨heard, judging, rfl⟩ := act_judge taken
    exact judge_watched watched judging dated small
  | answer hash =>
    obtain ⟨_, same⟩ := Option.ite_none_right_eq_some.mp taken
    cases hash with
    | none =>
      cases same
      exact watched.judged nofun
    | some hash =>
      cases same
      exact observe_watched watched hash

theorem act_clock {event : Event} (taken : s.act slack event = some t) : t.clock = s.clock := by
  cases event with
  | stamp =>
    obtain ⟨_, same⟩ := Option.ite_none_right_eq_some.mp taken
    cases same
    rfl
  | store =>
    obtain ⟨_, _, same⟩ := Option.map_eq_some_iff.mp taken
    cases same
    rfl
  | look =>
    obtain ⟨_, same⟩ := Option.ite_none_right_eq_some.mp taken
    cases same
    rfl
  | judge =>
    obtain ⟨heard, _, rfl⟩ := act_judge taken
    show (s.judge slack heard).clock = s.clock
    unfold judge
    split
    · rfl
    · split <;> rfl
  | answer hash =>
    obtain ⟨_, same⟩ := Option.ite_none_right_eq_some.mp taken
    cases hash with
    | none =>
      cases same
      rfl
    | some hash =>
      cases same
      show (observe s hash).clock = s.clock
      unfold observe
      split <;> rfl

theorem step_watched (small : slack.toNat < 2 ^ 63) {event : UInt64 × Event}
    (watched : s.clock.toNat < 2 ^ 63 → s.Watched slack) (taken : s.step slack event = some t)
    (dated : t.clock.toNat < 2 ^ 63) : t.Watched slack := by
  obtain ⟨later, taken⟩ := Option.ite_none_right_eq_some.mp taken
  have now : t.clock = event.1 := act_clock taken
  rw [now] at dated
  have before := UInt64.le_iff_toNat_le.mp later
  exact act_watched small ((watched (by omega)).later later) dated taken

/-- In every run of the poll next to the listener, step by step: an alarm is raised more than ten seconds after the poll
saw a new tip, when no message that had been stored by the time it looked was stamped from a poll interval and a second
before that on (the listener stamps and stores its messages one after another, so at most one that is stored later was
stamped earlier), and no two alarms are about one change; a verdict raises one exactly when that is so; and the poll has
signalled each change of the tip among the node's answers once, alarm or not. -/
theorem alarms_are_silences {pollIntervalMs booted : UInt64}
    (reached : Reach (step (pollSlackSecs pollIntervalMs)) Always (start booted) s) (dated : s.clock.toNat < 2 ^ 63) :
    (∀ alarm ∈ s.alarms, alarm.observedAt.toNat + 10 < alarm.raisedAt.toNat ∧
      alarm.observedAt ≤ alarm.lookedAt ∧ alarm.lookedAt ≤ alarm.raisedAt ∧ ∀ m ∈ s.notices,
        m.stampedAt.toNat + (pollSlackSecs pollIntervalMs).toNat < alarm.observedAt.toNat ∨ alarm.lookedAt ≤ m.storedAt) ∧
    (∀ m ∈ s.notices, m.stampedAt ≤ m.storedAt) ∧ s.notices.Pairwise (fun a b => a.storedAt ≤ b.stampedAt) ∧
    s.alarms.Pairwise (fun a b => a.raisedAt ≤ b.observedAt) ∧
    (∀ now t, s.step (pollSlackSecs pollIntervalMs) (now, .judge) = some t →
      (t.alarms ≠ s.alarms ↔ ∃ observedAt, s.awaitingZmq = some observedAt ∧ observedAt.toNat + 10 < now.toNat ∧
        (pollSlackSecs pollIntervalMs).toNat < observedAt.toNat ∧
        ∀ m ∈ s.known, m.stampedAt.toNat + (pollSlackSecs pollIntervalMs).toNat < observedAt.toNat)) ∧
    s.signals = changes "" s.tips := by
  have small := pollSlackSecs_small pollIntervalMs
  generalize pollSlackSecs pollIntervalMs = slack at reached small ⊢
  have watched : s.Watched slack :=
    reached.invariant (fun s => s.clock.toNat < 2 ^ 63 → s.Watched slack) (fun _ => start_watched booted)
      (fun _ _ _ _ watched _ taken => step_watched small watched taken) dated
  refine ⟨fun alarm among => (watched.silent alarm among).2, fun m among => (watched.listened.timely m among).1,
    watched.listened.ordered, watched.apart, fun now t taken => ?_, watched.signalled⟩
  obtain ⟨_, taken⟩ := Option.ite_none_right_eq_some.mp taken
  obtain ⟨heard, judging, rfl⟩ := act_judge taken
  obtain ⟨last, past, observedAt, awaited, _⟩ := watched.judging heard judging
  have below : heard.toNat < 2 ^ 63 := by
    have below := UInt64.le_iff_toNat_le.mp past
    omega
  have silent : zmqVerdict heard observedAt now slack = .silent ↔ _ := zmqVerdict_silent below small
  rw [last.before] at silent
  have raised : (({ s with clock := now } : TipWatch).judge slack heard).alarms ≠ s.alarms ↔ _ := judge_alarms awaited
  rw [silent] at raised
  refine raised.trans ⟨fun ⟨quiet, waited⟩ => ⟨observedAt, awaited, waited, quiet⟩, ?_⟩
  rintro ⟨_, isAwaited, waited, quiet⟩
  obtain rfl := Option.some.inj (awaited.symm.trans isAwaited)
  exact ⟨quiet, waited⟩

/-! ### A subscription that dies -/

/-- The first change of the tip is announced just before the poll sees it, the second too late: the message is stamped
when the grace is over and stored only after the poll has looked. -/
def falls : List (UInt64 × Event) :=
  [(1700000000, .look), (1700000000, .answer (some "0a")), (1700000099, .stamp), (1700000099, .store),
   (1700000100, .look), (1700000100, .answer (some "0b")), (1700000101, .look), (1700000101, .judge),
   (1700000101, .answer none), (1700000700, .look), (1700000700, .answer (some "0c")), (1700000710, .look),
   (1700000710, .judge), (1700000710, .answer (some "0c")), (1700000710, .stamp), (1700000711, .look),
   (1700000711, .store)]

theorem alarms_are_silences_dead :
    ∃ s, Reach (step (pollSlackSecs 1000)) Always (start 1700000000) s ∧ s.alarms = [] ∧ s.signals = 3 ∧
      s.notices = [⟨1700000099, 1700000099⟩, ⟨1700000710, 1700000711⟩] ∧
      ∃ t, s.step (pollSlackSecs 1000) (1700000711, .judge) = some t ∧ t.alarms ≠ s.alarms := by
  obtain ⟨s, reached, none, clock, tips, notices, known, awaited, possible⟩ : ∃ s,
      Reach (step (pollSlackSecs 1000)) Always (start 1700000000) s ∧ s.alarms = [] ∧ s.clock = 1700000711 ∧
        s.tips = ["0a", "0b", "0c", "0c"] ∧ s.notices = [⟨1700000099, 1700000099⟩, ⟨1700000710, 1700000711⟩] ∧
        s.known = [⟨1700000099, 1700000099⟩] ∧
        s.awaitingZmq = some 1700000700 ∧ (s.step (pollSlackSecs 1000) (1700000711, .judge)).isSome = true :=
    Reach.of_run falls (by decide +kernel)
  obtain ⟨_, _, _, _, raises, signalled⟩ := alarms_are_silences reached (by rw [clock]; decide)
  obtain ⟨t, taken⟩ := Option.isSome_iff_exists.mp possible
  refine ⟨s, reached, none, by rw [signalled, tips]; decide, notices, t, taken, (raises _ t taken).mpr ?_⟩
  rw [known]
  exact ⟨1700000700, awaited, by decide, by decide, List.forall_mem_singleton.mpr (by decide)⟩

end SoloPool.TipWatch
