import SoloPool.Proofs.Config

/-!
# Difficulty over a session's life

What `suggest` and `check_retarget` do to a session's difficulty and to the time of its next retarget. With a validated
configuration a sequence of operations never panics, keeps both difficulties in the configured range or at the initial
one, and grants one fresh interval to the suggestions of a session.
-/

namespace SoloPool
open Lib

namespace Vardiff

theorem setCurrent_spec (v : Vardiff) (difficulty : UInt64) : (v.setCurrent difficulty).current = difficulty ∧
    (v.setCurrent difficulty).shareTimes = v.shareTimes ∧ (v.setCurrent difficulty).cfg = v.cfg := by
  unfold setCurrent
  split
  · exact ⟨rfl, rfl, rfl⟩
  · rename_i same
    exact ⟨(not_not.mp same).symm, rfl, rfl⟩

theorem suggest_spec {v v' : Vardiff} {difficulty applied : UInt64} {now : Instant}
    (suggested : v.suggest difficulty now = .ok (applied, v')) :
    v'.current = applied ∧ v'.shareTimes = v.shareTimes ∧ v'.cfg = v.cfg := by
  unfold suggest at suggested
  obtain ⟨clamped, _, suggested⟩ := Outcome.bind_ok.mp suggested
  obtain ⟨rfl, rfl⟩ := Prod.mk.inj (Outcome.ok.inj suggested)
  have set := v.setCurrent_spec clamped
  split
  · exact set
  · exact set

theorem checkRetarget_spec {retarget : RetargetStep} {v v' : Vardiff} {now : Instant} {change : Option UInt64}
    (checked : v.checkRetarget retarget now = .ok (change, v')) :
    v'.current = change.getD v.current ∧ v'.shareTimes = v.shareTimes ∧ v'.cfg = v.cfg := by
  unfold checkRetarget at checked
  split at checked
  · obtain ⟨rfl, rfl⟩ := Prod.mk.inj (Outcome.ok.inj checked)
    exact ⟨rfl, rfl, rfl⟩
  · dsimp only at checked
    split at checked
    · obtain ⟨rfl, rfl⟩ := Prod.mk.inj (Outcome.ok.inj checked)
      exact ⟨rfl, rfl, rfl⟩
    · split at checked
      · obtain ⟨rfl, rfl⟩ := Prod.mk.inj (Outcome.ok.inj checked)
        exact ⟨rfl, rfl, rfl⟩
      · obtain ⟨_, _, checked⟩ := Outcome.bind_ok.mp checked
        obtain ⟨newDiff, _, checked⟩ := Outcome.bind_ok.mp checked
        split at checked
        · obtain ⟨rfl, rfl⟩ := Prod.mk.inj (Outcome.ok.inj checked)
          exact ⟨rfl, rfl, rfl⟩
        · obtain ⟨rfl, rfl⟩ := Prod.mk.inj (Outcome.ok.inj checked)
          exact setCurrent_spec _ newDiff

theorem clamp_ok (value : UInt64) {least greatest : UInt64} (ordered : least ≤ greatest) :
    ∃ clamped, clamp value least greatest = .ok clamped := by
  unfold clamp
  rw [Outcome.check_ok (u := ()) |>.mpr ordered]
  exact ⟨_, rfl⟩

theorem suggest_ok {v : Vardiff} (clamps : Clamps v.cfg) (difficulty : UInt64) (now : Instant) :
    ∃ applied, v.suggest difficulty now = .ok applied := by
  obtain ⟨clamped, ok⟩ := clamp_ok difficulty clamps.ordered
  unfold suggest
  rw [ok]
  exact ⟨_, rfl⟩

theorem checkRetarget_ok {v : Vardiff} (clamps : Clamps v.cfg) (retarget : RetargetStep) (now : Instant) :
    ∃ checked, v.checkRetarget retarget now = .ok checked := by
  unfold checkRetarget
  split
  · exact ⟨_, rfl⟩
  · dsimp only
    split
    · exact ⟨_, rfl⟩
    · split
      · exact ⟨_, rfl⟩
      · rename_i rounded _
        obtain ⟨newDiff, ok⟩ := clamp_ok rounded clamps.ordered
        rw [Outcome.check_ok (u := ()) |>.mpr clamps.factor, Outcome.ok_bind, ok, Outcome.ok_bind]
        split <;> exact ⟨_, rfl⟩

/-! ### The range of the difficulty -/

theorem clamp_within {value least greatest clamped : UInt64} (ok : clamp value least greatest = .ok clamped) :
    least ≤ clamped ∧ clamped ≤ greatest := by
  unfold clamp at ok
  obtain ⟨_, checked, ok⟩ := Outcome.bind_ok.mp ok
  have ordered : least ≤ greatest := Outcome.check_ok.mp checked
  obtain rfl := Outcome.ok.inj ok
  split
  · exact ⟨UInt64.le_refl _, ordered⟩
  · rename_i above
    split
    · exact ⟨ordered, UInt64.le_refl _⟩
    · rename_i below
      exact ⟨UInt64.not_lt.mp above, UInt64.not_lt.mp below⟩

/-- The configured range and the difficulty a session starts with. -/
def Allowed (cfg : VardiffConfig) (initialDifficulty difficulty : UInt64) : Prop :=
  difficulty = initialDifficulty ∨ (cfg.minDifficulty ≤ difficulty ∧ difficulty ≤ cfg.maxDifficulty)

/-- The difficulties stay, or the current one becomes the previous one under a new one in the range. -/
def Moved (v v' : Vardiff) : Prop :=
  (v'.current = v.current ∧ v'.previous = v.previous) ∨
    (v'.previous = v.current ∧ v.cfg.minDifficulty ≤ v'.current ∧ v'.current ≤ v.cfg.maxDifficulty)

theorem Moved.allowed {cfg : VardiffConfig} {initialDifficulty : UInt64} {v v' : Vardiff} (moved : Moved v v')
    (same : v.cfg = cfg) (allowed : Allowed cfg initialDifficulty v.current) : Allowed cfg initialDifficulty v'.current := by
  obtain ⟨current, -⟩ | ⟨-, within⟩ := moved
  · rw [current]
    exact allowed
  · rw [same] at within
    exact .inr within

theorem Allowed.floor {cfg : VardiffConfig} {initialDifficulty difficulty : UInt64}
    (allowed : Allowed cfg initialDifficulty difficulty) (floor : cfg.minDifficulty ≤ initialDifficulty) :
    cfg.minDifficulty ≤ difficulty := by
  rcases allowed with rfl | within
  · exact floor
  · exact within.1

theorem setCurrent_moved {v : Vardiff} {difficulty : UInt64}
    (within : v.cfg.minDifficulty ≤ difficulty ∧ difficulty ≤ v.cfg.maxDifficulty) : Moved v (v.setCurrent difficulty) := by
  unfold setCurrent
  split
  · exact .inr ⟨rfl, within⟩
  · exact .inl ⟨rfl, rfl⟩

/-- All that a suggestion changes but the shares: only the first one restarts the interval. -/
theorem suggest_due {v v' : Vardiff} {difficulty applied : UInt64} {now : Instant}
    (suggested : v.suggest difficulty now = .ok (applied, v')) :
    Moved v v' ∧ v'.suggestApplied = true ∧ (v.suggestApplied = true → v'.lastRetarget = v.lastRetarget) := by
  unfold suggest at suggested
  obtain ⟨clamped, ok, suggested⟩ := Outcome.bind_ok.mp suggested
  obtain ⟨rfl, rfl⟩ := Prod.mk.inj (Outcome.ok.inj suggested)
  have moved := setCurrent_moved (clamp_within ok)
  have flag : (v.setCurrent clamped).suggestApplied = v.suggestApplied ∧
      (v.setCurrent clamped).lastRetarget = v.lastRetarget := by
    unfold setCurrent
    split <;> exact ⟨rfl, rfl⟩
  split
  · rename_i applied
    exact ⟨moved, applied, fun _ => flag.2⟩
  · rename_i fresh
    refine ⟨moved, rfl, fun applied => ?_⟩
    exact absurd (flag.1.trans applied) fresh

/-- A check that is due restarts the interval, whatever it makes of the difficulty. -/
theorem checkRetarget_due {retarget : RetargetStep} {v v' : Vardiff} {now : Instant} {change : Option UInt64}
    (checked : v.checkRetarget retarget now = .ok (change, v')) :
    v'.suggestApplied = v.suggestApplied ∧ Moved v v' ∧
    (elapsed now v.lastRetarget < v.retargetInterval → change = none ∧ v' = v) ∧
    (v.retargetInterval ≤ elapsed now v.lastRetarget → v'.lastRetarget = now) := by
  unfold checkRetarget at checked
  split at checked
  · rename_i early
    obtain ⟨rfl, rfl⟩ := Prod.mk.inj (Outcome.ok.inj checked)
    exact ⟨rfl, .inl ⟨rfl, rfl⟩, fun _ => ⟨rfl, rfl⟩, fun due => absurd early (Nat.not_lt.mpr due)⟩
  · rename_i due
    have restarted : v'.suggestApplied = v.suggestApplied ∧ Moved v v' ∧ v'.lastRetarget = now := by
      dsimp only at checked
      split at checked
      · obtain ⟨rfl, rfl⟩ := Prod.mk.inj (Outcome.ok.inj checked)
        exact ⟨rfl, .inl ⟨rfl, rfl⟩, rfl⟩
      · split at checked
        · obtain ⟨rfl, rfl⟩ := Prod.mk.inj (Outcome.ok.inj checked)
          exact ⟨rfl, .inl ⟨rfl, rfl⟩, rfl⟩
        · obtain ⟨_, _, checked⟩ := Outcome.bind_ok.mp checked
          obtain ⟨newDiff, ok, checked⟩ := Outcome.bind_ok.mp checked
          split at checked
          · obtain ⟨rfl, rfl⟩ := Prod.mk.inj (Outcome.ok.inj checked)
            exact ⟨rfl, .inl ⟨rfl, rfl⟩, rfl⟩
          · obtain ⟨rfl, rfl⟩ := Prod.mk.inj (Outcome.ok.inj checked)
            have moved := @setCurrent_moved { v with lastRetarget := now } newDiff (clamp_within ok)
            refine ⟨?_, moved, ?_⟩ <;> unfold setCurrent <;> split <;> rfl
    exact ⟨restarted.1, restarted.2.1, fun early => absurd early due, fun _ => restarted.2.2⟩

theorem elapsed_lt (now last : Int) {n : Nat} (positive : 0 < n) :
    elapsed now last < secs n ↔ now < last + (secs n : Nat) := by
  unfold elapsed secs
  omega

theorem elapsed_lt_interval {v : Vardiff} (ticks : v.cfg.retargetIntervalSecs ≠ 0) (now : Instant) :
    elapsed now v.lastRetarget < v.retargetInterval ↔ now < v.retargetDue :=
  elapsed_lt now v.lastRetarget (Nat.pos_of_ne_zero fun zero => ticks (UInt64.toNat_inj.mp zero))

/-! ### Whole sessions -/

/-- An operation on a session's difficulty; a retarget brings the floating-point computation it makes. -/
inductive Op where
  | suggest (difficulty : UInt64)
  | recordShare (credited : UInt64) (serial : Option Nat)
  | checkRetarget (retarget : RetargetStep)
  | takeShareHistory
  | restoreShareHistory (history : ShareHistory)

def Op.isSuggest : Op → Bool
  | .suggest _ => true
  | _ => false

def apply (v : Vardiff) (now : Instant) : Op → Result Vardiff
  | .suggest difficulty => return (← v.suggest difficulty now).2
  | .recordShare credited serial => return v.recordShare now credited serial
  | .checkRetarget retarget => return (← v.checkRetarget retarget now).2
  | .takeShareHistory => return (v.takeShareHistory now).2
  | .restoreShareHistory history => return v.restoreShareHistory now history

def run (v : Vardiff) (ops : List (Instant × Op)) : Result Vardiff := ops.foldlM (fun v op => v.apply op.1 op.2) v

/-- How many suggestions of a sequence of operations moved the time of the next retarget. -/
def suggestMoves (v : Vardiff) : List (Instant × Op) → Nat
  | [] => 0
  | (now, op) :: ops =>
    match v.apply now op with
    | .ok v' => (if op.isSuggest && decide (v'.retargetDue ≠ v.retargetDue) then 1 else 0) + v'.suggestMoves ops
    | _ => 0

/-- What an operation does to all but the shares. -/
structure Applied (v v' : Vardiff) (op : Op) : Prop where
  cfg : v'.cfg = v.cfg
  moved : Moved v v'
  applied : op.isSuggest = true → v'.suggestApplied = true
  flag : v.suggestApplied = true → v'.suggestApplied = true
  due : op.isSuggest = true → v.suggestApplied = true → v'.retargetDue = v.retargetDue

theorem apply_applied {v : Vardiff} (clamps : Clamps v.cfg) (now : Instant) (op : Op) :
    ∃ v', v.apply now op = .ok v' ∧ Applied v v' op := by
  cases op with
  | suggest difficulty =>
    obtain ⟨⟨applied, v'⟩, suggested⟩ := suggest_ok clamps difficulty now
    obtain ⟨moved, set, keeps⟩ := suggest_due suggested
    have cfg := (suggest_spec suggested).2.2
    refine ⟨v', ?_, cfg, moved, fun _ => set, fun _ => set, fun _ granted => ?_⟩
    · simp [apply, suggested]
    · unfold retargetDue retargetInterval
      rw [keeps granted, cfg]
  | checkRetarget retarget =>
    obtain ⟨⟨change, v'⟩, checked⟩ := checkRetarget_ok clamps retarget now
    obtain ⟨flag, moved, -⟩ := checkRetarget_due checked
    refine ⟨v', ?_, (checkRetarget_spec checked).2.2, moved, nofun, fun set => flag.trans set, nofun⟩
    simp [apply, checked]
  | recordShare credited serial => exact ⟨_, rfl, rfl, .inl ⟨rfl, rfl⟩, nofun, id, nofun⟩
  | takeShareHistory => exact ⟨_, rfl, rfl, .inl ⟨rfl, rfl⟩, nofun, id, nofun⟩
  | restoreShareHistory history => exact ⟨_, rfl, rfl, .inl ⟨rfl, rfl⟩, nofun, id, nofun⟩

/-- The invariant of a session's difficulty. -/
structure InRange (cfg : VardiffConfig) (initialDifficulty : UInt64) (v : Vardiff) : Prop where
  same : v.cfg = cfg
  current : Allowed cfg initialDifficulty v.current
  previous : Allowed cfg initialDifficulty v.previous

theorem inRange_new (cfg : VardiffConfig) (initialDifficulty : UInt64) (now : Instant) :
    InRange cfg initialDifficulty (new cfg initialDifficulty now) := ⟨rfl, .inl rfl, .inl rfl⟩

theorem InRange.step {cfg : VardiffConfig} {initialDifficulty : UInt64} {v v' : Vardiff} {op : Op}
    (range : InRange cfg initialDifficulty v) (applied : Applied v v' op) : InRange cfg initialDifficulty v' := by
  refine ⟨applied.cfg.trans range.same, applied.moved.allowed range.same range.current, ?_⟩
  · obtain ⟨-, previous⟩ | ⟨previous, -⟩ := applied.moved
    · rw [previous]
      exact range.previous
    · rw [previous]
      exact range.current

theorem run_inRange {cfg : VardiffConfig} (clamps : Clamps cfg) {initialDifficulty : UInt64} {v : Vardiff}
    (range : InRange cfg initialDifficulty v) (ops : List (Instant × Op)) :
    ∃ v', v.run ops = .ok v' ∧ InRange cfg initialDifficulty v' := by
  induction ops generalizing v with
  | nil => exact ⟨v, rfl, range⟩
  | cons op ops ih =>
    obtain ⟨v', ok, applied⟩ := apply_applied (range.same ▸ clamps) op.1 op.2
    obtain ⟨v'', later, end'⟩ := ih (range.step applied)
    refine ⟨v'', ?_, end'⟩
    rw [run, List.foldlM_cons, ok]
    exact later

theorem suggestMoves_le {cfg : VardiffConfig} (clamps : Clamps cfg) {v : Vardiff} (same : v.cfg = cfg)
    (ops : List (Instant × Op)) : v.suggestMoves ops ≤ if v.suggestApplied then 0 else 1 := by
  induction ops generalizing v with
  | nil => exact Nat.zero_le _
  | cons op ops ih =>
    obtain ⟨v', ok, applied⟩ := apply_applied (same ▸ clamps) op.1 op.2
    have later := ih (applied.cfg.trans same)
    rw [suggestMoves, ok]
    dsimp only
    cases suggests : op.2.isSuggest with
    | false =>
      have kept : (if v'.suggestApplied then 0 else 1) ≤ if v.suggestApplied then 0 else 1 := by
        split <;> split <;> grind [applied.flag]
      simpa using later.trans kept
    | true =>
      rw [if_pos (applied.applied suggests)] at later
      cases granted : v.suggestApplied with
      | false =>
        rw [Nat.le_zero.mp later]
        split <;> decide
      | true =>
        have due := applied.due suggests granted
        simpa [due] using later

/-- A session's difficulty over any operations at any times: nothing panics, both difficulties stay in the range or at the
initial one, at most one suggestion moves the next retarget, and a check made when it is due moves it a full interval on. -/
theorem vardiff_over_run {cfg : Config} (valid : cfg.validate = .ok ()) (start : Instant) (ops : List (Instant × Op)) :
    ∃ v, (new cfg.vardiff cfg.pool.initialDifficulty start).run ops = .ok v ∧
      Allowed cfg.vardiff cfg.pool.initialDifficulty v.current ∧
      Allowed cfg.vardiff cfg.pool.initialDifficulty v.previous ∧
      (new cfg.vardiff cfg.pool.initialDifficulty start).suggestMoves ops ≤ 1 ∧
      ∀ (retarget : RetargetStep) (now : Instant), ∃ change v', v.checkRetarget retarget now = .ok (change, v') ∧
        (v.retargetDue ≤ now → v'.retargetDue = now + secs cfg.vardiff.retargetIntervalSecs.toNat) ∧
        (now < v.retargetDue → change = none ∧ v' = v) := by
  have accepted := (cfg.validate_accepted valid).vardiff
  have clamps := validateVardiff_clamps accepted
  obtain ⟨v, ran, range⟩ := run_inRange clamps (inRange_new cfg.vardiff cfg.pool.initialDifficulty start) ops
  refine ⟨v, ran, range.current, range.previous, suggestMoves_le clamps rfl ops, fun retarget now => ?_⟩
  obtain ⟨⟨change, v'⟩, checked⟩ := checkRetarget_ok (range.same ▸ clamps) retarget now
  obtain ⟨-, -, early, due⟩ := checkRetarget_due checked
  have ticks : v.cfg.retargetIntervalSecs ≠ 0 := by
    rw [range.same]
    exact validateVardiff_ticks accepted
  refine ⟨change, v', checked, fun reached => ?_, fun before => early ((elapsed_lt_interval ticks now).mpr before)⟩
  have last := due (Nat.not_lt.mp fun lt => absurd ((elapsed_lt_interval ticks now).mp lt) (Int.not_lt.mpr reached))
  unfold retargetDue retargetInterval
  rw [last, (checkRetarget_spec checked).2.2, range.same]

def everything : List (Instant × Op) :=
  [(5, .suggest 100), (7, .recordShare 4096 none), (secs 70, .suggest 8192), (secs 90, .checkRetarget fun _ _ _ _ => some 1),
    (secs 91, .takeShareHistory), (secs 92, .restoreShareHistory ⟨[], 0⟩)]

theorem vardiff_over_everything : exampleConfig.validate = .ok () ∧
    ∃ v, (new exampleConfig.vardiff exampleConfig.pool.initialDifficulty 0).run everything = .ok v ∧
      (new exampleConfig.vardiff exampleConfig.pool.initialDifficulty 0).suggestMoves everything ≤ 1 := by
  refine ⟨by decide, ?_⟩
  obtain ⟨v, ran, -, -, once, -⟩ := @vardiff_over_run exampleConfig (by decide) 0 everything
  exact ⟨v, ran, once⟩

end Vardiff

end SoloPool
