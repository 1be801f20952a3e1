import Mathlib.Logic.Basic

/-!
# Runs under a condition on their steps

`step s a` is the state after action `a`, or `none` when `a` is not possible in `s`. `Reach` collects the states that
runs reach when each of their steps meets `good`. A turn may add to a record what it reads and then what it writes; where it
breaks off, the record ends inside what was added.
-/

namespace SoloPool.Lib

variable {σ α : Type} {step : σ → α → Option σ} {good good' : σ → α → Prop} {start s t : σ}

/-- The states reached from `start` by steps that all meet `good`. -/
inductive Reach (step : σ → α → Option σ) (good : σ → α → Prop) (start : σ) : σ → Prop where
  | start : Reach step good start start
  | step {s t : σ} {a : α} (before : Reach step good start s) (meets : good s a) (taken : step s a = some t) :
      Reach step good start t

def Always (_ : σ) (_ : α) : Prop := True

theorem Reach.invariant (inv : σ → Prop) (initial : inv start)
    (preserved : ∀ s a t, Reach step good start s → inv s → good s a → step s a = some t → inv t)
    (reached : Reach step good start s) : inv s := by
  induction reached with
  | start => exact initial
  | step before meets taken ih => exact preserved _ _ _ before ih meets taken

theorem Reach.trans {u : σ} (first : Reach step good start s) (second : Reach step good s u) : Reach step good start u := by
  induction second with
  | start => exact first
  | step _ meets taken ih => exact .step ih meets taken

/-- A condition that follows along the way reaches at least the same states. -/
theorem Reach.mono (weaker : ∀ s a, Reach step good start s → good s a → good' s a) (reached : Reach step good start s) :
    Reach step good' start s := by
  induction reached with
  | start => exact .start
  | step before meets taken ih => exact .step ih (weaker _ _ before meets) taken

instance (s : σ) (a : α) : Decidable (Always s a) := isTrue trivial

/-- The state after a list of actions that all meet `good`. -/
def runActions (step : σ → α → Option σ) (good : σ → α → Prop) [∀ s a, Decidable (good s a)] : σ → List α → Option σ
  | s, [] => some s
  | s, a :: rest => if good s a then (step s a).bind (runActions step good · rest) else none

theorem Reach.of_runActions [∀ s a, Decidable (good s a)] {actions : List α} (reached : Reach step good start s)
    (run : runActions step good s actions = some t) : Reach step good start t := by
  induction actions generalizing s with
  | nil =>
    obtain rfl : s = t := by simpa [runActions] using run
    exact reached
  | cons a rest ih =>
    unfold runActions at run
    split at run
    · rename_i meets
      obtain ⟨next, taken, run⟩ := Option.bind_eq_some_iff.mp run
      exact ih (.step reached meets taken) run
    · simp at run

theorem Reach.of_run [∀ s a, Decidable (good s a)] {P : σ → Prop} (actions : List α)
    (ends : ∃ s ∈ runActions step good start actions, P s) : ∃ s, Reach step good start s ∧ P s := by
  obtain ⟨s, run, holds⟩ := ends
  exact ⟨s, .of_runActions .start run, holds⟩

/-! ### A record cut short -/

variable {β : Type}

/-- A turn that reads at most one thing and breaks off has added nothing yet, or has read and written the first things. -/
theorem take_turn {before downs : List β} (ups : List β) (few : ups.length ≤ 1) (n : Nat) :
    (before ++ ups ++ downs).take (before.length + n) = before ∨
      ∃ written, written <+: downs ∧ (before ++ ups ++ downs).take (before.length + n) = before ++ ups ++ written := by
  rw [List.append_assoc, List.take_length_add_append]
  cases n with
  | zero => exact .inl (by rw [List.take_zero, List.append_nil])
  | succ n =>
    right
    cases ups with
    | nil => exact ⟨_, List.take_prefix (n + 1) downs, by rw [List.nil_append, List.append_nil]⟩
    | cons read rest =>
      obtain rfl : rest = [] := List.eq_nil_of_length_eq_zero (Nat.le_zero.mp (Nat.le_of_succ_le_succ few))
      exact ⟨_, List.take_prefix n downs, by rw [List.singleton_append, List.take_succ_cons, List.append_assoc]; rfl⟩

end SoloPool.Lib
