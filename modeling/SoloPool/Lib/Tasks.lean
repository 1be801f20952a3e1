import Mathlib.Algebra.BigOperators.Group.List.Basic
import Mathlib.Algebra.GroupWithZero.Nat

/-!
# Tasks that run side by side

The tasks of a program as a list: a step replaces one of them, a new one joins at the end. What a step does to a sum or
a count over all tasks depends only on the task that moved. A task may still have calls to make; what it holds now is
read backwards off them, from what it holds at their end. Where every thing of some kind is in one place only, moving
what a place holds to another keeps it so.
-/

namespace SoloPool.Lib

variable {α : Type} {tasks : List α} {i : Nat} {task : α}

theorem tasks_perm (running : tasks[i]? = some task) : tasks.Perm (task :: tasks.eraseIdx i) := by
  obtain ⟨inside, rfl⟩ := List.getElem?_eq_some_iff.mp running
  exact (List.getElem_cons_eraseIdx_perm inside).symm

theorem set_perm (running : tasks[i]? = some task) (next : α) :
    (tasks.set i next).Perm (next :: tasks.eraseIdx i) := by
  obtain ⟨inside, _⟩ := List.getElem?_eq_some_iff.mp running
  exact List.set_perm_cons_eraseIdx inside next

/-- The only task there is. -/
theorem running_alone (alone : tasks.length ≤ 1) (running : tasks[i]? = some task) : i = 0 ∧ tasks = [task] := by
  cases tasks with
  | nil => cases running
  | cons first rest =>
    obtain rfl : rest = [] := List.eq_nil_of_length_eq_zero (Nat.le_zero.mp (Nat.le_of_succ_le_succ alone))
    cases i with
    | zero => exact ⟨rfl, by rw [Option.some.inj running]⟩
    | succ i => cases running

theorem mem_of_running (running : tasks[i]? = some task) : task ∈ tasks := List.mem_of_getElem? running

theorem mem_set {next t : α} (running : tasks[i]? = some task) :
    t ∈ tasks.set i next ↔ t = next ∨ t ∈ tasks.eraseIdx i := by
  rw [(set_perm running next).mem_iff, List.mem_cons]

theorem mem_tasks {t : α} (running : tasks[i]? = some task) : t ∈ tasks ↔ t = task ∨ t ∈ tasks.eraseIdx i := by
  rw [(tasks_perm running).mem_iff, List.mem_cons]

theorem forall_set {P : α → Prop} {next : α} (all : ∀ t ∈ tasks, P t) (own : P next) : ∀ t ∈ tasks.set i next, P t := by
  intro t member
  rcases List.mem_or_eq_of_mem_set member with old | rfl
  · exact all t old
  · exact own

theorem forall_append {P : α → Prop} {next : α} (all : ∀ t ∈ tasks, P t) (own : P next) :
    ∀ t ∈ tasks ++ [next], P t := by
  intro t member
  rcases List.mem_append.mp member with old | new
  · exact all t old
  · obtain rfl := List.mem_singleton.mp new
    exact own

theorem exists_set {Q : α → Prop} {next : α} (running : tasks[i]? = some task) (among : ∃ t ∈ tasks, Q t)
    (own : Q task → Q next) : ∃ t ∈ tasks.set i next, Q t := by
  obtain ⟨t, member, holds⟩ := among
  rcases (mem_tasks running).mp member with rfl | elsewhere
  · exact ⟨next, (mem_set running).mpr (.inl rfl), own holds⟩
  · exact ⟨t, (mem_set running).mpr (.inr elsewhere), holds⟩

theorem sum_set {M : Type} [AddCommMonoid M] (f : α → M) (running : tasks[i]? = some task) (next : α) :
    ((tasks.set i next).map f).sum + f task = (tasks.map f).sum + f next := by
  rw [((set_perm running next).map f).sum_eq, ((tasks_perm running).map f).sum_eq, List.map_cons, List.map_cons,
    List.sum_cons, List.sum_cons]
  ac_rfl

theorem countP_set {P : α → Bool} (running : tasks[i]? = some task) (next : α) :
    (tasks.set i next).countP P + (if P task then 1 else 0) = tasks.countP P + (if P next then 1 else 0) := by
  rw [(set_perm running next).countP_eq, (tasks_perm running).countP_eq, List.countP_cons, List.countP_cons]
  omega

theorem filterMap_cons_toList {β : Type} (f : α → Option β) (a : α) (rest : List α) :
    (a :: rest).filterMap f = (f a).toList ++ rest.filterMap f := by
  rw [List.filterMap_cons]
  cases f a <;> rfl

theorem filterMap_tasks {β : Type} (f : α → Option β) (running : tasks[i]? = some task) :
    (tasks.filterMap f).Perm ((f task).toList ++ (tasks.eraseIdx i).filterMap f) := by
  rw [← filterMap_cons_toList]
  exact (tasks_perm running).filterMap f

theorem filterMap_set {β : Type} (f : α → Option β) (running : tasks[i]? = some task) (next : α) :
    ((tasks.set i next).filterMap f).Perm ((f next).toList ++ (tasks.eraseIdx i).filterMap f) := by
  rw [← filterMap_cons_toList]
  exact (set_perm running next).filterMap f

/-! ### What the calls to come say of a task -/

variable {β : Type} {before : α → β → β} {fits : α → β → Prop} {calls later : List α} {call : α} {final : β}

/-- What a task holds before its calls, given what it holds after them. -/
def origin (before : α → β → β) (calls : List α) (final : β) : β := calls.foldr before final

/-- Every call leaves the task with something it can leave it with. -/
def Consistent (before : α → β → β) (fits : α → β → Prop) : List α → β → Prop
  | [], _ => True
  | call :: rest, final => fits call (origin before rest final) ∧ Consistent before fits rest final

theorem origin_cons : origin before (call :: calls) final = before call (origin before calls final) := rfl

theorem origin_append : origin before (calls ++ later) final = origin before calls (origin before later final) :=
  List.foldr_append

theorem consistent_append : Consistent before fits (calls ++ later) final ↔
    Consistent before fits calls (origin before later final) ∧ Consistent before fits later final := by
  induction calls with
  | nil => simp [Consistent]
  | cons call rest ih =>
    rw [List.cons_append, Consistent, Consistent, ih, origin_append, and_assoc]

/-- Calls that neither take nor give. -/
theorem origin_neutral (neutral : ∀ call ∈ calls, ∀ b, before call b = b) : origin before calls final = final := by
  induction calls with
  | nil => rfl
  | cons call rest ih =>
    rw [origin, List.foldr_cons, neutral call List.mem_cons_self]
    exact ih (fun later among => neutral later (List.mem_cons_of_mem _ among))

theorem consistent_neutral (neutral : ∀ call ∈ calls, ∀ b, fits call b) : Consistent before fits calls final := by
  induction calls with
  | nil => trivial
  | cons call rest ih =>
    exact ⟨neutral call List.mem_cons_self _, ih (fun later among => neutral later (List.mem_cons_of_mem _ among))⟩

/-! ### Things in one place -/

variable {π : Type} {copies copies' : π → Nat} {place other source target : π}

/-- There is one copy, in this place. -/
structure Sole (copies : π → Nat) (place : π) : Prop where
  here : copies place = 1
  elsewhere : ∀ other, other ≠ place → copies other = 0

/-- Other places may lose what they hold. -/
theorem Sole.stay (sole : Sole copies place) (here : copies' place = copies place)
    (less : ∀ other, copies' other ≤ copies other) : Sole copies' place where
  here := here.trans sole.here
  elsewhere other apart := Nat.eq_zero_of_le_zero ((less other).trans_eq (sole.elsewhere other apart))

/-- All that a place holds moves to another. -/
structure Moved (copies copies' : π → Nat) (source target : π) : Prop where
  apart : source ≠ target
  left : copies' source = 0
  arrived : copies' target = copies source + copies target
  others : ∀ other, other ≠ source → other ≠ target → copies' other = copies other

theorem Sole.arrive (sole : Sole copies source) (moved : Moved copies copies' source target) : Sole copies' target where
  here := by rw [moved.arrived, sole.here, sole.elsewhere target moved.apart.symm]
  elsewhere := by
    intro other apart
    by_cases old : other = source
    · rw [old]
      exact moved.left
    · rw [moved.others other old apart]
      exact sole.elsewhere other old

theorem Sole.unmoved (sole : Sole copies place) (moved : Moved copies copies' source target) (away : place ≠ source) :
    Sole copies' place := by
  have empty : copies source = 0 := sole.elsewhere source away.symm
  have arrived : copies' target = copies target := by rw [moved.arrived, empty, Nat.zero_add]
  have same : ∀ other, copies' other = copies other := by
    intro other
    by_cases old : other = source
    · rw [old, moved.left, empty]
    · by_cases new : other = target
      · rw [new]
        exact arrived
      · exact moved.others other old new
  exact sole.stay (same place) (fun other => Nat.le_of_eq (same other))

end SoloPool.Lib
