import Mathlib.Data.List.Nodup
import SoloPool.Lib.Window

/-!
# Queues of bounded length without repetitions

`enqueue` adds a key that is not there yet and drops the oldest one when the queue is full. A key that came in goes only
when as many others as the queue holds have come in behind it.
-/

namespace SoloPool.Lib

variable {α : Type} {capacity : Nat} {queue : List α} {key other : α}

/-- The key is in the queue with `count` keys behind it. -/
def Behind (queue : List α) (key : α) (count : Nat) : Prop :=
  ∃ before after, queue = before ++ key :: after ∧ after.length = count

theorem Behind.mem {count : Nat} (behind : Behind queue key count) : key ∈ queue := by
  obtain ⟨before, after, rfl, -⟩ := behind
  exact List.mem_append_right _ List.mem_cons_self

variable [DecidableEq α]

def enqueue (capacity : Nat) (queue : List α) (key : α) : List α :=
  if key ∈ queue then queue else pushBounded capacity queue key

theorem enqueue_nodup (nodup : queue.Nodup) : (enqueue capacity queue key).Nodup := by
  unfold enqueue
  split
  · exact nodup
  · rename_i absent
    refine List.Nodup.append (nodup.sublist (makeRoom_suffix capacity queue).sublist) (List.nodup_singleton key) ?_
    intro other among single
    rw [List.mem_singleton.mp single] at among
    exact absent ((makeRoom_suffix capacity queue).mem among)

theorem length_enqueue_le (positive : 0 < capacity) (bounded : queue.length ≤ capacity) :
    (enqueue capacity queue key).length ≤ capacity := by
  unfold enqueue pushBounded makeRoom
  split
  · exact bounded
  · rw [List.length_append, List.length_singleton]
    split
    · rw [List.length_tail]
      omega
    · omega

theorem behind_enqueue (absent : key ∉ queue) : Behind (enqueue capacity queue key) key 0 :=
  ⟨makeRoom capacity queue, [], if_neg absent, rfl⟩

/-- One more key comes in behind; the key itself goes only if it is the oldest of a full queue. -/
theorem Behind.enqueue {count : Nat} (behind : Behind queue key count) (absent : other ∉ queue) (few : count + 1 < capacity) :
    Behind (enqueue capacity queue other) key (count + 1) := by
  obtain ⟨before, after, rfl, rfl⟩ := behind
  have added : Lib.enqueue capacity (before ++ key :: after) other =
      pushBounded capacity (before ++ key :: after) other :=
    if_neg absent
  rw [added]
  unfold pushBounded makeRoom
  split
  · rename_i full
    cases before with
    | nil =>
      rw [List.nil_append, List.length_cons] at full
      omega
    | cons first before => exact ⟨before, after ++ [other], by simp, by simp⟩
  · exact ⟨before, after ++ [other], by simp, by simp⟩

end SoloPool.Lib
