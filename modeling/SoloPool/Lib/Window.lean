import Mathlib.Data.List.Chain
import Mathlib.Data.List.DropRight

/-!
# Bounded queues over a log

A queue that drops its oldest element before it takes a new one holds the last elements of everything ever pushed. In
a log where a key only changes at flagged elements, an element with no flag behind it still has the key of the end.
-/

namespace SoloPool.Lib

variable {α : Type}

def makeRoom (depth : Nat) (queue : List α) : List α := if depth ≤ queue.length then queue.tail else queue

/-- Append to a queue of at most `depth` elements, dropping the oldest one of a full queue. -/
def pushBounded (depth : Nat) (queue : List α) (a : α) : List α := makeRoom depth queue ++ [a]

theorem makeRoom_suffix (depth : Nat) (queue : List α) : makeRoom depth queue <:+ queue := by
  unfold makeRoom
  split
  · exact List.tail_suffix queue
  · exact List.suffix_rfl

theorem length_rtake (l : List α) (n : Nat) : (l.rtake n).length = min n l.length := by
  simp only [List.rtake, List.length_drop]
  omega

theorem rtake_suffix (l : List α) (n : Nat) : l.rtake n <:+ l := List.drop_suffix _ _

theorem tail_rtake_succ {l : List α} {n : Nat} (full : n < l.length) : (l.rtake (n + 1)).tail = l.rtake n := by
  rw [List.rtake, List.tail_drop, List.rtake]
  congr 1
  omega

/-- Pushing onto the window of a log is the window of the longer log. -/
theorem pushBounded_rtake (depth : Nat) (log : List α) (a : α) :
    pushBounded (depth + 1) (log.rtake (depth + 1)) a = (log ++ [a]).rtake (depth + 1) := by
  rw [List.rtake_concat_succ, pushBounded, makeRoom, length_rtake]
  by_cases full : depth < log.length
  · rw [if_pos (by omega), tail_rtake_succ full]
  · rw [if_neg (by omega)]
    have short : ∀ k, log.length ≤ k → log.rtake k = log := by
      intro k small
      rw [List.rtake, Nat.sub_eq_zero_of_le small, List.drop_zero]
    rw [short _ (by omega), short _ (by omega)]

/-- A window pushed onto and cut again is the window of the longer log. -/
theorem rtake_concat_rtake (log : List α) (n : Nat) (a : α) :
    (log.rtake (n + 1) ++ [a]).rtake (n + 1) = (log ++ [a]).rtake (n + 1) := by
  rw [List.rtake_concat_succ, List.rtake_concat_succ]
  congr 1
  simp only [List.rtake_eq_reverse_take_reverse, List.reverse_reverse, List.take_take]
  congr 2
  omega

theorem rtake_eq_append_cons {log before after : List α} {n : Nat} {a : α}
    (window : log.rtake n = before ++ a :: after) : ∃ dropped, log = dropped ++ before ++ a :: after := by
  obtain ⟨dropped, split⟩ := rtake_suffix log n
  exact ⟨dropped, by rw [← split, window, List.append_assoc]⟩

/-- An element of a longer queue is the new one, or was in the queue with the new one behind it. -/
theorem concat_eq_append_cons {queue before after : List α} {a x : α} (split : queue ++ [a] = before ++ x :: after) :
    (x = a ∧ after = []) ∨ ∃ rest, after = rest ++ [a] ∧ queue = before ++ x :: rest := by
  cases after using List.reverseRecOn with
  | nil =>
    obtain ⟨_, last⟩ := List.append_inj' split rfl
    exact .inl ⟨by simpa [eq_comm] using last, rfl⟩
  | append_singleton rest z =>
    rw [← List.cons_append, ← List.append_assoc] at split
    obtain ⟨front, last⟩ := List.append_inj' split rfl
    obtain rfl : a = z := by simpa using last
    exact .inr ⟨rest, rfl, front⟩

theorem rtake_of_append_cons {before after : List α} {n : Nat} {a : α} (recent : after.length < n) :
    ∃ k, (before ++ a :: after).rtake n = before.drop k ++ a :: after := by
  refine ⟨(before ++ a :: after).length - n, ?_⟩
  have front : (before ++ a :: after).length - n ≤ before.length := by
    rw [List.length_append, List.length_cons]
    omega
  rw [List.rtake, List.drop_append, Nat.sub_eq_zero_of_le front, List.drop_zero]

theorem mem_rtake {log : List α} {n : Nat} {a : α} :
    a ∈ log.rtake n ↔ ∃ before after, log = before ++ a :: after ∧ after.length < n := by
  constructor
  · intro member
    obtain ⟨before, after, window⟩ := List.append_of_mem member
    obtain ⟨dropped, split⟩ := rtake_eq_append_cons window
    have short := congrArg List.length window
    rw [length_rtake, List.length_append, List.length_cons] at short
    exact ⟨_, after, split, by omega⟩
  · rintro ⟨before, after, rfl, recent⟩
    obtain ⟨k, window⟩ := @rtake_of_append_cons _ before after n a recent
    rw [window]
    exact List.mem_append_right _ List.mem_cons_self

theorem getLast?_rtake_succ (log : List α) (n : Nat) : (log.rtake (n + 1)).getLast? = log.getLast? := by
  cases log using List.reverseRecOn with
  | nil => simp
  | append_singleton log a => rw [List.rtake_concat_succ, List.getLast?_concat, List.getLast?_concat]

/-! ### Keys that change at flagged elements -/

variable {κ : Type} {flag : α → Bool} {key : α → κ}

/-- Along the log, `key` only changes at flagged elements. -/
def Steady (flag : α → Bool) (key : α → κ) (log : List α) : Prop :=
  log.IsChain (fun a b => flag b = false → key b = key a)

theorem Steady.nil : Steady flag key [] := List.isChain_nil

theorem Steady.concat {log : List α} {a : α} (steady : Steady flag key log)
    (next : ∀ last ∈ log.getLast?, flag a = false → key a = key last) : Steady flag key (log ++ [a]) := by
  refine List.isChain_append.mpr ⟨steady, List.isChain_singleton a, ?_⟩
  intro last isLast b isHead
  obtain rfl : a = b := by simpa using isHead
  exact next last isLast

theorem Steady.suffix {log tail : List α} (steady : Steady flag key log) (back : tail <:+ log) :
    Steady flag key tail := List.IsChain.suffix steady back

theorem Steady.map {β : Type} {f : β → α} {log : List β} (steady : Steady (fun b => flag (f b)) (fun b => key (f b)) log) :
    Steady flag key (log.map f) := (List.isChain_map f).mpr steady

/-- Behind an element with no flag after it, the key has not changed. -/
theorem Steady.getLast_eq {a last : α} {after : List α} (steady : Steady flag key (a :: after))
    (unflagged : ∀ b ∈ after, flag b = false) (isLast : (a :: after).getLast? = some last) : key last = key a := by
  induction after generalizing a with
  | nil =>
    obtain rfl : a = last := by simpa using isLast
    rfl
  | cons b rest ih =>
    obtain ⟨next, steady⟩ := List.isChain_cons_cons.mp steady
    have same : key b = key a := next (unflagged b List.mem_cons_self)
    have kept : key last = key b :=
      ih steady (fun x member => unflagged x (List.mem_cons_of_mem _ member)) (by simpa using isLast)
    exact kept.trans same

end SoloPool.Lib
