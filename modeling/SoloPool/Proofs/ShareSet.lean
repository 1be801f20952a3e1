import SoloPool.Lib.Fifo
import SoloPool.Mining.Validator

/-!
# The share set over a session

The queue of a share set has the hashes of its set in the order they came in, and is the bounded queue of `Lib.enqueue`. A
hash that came in is known until a clear, or until 4096 others have come in behind it.
-/

namespace SoloPool
open Lib

namespace ShareSet

/-! ### Operations -/

inductive Op where
  | insert (key : Hash)
  | dedup (result : Result ShareResult)
  | clear
  deriving DecidableEq

def apply (s : ShareSet) : Op → ShareSet
  | .insert key => s.insert key
  | .dedup result => (s.dedup result).2
  | .clear => s.clear

def run (s : ShareSet) (ops : List Op) : ShareSet := ops.foldl apply s

/-- The key that an operation asks to record. -/
def Op.key : Op → Option Hash
  | .insert key => some key
  | .dedup (.ok res) => some res.hash
  | _ => none

/-- The key that an operation brings in: one that was absent. -/
def adds (s : ShareSet) (op : Op) : Option Hash := op.key.filter fun key => !s.contains key

/-- How many keys the operations bring in. -/
def additions (s : ShareSet) : List Op → Nat
  | [] => 0
  | op :: rest => (s.adds op).toList.length + (s.apply op).additions rest

/-! ### The queue -/

structure WellFormed (s : ShareSet) : Prop where
  holds : s.seen = s.order.toFinset
  nodup : s.order.Nodup
  capacity : s.maxSize = 4096
  bounded : s.order.length ≤ 4096

theorem new_wellFormed : new.WellFormed := ⟨rfl, List.nodup_nil, rfl, Nat.zero_le _⟩

theorem clear_wellFormed {s : ShareSet} (wf : s.WellFormed) : s.clear.WellFormed :=
  ⟨rfl, List.nodup_nil, wf.capacity, Nat.zero_le _⟩

section Queue

variable {s : ShareSet} {key : Hash}

theorem WellFormed.contains_iff (wf : s.WellFormed) : s.contains key = true ↔ key ∈ s.order := by
  rw [contains, decide_eq_true_iff, wf.holds, List.mem_toFinset]

theorem toFinset_append_key (order : List Hash) (key : Hash) :
    (order ++ [key]).toFinset = Insert.insert key order.toFinset := by
  ext other
  rw [List.mem_toFinset, List.mem_append, List.mem_singleton, Finset.mem_insert, List.mem_toFinset]
  exact or_comm

/-- Insertion is `enqueue` on the order, and the set follows. -/
theorem WellFormed.insert_order (wf : s.WellFormed) (key : Hash) :
    (s.insert key).order = enqueue 4096 s.order key ∧ (s.insert key).seen = (enqueue 4096 s.order key).toFinset := by
  by_cases known : s.contains key = true
  · have among : key ∈ s.order := wf.contains_iff.mp known
    rw [insert, if_pos known, enqueue, if_pos among]
    exact ⟨rfl, wf.holds⟩
  · have absent : key ∉ s.order := fun among => known (wf.contains_iff.mpr among)
    have count : s.seen.card = s.order.length := by
      rw [wf.holds, List.toFinset_card_of_nodup wf.nodup]
    rw [insert, if_neg known, enqueue, if_neg absent, pushBounded, makeRoom, ← count, ← wf.capacity]
    by_cases full : s.maxSize ≤ s.seen.card
    · rw [if_pos full, if_pos full]
      cases order : s.order with
      | nil =>
        -- a set of 4096 hashes has a queue
        rw [order, List.length_nil] at count
        rw [wf.capacity] at full
        omega
      | cons oldest rest =>
        have nodup : (oldest :: rest).Nodup := order ▸ wf.nodup
        have gone : oldest ∉ rest.toFinset := fun among => nodup.notMem (List.mem_toFinset.mp among)
        have left : s.seen.erase oldest = rest.toFinset := by
          rw [wf.holds, order, List.toFinset_cons, Finset.erase_insert gone]
        refine ⟨rfl, ?_⟩
        rw [List.tail_cons, toFinset_append_key, ← left]
    · rw [if_neg full, if_neg full]
      refine ⟨rfl, ?_⟩
      rw [toFinset_append_key, ← wf.holds]

theorem insert_maxSize (s : ShareSet) (key : Hash) : (s.insert key).maxSize = s.maxSize := by
  unfold insert
  split
  · rfl
  · split
    · cases s.order with
      | nil => rfl
      | cons oldest rest => rfl
    · rfl

theorem WellFormed.insert (wf : s.WellFormed) (key : Hash) : (s.insert key).WellFormed := by
  obtain ⟨order, seen⟩ := wf.insert_order key
  refine ⟨?_, ?_, ?_, ?_⟩
  · rw [seen, order]
  · rw [order]
    exact enqueue_nodup wf.nodup
  · rw [insert_maxSize]
    exact wf.capacity
  · rw [order]
    exact length_enqueue_le (by omega) wf.bounded

theorem insert_known (known : s.contains key = true) : s.insert key = s := if_pos known

/-- What an operation does to the set: it records its key, or clears, or changes nothing. -/
theorem apply_eq (s : ShareSet) (op : Op) (kept : op ≠ .clear) : s.apply op = (op.key.elim s s.insert) := by
  cases op with
  | insert key => rfl
  | clear => exact absurd rfl kept
  | dedup result =>
    cases result with
    | ok res =>
      rw [apply, dedup]
      split
      · rename_i known
        exact (insert_known known).symm
      · rfl
    | err error => rfl
    | panic => rfl

theorem WellFormed.apply (wf : s.WellFormed) (op : Op) : (s.apply op).WellFormed := by
  by_cases cleared : op = .clear
  · subst cleared
    exact clear_wellFormed wf
  · rw [apply_eq s op cleared]
    cases op.key with
    | none => exact wf
    | some key => exact wf.insert key

theorem WellFormed.run (wf : s.WellFormed) (ops : List Op) : (s.run ops).WellFormed := by
  induction ops generalizing s with
  | nil => exact wf
  | cons op rest ih => exact ih (wf.apply op)

/-! ### How long a key stays -/

variable {op : Op} {count : Nat}

/-- An operation that brings in no key and does not clear leaves the set as it is. -/
theorem apply_quiet (quiet : s.adds op = none) (kept : op ≠ .clear) : s.apply op = s := by
  rw [apply_eq s op kept]
  unfold adds at quiet
  cases asked : op.key with
  | none => rfl
  | some key =>
    rw [asked, Option.filter_some] at quiet
    have known : s.contains key = true := by
      by_contra absent
      simp [absent] at quiet
    exact insert_known known

theorem apply_adds (adds : s.adds op = some key) : s.apply op = s.insert key ∧ s.contains key = false := by
  unfold ShareSet.adds at adds
  obtain ⟨asked, absent⟩ := Option.filter_eq_some_iff.mp adds
  have kept : op ≠ .clear := by
    rintro rfl
    cases asked
  rw [apply_eq s op kept, asked]
  exact ⟨rfl, by simpa using absent⟩

theorem WellFormed.behind_apply (wf : s.WellFormed) (adds : s.adds op = some key) : Behind (s.apply op).order key 0 := by
  obtain ⟨applied, fresh⟩ := apply_adds adds
  rw [applied, (wf.insert_order key).1]
  refine behind_enqueue fun among => ?_
  rw [wf.contains_iff.mpr among] at fresh
  cases fresh

/-- By induction on the operations: `count` keys are behind already, and each addition puts one more there. -/
theorem WellFormed.behind_run (wf : s.WellFormed) (behind : Behind s.order key count) {later : List Op}
    (kept : Op.clear ∉ later) (few : count + s.additions later < 4096) : key ∈ (s.run later).order := by
  induction later generalizing s count with
  | nil => exact behind.mem
  | cons op rest ih =>
    have unclear : op ≠ .clear := fun cleared => kept (cleared ▸ List.mem_cons_self)
    have rests : Op.clear ∉ rest := fun among => kept (List.mem_cons_of_mem op among)
    rw [additions] at few
    cases added : s.adds op with
    | none =>
      rw [added] at few
      simp only [Option.toList_none, List.length_nil] at few
      have same : Behind (s.apply op).order key count := by
        rw [apply_quiet added unclear]
        exact behind
      exact ih (wf.apply op) same rests (by omega)
    | some other =>
      rw [added] at few
      simp only [Option.toList_some, List.length_singleton] at few
      obtain ⟨applied, fresh⟩ := apply_adds added
      have absent : other ∉ s.order := by
        intro among
        rw [wf.contains_iff.mpr among] at fresh
        cases fresh
      have grown : Behind (s.apply op).order key (count + 1) := by
        rw [applied, (wf.insert_order other).1]
        exact behind.enqueue absent (by omega)
      exact ih (wf.apply op) grown rests (by omega)

theorem run_append (s : ShareSet) (ops later : List Op) : s.run (ops ++ later) = (s.run ops).run later := List.foldl_append

theorem dedup_known {res : ShareResult} (known : s.contains res.hash = true) :
    s.dedup (.ok res) = (.err .duplicateShare, s) := if_pos known

theorem dedup_fresh {res : ShareResult} (fresh : s.contains res.hash = false) :
    s.dedup (.ok res) = (.ok res, s.insert res.hash) := by
  rw [dedup, fresh]
  exact if_neg Bool.false_ne_true

end Queue

/-- After any operations. A key counts as inserted when it was absent: the insertion of a known one changes nothing. -/
theorem run_new_keeps_keys (ops : List Op) :
    ((new.run ops).order.Nodup ∧ (new.run ops).seen = (new.run ops).order.toFinset ∧
      (new.run ops).order.length ≤ 4096) ∧
    (∀ res, (((new.run ops).dedup (.ok res)).1 = .ok res ↔ (new.run ops).contains res.hash = false) ∧
      ((new.run ops).contains res.hash = true → (new.run ops).dedup (.ok res) = (.err .duplicateShare, new.run ops))) ∧
    (∀ error, (new.run ops).dedup (.err error) = (.err error, new.run ops)) ∧
    (∀ key, (new.run ops).contains key = true → (new.run ops).insert key = new.run ops) ∧
    ∀ op key later, (new.run ops).adds op = some key → Op.clear ∉ later →
      (new.run (ops ++ [op])).additions later < 4096 → (new.run (ops ++ op :: later)).contains key = true := by
  have wf : (new.run ops).WellFormed := new_wellFormed.run ops
  refine ⟨⟨wf.nodup, wf.holds, wf.bounded⟩, ?_, fun error => rfl, fun key => insert_known, ?_⟩
  · intro res
    refine ⟨?_, dedup_known⟩
    cases known : (new.run ops).contains res.hash with
    | true =>
      rw [dedup_known known]
      exact ⟨nofun, nofun⟩
    | false =>
      rw [dedup_fresh known]
      exact ⟨fun _ => rfl, fun _ => rfl⟩
  · intro op key later adds kept few
    rw [run_append] at few
    have still : key ∈ (((new.run ops).apply op).run later).order := by
      refine (wf.apply op).behind_run (wf.behind_apply adds) kept ?_
      rw [Nat.zero_add]
      exact few
    rw [run_append]
    exact (((wf.apply op).run later).contains_iff).mpr still

theorem run_new_keeps_reinserted :
    let key (n : UInt8) : Hash := ⟨List.replicate 32 n, List.length_replicate⟩
    (new.run ([.insert (key 1), .clear] ++ .dedup (.ok (.valid 1 1 (key 1))) :: [.insert (key 2), .insert (key 1)])).contains
      (key 1) = true :=
  (run_new_keeps_keys _).2.2.2.2 _ _ _ (by decide +kernel) (by decide +kernel) (by decide +kernel)

end ShareSet

end SoloPool
