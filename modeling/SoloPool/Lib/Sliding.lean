import Mathlib.Data.List.AList

/-!
# Sliding windows

Times that are admitted at a limited pace: an admission is made only while fewer than `max` of the earlier ones lie in
the window that ends with it. Then no window holds more than `max`, wherever it ends. Dropping what lies before a cutoff
changes nothing later. `retain` keeps the entries of a map that pass a test, and `minByKey` finds the least element.
-/

namespace SoloPool.Lib

/-- The times in the window of length `span` that ends at `t` and contains its end only. -/
def inSpan (span : Nat) (t : Int) (times : List Int) : List Int := times.filter fun a => decide (t - span < a ∧ a ≤ t)

def later (cutoff : Int) (times : List Int) : List Int := times.filter fun a => decide (cutoff < a)

inductive Paced (span max : Nat) : List Int → Prop
  | nil : Paced span max []
  | add {times : List Int} {now : Int} (paced : Paced span max times) (latest : ∀ a ∈ times, a ≤ now)
      (few : (inSpan span now times).length < max) : Paced span max (times ++ [now])

theorem later_eq_inSpan {span : Nat} {now : Int} {times : List Int} (latest : ∀ a ∈ times, a ≤ now) :
    later (now - span) times = inSpan span now times := by
  refine List.filter_congr fun a member => ?_
  simp [latest a member]

theorem later_later {cutoff cutoff' : Int} (le : cutoff ≤ cutoff') (times : List Int) :
    later cutoff' (later cutoff times) = later cutoff' times := by
  unfold later
  rw [List.filter_filter]
  refine List.filter_congr fun a _ => ?_
  by_cases above : cutoff' < a
  · simp [above, Int.lt_of_le_of_lt le above]
  · simp [above]

theorem later_append (cutoff : Int) (times times' : List Int) :
    later cutoff (times ++ times') = later cutoff times ++ later cutoff times' := List.filter_append ..

theorem later_eq_self {cutoff : Int} {times : List Int} (all : ∀ a ∈ times, cutoff < a) : later cutoff times = times :=
  List.filter_eq_self.mpr fun a member => decide_eq_true (all a member)

theorem Paced.inSpan_le {span max : Nat} {times : List Int} (paced : Paced span max times) (t : Int) :
    (inSpan span t times).length ≤ max := by
  induction paced with
  | nil => exact Nat.zero_le _
  | @add times now paced latest few ih =>
    rw [inSpan, List.filter_append, List.length_append]
    by_cases inside : t - span < now ∧ now ≤ t
    · -- What else lies in the window lies in the one that ends with the last admission.
      have shrinks : (inSpan span t times).length ≤ (inSpan span now times).length := by
        simp only [inSpan, ← List.countP_eq_length_filter]
        refine List.countP_mono_left fun a member among => ?_
        have before := latest a member
        simp only [decide_eq_true_eq] at among ⊢
        omega
      rw [List.filter_cons_of_pos (by simpa using inside)]
      exact Nat.succ_le_of_lt (Nat.lt_of_le_of_lt shrinks few)
    · rw [List.filter_cons_of_neg (by simpa using inside)]
      exact ih

/-! ### Maps -/

variable {κ ν : Type}

/-- The entries whose value passes the test. -/
def retain (test : ν → Bool) (table : AList fun _ : κ => ν) : AList fun _ : κ => ν :=
  ⟨table.entries.filter (fun entry => test entry.2), table.nodupKeys.sublist List.filter_sublist⟩

theorem length_retain_le (test : ν → Bool) (table : AList fun _ : κ => ν) :
    (retain test table).keys.length ≤ table.keys.length :=
  (List.filter_sublist.map _).length_le

theorem lookup_retain [DecidableEq κ] (test : ν → Bool) (table : AList fun _ : κ => ν) (key : κ) :
    (retain test table).lookup key = (table.lookup key).filter test := by
  refine Option.ext fun value => ?_
  rw [← Option.mem_def, AList.mem_lookup_iff, Option.filter_eq_some_iff, ← Option.mem_def, AList.mem_lookup_iff]
  exact List.mem_filter

theorem lookup_erase_eq_some [DecidableEq κ] {table : AList fun _ : κ => ν} {key other : κ} {value : ν} :
    (table.erase key).lookup other = some value ↔ other ≠ key ∧ table.lookup other = some value := by
  by_cases same : other = key
  · subst same
    simp
  · rw [AList.lookup_erase_ne same]
    exact (and_iff_right same).symm

/-! ### The least element -/

section Least

variable {α : Type} {key : α → Int} {xs : List α} {a : α}

/-- `Iterator::min_by_key`: the first of the elements with the least key. -/
def minByKey (key : α → Int) : List α → Option α
  | [] => none
  | x :: rest =>
    match minByKey key rest with
    | none => some x
    | some y => if key x ≤ key y then some x else some y

theorem minByKey_eq_none : minByKey key xs = none ↔ xs = [] := by
  cases xs with
  | nil => exact iff_of_true rfl rfl
  | cons x rest =>
    refine iff_of_false ?_ (List.cons_ne_nil x rest)
    rw [minByKey]
    split
    · exact Option.some_ne_none x
    · split
      · exact Option.some_ne_none _
      · exact Option.some_ne_none _

theorem minByKey_spec (least : minByKey key xs = some a) : a ∈ xs ∧ ∀ x ∈ xs, key a ≤ key x := by
  induction xs generalizing a with
  | nil => cases least
  | cons x rest ih =>
    rw [minByKey] at least
    cases found : minByKey key rest with
    | none =>
      rw [found] at least
      obtain rfl := Option.some.inj least
      rw [minByKey_eq_none.mp found]
      exact ⟨List.mem_singleton_self x, fun y among => Int.le_of_eq (by rw [List.mem_singleton.mp among])⟩
    | some y =>
      obtain ⟨member, below⟩ := ih found
      rw [found] at least
      dsimp only at least
      split at least
      · rename_i lower
        obtain rfl := Option.some.inj least
        refine ⟨List.mem_cons_self, List.forall_mem_cons.mpr ⟨Int.le_refl _, fun z among => ?_⟩⟩
        exact Int.le_trans lower (below z among)
      · rename_i higher
        obtain rfl := Option.some.inj least
        exact ⟨List.mem_cons_of_mem x member, List.forall_mem_cons.mpr ⟨by omega, below⟩⟩

end Least

end SoloPool.Lib
