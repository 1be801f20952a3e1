import Mathlib.Data.List.Basic

/-!
# Calls in `Except`, and the first fault

A check in sequence stops at the first thing that is wrong. `FirstFault x faults` relates a call to the list of all that is
wrong with its input: the call succeeds when nothing is, and fails with the first otherwise.
-/

namespace SoloPool.Lib

variable {ε α β : Type}

theorem except_bind_ok {x : Except ε α} {f : α → Except ε β} {b : β} : (x >>= f) = .ok b ↔ ∃ a, x = .ok a ∧ f a = .ok b := by
  cases x with
  | error e => exact iff_of_false (by rintro ⟨⟩) (by rintro ⟨_, ⟨⟩, _⟩)
  | ok a =>
    refine ⟨fun h => ⟨a, rfl, h⟩, ?_⟩
    rintro ⟨_, ⟨⟩, h⟩
    exact h

theorem except_bind_error {x : Except ε α} {f : α → Except ε β} {e : ε} (failed : (x >>= f) = .error e) :
    x = .error e ∨ ∃ a, f a = .error e := by
  cases x with
  | error e' =>
    cases failed
    exact .inl rfl
  | ok a => exact .inr ⟨a, failed⟩

/-- A call that succeeds on each of a list gives the list of what each gave. -/
theorem except_mapM_ok {f : α → Except ε β} {xs : List α} {ys : List β} :
    xs.mapM f = .ok ys ↔ List.Forall₂ (fun x y => f x = .ok y) xs ys := by
  induction xs generalizing ys with
  | nil => exact ⟨by rintro ⟨⟩; exact .nil, by rintro ⟨⟩; rfl⟩
  | cons x xs ih =>
    rw [List.mapM_cons, except_bind_ok]
    constructor
    · rintro ⟨y, first, rest⟩
      obtain ⟨tail, collected, same⟩ := except_bind_ok.mp rest
      obtain rfl := Except.ok.inj same
      exact .cons first (ih.mp collected)
    · intro pairs
      cases pairs with
      | cons first rest => exact ⟨_, first, except_bind_ok.mpr ⟨_, ih.mpr rest, rfl⟩⟩

def FirstFault (x : Except ε α) : List ε → Prop
  | [] => ∃ a, x = .ok a
  | e :: _ => x = .error e

def errorOf : Except ε α → Option ε
  | .ok _ => none
  | .error e => some e

theorem firstFault_errorOf (x : Except ε α) : FirstFault x (errorOf x).toList := by
  cases x with
  | ok a => exact ⟨a, rfl⟩
  | error e => exact rfl

theorem errorOf_of_firstFault {x : Except ε α} {fault : Option ε} (first : FirstFault x fault.toList) : errorOf x = fault := by
  cases fault with
  | none =>
    obtain ⟨a, rfl⟩ := first
    rfl
  | some e =>
    obtain rfl : x = .error e := first
    rfl

namespace FirstFault

variable {x : Except ε α} {faults more : List ε}

theorem pure (a : α) : FirstFault (.ok a : Except ε α) [] := ⟨a, rfl⟩

theorem ok_iff (first : FirstFault x faults) : (∃ a, x = .ok a) ↔ faults = [] := by
  cases faults with
  | nil => exact iff_of_true first rfl
  | cons e rest =>
    have failed : x = .error e := first
    exact iff_of_false (by rintro ⟨a, rfl⟩; cases failed) (List.cons_ne_nil e rest)

theorem error_iff (first : FirstFault x faults) (e : ε) : x = .error e ↔ faults.head? = some e := by
  cases faults with
  | nil =>
    obtain ⟨a, rfl⟩ := first
    exact iff_of_false nofun nofun
  | cons e' rest =>
    obtain rfl : x = .error e' := first
    rw [Except.error.injEq, List.head?_cons, Option.some.injEq]

theorem bind {k : α → Except ε β} (first : FirstFault x faults) (second : ∀ a, x = .ok a → FirstFault (k a) more) :
    FirstFault (x >>= k) (faults ++ more) := by
  cases faults with
  | nil =>
    obtain ⟨a, rfl⟩ := first
    exact second a rfl
  | cons e rest =>
    obtain rfl : x = .error e := first
    exact rfl

theorem map (first : FirstFault x faults) (f : α → β) : FirstFault (x >>= fun a => Pure.pure (f a)) faults := by
  rw [← List.append_nil faults]
  exact first.bind fun a _ => pure (f a)

theorem mapM {f : α → Except ε β} {faults : α → List ε} {xs : List α} (each : ∀ a ∈ xs, FirstFault (f a) (faults a)) :
    FirstFault (xs.mapM f) (xs.flatMap faults) := by
  induction xs with
  | nil => exact pure []
  | cons a rest ih =>
    rw [List.mapM_cons, List.flatMap_cons]
    refine (each a List.mem_cons_self).bind fun b _ => ?_
    exact (ih fun a among => each a (List.mem_cons_of_mem _ among)).map (b :: ·)

end FirstFault

/-! ### Loops -/

section Loops

variable {σ ι : Type}

/-- What is wrong with the items of a list, an item being judged by those before it. -/
def faultsAfter (fault : List ι → ι → Option ε) (earlier : List ι) : List ι → List ε
  | [] => []
  | x :: rest => (fault earlier x).toList ++ faultsAfter fault (earlier ++ [x]) rest

/-- When an item's fault does not depend on those before it. -/
theorem faultsAfter_eq {fault : List ι → ι → Option ε} {alone : ι → Option ε} {earlier xs : List ι}
    (same : ∀ before x after, xs = before ++ x :: after → fault (earlier ++ before) x = alone x) :
    faultsAfter fault earlier xs = xs.filterMap alone := by
  induction xs generalizing earlier with
  | nil => rfl
  | cons x rest ih =>
    have first : fault earlier x = alone x := by simpa using same [] x rest rfl
    have others : faultsAfter fault (earlier ++ [x]) rest = rest.filterMap alone := by
      apply ih
      intro before y after split
      have here := same (x :: before) y after (by rw [split, List.cons_append])
      rwa [List.append_assoc, List.singleton_append]
    rw [faultsAfter, first, others, List.filterMap_cons]
    cases alone x <;> rfl

/-- A loop stops at the first faulty item if each step does, in the states that the items before it lead to. -/
theorem FirstFault.foldlM {step : σ → ι → Except ε σ} {fault : List ι → ι → Option ε} {inv : List ι → σ → Prop}
    (judged : ∀ earlier s x, inv earlier s → FirstFault (step s x) (fault earlier x).toList)
    (kept : ∀ earlier s x t, inv earlier s → step s x = .ok t → inv (earlier ++ [x]) t) {earlier xs : List ι} {s : σ}
    (holds : inv earlier s) : FirstFault (xs.foldlM step s) (faultsAfter fault earlier xs) := by
  induction xs generalizing earlier s with
  | nil => exact pure s
  | cons x rest ih =>
    rw [List.foldlM_cons]
    exact (judged earlier s x holds).bind fun t stepped => ih (kept earlier s x t holds stepped)

theorem foldlM_invariant {step : σ → ι → Except ε σ} {inv : List ι → σ → Prop}
    (kept : ∀ earlier s x t, inv earlier s → step s x = .ok t → inv (earlier ++ [x]) t) {earlier xs : List ι} {s t : σ}
    (holds : inv earlier s) (ran : xs.foldlM step s = .ok t) : inv (earlier ++ xs) t := by
  induction xs generalizing earlier s with
  | nil =>
    cases ran
    rwa [List.append_nil]
  | cons x rest ih =>
    rw [List.foldlM_cons, except_bind_ok] at ran
    obtain ⟨middle, stepped, ran⟩ := ran
    have done := ih (kept earlier s x middle holds stepped) ran
    rwa [List.append_assoc, List.singleton_append] at done

end Loops

end SoloPool.Lib
