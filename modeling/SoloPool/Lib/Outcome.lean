import Mathlib.Data.List.Forall2

/-!
# Calls that return, fail or panic

`Outcome ε α` keeps an error value and a panic apart, so that "never panics" can be stated about a function that
may still return an error.
-/

namespace SoloPool.Lib

inductive Outcome (ε α : Type) where
  | ok (value : α)
  | err (error : ε)
  | panic
  deriving DecidableEq, Repr

namespace Outcome

variable {ε α β : Type}

/-- The `?` operator: an error or a panic ends the caller too. -/
def bind (x : Outcome ε α) (f : α → Outcome ε β) : Outcome ε β :=
  match x with
  | .ok a => f a
  | .err e => .err e
  | .panic => .panic

instance : Monad (Outcome ε) where
  pure := .ok
  bind := Outcome.bind

@[simp] theorem pure_eq (a : α) : (pure a : Outcome ε α) = .ok a := rfl

@[simp] theorem ok_bind (a : α) (f : α → Outcome ε β) : (Outcome.ok a >>= f) = f a := rfl

@[simp] theorem err_bind (e : ε) (f : α → Outcome ε β) : (Outcome.err e >>= f) = .err e := rfl

@[simp] theorem panic_bind (f : α → Outcome ε β) : ((Outcome.panic : Outcome ε α) >>= f) = .panic := rfl

instance : LawfulMonad (Outcome ε) :=
  LawfulMonad.mk' (Outcome ε) (fun x => by cases x <;> rfl) (fun _ _ => rfl) (fun x _ _ => by cases x <;> rfl)

theorem bind_ok {x : Outcome ε α} {f : α → Outcome ε β} {b : β} :
    (x >>= f) = .ok b ↔ ∃ a, x = .ok a ∧ f a = .ok b := by
  cases x <;> simp

instance (x : Outcome ε α) (P : α → Prop) [∀ a, Decidable (P a)] : Decidable (∀ a, x = .ok a → P a) :=
  match x with
  | .ok a => decidable_of_iff (P a) ⟨fun holds _ same => Outcome.ok.inj same ▸ holds, fun all => all a rfl⟩
  | .err _ => isTrue nofun
  | .panic => isTrue nofun

instance (x : Outcome ε α) (P : α → Prop) [∀ a, Decidable (P a)] : Decidable (∃ a, x = .ok a ∧ P a) :=
  match x with
  | .ok a => decidable_of_iff (P a) ⟨fun holds => ⟨a, rfl, holds⟩, fun ⟨_, same, holds⟩ => Outcome.ok.inj same ▸ holds⟩
  | .err _ => isFalse nofun
  | .panic => isFalse nofun

/-- A condition whose failure is a panic: a slice bound, an arithmetic check. -/
def check (p : Prop) [Decidable p] : Outcome ε Unit := if p then .ok () else .panic

@[simp] theorem check_ok {p : Prop} [Decidable p] {u : Unit} : (check p : Outcome ε Unit) = .ok u ↔ p := by
  unfold check
  split <;> simp_all

def ofOption (e : ε) : Option α → Outcome ε α
  | some a => .ok a
  | none => .err e

@[simp] theorem ofOption_ok {o : Option α} {e : ε} {a : α} : ofOption e o = .ok a ↔ o = some a := by
  cases o <;> simp [ofOption]

/-! ### Calls that never panic -/

theorem pure_ne_panic (a : α) : (pure a : Outcome ε α) ≠ .panic := nofun

theorem err_ne_panic (e : ε) : (.err e : Outcome ε α) ≠ .panic := nofun

theorem bind_ne_panic {x : Outcome ε α} {f : α → Outcome ε β} (first : x ≠ .panic)
    (second : ∀ a, x = .ok a → f a ≠ .panic) : (x >>= f) ≠ .panic := by
  cases x with
  | ok a => exact second a rfl
  | err e => exact err_ne_panic e
  | panic => exact absurd rfl first

theorem ofOption_ne_panic (e : ε) (o : Option α) : ofOption e o ≠ .panic := by
  cases o with
  | none => exact err_ne_panic e
  | some a => exact pure_ne_panic a

theorem check_ne_panic {p : Prop} [Decidable p] (holds : p) : (check p : Outcome ε Unit) ≠ .panic := by
  rw [check, if_pos holds]
  exact pure_ne_panic ()

theorem mapM_ne_panic {f : α → Outcome ε β} (each : ∀ a, f a ≠ .panic) (xs : List α) : xs.mapM f ≠ .panic := by
  induction xs with
  | nil => exact pure_ne_panic []
  | cons x xs ih =>
    rw [List.mapM_cons]
    exact bind_ne_panic (each x) fun y _ => bind_ne_panic ih fun ys _ => pure_ne_panic _

/-! ### Lists of calls -/

theorem mapM_ok {f : α → Outcome ε β} {xs : List α} {ys : List β} :
    xs.mapM f = .ok ys ↔ List.Forall₂ (fun x y => f x = .ok y) xs ys := by
  induction xs generalizing ys with
  | nil => cases ys <;> simp [eq_comm]
  | cons x xs ih =>
    rw [List.mapM_cons, bind_ok]
    constructor
    · rintro ⟨y, first, rest⟩
      obtain ⟨tail, collected, same⟩ := bind_ok.mp rest
      obtain rfl : y :: tail = ys := by simpa using same
      exact .cons first (ih.mp collected)
    · intro pairs
      cases pairs with
      | cons first rest => exact ⟨_, first, bind_ok.mpr ⟨_, ih.mpr rest, rfl⟩⟩

end Outcome

end SoloPool.Lib
