import Mathlib.Data.Nat.Log

/-!
# Merkle roots and the branch of the first leaf

Trees over an arbitrary combining function, in the shape Bitcoin uses: the last node of an odd level is paired with
itself. `treeRoot` goes up level by level and `merkleRoot` keeps the path of the first leaf apart. `merkleBranch` lists
the siblings on that path, and folding it over the first leaf gives the root.
-/

namespace SoloPool.Lib

variable {α : Type}

/-- One level up: neighbours combined, an odd last node with itself. -/
def pairUp (h : α → α → α) : List α → List α
  | a :: b :: rest => h a b :: pairUp h rest
  | [a] => [h a a]
  | [] => []

@[simp] theorem length_pairUp (h : α → α → α) (level : List α) : (pairUp h level).length = (level.length + 1) / 2 := by
  fun_induction pairUp h level with
  | case1 a b rest ih => simp only [List.length_cons, ih]; omega
  | case2 a => simp
  | case3 => simp

/-- The node left when going up level by level; a tree without leaves has none. -/
def treeRoot (h : α → α → α) : List α → Option α
  | [] => none
  | [root] => some root
  | a :: b :: rest => treeRoot h (pairUp h (a :: b :: rest))
termination_by level => level.length
decreasing_by simp only [length_pairUp, List.length_cons]; omega

def merkleRoot (h : α → α → α) (first : α) : List α → α
  | [] => first
  | second :: rest => merkleRoot h (h first second) (pairUp h rest)
termination_by rest => rest.length
decreasing_by simp only [length_pairUp, List.length_cons]; omega

/-- The siblings of the first leaf from the leaves upward; they do not depend on that leaf. -/
def merkleBranch (h : α → α → α) : List α → List α
  | [] => []
  | second :: rest => second :: merkleBranch h (pairUp h rest)
termination_by rest => rest.length
decreasing_by simp only [length_pairUp, List.length_cons]; omega

theorem treeRoot_eq (h : α → α → α) (first : α) (rest : List α) :
    treeRoot h (first :: rest) = some (merkleRoot h first rest) := by
  fun_induction merkleRoot h first rest with
  | case1 first => rw [treeRoot]
  | case2 first second rest ih => rw [treeRoot, pairUp, ih]

/-- Folding the branch over the first leaf climbs to the root. -/
theorem foldl_merkleBranch (h : α → α → α) (first : α) (rest : List α) :
    (merkleBranch h rest).foldl h first = merkleRoot h first rest := by
  fun_induction merkleRoot h first rest with
  | case1 first => simp [merkleBranch]
  | case2 first second rest ih => simpa [merkleBranch] using ih

theorem length_merkleBranch (h : α → α → α) (rest : List α) :
    (merkleBranch h rest).length = Nat.clog 2 (rest.length + 1) := by
  fun_induction merkleBranch h rest with
  | case1 => simp
  | case2 second rest ih =>
    have half : (rest.length + 1 + 1 + 2 - 1) / 2 = (rest.length + 1) / 2 + 1 := by omega
    have climb : Nat.clog 2 (rest.length + 1 + 1) = Nat.clog 2 ((rest.length + 1) / 2 + 1) + 1 := by
      rw [Nat.clog_of_two_le (by decide) (by omega), half]
    rw [List.length_cons, ih, length_pairUp, List.length_cons, climb]

end SoloPool.Lib
