import Mathlib.Data.List.AList
import Mathlib.Logic.Function.Basic

/-!
# Files in directories

Directory entries point to numbered files, as inodes do: a file that is open for writing stays the same file when its
entry is renamed. No file has two entries.
-/

namespace SoloPool.Lib

structure Disk (δ ν β : Type) [DecidableEq δ] [DecidableEq ν] where
  entries : AList (fun _ : δ × ν => Nat)
  contents : Nat → β
  next : Nat
  below : ∀ path inode, entries.lookup path = some inode → inode < next
  single : ∀ path path' inode, entries.lookup path = some inode → entries.lookup path' = some inode → path = path'

namespace Disk

variable {δ ν β : Type} [DecidableEq δ] [DecidableEq ν]

def empty (blank : β) : Disk δ ν β where
  entries := ∅
  contents := fun _ => blank
  next := 0
  below := fun path inode found => by cases (AList.lookup_empty path).symm.trans found
  single := fun path _ inode found _ => by cases (AList.lookup_empty path).symm.trans found

def inode? (d : Disk δ ν β) (path : δ × ν) : Option Nat := d.entries.lookup path

def holds (d : Disk δ ν β) (path : δ × ν) : Bool := (d.inode? path).isSome

def write (d : Disk δ ν β) (inode : Nat) (data : β) : Disk δ ν β :=
  { d with contents := Function.update d.contents inode data }

/-- Open for writing: an existing file is truncated, a missing one is created. -/
def create (d : Disk δ ν β) (path : δ × ν) (blank : β) : Disk δ ν β × Nat :=
  match d.inode? path with
  | some inode => (d.write inode blank, inode)
  | none =>
    ({ entries := d.entries.insert path d.next
       contents := Function.update d.contents d.next blank
       next := d.next + 1
       below := by
         intro other inode found
         by_cases same : other = path
         · subst same
           rw [AList.lookup_insert] at found
           cases found
           exact Nat.lt_succ_self _
         · rw [AList.lookup_insert_ne same] at found
           exact Nat.lt_succ_of_lt (d.below _ _ found)
       single := by
         intro a b inode atA atB
         by_cases sameA : a = path <;> by_cases sameB : b = path
         · rw [sameA, sameB]
         · subst sameA
           rw [AList.lookup_insert] at atA
           rw [AList.lookup_insert_ne sameB] at atB
           cases atA
           exact absurd (d.below _ _ atB) (Nat.lt_irrefl _)
         · subst sameB
           rw [AList.lookup_insert] at atB
           rw [AList.lookup_insert_ne sameA] at atA
           cases atB
           exact absurd (d.below _ _ atA) (Nat.lt_irrefl _)
         · rw [AList.lookup_insert_ne sameA] at atA
           rw [AList.lookup_insert_ne sameB] at atB
           exact d.single _ _ _ atA atB }, d.next)

def read (d : Disk δ ν β) (path : δ × ν) : Option β := (d.inode? path).map d.contents

theorem lookup_moved (entries : AList (fun _ : δ × ν => Nat)) (source target path : δ × ν) (inode : Nat) :
    ((entries.erase source).insert target inode).lookup path =
      if path = target then some inode else if path = source then none else entries.lookup path := by
  by_cases atTarget : path = target
  · subst atTarget
    rw [if_pos rfl, AList.lookup_insert]
  · rw [if_neg atTarget, AList.lookup_insert_ne atTarget]
    by_cases atSource : path = source
    · subst atSource
      rw [if_pos rfl, AList.lookup_erase]
    · rw [if_neg atSource, AList.lookup_erase_ne atSource]

/-- Atomic; it fails without the source and replaces the target. -/
def rename (d : Disk δ ν β) (source target : δ × ν) : Disk δ ν β :=
  match moving : d.entries.lookup source with
  | none => d
  | some inode =>
    { d with
      entries := (d.entries.erase source).insert target inode
      below := by
        intro path other found
        rw [lookup_moved] at found
        split at found
        · cases found
          exact d.below _ _ moving
        · split at found
          · cases found
          · exact d.below _ _ found
      single := by
        intro a b other atA atB
        rw [lookup_moved] at atA atB
        split at atA
        · cases atA
          split at atB
          · simp only [*]
          · split at atB
            · cases atB
            · rename_i _ _ notSource
              exact absurd (d.single _ _ _ moving atB).symm notSource
        · split at atA
          · cases atA
          · rename_i _ notSource
            split at atB
            · cases atB
              exact absurd (d.single _ _ _ moving atA).symm notSource
            · split at atB
              · cases atB
              · exact d.single _ _ _ atA atB }

def list (d : Disk δ ν β) (dir : δ) : List ν := (d.entries.keys.filter (fun path => path.1 = dir)).map (·.2)

/-! ### What each operation does to the entries -/

variable {d : Disk δ ν β} {path source target : δ × ν} {inode : Nat}

@[simp] theorem inode?_empty (blank : β) (path : δ × ν) : (empty blank : Disk δ ν β).inode? path = none :=
  AList.lookup_empty path

@[simp] theorem inode?_write (d : Disk δ ν β) (inode : Nat) (data : β) (path : δ × ν) :
    (d.write inode data).inode? path = d.inode? path := rfl

@[simp] theorem contents_write (d : Disk δ ν β) (inode : Nat) (data : β) :
    (d.write inode data).contents = Function.update d.contents inode data := rfl

theorem create_new (blank : β) (missing : d.inode? path = none) :
    (d.create path blank).2 = d.next ∧
      (∀ other, (d.create path blank).1.inode? other = if other = path then some d.next else d.inode? other) ∧
      (d.create path blank).1.contents = Function.update d.contents d.next blank := by
  unfold create
  rw [missing]
  refine ⟨rfl, ?_, rfl⟩
  intro other
  by_cases same : other = path
  · subst same
    rw [if_pos rfl]
    exact AList.lookup_insert _
  · rw [if_neg same]
    exact AList.lookup_insert_ne same

theorem rename_missing (missing : d.inode? source = none) : d.rename source target = d := by
  unfold rename
  split
  · rfl
  · rename_i found
    cases missing.symm.trans found

theorem inode?_rename (present : d.inode? source = some inode) (path : δ × ν) :
    (d.rename source target).inode? path =
      if path = target then some inode else if path = source then none else d.inode? path := by
  unfold rename
  split
  · rename_i missing
    cases missing.symm.trans present
  · rename_i other found
    obtain rfl : inode = other := Option.some.inj (present.symm.trans found)
    exact lookup_moved d.entries source target path inode

@[simp] theorem contents_rename : (d.rename source target).contents = d.contents := by
  unfold rename
  split <;> rfl

theorem mem_list {dir : δ} {name : ν} : name ∈ d.list dir ↔ ∃ inode, d.inode? (dir, name) = some inode := by
  unfold list inode?
  rw [← Option.isSome_iff_exists, AList.lookup_isSome, AList.mem_keys, List.mem_map]
  constructor
  · rintro ⟨⟨dir', name'⟩, listed, rfl⟩
    obtain ⟨present, isDir⟩ := List.mem_filter.mp listed
    obtain rfl : dir' = dir := of_decide_eq_true isDir
    exact present
  · intro member
    exact ⟨(dir, name), List.mem_filter.mpr ⟨member, decide_eq_true rfl⟩, rfl⟩

/-! ### Names that are in at most one directory -/

/-- No two directories have an entry of one name. -/
def Lone (d : Disk δ ν β) : Prop :=
  ∀ name dir dir' inode inode', d.inode? (dir, name) = some inode → d.inode? (dir', name) = some inode' → dir = dir'

theorem Lone.empty (blank : β) : (empty blank : Disk δ ν β).Lone := by
  intro name dir dir' inode inode' found
  cases (inode?_empty blank (dir, name)).symm.trans found

theorem Lone.create {dir : δ} {name : ν} {blank : β} (lone : d.Lone) (missing : ∀ dir, d.inode? (dir, name) = none) :
    (d.create (dir, name) blank).1.Lone := by
  obtain ⟨_, entries, _⟩ := create_new blank (missing dir)
  intro other a b i j atA atB
  rw [entries] at atA atB
  by_cases same : other = name
  · subst same
    have here : ∀ e k, (if (e, other) = (dir, other) then some d.next else d.inode? (e, other)) = some k → e = dir := by
      intro e k found
      split at found
      · rename_i same
        exact congrArg Prod.fst same
      · cases (missing e).symm.trans found
    exact (here _ _ atA).trans (here _ _ atB).symm
  · rw [if_neg (fun equal => same (congrArg Prod.snd equal))] at atA atB
    exact lone _ _ _ _ _ atA atB

theorem rename_at {dir dir' : δ} {name : ν} (lone : d.Lone) (present : d.inode? (dir, name) = some inode) :
    ∀ e, (d.rename (dir, name) (dir', name)).inode? (e, name) = if e = dir' then some inode else none := by
  intro e
  rw [inode?_rename present]
  by_cases atTarget : e = dir'
  · rw [if_pos (by rw [atTarget]), if_pos atTarget]
  · rw [if_neg (fun equal => atTarget (congrArg Prod.fst equal)), if_neg atTarget]
    split
    · rfl
    · rename_i notSource
      rw [Option.eq_none_iff_forall_ne_some]
      intro other found
      exact notSource (by rw [lone _ _ _ _ _ found present])

theorem inode?_rename_other {dir dir' e : δ} {name other : ν} (different : other ≠ name) :
    (d.rename (dir, name) (dir', name)).inode? (e, other) = d.inode? (e, other) := by
  cases present : d.inode? (dir, name) with
  | none => rw [rename_missing present]
  | some inode =>
    rw [inode?_rename present, if_neg (fun equal => different (congrArg Prod.snd equal)),
      if_neg (fun equal => different (congrArg Prod.snd equal))]

theorem Lone.rename {dir dir' : δ} {name : ν} (lone : d.Lone) : (d.rename (dir, name) (dir', name)).Lone := by
  cases present : d.inode? (dir, name) with
  | none => rw [rename_missing present]; exact lone
  | some inode =>
    intro other a b i j atA atB
    by_cases same : other = name
    · subst same
      rw [rename_at lone present] at atA atB
      split at atA
      · split at atB
        · simp only [*]
        · cases atB
      · cases atA
    · rw [inode?_rename_other same] at atA atB
      exact lone _ _ _ _ _ atA atB

end Disk

end SoloPool.Lib
