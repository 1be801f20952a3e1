import Mathlib.Logic.Function.Basic

/-!
# Directory entries that share a file, and what a power loss leaves

Several entries may name one file. A file that was synced keeps its data when the power fails, any other may hold
anything afterwards; an entry may come back as it was at an earlier time, since nothing here syncs a directory.
`Settled` is what publishing needs: whatever the power loss makes of an entry, it names no file or a synced one with
good data.
-/

namespace SoloPool.Lib

structure Volume (ν β : Type) where
  entries : ν → Option Nat
  /-- What the entry was before, back to the last power loss. -/
  former : ν → List (Option Nat)
  data : Nat → β
  synced : Nat → Bool
  next : Nat
  below : ∀ name inode, some inode ∈ entries name :: former name → inode < next

inductive LinkError where
  | notFound
  | alreadyExists
  deriving DecidableEq

namespace Volume

variable {ν β : Type} {v : Volume ν β} {name other source target : ν} {inode : Nat} {good : β → Prop}

/-- All that the entry may be after a power loss. -/
def held (v : Volume ν β) (name : ν) : List (Option Nat) := v.entries name :: v.former name

def blank (data : β) : Volume ν β where
  entries _ := none
  former _ := []
  data _ := data
  synced _ := false
  next := 0
  below := by
    rintro name inode (_ | ⟨_, none⟩)
    cases none

def read (v : Volume ν β) (name : ν) : Option β := (v.entries name).map v.data

def write (v : Volume ν β) (inode : Nat) (data : β) : Volume ν β :=
  { v with data := Function.update v.data inode data, synced := Function.update v.synced inode false }

def sync (v : Volume ν β) (inode : Nat) : Volume ν β := { v with synced := Function.update v.synced inode true }

/-- A file that no entry names yet. -/
def fresh (v : Volume ν β) (data : β) : Volume ν β :=
  { v.write v.next data with
    next := v.next + 1
    below := fun name inode among => Nat.lt_succ_of_lt (v.below name inode among) }

/-- `choice` picks what becomes of an entry, `garbage` what an unsynced file then holds. -/
def powerLoss (v : Volume ν β) (choice : ν → Nat) (garbage : Nat → β) : Volume ν β :=
  { v with
    entries := fun name => ((v.held name)[choice name]?).getD (v.entries name)
    former := fun _ => []
    data := fun inode => if v.synced inode then v.data inode else garbage inode
    below := by
      intro name inode among
      obtain now | ⟨_, none⟩ := List.mem_cons.mp among
      · cases found : (v.held name)[choice name]? with
        | none =>
          rw [found, Option.getD_none] at now
          exact v.below name inode (by rw [now]; exact List.mem_cons_self)
        | some entry =>
          rw [found, Option.getD_some] at now
          exact v.below name inode (by rw [now]; exact List.mem_of_getElem? found) }

theorem held_powerLoss {choice : ν → Nat} {garbage : Nat → β} {entry : Option Nat}
    (among : entry ∈ (v.powerLoss choice garbage).held name) : entry ∈ v.held name := by
  obtain rfl | none := List.mem_cons.mp among
  · change ((v.held name)[choice name]?).getD (v.entries name) ∈ v.held name
    cases found : (v.held name)[choice name]? with
    | none => exact List.mem_cons_self
    | some entry => exact List.mem_of_getElem? found
  · cases none

theorem unnamed_next : some v.next ∉ v.held name := fun among => Nat.lt_irrefl _ (v.below name _ among)

/-! ### Entries that only ever name finished files -/

/-- Whatever a power loss makes of the entry, it names no file or a synced one with good data. -/
def Settled (v : Volume ν β) (good : β → Prop) (name : ν) : Prop :=
  ∀ inode, some inode ∈ v.held name → v.synced inode = true ∧ good (v.data inode)

theorem Settled.blank (data : β) : (blank data : Volume ν β).Settled good name := by
  intro inode among
  rcases List.mem_cons.mp among with none | none <;> cases none

theorem Settled.read {data : β} (settled : v.Settled good name) (holds : v.read name = some data) : good data := by
  obtain ⟨inode, entry, rfl⟩ := Option.map_eq_some_iff.mp holds
  exact (settled inode (by rw [held, entry]; exact List.mem_cons_self)).2

theorem Settled.write {data : β} (settled : v.Settled good name) (unnamed : some inode ∉ v.held name) :
    (v.write inode data).Settled good name := by
  intro held among
  have apart : held ≠ inode := by
    rintro rfl
    exact unnamed among
  simpa [Volume.write, apart] using settled held among

theorem Settled.fresh {data : β} (settled : v.Settled good name) : (v.fresh data).Settled good name :=
  settled.write unnamed_next

theorem Settled.sync (settled : v.Settled good name) : (v.sync inode).Settled good name := by
  intro held among
  obtain ⟨synced, fine⟩ := settled held among
  refine ⟨?_, fine⟩
  by_cases same : held = inode
  · simp [Volume.sync, same]
  · simpa [Volume.sync, same] using synced

theorem Settled.powerLoss {choice : ν → Nat} {garbage : Nat → β} (settled : v.Settled good name) :
    (v.powerLoss choice garbage).Settled good name := by
  intro inode among
  obtain ⟨synced, fine⟩ := settled inode (held_powerLoss among)
  refine ⟨synced, ?_⟩
  change good (if v.synced inode then v.data inode else garbage inode)
  rw [if_pos synced]
  exact fine

/-! ### Changes of an entry -/

variable [DecidableEq ν]

/-- The one way an entry changes. -/
def point (v : Volume ν β) (name : ν) (entry : Option Nat) (known : ∀ inode, entry = some inode → inode < v.next) :
    Volume ν β :=
  { v with
    entries := Function.update v.entries name entry
    former := Function.update v.former name (v.held name)
    below := by
      intro other inode among
      by_cases same : other = name
      · subst same
        rw [Function.update_self, Function.update_self] at among
        rcases List.mem_cons.mp among with now | before
        · exact known inode now.symm
        · exact v.below _ _ before
      · rw [Function.update_of_ne same, Function.update_of_ne same] at among
        exact v.below _ _ among }

def remove (v : Volume ν β) (name : ν) : Volume ν β := v.point name none (fun _ equal => nomatch equal)

/-- Open with `create_new`: the number of the new file, or nothing when the entry is there. -/
def createNew (v : Volume ν β) (name : ν) (data : β) : Option (Volume ν β × Nat) :=
  match v.entries name with
  | some _ => none
  | none => some ((v.fresh data).point name (some v.next)
      (fun _ same => by cases same; exact Nat.lt_succ_self _), v.next)

/-- A second entry for the file of `source`; an existing target is refused. -/
def hardLink (v : Volume ν β) (source target : ν) : Except LinkError (Volume ν β) :=
  match found : v.entries source with
  | none => .error .notFound
  | some inode =>
    match v.entries target with
    | some _ => .error .alreadyExists
    | none => .ok (v.point target (some inode)
        (fun _ same => by cases same; exact v.below source inode (by rw [found]; exact List.mem_cons_self)))

/-- An existing target is replaced; two entries of one file stay as they are. -/
def rename (v : Volume ν β) (source target : ν) : Option (Volume ν β) :=
  match found : v.entries source with
  | none => none
  | some inode =>
    if v.entries target = some inode then some v
    else some ((v.point target (some inode)
        (fun _ same => by cases same; exact v.below source inode (by rw [found]; exact List.mem_cons_self))).remove source)

@[simp] theorem entries_point {entry : Option Nat} (known : ∀ inode, entry = some inode → inode < v.next) :
    (v.point name entry known).entries name = entry := Function.update_self ..

theorem entries_point_other {entry : Option Nat} {known : ∀ inode, entry = some inode → inode < v.next}
    (different : other ≠ name) : (v.point name entry known).entries other = v.entries other :=
  Function.update_of_ne different ..

@[simp] theorem held_point {entry : Option Nat} (known : ∀ inode, entry = some inode → inode < v.next) :
    (v.point name entry known).held name = entry :: v.held name := by
  simp [held, point]

theorem held_point_other {entry : Option Nat} {known : ∀ inode, entry = some inode → inode < v.next}
    (different : other ≠ name) : (v.point name entry known).held other = v.held other := by
  simp [held, point, different]

@[simp] theorem data_point {entry : Option Nat} (known : ∀ inode, entry = some inode → inode < v.next) :
    (v.point name entry known).data = v.data := rfl

@[simp] theorem synced_point {entry : Option Nat} (known : ∀ inode, entry = some inode → inode < v.next) :
    (v.point name entry known).synced = v.synced := rfl

theorem Settled.point {entry : Option Nat} {known : ∀ inode, entry = some inode → inode < v.next}
    (settled : v.Settled good name) (finished : ∀ inode, entry = some inode → v.synced inode = true ∧ good (v.data inode)) :
    (v.point name entry known).Settled good name := by
  intro inode among
  rw [held_point] at among
  rcases List.mem_cons.mp among with now | before
  · exact finished inode now.symm
  · exact settled inode before

theorem Settled.point_other {entry : Option Nat} {known : ∀ inode, entry = some inode → inode < v.next}
    (settled : v.Settled good name) (different : name ≠ other) : (v.point other entry known).Settled good name := by
  intro inode among
  rw [held_point_other different] at among
  exact settled inode among

theorem Settled.remove (settled : v.Settled good name) : (v.remove other).Settled good name := by
  by_cases same : name = other
  · subst same
    exact settled.point (fun _ none => nomatch none)
  · exact settled.point_other same

@[simp] theorem entries_remove : (v.remove name).entries name = none := entries_point _

theorem entries_remove_other (different : other ≠ name) : (v.remove name).entries other = v.entries other :=
  entries_point_other different

theorem read_remove_other (different : other ≠ name) : (v.remove name).read other = v.read other := by
  rw [read, read, entries_remove_other different]
  rfl

/-! ### Making a file and publishing it -/

variable {v' : Volume ν β} {data : β}

theorem createNew_some (made : v.createNew name data = some (v', inode)) :
    inode = v.next ∧ ∃ known, v' = (v.fresh data).point name (some v.next) known := by
  unfold createNew at made
  split at made
  · cases made
  · cases made
    exact ⟨rfl, _, rfl⟩

theorem createNew_none (refused : v.createNew name data = none) : v.entries name ≠ none := by
  unfold createNew at refused
  split at refused
  · rename_i found
    rw [found]
    exact Option.some_ne_none _
  · cases refused

theorem Settled.createNew (settled : v.Settled good name) (made : v.createNew other data = some (v', inode))
    (different : name ≠ other) : v'.Settled good name := by
  obtain ⟨rfl, known, rfl⟩ := createNew_some made
  exact settled.fresh.point_other different

theorem hardLink_ok (linked : v.hardLink source target = .ok v') :
    ∃ inode known, v.entries source = some inode ∧ v.entries target = none ∧ v' = v.point target (some inode) known := by
  unfold hardLink at linked
  split at linked
  · cases linked
  · rename_i inode found
    split at linked
    · cases linked
    · rename_i missing
      cases linked
      exact ⟨inode, _, found, missing, rfl⟩

theorem hardLink_error {e : LinkError} (refused : v.hardLink source target = .error e) :
    (e = .notFound ∧ v.entries source = none) ∨ (e = .alreadyExists ∧ v.entries target ≠ none) := by
  unfold hardLink at refused
  split at refused
  · rename_i missing
    cases refused
    exact .inl ⟨rfl, missing⟩
  · split at refused
    · rename_i found
      cases refused
      exact .inr ⟨rfl, by rw [found]; exact Option.some_ne_none _⟩
    · cases refused

theorem rename_some (renamed : v.rename source target = some v') :
    ∃ inode, v.entries source = some inode ∧
      (v.entries target = some inode ∧ v' = v ∨ ∃ known, v' = (v.point target (some inode) known).remove source) := by
  unfold rename at renamed
  split at renamed
  · cases renamed
  · rename_i inode found
    split at renamed
    · rename_i same
      cases renamed
      exact ⟨inode, found, .inl ⟨same, rfl⟩⟩
    · cases renamed
      exact ⟨inode, found, .inr ⟨_, rfl⟩⟩

theorem rename_none (failed : v.rename source target = none) : v.entries source = none := by
  unfold rename at failed
  split at failed
  · assumption
  · split at failed <;> cases failed

/-- The file behind the source is ready to be published. -/
def Finished (v : Volume ν β) (good : β → Prop) (source : ν) : Prop :=
  ∀ inode, v.entries source = some inode → v.synced inode = true ∧ good (v.data inode)

theorem Settled.hardLink (settled : v.Settled good target) (linked : v.hardLink source target = .ok v')
    (finished : v.Finished good source) : v'.Settled good target := by
  obtain ⟨inode, known, found, _, rfl⟩ := hardLink_ok linked
  refine settled.point ?_
  intro other same
  cases same
  exact finished inode found

theorem Settled.rename (settled : v.Settled good target) (renamed : v.rename source target = some v')
    (finished : v.Finished good source) : v'.Settled good target := by
  obtain ⟨inode, found, ⟨_, rfl⟩ | ⟨known, rfl⟩⟩ := rename_some renamed
  · exact settled
  · refine Settled.remove (settled.point ?_)
    intro other same
    cases same
    exact finished inode found

theorem read_point {entry : Option Nat} (known : ∀ inode, entry = some inode → inode < v.next) :
    (v.point name entry known).read name = entry.map v.data := by
  rw [read, entries_point, data_point]

/-- After a link both names read the same. -/
theorem read_hardLink (linked : v.hardLink source target = .ok v') : v'.read target = v.read source := by
  obtain ⟨inode, known, found, _, rfl⟩ := hardLink_ok linked
  rw [read_point, read, found]

theorem read_rename (renamed : v.rename source target = some v') (different : target ≠ source) :
    v'.read target = v.read source := by
  obtain ⟨inode, found, ⟨same, rfl⟩ | ⟨known, rfl⟩⟩ := rename_some renamed
  · rw [read, read, found, same]
  · rw [read_remove_other different, read_point, read, found]

end Volume

end SoloPool.Lib
