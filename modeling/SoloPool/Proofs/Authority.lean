import SoloPool.Lib.Tasks
import SoloPool.Protocol.Sv2.Authority

/-!
# The key file is absent or a complete key

One startup at a time, with failing calls, kills, power losses and deletions anywhere: what a startup writes it writes to
a file that no other entry names, and the key's name gets it only when it is complete and synced. `Fits` says what holds
of the volume before each operation of a startup.
-/

namespace SoloPool.Sv2
open Lib

variable {κ : Type} {c : KeyUtils κ} {path : KeyPath} {v v' : KeyVolume}

theorem keyTmpPath_ne (path : KeyPath) : keyTmpPath path ≠ path := by
  intro same
  have name : some (path.fileName.getD "" ++ ".tmp") = path.fileName := congrArg KeyPath.fileName same
  rw [← name, Option.getD_some] at name
  have length := congrArg (Option.map String.length) name
  simp at length

/-! ### The text of a key -/

/-- What the file of a key holds. -/
def keyFile (c : KeyUtils κ) (key : κ) : Bytes := strBytes (c.encode key) ++ strBytes "\n"

def Complete (c : KeyUtils κ) (data : Bytes) : Prop := ∃ key, data = keyFile c key

theorem readToString_strBytes (s : String) : readToString (strBytes s) = some s := by
  have bytes : (strBytes s).toByteArray = s.toByteArray := by
    conv_rhs => rw [← String.ofList_toList (s := s), String.toByteArray_ofList]
    rfl
  unfold readToString String.fromUTF8?
  rw [bytes, dif_pos s.isValidUTF8]
  rfl

theorem keyFile_eq (key : κ) : keyFile c key = strBytes (c.encode key ++ "\n") := by
  unfold keyFile strBytes
  rw [String.toList_append, List.flatMap_append]

theorem dropWhile_visible {cs : List Char} (visible : ∀ ch ∈ cs, isWhitespace ch = false) :
    cs.dropWhile isWhitespace = cs := by
  cases cs with
  | nil => rfl
  | cons ch rest => exact List.dropWhile_cons_of_neg (by rw [visible ch List.mem_cons_self]; exact Bool.false_ne_true)

theorem trim_newline {s : String} (visible : ∀ ch ∈ s.toList, isWhitespace ch = false) : trim (s ++ "\n") = s := by
  have front : (s.toList ++ ['\n']).dropWhile isWhitespace = if s.toList = [] then [] else s.toList ++ ['\n'] := by
    cases found : s.toList with
    | nil => rfl
    | cons ch rest =>
      rw [if_neg (List.cons_ne_nil _ _), List.cons_append]
      exact List.dropWhile_cons_of_neg (by rw [visible ch (by rw [found]; exact List.mem_cons_self)]; exact Bool.false_ne_true)
  have back : ((s.toList ++ ['\n']).reverse.dropWhile isWhitespace).reverse = s.toList := by
    rw [List.reverse_append, List.reverse_singleton, List.singleton_append, List.dropWhile_cons_of_pos (by decide),
      dropWhile_visible (fun ch member => visible ch (List.mem_reverse.mp member)), List.reverse_reverse]
  unfold trim
  rw [String.toList_append, show "\n".toList = ['\n'] from rfl, front]
  split
  · rename_i none
    rw [← String.ofList_toList (s := s), none]
    rfl
  · rw [back, String.ofList_toList]

theorem parse_keyFile (lawful : c.Base58) (key : κ) :
    (readToString (keyFile c key)).map (fun contents => c.parse (trim contents)) = some (some key) := by
  rw [keyFile_eq, readToString_strBytes, Option.map_some, trim_newline (lawful.visible key), lawful.parse_encode]

theorem keyFile_inj (lawful : c.Base58) {key key' : κ} (same : keyFile c key = keyFile c key') : key = key' := by
  have parsed := parse_keyFile lawful key
  rw [same, parse_keyFile lawful key'] at parsed
  exact (Option.some.inj (Option.some.inj parsed)).symm

theorem loaded_keyFile (lawful : c.Base58) (generated key : κ) :
    Startup.loaded c path generated (some (keyFile c key)) = .returned (.ok key) := by
  unfold Startup.loaded
  simp only [keyFile_eq, readToString_strBytes, trim_newline (lawful.visible key), lawful.parse_encode]

/-! ### What a startup has done so far -/

/-- The startup's own file: only the scratch name may name it. -/
structure Scratch (path : KeyPath) (v : KeyVolume) (inode : Nat) : Prop where
  missing : v.entries path = none
  entry : v.entries (keyTmpPath path) = some inode
  unnamed : some inode ∉ v.held path

/-- The scratch name leads to the complete key. -/
structure Ready (c : KeyUtils κ) (path : KeyPath) (v : KeyVolume) (secret : κ) : Prop where
  missing : v.entries path = none
  entry : v.entries (keyTmpPath path) ≠ none
  contents : v.read (keyTmpPath path) = some (keyFile c secret)
  finished : v.Finished (Complete c) (keyTmpPath path)

def Startup.Fits (c : KeyUtils κ) (path : KeyPath) (v : KeyVolume) : Startup κ → Prop
  | .reading _ => True
  | .creatingDir _ | .clearing _ | .opening _ => v.entries path = none
  | .writing secret inode rest => Scratch path v inode ∧ v.data inode ++ rest = strBytes (c.encode secret)
  | .newline secret inode => Scratch path v inode ∧ v.data inode = strBytes (c.encode secret)
  | .syncing secret inode => Scratch path v inode ∧ v.data inode = keyFile c secret
  | .linking secret | .moving secret => Ready c path v secret
  | .cleaning _ => True

def Progress.Fits (c : KeyUtils κ) (path : KeyPath) (v : KeyVolume) : Progress κ → Prop
  | .next startup => startup.Fits c path v
  | .returned result => result ≠ .error .parsing

theorem Scratch.write {inode : Nat} (scratch : Scratch path v inode) (data : Bytes) : Scratch path (v.write inode data) inode :=
  ⟨scratch.missing, scratch.entry, scratch.unnamed⟩

theorem Startup.fits_afterWrite {inode : Nat} {secret : κ} {rest : Bytes} (scratch : Scratch path v inode)
    (contents : v.data inode ++ rest = strBytes (c.encode secret)) : (afterWrite secret inode rest).Fits c path v := by
  unfold afterWrite
  split
  · rename_i done
    rw [done, List.append_nil] at contents
    exact ⟨scratch, contents⟩
  · exact ⟨scratch, contents⟩

theorem Scratch.createNew {inode : Nat} (missing : v.entries path = none)
    (made : v.createNew (keyTmpPath path) [] = some (v', inode)) : Scratch path v' inode ∧ v'.data inode = [] := by
  obtain ⟨rfl, known, rfl⟩ := Volume.createNew_some made
  have apart : path ≠ keyTmpPath path := (keyTmpPath_ne path).symm
  refine ⟨⟨?_, Volume.entries_point _, ?_⟩, ?_⟩
  · rw [Volume.entries_point_other apart]
    exact missing
  · rw [Volume.held_point_other apart]
    exact Volume.unnamed_next
  · exact Function.update_self ..

theorem Ready.sync {inode : Nat} {secret : κ} (scratch : Scratch path v inode) (contents : v.data inode = keyFile c secret) :
    Ready c path (v.sync inode) secret where
  missing := scratch.missing
  entry := by
    change v.entries (keyTmpPath path) ≠ none
    rw [scratch.entry]
    exact Option.some_ne_none _
  contents := by
    change (v.entries (keyTmpPath path)).map v.data = _
    rw [scratch.entry, Option.map_some, contents]
  finished := by
    intro other found
    obtain rfl : inode = other := Option.some.inj (scratch.entry.symm.trans found)
    exact ⟨Function.update_self .., secret, contents⟩

theorem Ready.absent {secret : κ} (ready : Ready c path v secret) {e : LinkError}
    (refused : v.hardLink (keyTmpPath path) path = .error e) : False := by
  rcases Volume.hardLink_error refused with ⟨_, none⟩ | ⟨_, present⟩
  · exact ready.entry none
  · exact present ready.missing

/-- The key's name stays settled, and a key that is there stays. -/
structure Advances (c : KeyUtils κ) (path : KeyPath) (v v' : KeyVolume) : Prop where
  settled : v'.Settled (Complete c) path
  keeps : ∀ data, v.read path = some data → v'.read path = some data

theorem Advances.same (settled : v.Settled (Complete c) path) : Advances c path v v := ⟨settled, fun _ held => held⟩

theorem Advances.remove (settled : v.Settled (Complete c) path) : Advances c path v (v.remove (keyTmpPath path)) where
  settled := settled.remove
  keeps _ held := (Volume.read_remove_other (keyTmpPath_ne path).symm).trans held

theorem Advances.sync {inode : Nat} (settled : v.Settled (Complete c) path) : Advances c path v (v.sync inode) :=
  ⟨settled.sync, fun _ held => held⟩

/-- As long as the name is missing there is nothing to keep. -/
theorem Advances.missing (settled : v'.Settled (Complete c) path) (missing : v.entries path = none) :
    Advances c path v v' where
  settled := settled
  keeps data held := by
    rw [Volume.read, missing] at held
    cases held

/-- One operation leads to an operation that fits. -/
theorem Startup.call_fits (lawful : c.Base58) {startup : Startup κ} {reply : Reply} {progress : Progress κ}
    (settled : v.Settled (Complete c) path) (fits : startup.Fits c path v)
    (called : startup.call c path v reply = some (v', progress)) :
    Advances c path v v' ∧ progress.Fits c path v' := by
  have apart : path ≠ keyTmpPath path := (keyTmpPath_ne path).symm
  cases startup with
  | reading generated =>
    cases reply <;> simp only [call, Option.some.injEq, Prod.mk.injEq, reduceCtorEq] at called
    · obtain ⟨rfl, rfl⟩ := called
      refine ⟨.same settled, ?_⟩
      cases held : v.read path with
      | none =>
        have missing : v.entries path = none := Option.map_eq_none_iff.mp held
        simp only [loaded, Progress.Fits]
        split <;> exact missing
      | some data =>
        obtain ⟨key, rfl⟩ := settled.read held
        simp [loaded_keyFile lawful, Progress.Fits]
    · obtain ⟨rfl, rfl⟩ := called
      exact ⟨.same settled, by simp [Progress.Fits]⟩
  | creatingDir secret =>
    cases reply <;> simp only [call, Option.some.injEq, Prod.mk.injEq, reduceCtorEq] at called
    · obtain ⟨rfl, rfl⟩ := called
      exact ⟨.same settled, fits⟩
    · obtain ⟨rfl, rfl⟩ := called
      exact ⟨.same settled, by simp [Progress.Fits]⟩
  | clearing secret =>
    cases reply <;> simp only [call, Option.some.injEq, Prod.mk.injEq, reduceCtorEq] at called
    · obtain ⟨rfl, rfl⟩ := called
      exact ⟨.remove settled, (Volume.entries_remove_other apart).trans fits⟩
    · obtain ⟨rfl, rfl⟩ := called
      exact ⟨.same settled, fits⟩
  | opening secret =>
    cases reply <;> simp only [call, Option.some.injEq, Prod.mk.injEq, reduceCtorEq] at called
    · split at called
      · rename_i made
        cases called
        obtain ⟨scratch, empty⟩ := Scratch.createNew fits made
        exact ⟨.missing (settled.createNew made apart) fits, fits_afterWrite scratch (by rw [empty, List.nil_append])⟩
      · cases called
        exact ⟨.same settled, trivial⟩
    · obtain ⟨rfl, rfl⟩ := called
      exact ⟨.same settled, trivial⟩
  | writing secret inode rest =>
    obtain ⟨scratch, contents⟩ := fits
    cases reply <;> simp only [call, Option.some.injEq, Prod.mk.injEq, reduceCtorEq] at called
    · obtain ⟨rfl, rfl⟩ := called
      exact ⟨.same settled, trivial⟩
    · split at called
      · cases called
        exact ⟨.same settled, trivial⟩
      · cases called
        refine ⟨.missing (settled.write scratch.unnamed) scratch.missing, fits_afterWrite (scratch.write _) ?_⟩
        change Function.update v.data inode _ inode ++ _ = _
        rw [Function.update_self, List.append_assoc, List.take_append_drop, contents]
  | newline secret inode =>
    obtain ⟨scratch, contents⟩ := fits
    cases reply <;> simp only [call, Option.some.injEq, Prod.mk.injEq, reduceCtorEq] at called
    · obtain ⟨rfl, rfl⟩ := called
      refine ⟨.missing (settled.write scratch.unnamed) scratch.missing, scratch.write _, ?_⟩
      change Function.update v.data inode _ inode = _
      rw [Function.update_self, contents, keyFile]
    · obtain ⟨rfl, rfl⟩ := called
      exact ⟨.same settled, trivial⟩
  | syncing secret inode =>
    obtain ⟨scratch, contents⟩ := fits
    cases reply <;> simp only [call, Option.some.injEq, Prod.mk.injEq, reduceCtorEq] at called
    · obtain ⟨rfl, rfl⟩ := called
      exact ⟨.sync settled, Ready.sync scratch contents⟩
    · obtain ⟨rfl, rfl⟩ := called
      exact ⟨.same settled, trivial⟩
  | linking secret =>
    cases reply <;> simp only [call, Option.some.injEq, Prod.mk.injEq, reduceCtorEq] at called
    · split at called
      · rename_i linked
        cases called
        exact ⟨.missing (settled.hardLink linked fits.finished) fits.missing, trivial⟩
      · rename_i refused
        exact (fits.absent refused).elim
      · rename_i refused
        exact (fits.absent refused).elim
    · obtain ⟨rfl, rfl⟩ := called
      exact ⟨.same settled, fits⟩
  | moving secret =>
    cases reply <;> simp only [call, Option.some.injEq, Prod.mk.injEq, reduceCtorEq] at called
    · split at called
      · rename_i renamed
        cases called
        exact ⟨.missing (settled.rename renamed fits.finished) fits.missing, trivial⟩
      · rename_i failed
        exact (fits.entry (Volume.rename_none failed)).elim
    · obtain ⟨rfl, rfl⟩ := called
      exact ⟨.same settled, trivial⟩
  | cleaning result =>
    have outcome : (cleaned result).Fits c path v' := by
      cases result <;> simp [cleaned, Progress.Fits]
    cases reply <;> simp only [call, Option.some.injEq, Prod.mk.injEq, reduceCtorEq] at called
    · obtain ⟨rfl, rfl⟩ := called
      exact ⟨.remove settled, outcome⟩
    · obtain ⟨rfl, rfl⟩ := called
      exact ⟨.same settled, outcome⟩


/-! ### What a startup returns -/

/-- A key that is about to be returned is the one in the file. -/
def Startup.Sure (c : KeyUtils κ) (path : KeyPath) (v : KeyVolume) : Startup κ → Prop
  | .cleaning (some secret) => v.read path = some (keyFile c secret)
  | _ => True

def Progress.Sure (c : KeyUtils κ) (path : KeyPath) (v : KeyVolume) : Progress κ → Prop
  | .next startup => startup.Sure c path v
  | .returned (.ok secret) => v.read path = some (keyFile c secret)
  | .returned (.error _) => True

theorem Startup.sure_afterWrite {inode : Nat} {secret : κ} {rest : Bytes} : (afterWrite secret inode rest).Sure c path v := by
  unfold afterWrite
  split <;> trivial

theorem Startup.sure_loaded (lawful : c.Base58) {generated : κ} (settled : v.Settled (Complete c) path) :
    (loaded c path generated (v.read path)).Sure c path v := by
  cases held : v.read path with
  | none =>
    simp only [loaded, Progress.Sure]
    split <;> trivial
  | some data =>
    obtain ⟨key, rfl⟩ := settled.read held
    rw [loaded_keyFile lawful]
    exact held

theorem Startup.call_sure (lawful : c.Base58) {startup : Startup κ} {reply : Reply} {progress : Progress κ}
    (settled : v.Settled (Complete c) path) (fits : startup.Fits c path v) (sure : startup.Sure c path v)
    (called : startup.call c path v reply = some (v', progress)) : progress.Sure c path v' := by
  cases startup with
  | reading generated =>
    cases reply <;> cases called
    · exact sure_loaded lawful settled
    · trivial
  | creatingDir secret => cases reply <;> cases called <;> trivial
  | clearing secret => cases reply <;> cases called <;> trivial
  | opening secret =>
    cases reply <;> simp only [call, Option.some.injEq, Prod.mk.injEq, reduceCtorEq] at called
    · split at called <;> cases called
      · exact sure_afterWrite
      · trivial
    · obtain ⟨rfl, rfl⟩ := called
      trivial
  | writing secret inode rest =>
    cases reply <;> simp only [call, Option.some.injEq, Prod.mk.injEq, reduceCtorEq] at called
    · obtain ⟨rfl, rfl⟩ := called
      trivial
    · split at called <;> cases called
      · trivial
      · exact sure_afterWrite
  | newline secret inode => cases reply <;> cases called <;> trivial
  | syncing secret inode => cases reply <;> cases called <;> trivial
  | linking secret =>
    cases reply <;> simp only [call, Option.some.injEq, Prod.mk.injEq, reduceCtorEq] at called
    · split at called <;> cases called
      · rename_i linked
        exact (Volume.read_hardLink linked).trans fits.contents
      · trivial
      · trivial
    · obtain ⟨rfl, rfl⟩ := called
      trivial
  | moving secret =>
    cases reply <;> simp only [call, Option.some.injEq, Prod.mk.injEq, reduceCtorEq] at called
    · split at called <;> cases called
      · rename_i renamed
        exact (Volume.read_rename renamed (keyTmpPath_ne path).symm).trans fits.contents
      · trivial
    · obtain ⟨rfl, rfl⟩ := called
      trivial
  | cleaning result =>
    cases result with
    | none => cases reply <;> cases called <;> trivial
    | some secret =>
      cases reply <;> cases called
      · exact (Advances.remove settled).keeps _ sure
      · exact sure

/-! ### A startup whose calls succeed -/

/-- The scratch name is free for the file, and nothing has failed. -/
def Startup.Clear (path : KeyPath) (v : KeyVolume) : Startup κ → Prop
  | .opening _ => v.entries (keyTmpPath path) = none
  | .cleaning none => False
  | _ => True

def Progress.Clear (path : KeyPath) (v : KeyVolume) : Progress κ → Prop
  | .next startup => startup.Clear path v
  | .returned result => ∃ key, result = .ok key

def Reply.Succeeds : Reply → Prop
  | .done => True
  | .fails => False
  | .wrote count => 0 < count

theorem Startup.clear_afterWrite {inode : Nat} {secret : κ} {rest : Bytes} : (afterWrite secret inode rest).Clear path v := by
  unfold afterWrite
  split <;> trivial

theorem Startup.call_clear (lawful : c.Base58) {startup : Startup κ} {reply : Reply} {progress : Progress κ}
    (settled : v.Settled (Complete c) path) (fits : startup.Fits c path v) (clear : startup.Clear path v)
    (succeeds : reply.Succeeds) (called : startup.call c path v reply = some (v', progress)) : progress.Clear path v' := by
  cases startup with
  | reading generated =>
    cases reply <;> cases called
    · cases held : v.read path with
      | none =>
        simp only [loaded, Progress.Clear]
        split <;> trivial
      | some data =>
        obtain ⟨key, rfl⟩ := settled.read held
        rw [loaded_keyFile lawful]
        exact ⟨key, rfl⟩
    · cases succeeds
  | creatingDir secret => cases reply <;> cases called <;> trivial
  | clearing secret =>
    cases reply <;> cases called
    · exact Volume.entries_remove
    · cases succeeds
  | opening secret =>
    cases reply <;> simp only [call, Option.some.injEq, Prod.mk.injEq, reduceCtorEq] at called
    · split at called
      · cases called
        exact clear_afterWrite
      · rename_i refused
        exact (Volume.createNew_none refused clear).elim
    · cases succeeds
  | writing secret inode rest =>
    cases reply <;> simp only [call, Option.some.injEq, Prod.mk.injEq, reduceCtorEq] at called
    · cases succeeds
    · split at called
      · rename_i zero
        exact absurd zero (Nat.ne_of_gt succeeds)
      · cases called
        exact clear_afterWrite
  | newline secret inode => cases reply <;> cases called <;> trivial
  | syncing secret inode => cases reply <;> cases called <;> trivial
  | linking secret =>
    cases reply <;> simp only [call, Option.some.injEq, Prod.mk.injEq, reduceCtorEq] at called
    · split at called
      · cases called
        trivial
      · rename_i refused
        exact (fits.absent refused).elim
      · rename_i refused
        exact (fits.absent refused).elim
    · cases succeeds
  | moving secret =>
    cases reply <;> simp only [call, Option.some.injEq, Prod.mk.injEq, reduceCtorEq] at called
    · split at called
      · cases called
        trivial
      · rename_i failed
        exact (fits.entry (Volume.rename_none failed)).elim
    · cases succeeds
  | cleaning result =>
    cases result with
    | none => cases clear
    | some secret => cases reply <;> cases called <;> exact ⟨secret, rfl⟩

/-- How far a startup is from its end. -/
def Startup.distance : Startup κ → Nat
  | .reading _ => 10
  | .creatingDir _ => 9
  | .clearing _ => 8
  | .opening _ => 7
  | .writing .. => 6
  | .newline .. => 5
  | .syncing .. => 4
  | .linking _ => 3
  | .moving _ => 2
  | .cleaning _ => 1

def Progress.distance : Progress κ → Nat
  | .next startup => startup.distance
  | .returned _ => 0

theorem Startup.distance_afterWrite {inode : Nat} {secret : κ} {rest : Bytes} : (afterWrite secret inode rest).distance < 7 := by
  unfold afterWrite
  split <;> simp [distance]

theorem Startup.distance_loaded {generated : κ} {held : Option Bytes} : (loaded c path generated held).distance < 10 := by
  cases held with
  | none =>
    simp only [loaded, Progress.distance]
    split <;> simp [distance]
  | some data =>
    simp only [loaded]
    split
    · simp [Progress.distance]
    · split <;> simp [Progress.distance]

/-- Some answer of the operating system brings a startup nearer to its end. -/
theorem Startup.call_nearer (c : KeyUtils κ) (path : KeyPath) (v : KeyVolume) (startup : Startup κ) :
    ∃ reply v' progress, reply.Succeeds ∧ startup.call c path v reply = some (v', progress) ∧
      progress.distance < startup.distance := by
  cases startup with
  | reading generated => exact ⟨.done, _, _, trivial, rfl, distance_loaded⟩
  | creatingDir secret => exact ⟨.done, _, _, trivial, rfl, by simp [Progress.distance, distance]⟩
  | clearing secret => exact ⟨.done, _, _, trivial, rfl, by simp [Progress.distance, distance]⟩
  | opening secret =>
    cases made : v.createNew (keyTmpPath path) [] with
    | none => exact ⟨.done, v, .next (.cleaning none), trivial, by rw [call, made], by simp [Progress.distance, distance]⟩
    | some result =>
      exact ⟨.done, result.1, .next (afterWrite secret result.2 (strBytes (c.encode secret))), trivial,
        by rw [call, made], distance_afterWrite⟩
  | writing secret inode rest =>
    refine ⟨.wrote (rest.length + 1), _, _, Nat.succ_pos _, by rw [call, if_neg (Nat.succ_ne_zero _)], ?_⟩
    rw [List.drop_eq_nil_of_le (Nat.le_succ _), afterWrite, if_pos rfl]
    simp [Progress.distance, distance]
  | newline secret inode => exact ⟨.done, _, _, trivial, rfl, by simp [Progress.distance, distance]⟩
  | syncing secret inode => exact ⟨.done, _, _, trivial, rfl, by simp [Progress.distance, distance]⟩
  | linking secret =>
    cases linked : v.hardLink (keyTmpPath path) path with
    | ok v' =>
      exact ⟨.done, v', .next (.cleaning (some secret)), trivial, by rw [call, linked], by simp [Progress.distance, distance]⟩
    | error e =>
      cases e with
      | notFound => exact ⟨.done, v, .next (.moving secret), trivial, by rw [call, linked], by simp [Progress.distance, distance]⟩
      | alreadyExists =>
        exact ⟨.done, v, .next (.cleaning none), trivial, by rw [call, linked], by simp [Progress.distance, distance]⟩
  | moving secret =>
    cases renamed : v.rename (keyTmpPath path) path with
    | some v' =>
      exact ⟨.done, v', .next (.cleaning (some secret)), trivial, by rw [call, renamed], by simp [Progress.distance, distance]⟩
    | none =>
      exact ⟨.done, v, .next (.cleaning none), trivial, by rw [call, renamed], by simp [Progress.distance, distance]⟩
  | cleaning result =>
    cases result <;> exact ⟨.done, _, _, trivial, rfl, by simp [Startup.cleaned, Progress.distance, distance]⟩

/-! ### Startups one at a time -/

theorem Scratch.delete {inode : Nat} (scratch : Scratch path v inode) : Scratch path (v.remove path) inode where
  missing := Volume.entries_remove
  entry := (Volume.entries_remove_other (keyTmpPath_ne path)).trans scratch.entry
  unnamed := by
    intro among
    rw [Volume.remove, Volume.held_point] at among
    rcases List.mem_cons.mp among with none | among
    · cases none
    · exact scratch.unnamed among

theorem Ready.delete {secret : κ} (ready : Ready c path v secret) : Ready c path (v.remove path) secret where
  missing := Volume.entries_remove
  entry := by
    rw [Volume.entries_remove_other (keyTmpPath_ne path)]
    exact ready.entry
  contents := (Volume.read_remove_other (keyTmpPath_ne path)).trans ready.contents
  finished := fun inode found =>
    ready.finished inode ((Volume.entries_remove_other (keyTmpPath_ne path)).symm.trans found)

theorem Startup.fits_delete {startup : Startup κ} (fits : startup.Fits c path v) : startup.Fits c path (v.remove path) := by
  cases startup with
  | reading _ => trivial
  | creatingDir _ => exact Volume.entries_remove
  | clearing _ => exact Volume.entries_remove
  | opening _ => exact Volume.entries_remove
  | writing _ _ _ => exact ⟨fits.1.delete, fits.2⟩
  | newline _ _ => exact ⟨fits.1.delete, fits.2⟩
  | syncing _ _ => exact ⟨fits.1.delete, fits.2⟩
  | linking _ => exact fits.delete
  | moving _ => exact fits.delete
  | cleaning _ => trivial

namespace KeyStore

variable {s t : KeyStore κ} {a : Action κ}

/-- A startup begins when no other is under way. -/
def Alone (s : KeyStore κ) : Action κ → Prop
  | .start _ => s.startups = []
  | _ => True

/-- Neither a power loss nor a deletion. -/
def Quiet : Action κ → Prop
  | .powerLoss .. => False
  | .delete => False
  | _ => True

/-- A startup begins, or one of its calls succeeds. -/
def Smooth : Action κ → Prop
  | .start _ => True
  | .call _ reply => reply.Succeeds
  | _ => False

theorem Smooth.quiet (smooth : Smooth a) : Quiet a := by
  cases a <;> trivial

structure Inv (c : KeyUtils κ) (path : KeyPath) (s : KeyStore κ) : Prop where
  settled : s.volume.Settled (Complete c) path
  alone : s.startups.length ≤ 1
  fits : ∀ startup ∈ s.startups, startup.Fits c path s.volume
  results : ∀ result ∈ s.results, result ≠ .error .parsing

/-- The one startup makes its next call. -/
theorem call_cases {i : Nat} {reply : Reply} (alone : s.startups.length ≤ 1) (taken : s.step c path (.call i reply) = some t) :
    ∃ startup progress, s.startups = [startup] ∧ startup.call c path s.volume reply = some (t.volume, progress) ∧
      ((∃ next, progress = .next next ∧ t.startups = [next] ∧ t.results = s.results) ∨
        (∃ result, progress = .returned result ∧ t.startups = [] ∧ t.results = s.results ++ [result])) := by
  obtain ⟨startup, running, rest⟩ := Option.bind_eq_some_iff.mp taken
  obtain ⟨⟨v, progress⟩, called, settled⟩ := Option.bind_eq_some_iff.mp rest
  obtain ⟨rfl, only⟩ := running_alone alone running
  cases progress with
  | next next =>
    cases settled
    exact ⟨startup, .next next, only, called, .inl ⟨next, rfl, by rw [settle, only, List.set_cons_zero], rfl⟩⟩
  | returned result =>
    cases settled
    exact ⟨startup, .returned result, only, called, .inr ⟨result, rfl, by rw [settle, only, List.eraseIdx_cons_zero], rfl⟩⟩

theorem Inv.empty : (empty : KeyStore κ).Inv c path where
  settled := .blank _
  alone := Nat.zero_le _
  fits := by rintro _ ⟨⟩
  results := by rintro _ ⟨⟩

theorem step_inv (lawful : c.Base58) (inv : s.Inv c path) (alone : s.Alone a) (taken : s.step c path a = some t) :
    t.Inv c path := by
  cases a with
  | start generated =>
    cases taken
    have none : s.startups = [] := alone
    refine ⟨inv.settled, by simp [none], ?_, inv.results⟩
    exact forall_append inv.fits trivial
  | call i reply =>
    obtain ⟨startup, progress, only, called, outcome⟩ := call_cases inv.alone taken
    have fits : startup.Fits c path s.volume := inv.fits startup (by rw [only]; exact List.mem_singleton_self _)
    obtain ⟨advances, fits⟩ := Startup.call_fits lawful inv.settled fits called
    rcases outcome with ⟨next, rfl, startups, results⟩ | ⟨result, rfl, startups, results⟩
    · refine ⟨advances.settled, by rw [startups]; exact Nat.le_refl _, ?_, by rw [results]; exact inv.results⟩
      rw [startups]
      exact List.forall_mem_singleton.mpr fits
    · refine ⟨advances.settled, by rw [startups]; exact Nat.zero_le _, by rw [startups]; rintro _ ⟨⟩, ?_⟩
      rw [results]
      exact forall_append inv.results fits
  | kill i =>
    cases taken
    exact ⟨inv.settled, Nat.le_trans (List.length_eraseIdx_le _ _) inv.alone,
      fun startup among => inv.fits startup (List.mem_of_mem_eraseIdx among), inv.results⟩
  | powerLoss choice garbage =>
    cases taken
    exact ⟨inv.settled.powerLoss, Nat.zero_le _, by rintro _ ⟨⟩, inv.results⟩
  | delete =>
    cases taken
    exact ⟨inv.settled.remove, inv.alone, fun startup among => Startup.fits_delete (inv.fits startup among), inv.results⟩

theorem reach_inv (lawful : c.Base58) (inv : s.Inv c path) (reached : Reach (step c path) Alone s t) : t.Inv c path :=
  reached.invariant (Inv c path) inv (fun _ _ _ _ inv alone taken => step_inv lawful inv alone taken)

/-- In every run with one startup at a time the key file is missing or holds one complete key, whatever failed, was
killed or lost power on the way, and no startup has found a corrupt key. -/
theorem key_file_complete (lawful : c.Base58) (reached : Reach (step c path) Alone empty s) :
    (∀ data, s.volume.read path = some data → ∃ key, data = keyFile c key) ∧
      ∀ result ∈ s.results, result ≠ .error .parsing := by
  have inv := reach_inv lawful .empty reached
  exact ⟨fun data held => inv.settled.read held, inv.results⟩

/-! ### A key once returned -/

/-- What stands since `s`: the key that was there is there, and so is every key returned since or about to be. -/
structure Stable (c : KeyUtils κ) (path : KeyPath) (s t : KeyStore κ) : Prop where
  returned : ∃ later, t.results = s.results ++ later ∧
    ∀ key, .ok key ∈ later → t.volume.read path = some (keyFile c key)
  keeps : ∀ data, s.volume.read path = some data → t.volume.read path = some data
  sure : ∀ startup ∈ t.startups, startup.Sure c path t.volume

theorem Stable.refl (idle : s.startups = []) : Stable c path s s where
  returned := ⟨[], (List.append_nil _).symm, by rintro _ ⟨⟩⟩
  keeps _ held := held
  sure := by
    rw [idle]
    rintro _ ⟨⟩

theorem Stable.step {u : KeyStore κ} (lawful : c.Base58) (stable : Stable c path s t) (inv : t.Inv c path) (quiet : Quiet a)
    (taken : t.step c path a = some u) : Stable c path s u := by
  cases a with
  | start generated =>
    cases taken
    exact ⟨stable.returned, stable.keeps, forall_append stable.sure trivial⟩
  | call i reply =>
    obtain ⟨startup, progress, only, called, outcome⟩ := call_cases inv.alone taken
    have among : startup ∈ t.startups := by rw [only]; exact List.mem_singleton_self _
    obtain ⟨advances, _⟩ := Startup.call_fits lawful inv.settled (inv.fits startup among) called
    have sure := Startup.call_sure lawful inv.settled (inv.fits startup among) (stable.sure startup among) called
    obtain ⟨later, results, there⟩ := stable.returned
    rcases outcome with ⟨next, rfl, startups, same⟩ | ⟨result, rfl, startups, more⟩
    · refine ⟨⟨later, same.trans results, fun key given => advances.keeps _ (there key given)⟩,
        fun data held => advances.keeps _ (stable.keeps data held), ?_⟩
      rw [startups]
      exact List.forall_mem_singleton.mpr sure
    · refine ⟨⟨later ++ [result], by rw [more, results, List.append_assoc], ?_⟩,
        fun data held => advances.keeps _ (stable.keeps data held), by rw [startups]; rintro _ ⟨⟩⟩
      intro key given
      rcases List.mem_append.mp given with before | now
      · exact advances.keeps _ (there key before)
      · obtain rfl := List.mem_singleton.mp now
        exact sure
  | kill i =>
    cases taken
    exact ⟨stable.returned, stable.keeps, fun startup among => stable.sure startup (List.mem_of_mem_eraseIdx among)⟩
  | powerLoss choice garbage => cases quiet
  | delete => cases quiet

/-- Without power losses and deletions a key that a startup returned is in the file from then on, and every later
startup that returns a key returns that one. -/
theorem key_kept (lawful : c.Base58) (reached : Reach (step c path) Alone empty s) (idle : s.startups = [])
    (quiet : Reach (step c path) (fun s a => s.Alone a ∧ Quiet a) s t) :
    ∃ later, t.results = s.results ++ later ∧
      (∀ key, .ok key ∈ later → t.volume.read path = some (keyFile c key)) ∧
      (∀ key key', .ok key ∈ later → .ok key' ∈ later → key = key') ∧
      (∀ data, s.volume.read path = some data → t.volume.read path = some data) := by
  have inv := reach_inv lawful .empty reached
  have stable : Stable c path s t :=
    quiet.invariant (Stable c path s) (.refl idle) (fun _ _ _ before stable meets taken =>
      stable.step lawful (reach_inv lawful inv (before.mono (fun _ _ _ meets => meets.1))) meets.2 taken)
  obtain ⟨later, results, there⟩ := stable.returned
  refine ⟨later, results, there, ?_, stable.keeps⟩
  intro key key' given given'
  exact keyFile_inj lawful (Option.some.inj ((there key given).symm.trans (there key' given')))

/-! ### What an interrupted startup leaves behind -/

/-- No call has failed since `s`. -/
structure Unfailed (path : KeyPath) (s t : KeyStore κ) : Prop where
  returned : ∃ later, t.results = s.results ++ later ∧ ∀ result ∈ later, ∃ key, result = .ok key
  clear : ∀ startup ∈ t.startups, startup.Clear path t.volume

theorem Unfailed.step {u : KeyStore κ} (lawful : c.Base58) (unfailed : Unfailed path s t) (inv : t.Inv c path)
    (smooth : Smooth a) (taken : t.step c path a = some u) : Unfailed path s u := by
  cases a with
  | start generated =>
    cases taken
    exact ⟨unfailed.returned, forall_append unfailed.clear trivial⟩
  | call i reply =>
    obtain ⟨startup, progress, only, called, outcome⟩ := call_cases inv.alone taken
    have among : startup ∈ t.startups := by rw [only]; exact List.mem_singleton_self _
    have clear := Startup.call_clear lawful inv.settled (inv.fits startup among) (unfailed.clear startup among) smooth called
    obtain ⟨later, results, fine⟩ := unfailed.returned
    rcases outcome with ⟨next, rfl, startups, same⟩ | ⟨result, rfl, startups, more⟩
    · refine ⟨⟨later, same.trans results, fine⟩, ?_⟩
      rw [startups]
      exact List.forall_mem_singleton.mpr clear
    · refine ⟨⟨later ++ [result], by rw [more, results, List.append_assoc], forall_append fine clear⟩, ?_⟩
      rw [startups]
      rintro _ ⟨⟩
  | kill i => cases smooth
  | powerLoss choice garbage => cases smooth
  | delete => cases smooth

abbrev SmoothRun (c : KeyUtils κ) (path : KeyPath) : KeyStore κ → KeyStore κ → Prop :=
  Reach (step c path) (fun s a => s.Alone a ∧ Smooth a)

theorem nearer (c : KeyUtils κ) (path : KeyPath) {startup : Startup κ} (only : s.startups = [startup]) :
    ∃ i reply t, reply.Succeeds ∧ s.step c path (.call i reply) = some t ∧
      (t.startups = [] ∨ ∃ next, t.startups = [next] ∧ next.distance < startup.distance) := by
  obtain ⟨reply, v, progress, succeeds, called, less⟩ := Startup.call_nearer c path s.volume startup
  refine ⟨0, reply, s.settle 0 v progress, succeeds, ?_, ?_⟩
  · rw [step, only, List.getElem?_cons_zero]
    simp only [bind, pure, Option.bind_some, called]
  · cases progress with
    | next next => exact .inr ⟨next, by rw [settle, only, List.set_cons_zero], less⟩
    | returned result => exact .inl (by rw [settle, only, List.eraseIdx_cons_zero])

/-- A startup under way can be brought to its end. -/
theorem can_finish (c : KeyUtils κ) (path : KeyPath) {startup : Startup κ} (only : s.startups = [startup]) :
    ∃ t, SmoothRun c path s t ∧ t.startups = [] := by
  induction near : startup.distance using Nat.strong_induction_on generalizing s startup with
  | _ distance ih =>
    obtain ⟨i, reply, t, succeeds, taken, idle | ⟨next, only', less⟩⟩ := nearer c path only
    · exact ⟨t, .step (a := .call i reply) .start ⟨trivial, succeeds⟩ taken, idle⟩
    · obtain ⟨u, run, idle⟩ := ih next.distance (near ▸ less) only' rfl
      exact ⟨u, .trans (.step (a := .call i reply) .start ⟨trivial, succeeds⟩ taken) run, idle⟩

/-- Whatever earlier startups left behind, one whose calls succeed ends, and ends with a key. -/
theorem leftovers_harmless (lawful : c.Base58) (reached : Reach (step c path) Alone empty s) (idle : s.startups = [])
    (smooth : SmoothRun c path s t) :
    (∃ later, t.results = s.results ++ later ∧ ∀ result ∈ later, ∃ key, result = .ok key) ∧
      ∃ u, SmoothRun c path t u ∧ u.startups = [] := by
  have inv := reach_inv lawful .empty reached
  have alone {u : KeyStore κ} (run : SmoothRun c path s u) : u.Inv c path :=
    reach_inv lawful inv (run.mono (fun _ _ _ meets => meets.1))
  have unfailed : Unfailed path s t :=
    smooth.invariant (Unfailed path s) ⟨⟨[], (List.append_nil _).symm, by rintro _ ⟨⟩⟩, by rw [idle]; rintro _ ⟨⟩⟩
      (fun _ _ _ before unfailed meets taken => unfailed.step lawful (alone before) meets.2 taken)
  refine ⟨unfailed.returned, ?_⟩
  cases found : t.startups with
  | nil => exact ⟨t, .start, found⟩
  | cons startup rest =>
    have rest_nil : rest = [] := by
      have short := (alone smooth).alone
      rw [found] at short
      exact List.eq_nil_of_length_eq_zero (Nat.le_zero.mp (Nat.le_of_succ_le_succ short))
    exact can_finish c path (by rw [found, rest_nil])

/-! ### A startup that loses power while it writes, and the next ones -/

/-- The crate on two keys: the bytes 1 and 2, each 32 times. -/
def testKeys : KeyUtils Bool where
  encode key :=
    if key then "SeLqn3UAUoRymWmwW7axrzJK7JfNaBR2cHCryA6cFsgFkHEF" else "tHggZ5wKxbrxY2Yt1EAviybdDcKk9Mq4DZQiwKCDWkEaXE8U"
  parse text :=
    if text = "SeLqn3UAUoRymWmwW7axrzJK7JfNaBR2cHCryA6cFsgFkHEF" then some true
    else if text = "tHggZ5wKxbrxY2Yt1EAviybdDcKk9Mq4DZQiwKCDWkEaXE8U" then some false
    else none

theorem testKeys_base58 : testKeys.Base58 where
  parse_encode := by decide
  visible key := by
    have visible : (testKeys.encode key).toList.all (fun ch => !isWhitespace ch) = true := by cases key <;> rfl
    simpa using visible

def testPath : KeyPath := { parent := "", fileName := some "sv2_authority.key" }

def calls : List Reply → List (Action Bool) := List.map (.call 0)

/-- Half a key in the scratch file. -/
def interrupted : List (Action Bool) :=
  .start true :: calls [.done, .done, .done, .wrote 20] ++ [.powerLoss (fun _ => 0) (fun _ => [0x53])]

/-- On a filesystem without hard links. -/
def published : List (Action Bool) :=
  .start false :: calls [.done, .done, .done, .wrote 20, .wrote 28, .done, .done, .fails, .done, .done]

def reread : List (Action Bool) := .start true :: calls [.done]

instance (s : KeyStore κ) : (a : Action κ) → Decidable (s.Alone a)
  | .start _ => inferInstanceAs (Decidable (s.startups = []))
  | .call .. | .kill _ | .powerLoss .. | .delete => isTrue trivial

instance : (a : Action κ) → Decidable (Quiet a)
  | .powerLoss .. | .delete => isFalse id
  | .start _ | .call .. | .kill _ => isTrue trivial

instance : (reply : Reply) → Decidable reply.Succeeds
  | .done => isTrue trivial
  | .fails => isFalse id
  | .wrote count => inferInstanceAs (Decidable (0 < count))

instance : (a : Action κ) → Decidable (Smooth a)
  | .start _ => isTrue trivial
  | .call _ reply => inferInstanceAs (Decidable reply.Succeeds)
  | .kill _ | .powerLoss .. | .delete => isFalse id

theorem key_file_complete_reread :
    ∃ s, Reach (step testKeys testPath) Alone empty s ∧ s.results = [.ok false, .ok false] ∧
      (∀ data, s.volume.read testPath = some data → ∃ key, data = keyFile testKeys key) ∧
      ∀ result ∈ s.results, result ≠ .error .parsing := by
  obtain ⟨s, reached, results⟩ : ∃ s, Reach (step testKeys testPath) Alone empty s ∧ s.results = [.ok false, .ok false] :=
    Reach.of_run (interrupted ++ published ++ reread) (by decide +kernel)
  exact ⟨s, reached, results, key_file_complete testKeys_base58 reached⟩

theorem key_kept_reread :
    ∃ s t : KeyStore Bool, s.results = [] ∧ t.results = [.ok false, .ok false] ∧
      t.volume.read testPath = some (keyFile testKeys false) := by
  obtain ⟨s, reached, ⟨idle, fresh⟩, run⟩ : ∃ s, Reach (step testKeys testPath) Alone empty s ∧
      (s.startups = [] ∧ s.results = []) ∧
      ∃ t ∈ runActions (step testKeys testPath) (fun s a => s.Alone a ∧ Quiet a) s (published ++ reread),
        t.results = [.ok false, .ok false] :=
    Reach.of_run interrupted (by decide +kernel)
  obtain ⟨t, quiet, results⟩ := Reach.of_run _ run
  obtain ⟨later, more, there, _⟩ := key_kept testKeys_base58 reached idle quiet
  refine ⟨s, t, fresh, results, there false ?_⟩
  rw [fresh, results, List.nil_append] at more
  rw [← more]
  exact List.mem_cons_self

theorem leftovers_harmless_interrupted :
    ∃ s, s.volume.read (keyTmpPath testPath) = some [0x53] ∧
      ∃ t, SmoothRun testKeys testPath s t ∧ t.startups ≠ [] ∧ ∃ u, SmoothRun testKeys testPath t u ∧ u.startups = [] := by
  obtain ⟨s, reached, ⟨idle, leftover⟩, run⟩ : ∃ s, Reach (step testKeys testPath) Alone empty s ∧
      (s.startups = [] ∧ s.volume.read (keyTmpPath testPath) = some [0x53]) ∧
      ∃ t ∈ runActions (step testKeys testPath) (fun s a => s.Alone a ∧ Smooth a) s (.start false :: calls [.done, .done]),
        t.startups.length = 1 :=
    Reach.of_run interrupted (by decide +kernel)
  obtain ⟨t, smooth, one⟩ := Reach.of_run _ run
  refine ⟨s, leftover, t, smooth, ?_, (leftovers_harmless testKeys_base58 reached idle smooth).2⟩
  rw [← List.length_pos_iff, one]
  exact Nat.one_pos

/-- Two startups at once share the scratch name: one of them links the file that the other has just begun, and the next
startup finds a corrupt key. -/
theorem overlapping_startups_corrupt :
    ∃ s, Reach (step testKeys testPath) Always empty s ∧ .error .parsing ∈ s.results :=
  Reach.of_run
    (.start true :: calls [.done, .done, .done, .wrote 48, .done, .done] ++
      .start false :: List.map (.call 1) [.done, .done, .done] ++ calls [.done, .done] ++
      [.kill 0, .start true, .call 0 .done]) (by decide +kernel)

end KeyStore

end SoloPool.Sv2
