import SoloPool.Mining.Archive

/-!
# What becomes of an archived block

A block whose archive write has completed keeps exactly one file, and the file leaves the top level only on an answer
about the block itself. Two things follow every step of every task: what the operation does to the disk
(`advance_cases`), and what no operation takes back (`Grows`).
-/

namespace SoloPool
open Lib

/-! ### File names -/

theorem parseU64_toDigits (n : UInt64) : parseU64 (Nat.toDigits 10 n.toNat) = some n := by
  have digit : ∀ ch ∈ Nat.toDigits 10 n.toNat, ch.isDigit = true := by
    intro ch member
    exact Nat.isDigit_of_mem_toDigits (by decide) (by decide) member
  have signless : ∀ rest, Nat.toDigits 10 n.toNat ≠ '+' :: rest := by
    intro rest signed
    have plus := digit '+' (by rw [signed]; exact List.mem_cons_self)
    exact absurd plus (by decide)
  have numeric : ¬(((Nat.toDigits 10 n.toNat).isEmpty || !(Nat.toDigits 10 n.toNat).all Char.isDigit) = true) := by
    simp only [Bool.or_eq_true, Bool.not_eq_true', not_or, Bool.not_eq_true, Bool.not_eq_false]
    exact ⟨by simp, List.all_eq_true.mpr digit⟩
  unfold parseU64
  split
  · rename_i signed
    exact absurd signed (signless _)
  · simp only
    rw [if_neg numeric, Nat.ofDigitChars_ten_toDigits, if_pos n.toNat_lt, UInt64.ofNat_toNat]

theorem toList_archiveName (height : UInt64) (hashHex : String) :
    (archiveName height hashHex).toList =
      "block_".toList ++ (Nat.toDigits 10 height.toNat ++ '_' :: hashHex.toList) ++ ".hex".toList := by
  unfold archiveName
  simp only [String.toList_append, Nat.toString_eq_ofList_toDigits, String.toList_ofList, List.append_assoc]
  rfl

theorem splitOnce_underscore {before after : List Char} (clean : '_' ∉ before) :
    splitOnce '_' (before ++ '_' :: after) = some (before, after) := by
  have passes : ∀ ch ∈ before, (ch != '_') = true := by
    intro ch member
    rw [bne_iff_ne]
    rintro rfl
    exact clean member
  unfold splitOnce
  rw [List.dropWhile_append_of_pos passes, List.takeWhile_append_of_pos passes]
  simp

theorem parseArchiveName_archiveName (height : UInt64) {hashHex : String} (width : hashHex.toList.length = 64)
    (digits : hashHex.toList.all isAsciiHexdigit = true) :
    parseArchiveName (archiveName height hashHex) = some (height, hashHex) := by
  unfold parseArchiveName
  have stem := List.isSuffixOf?_eq_some_iff_append_eq.mpr (toList_archiveName height hashHex).symm
  rw [stem]
  simp only [Option.bind_eq_bind, Option.bind_some]
  rw [List.isPrefixOf?_eq_some_iff_append_eq.mpr rfl]
  simp only [Option.bind_some]
  rw [splitOnce_underscore Nat.underscore_not_in_toDigits]
  simp only [Option.bind_some, parseU64_toDigits]
  rw [if_pos ⟨width, digits⟩, String.ofList_toList]

theorem hexPair_digits (b : UInt8) : (hexPair b).all isAsciiHexdigit = true := by
  have digit : ∀ n < 16, isAsciiHexdigit (Nat.digitChar n) = true := by decide
  obtain ⟨high, low, _⟩ := byte_halves b
  simp [hexPair, digit _ high, digit _ low]

theorem hexEncode_digits (bs : Bytes) : ∀ ch ∈ (hexEncode bs).toList, isAsciiHexdigit ch = true := by
  intro ch member
  unfold hexEncode at member
  rw [String.toList_ofList] at member
  obtain ⟨b, _, inPair⟩ := List.mem_flatMap.mp member
  exact List.all_eq_true.mp (hexPair_digits b) ch inPair

theorem trim_hexEncode (bs : Bytes) : trim (hexEncode bs) = hexEncode bs := by
  have inked : ∀ ch, isAsciiHexdigit ch = true → isWhitespace ch = false := by
    intro ch digit
    unfold isAsciiHexdigit Char.isDigit at digit
    unfold isWhitespace
    have val : ch.toNat = ch.val.toNat := rfl
    simp only [Bool.or_eq_true, Bool.and_eq_true, decide_eq_true_eq, Char.le_def, UInt32.le_iff_toNat_le] at digit
    simp only [val, Bool.or_eq_false_iff, Bool.and_eq_false_iff, decide_eq_false_iff_not, beq_eq_false_iff_ne]
    have bounds : ('0' : Char).val.toNat = 48 ∧ ('9' : Char).val.toNat = 57 ∧ ('a' : Char).val.toNat = 97 ∧
      ('f' : Char).val.toNat = 102 ∧ ('A' : Char).val.toNat = 65 ∧ ('F' : Char).val.toNat = 70 := by decide
    omega
  have kept : ∀ cs : List Char, (∀ ch ∈ cs, isAsciiHexdigit ch = true) → cs.dropWhile isWhitespace = cs := by
    intro cs digits
    cases cs with
    | nil => rfl
    | cons ch rest => rw [List.dropWhile_cons, inked ch (digits ch List.mem_cons_self)]; rfl
  unfold trim
  rw [kept _ (hexEncode_digits bs), kept _ (fun ch member => hexEncode_digits bs ch (List.mem_reverse.mp member)),
    List.reverse_reverse, String.ofList_toList]

theorem FoundBlock.parse_name (b : FoundBlock) :
    parseArchiveName b.name = some (b.height, hashDisplayHex b.hash) := by
  apply parseArchiveName_archiveName
  · unfold hashDisplayHex
    rw [length_hexEncode, Octets.length_toList]
  · exact List.all_eq_true.mpr (hexEncode_digits _)

theorem FoundBlock.trim_blockHex (b : FoundBlock) : trim b.blockHex = b.blockHex := by
  obtain ⟨bytes, encoded⟩ := b.encoded
  rw [encoded, trim_hexEncode]

theorem FoundBlock.hasHexExtension_name (b : FoundBlock) : hasHexExtension b.name = true := by
  unfold hasHexExtension FoundBlock.name
  rw [Bool.and_eq_true, List.isSuffixOf_iff_suffix, bne_iff_ne]
  refine ⟨⟨_, (toList_archiveName _ _).symm⟩, ?_⟩
  intro bare
  have lengths := congrArg (fun name => name.toList.length) bare
  simp only [toList_archiveName, List.length_append, List.length_cons] at lengths
  simp at lengths

/-! ### Answers -/

/-- The node's answer is about the block's bytes: a consensus rejection, or error −22, block decode failed. -/
def rejectsBlock : PoolError → Bool
  | .submitBlockRejected _ => true
  | .rpc (.jsonRpc code) => code == -22
  | _ => false

def temporary : Result Unit → Bool
  | .err e => !rejectsBlock e
  | _ => false

namespace Archive

/-! ### One operation -/

/-- What a task submits, and what it becomes when the node accepts it. -/
def submits : Task → Option (String × Task)
  | .submitting block _ => some (block.blockHex, .marking block.name)
  | .retrying height hashHex blockHex => some (blockHex, .marking (archiveName height hashHex))
  | .resubmitting name blockHex rest => some (blockHex, .filing name .submitted rest)
  | _ => none

/-- The operations of a task, each with the answer or the state of the disk that leads to it. -/
inductive Advance (dir : String) (disk : ArchiveDisk) : Task → Event → Progress → Prop where
  | opens {block : FoundBlock} : Advance dir disk (.archiving block) .proceed
      { disk := (disk.create (.top, block.name) "").1, attempts := [], archived := []
        next := [.writing block (disk.create (.top, block.name) "").2] }
  | writes {block : FoundBlock} {inode count : Nat} : Advance dir disk (.writing block inode) (.wrote count)
      { disk := disk.write inode (String.ofList (block.blockHex.toList.take count)), attempts := [], archived := []
        next := [.writing block inode] }
  | completes {block : FoundBlock} {inode : Nat} : Advance dir disk (.writing block inode) .proceed
      { disk := disk.write inode block.blockHex, attempts := [], archived := [block], next := [] }
  | sees {name : String} (present : disk.holds (.top, name) = true) : Advance dir disk (.marking name) .proceed
      { disk, attempts := [], archived := [], next := [.moving name] }
  | marks {name : String} : Advance dir disk (.moving name) .proceed
      { disk := fileArchivedBlock disk name .submitted, attempts := [], archived := [], next := [] }
  | lists : Advance dir disk .listing .proceed
      { disk, attempts := [], archived := [], next := [.replaying (listArchivedBlocks disk)] }
  | reads {name text : String} {rest : List String} (read : disk.read (.top, name) = some text) :
      Advance dir disk (.replaying (name :: rest)) .proceed
        { disk, attempts := [], archived := [], next := [.resubmitting name (trim text) rest] }
  | skips {name : String} {rest : List String} {event : Event} (silent : event = .proceed ∨ event = .fail) :
      Advance dir disk (.replaying (name :: rest)) event
        { disk, attempts := [], archived := [], next := [.replaying rest] }
  | files {name : String} {bucket : Bucket} {rest : List String} : Advance dir disk (.filing name bucket rest) .proceed
      { disk := fileArchivedBlock disk name bucket, attempts := [], archived := [], next := [.replaying rest] }
  | leaves {name : String} {bucket : Bucket} {rest : List String} : Advance dir disk (.filing name bucket rest) .fail
      { disk, attempts := [], archived := [], next := [.replaying rest] }
  | ends {task : Task} {event : Event} (silent : event = .proceed ∨ event = .fail ∨ event = .deadline) :
      Advance dir disk task event { disk, attempts := [], archived := [], next := [] }
  | accepted {task next : Task} {text : String} {first : Result JsonResult} {refreshed : Option (Result JsonResult)}
      (sends : submits task = some (text, next)) (answer : trySubmit (submitBlock first refreshed) = .ok ()) :
      Advance dir disk task (.reply first refreshed)
        { disk, attempts := [(text, .ok ())], archived := [], next := [next] }
  | refused {task next : Task} {text : String} {first : Result JsonResult} {refreshed : Option (Result JsonResult)}
      {e : PoolError} (sends : submits task = some (text, next))
      (answer : trySubmit (submitBlock first refreshed) = .err e) (permanent : isPermanentReject e = true) :
      Advance dir disk task (.reply first refreshed)
        { disk, attempts := [(text, .err e)], archived := [], next := [] }
  | retries {block : FoundBlock} {attempt : Nat} {first : Result JsonResult} {refreshed : Option (Result JsonResult)}
      {e : PoolError} (answer : trySubmit (submitBlock first refreshed) = .err e)
      (room : attempt < submitInlineAttempts) : Advance dir disk (.submitting block attempt) (.reply first refreshed)
        { disk, attempts := [(block.blockHex, .err e)], archived := [], next := [.submitting block (attempt + 1)] }
  | spawns {block : FoundBlock} {attempt : Nat} {first : Result JsonResult} {refreshed : Option (Result JsonResult)}
      {e : PoolError} (answer : trySubmit (submitBlock first refreshed) = .err e) :
      Advance dir disk (.submitting block attempt) (.reply first refreshed)
        { disk, attempts := [(block.blockHex, .err e)], archived := []
          next := [.retrying block.height (hashDisplayHex block.hash) block.blockHex] }
  | waits {height : UInt64} {hashHex blockHex : String} {first : Result JsonResult}
      {refreshed : Option (Result JsonResult)} {e : PoolError}
      (answer : trySubmit (submitBlock first refreshed) = .err e) :
      Advance dir disk (.retrying height hashHex blockHex) (.reply first refreshed)
        { disk, attempts := [(blockHex, .err e)], archived := [], next := [.retrying height hashHex blockHex] }
  | rejects {name blockHex : String} {rest : List String} {first : Result JsonResult}
      {refreshed : Option (Result JsonResult)} {e : PoolError}
      (answer : trySubmit (submitBlock first refreshed) = .err e)
      (refused : (isPermanentReject e || isNodeSideError e) = true) :
      Advance dir disk (.resubmitting name blockHex rest) (.reply first refreshed)
        { disk, attempts := [(blockHex, .err e)], archived := [], next := [.filing name .rejected rest] }
  | defers {name blockHex hashHex : String} {height : UInt64} {rest : List String} {first : Result JsonResult}
      {refreshed : Option (Result JsonResult)} {e : PoolError}
      (answer : trySubmit (submitBlock first refreshed) = .err e)
      (parsed : (parseArchiveName name).getD (0, displayPath dir name) = (height, hashHex)) :
      Advance dir disk (.resubmitting name blockHex rest) (.reply first refreshed)
        { disk, attempts := [(blockHex, .err e)], archived := []
          next := [.retrying height hashHex blockHex, .replaying rest] }

variable {dir : String} {s t : Archive}

theorem trySubmit_ne_panic (outcome : Result Unit) : trySubmit outcome ≠ .panic := by
  intro panics
  cases outcome <;> cases panics

theorem advance_inv {disk : ArchiveDisk} {task : Task} {event : Event} {p : Progress}
    (taken : task.advance dir disk event = some p) : Advance dir disk task event p := by
  cases event with
  | proceed =>
    cases task with
    | submitting | retrying | resubmitting => cases taken
    | marking name =>
      obtain rfl := Option.some.inj taken
      by_cases present : disk.holds (.top, name) = true
      · rw [if_pos present]
        exact .sees present
      · rw [if_neg present]
        exact .ends (.inl rfl)
    | replaying pending =>
      cases pending with
      | nil =>
        obtain rfl := Option.some.inj taken
        exact .ends (.inl rfl)
      | cons name rest =>
        obtain rfl := Option.some.inj taken
        split
        · exact .reads ‹_›
        · exact .skips (.inl rfl)
    | archiving => obtain rfl := Option.some.inj taken; exact .opens
    | writing => obtain rfl := Option.some.inj taken; exact .completes
    | moving => obtain rfl := Option.some.inj taken; exact .marks
    | listing => obtain rfl := Option.some.inj taken; exact .lists
    | filing => obtain rfl := Option.some.inj taken; exact .files
  | fail =>
    cases task with
    | submitting | retrying | resubmitting | marking => cases taken
    | replaying pending =>
      cases pending with
      | nil => cases taken
      | cons name rest =>
        obtain rfl := Option.some.inj taken
        exact .skips (.inr rfl)
    | filing => obtain rfl := Option.some.inj taken; exact .leaves
    | archiving | writing | moving | listing =>
      obtain rfl := Option.some.inj taken
      exact .ends (.inr (.inl rfl))
  | wrote count =>
    cases task with
    | writing => obtain rfl := Option.some.inj taken; exact .writes
    | replaying pending => cases pending <;> cases taken
    | _ => cases taken
  | deadline =>
    cases task with
    | retrying => obtain rfl := Option.some.inj taken; exact .ends (.inr (.inr rfl))
    | replaying pending => cases pending <;> cases taken
    | _ => cases taken
  | reply first refreshed =>
    cases task with
    | replaying pending => cases pending <;> cases taken
    | submitting block attempt =>
      obtain rfl := Option.some.inj taken
      cases answer : trySubmit (submitBlock first refreshed) with
      | ok => exact .accepted rfl answer
      | panic => exact absurd answer (trySubmit_ne_panic _)
      | err e =>
        dsimp only
        split
        · exact .refused rfl answer ‹_›
        · split
          · exact .retries answer ‹_›
          · exact .spawns answer
    | retrying height hashHex blockHex =>
      obtain rfl := Option.some.inj taken
      cases answer : trySubmit (submitBlock first refreshed) with
      | ok => exact .accepted rfl answer
      | panic => exact absurd answer (trySubmit_ne_panic _)
      | err e =>
        dsimp only
        split
        · exact .refused rfl answer ‹_›
        · exact .waits answer
    | resubmitting name blockHex rest =>
      obtain rfl := Option.some.inj taken
      cases answer : trySubmit (submitBlock first refreshed) with
      | ok => exact .accepted rfl answer
      | panic => exact absurd answer (trySubmit_ne_panic _)
      | err e =>
        dsimp only
        split
        · exact .rejects answer ‹_›
        · exact .defers answer rfl
    | _ => cases taken

def Writes (name : String) : Task → Bool
  | .writing block _ => block.name == name
  | _ => false

def moves : Task → Option (String × Bucket)
  | .marking name | .moving name => some (name, .submitted)
  | .filing name bucket _ => some (name, bucket)
  | _ => none

theorem submits_quiet {task next : Task} {text : String} (sends : submits task = some (text, next)) :
    moves task = none ∧ ∀ name, Writes name next = false := by
  cases task <;> cases sends <;> exact ⟨rfl, fun _ => rfl⟩

/-- What an operation does to the disk: nothing, opening a block's file, writing to it, or a decided move. -/
theorem advance_cases {disk : ArchiveDisk} {task : Task} {event : Event} {p : Progress}
    (taken : task.advance dir disk event = some p) :
    (p.disk = disk ∧ p.archived = [] ∧ ∀ next ∈ p.next, ∀ name, Writes name next = false) ∨
    (∃ block, task = .archiving block ∧ event = .proceed ∧ p.disk = (disk.create (.top, block.name) "").1 ∧
      p.archived = [] ∧ p.next = [.writing block (disk.create (.top, block.name) "").2]) ∨
    (∃ block inode data, task = .writing block inode ∧ p.disk = disk.write inode data ∧
      ((p.archived = [] ∧ p.next = [.writing block inode]) ∨
        (p.archived = [block] ∧ p.next = [] ∧ data = block.blockHex))) ∨
    (∃ name bucket, moves task = some (name, bucket) ∧ p.disk = fileArchivedBlock disk name bucket ∧ p.archived = [] ∧
      ∀ next ∈ p.next, ∀ other, Writes other next = false) := by
  cases advance_inv taken with
  | @opens block => exact .inr (.inl ⟨block, rfl, rfl, rfl, rfl, rfl⟩)
  | @writes block inode => exact .inr (.inr (.inl ⟨block, inode, _, rfl, rfl, .inl ⟨rfl, rfl⟩⟩))
  | @completes block inode => exact .inr (.inr (.inl ⟨block, inode, _, rfl, rfl, .inr ⟨rfl, rfl, rfl⟩⟩))
  | @marks name => exact .inr (.inr (.inr ⟨name, .submitted, rfl, rfl, rfl, nofun⟩))
  | @files name bucket => exact .inr (.inr (.inr ⟨name, bucket, rfl, rfl, rfl, by simp [Writes]⟩))
  | accepted sends => exact .inl ⟨rfl, rfl, by simpa using (submits_quiet sends).2⟩
  | ends | refused => exact .inl ⟨rfl, rfl, nofun⟩
  | sees | lists | reads | skips | leaves | retries | spawns | waits | rejects | defers =>
    exact .inl ⟨rfl, rfl, by simp [Writes]⟩

/-! ### What no operation takes back -/

def writers (s : Archive) (name : String) : Nat := s.tasks.countP (Writes name)

def Kept (s : Archive) (name : String) (inode : Nat) : Prop := ∃ bucket, s.disk.inode? (bucket, name) = some inode

/-- The file of that name is written, as far as it ever will be. -/
def Written (s : Archive) (name : String) : Prop := (∃ inode, Kept s name inode) ∧ writers s name = 0

/-- The text is the found block's of that name, or was read from its file when nobody was writing it. -/
def Speaks (s : Archive) (name text : String) : Prop :=
  (∃ b ∈ s.found, b.name = name ∧ b.blockHex = text) ∨
    (Written s name ∧ ∀ b ∈ s.archived, b.name = name → b.blockHex = text)

/-- Some attempt with the text of that name had an answer for which a file goes into the bucket. -/
def Earned (s : Archive) (name : String) : Bucket → Prop
  | .top => True
  | .submitted => ∃ text, Speaks s name text ∧ (text, .ok ()) ∈ s.attempts
  | .rejected => ∃ text e, Speaks s name text ∧ (text, .err e) ∈ s.attempts ∧ rejectsBlock e = true

def Named (s : Archive) (name : String) : Prop := ∃ b ∈ s.found, b.name = name

def TaskOk (s : Archive) : Task → Prop
  | .archiving block => block ∈ s.found
  | .writing block inode => block ∈ s.found ∧ Kept s block.name inode
  | .submitting block _ => block ∈ s.found
  | .retrying height hashHex blockHex => Speaks s (archiveName height hashHex) blockHex
  | .marking name | .moving name => Earned s name .submitted
  | .listing => True
  | .replaying pending => ∀ name ∈ pending, Named s name
  | .resubmitting name blockHex pending => Speaks s name blockHex ∧ ∀ other ∈ name :: pending, Named s other
  | .filing name bucket pending => Earned s name bucket ∧ ∀ other ∈ pending, Named s other

structure Grows (s t : Archive) : Prop where
  found : ∀ b ∈ s.found, b ∈ t.found
  attempts : ∀ a ∈ s.attempts, a ∈ t.attempts
  kept : ∀ name inode, Kept s name inode → Kept t name inode
  quiet : ∀ name, Written s name → writers t name = 0
  frozen : ∀ name, Written s name → ∀ b ∈ t.archived, b.name = name → b ∈ s.archived

namespace Grows

theorem written (grows : Grows s t) {name : String} (before : Written s name) : Written t name := by
  have quiet := grows.quiet name before
  obtain ⟨⟨inode, kept⟩, _⟩ := before
  exact ⟨⟨inode, grows.kept _ _ kept⟩, quiet⟩

theorem speaks (grows : Grows s t) {name text : String} (before : Speaks s name text) : Speaks t name text := by
  rcases before with ⟨b, found, named, encodes⟩ | ⟨settled, only⟩
  · exact .inl ⟨b, grows.found b found, named, encodes⟩
  · refine .inr ⟨grows.written settled, ?_⟩
    intro b archived named
    exact only b (grows.frozen name settled b archived named) named

theorem earned (grows : Grows s t) {name : String} {bucket : Bucket} (before : Earned s name bucket) :
    Earned t name bucket := by
  cases bucket with
  | top => trivial
  | submitted =>
    obtain ⟨text, spoken, attempt⟩ := before
    exact ⟨text, grows.speaks spoken, grows.attempts _ attempt⟩
  | rejected =>
    obtain ⟨text, e, spoken, attempt, about⟩ := before
    exact ⟨text, e, grows.speaks spoken, grows.attempts _ attempt, about⟩

theorem named (grows : Grows s t) {name : String} (before : Named s name) : Named t name := by
  obtain ⟨b, found, same⟩ := before
  exact ⟨b, grows.found b found, same⟩

theorem taskOk (grows : Grows s t) {task : Task} (ok : TaskOk s task) : TaskOk t task := by
  cases task with
  | archiving block => exact grows.found _ ok
  | writing block inode => exact ⟨grows.found _ ok.1, grows.kept _ _ ok.2⟩
  | submitting block attempt => exact grows.found _ ok
  | retrying height hashHex blockHex => exact grows.speaks ok
  | marking name => exact grows.earned (show Earned s name .submitted from ok)
  | moving name => exact grows.earned (show Earned s name .submitted from ok)
  | listing => trivial
  | replaying pending => exact fun name member => grows.named (ok name member)
  | resubmitting name blockHex pending =>
    exact ⟨grows.speaks ok.1, fun other member => grows.named (ok.2 other member)⟩
  | filing name bucket pending => exact ⟨grows.earned ok.1, fun other member => grows.named (ok.2 other member)⟩

end Grows

/-! ### The invariant -/

structure Inv (s : Archive) : Prop where
  lone : s.disk.Lone
  named : ∀ bucket name inode, s.disk.inode? (bucket, name) = some inode → Named s name
  oneText : ∀ b ∈ s.found, ∀ b' ∈ s.found, b.name = b'.name → b.blockHex = b'.blockHex
  archivedFound : ∀ b ∈ s.archived, b ∈ s.found
  oneWriter : ∀ name, writers s name ≤ 1
  stored : ∀ b ∈ s.archived, writers s b.name = 0 ∧ ∃ inode, Kept s b.name inode ∧ s.disk.contents inode = b.blockHex
  earned : ∀ bucket name inode, s.disk.inode? (bucket, name) = some inode → Earned s name bucket
  tasks : ∀ task ∈ s.tasks, TaskOk s task

theorem Inv.speaks_archived (inv : Inv s) {b : FoundBlock} {text : String} (archived : b ∈ s.archived)
    (speaks : Speaks s b.name text) : text = b.blockHex := by
  rcases speaks with ⟨b', found, named, encodes⟩ | ⟨_, only⟩
  · rw [← encodes]
    exact inv.oneText b' found b (inv.archivedFound b archived) named
  · exact (only b archived rfl).symm

/-! ### Runs -/

def hasFile (s : Archive) (name : String) : Bool :=
  [Bucket.top, .submitted, .rejected].any (fun bucket => s.disk.holds (bucket, name))

def nodeBusy : Result JsonResult → Bool
  | .err (.rpc (.jsonRpc code)) => code != -22
  | _ => false

/-- One name, one block; a block's file is written once; the replay reads no file that is still being written, and is
not answered with an error object that is not about the block. -/
def Orderly (s : Archive) : Action → Prop
  | .found block => ∀ b ∈ s.found, b.name = block.name → b.blockHex = block.blockHex
  | .run i event =>
    match s.tasks[i]?, event with
    | some (.archiving block), .proceed => hasFile s block.name = false
    | some (.replaying (name :: _)), .proceed => writers s name = 0
    | some (.resubmitting _ _ _), .reply first refreshed => nodeBusy (callWithRefresh first refreshed) = false
    | _, _ => True
  | _ => True

instance (s : Archive) (a : Action) : Decidable (Orderly s a) := by
  cases a with
  | run i event =>
    unfold Orderly
    dsimp only
    split <;> infer_instance
  | _ => unfold Orderly; infer_instance

theorem Orderly.missing {i : Nat} {block : FoundBlock} (orderly : Orderly s (.run i .proceed))
    (atIndex : s.tasks[i]? = some (.archiving block)) : hasFile s block.name = false := by
  simpa only [Orderly, atIndex] using orderly

theorem Orderly.idle {i : Nat} {name : String} {rest : List String} (orderly : Orderly s (.run i .proceed))
    (atIndex : s.tasks[i]? = some (.replaying (name :: rest))) : writers s name = 0 := by
  simpa only [Orderly, atIndex] using orderly

theorem Orderly.able {i : Nat} {name blockHex : String} {rest : List String} {first : Result JsonResult}
    {refreshed : Option (Result JsonResult)} (orderly : Orderly s (.run i (.reply first refreshed)))
    (atIndex : s.tasks[i]? = some (.resubmitting name blockHex rest)) :
    nodeBusy (callWithRefresh first refreshed) = false := by
  simpa only [Orderly, atIndex] using orderly

theorem hasFile_false {name : String} (missing : hasFile s name = false) (bucket : Bucket) :
    s.disk.inode? (bucket, name) = none := by
  unfold hasFile at missing
  simp only [List.any_cons, List.any_nil, Bool.or_false, Bool.or_eq_false_iff, Disk.holds, Option.isSome_eq_false_iff,
    Option.isNone_iff_eq_none] at missing
  obtain ⟨top, submitted, rejected⟩ := missing
  cases bucket <;> assumption

theorem step_run {i : Nat} {event : Event} (taken : step dir s (.run i event) = some t) :
    ∃ before task after p, s.tasks = before ++ task :: after ∧ s.tasks[i]? = some task ∧
      task.advance dir s.disk event = some p ∧
      t = { s with
        disk := p.disk, tasks := before ++ p.next ++ after, archived := s.archived ++ p.archived
        attempts := s.attempts ++ p.attempts } := by
  unfold step at taken
  simp only [Option.bind_eq_bind, Option.bind_eq_some_iff, Option.pure_def, Option.some.injEq] at taken
  obtain ⟨task, at_i, p, advanced, rfl⟩ := taken
  obtain ⟨inside, here⟩ := List.getElem?_eq_some_iff.mp at_i
  refine ⟨s.tasks.take i, task, s.tasks.drop (i + 1), p, ?_, at_i, advanced, rfl⟩
  rw [← here, List.getElem_cons_drop, List.take_append_drop]

theorem writers_split {tasks before after : List Task} {task : Task} (split : tasks = before ++ task :: after)
    (name : String) : tasks.countP (Writes name) =
      before.countP (Writes name) + (if Writes name task then 1 else 0) + after.countP (Writes name) := by
  rw [split, List.countP_append, List.countP_cons]
  omega

theorem writers_none {tasks : List Task} (none : ∀ task ∈ tasks, ∀ name, Writes name task = false) (name : String) :
    tasks.countP (Writes name) = 0 := by
  rw [List.countP_eq_zero]
  intro task member
  rw [none task member name]
  exact Bool.false_ne_true

theorem moved_kept {disk : ArchiveDisk} {bucket place : Bucket} {name other : String} {inode : Nat} (lone : disk.Lone)
    (present : disk.inode? (place, other) = some inode) :
    ∃ place, (fileArchivedBlock disk name bucket).inode? (place, other) = some inode := by
  unfold fileArchivedBlock
  by_cases same : other = name
  · subst same
    cases atTop : disk.inode? (.top, other) with
    | none => exact ⟨place, by rw [Disk.rename_missing atTop, present]⟩
    | some moved =>
      refine ⟨bucket, ?_⟩
      obtain rfl := lone _ _ _ _ _ present atTop
      obtain rfl := Option.some.inj (present.symm.trans atTop)
      rw [Disk.rename_at lone atTop, if_pos rfl]
  · exact ⟨place, by rw [Disk.inode?_rename_other same, present]⟩

section
variable {i : Nat} {task : Task} {event : Event} {p : Progress} (orderly : Orderly s (.run i event))
  (atIndex : s.tasks[i]? = some task) (advanced : task.advance dir s.disk event = some p)

include orderly atIndex advanced

theorem run_kept (inv : Inv s) {name : String} {inode : Nat} (kept : Kept s name inode) :
    ∃ place, p.disk.inode? (place, name) = some inode := by
  obtain ⟨place, present⟩ := kept
  rcases advance_cases advanced with ⟨sameDisk, _, _⟩ | ⟨block, rfl, rfl, created, _, _⟩ |
    ⟨_, _, _, rfl, written, _⟩ | ⟨_, _, _, filed, _, _⟩
  · exact ⟨place, by rw [sameDisk, present]⟩
  · have missing := orderly.missing atIndex
    obtain ⟨_, entries, _⟩ := Disk.create_new "" (hasFile_false missing .top)
    refine ⟨place, ?_⟩
    rw [created, entries, if_neg, present]
    intro same
    rw [same, hasFile_false missing] at present
    cases present
  · exact ⟨place, by rw [written, Disk.inode?_write, present]⟩
  · rw [filed]
    exact moved_kept inv.lone present

theorem run_quiet {name : String} (written : Written s name) : ∀ next ∈ p.next, ¬ Writes name next = true := by
  obtain ⟨⟨inode, place, present⟩, idle⟩ := written
  intro next member
  rcases advance_cases advanced with ⟨_, _, quiet⟩ | ⟨block, rfl, rfl, _, _, opened⟩ | ⟨block, own, data, rfl, _, ended⟩ |
    ⟨_, _, _, _, _, quiet⟩
  · rw [quiet next member]
    exact Bool.false_ne_true
  · rw [opened, List.mem_singleton] at member
    subst member
    intro writes
    rw [← show block.name = name from beq_iff_eq.mp writes, hasFile_false (orderly.missing atIndex)] at present
    cases present
  · rcases ended with ⟨_, still⟩ | ⟨_, gone, _⟩
    · rw [still, List.mem_singleton] at member
      subst member
      exact List.countP_eq_zero.mp idle _ (List.mem_of_getElem? atIndex)
    · rw [gone] at member
      cases member
  · rw [quiet next member]
    exact Bool.false_ne_true

theorem run_entries (inv : Inv s) {bucket : Bucket} {name : String} {inode : Nat}
    (present : p.disk.inode? (bucket, name) = some inode) :
    s.disk.inode? (bucket, name) = some inode ∨
      (∃ block, task = .archiving block ∧ name = block.name ∧ bucket = .top) ∨
      (moves task = some (name, bucket) ∧ ∃ place, s.disk.inode? (place, name) = some inode) := by
  rcases advance_cases advanced with ⟨sameDisk, _, _⟩ | ⟨block, rfl, rfl, created, _, _⟩ |
    ⟨block, _, data, rfl, written, _⟩ | ⟨other, place, move, filed, _, _⟩
  · rw [sameDisk] at present
    exact .inl present
  · have missing := orderly.missing atIndex
    obtain ⟨_, entries, _⟩ := Disk.create_new "" (hasFile_false missing .top)
    rw [created, entries] at present
    split at present
    · rename_i same
      exact .inr (.inl ⟨block, rfl, congrArg Prod.snd same, congrArg Prod.fst same⟩)
    · exact .inl present
  · rw [written, Disk.inode?_write] at present
    exact .inl present
  · rw [filed, fileArchivedBlock] at present
    cases atTop : s.disk.inode? (.top, other) with
    | none =>
      rw [Disk.rename_missing atTop] at present
      exact .inl present
    | some moved =>
      by_cases same : name = other
      · subst same
        rw [Disk.rename_at inv.lone atTop] at present
        split at present
        · rename_i here
          obtain rfl := Option.some.inj present
          exact .inr (.inr ⟨by rw [move, here], .top, atTop⟩)
        · cases present
      · rw [Disk.inode?_rename_other same] at present
        exact .inl present

theorem run_lone (inv : Inv s) : p.disk.Lone := by
  rcases advance_cases advanced with ⟨sameDisk, _, _⟩ | ⟨block, rfl, rfl, created, _, _⟩ |
    ⟨block, _, data, rfl, written, _⟩ | ⟨other, place, move, filed, _, _⟩
  · rw [sameDisk]
    exact inv.lone
  · have missing := orderly.missing atIndex
    rw [created]
    exact inv.lone.create (hasFile_false missing)
  · rw [written]
    exact inv.lone
  · rw [filed]
    exact inv.lone.rename

theorem run_contents (inv : Inv s) {b : FoundBlock} (archived : b ∈ s.archived) {inode : Nat}
    (kept : Kept s b.name inode) : p.disk.contents inode = s.disk.contents inode := by
  obtain ⟨place, present⟩ := kept
  rcases advance_cases advanced with ⟨sameDisk, _, _⟩ | ⟨block, rfl, rfl, created, _, _⟩ |
    ⟨block, own, data, rfl, written, _⟩ | ⟨_, _, _, filed, _, _⟩
  · rw [sameDisk]
  · obtain ⟨_, _, contents⟩ := Disk.create_new "" (hasFile_false (orderly.missing atIndex) .top)
    rw [created, contents, Function.update_of_ne (Nat.ne_of_lt (s.disk.below _ _ present))]
  · -- A file is written by the one task that opened it, and that task is gone when the block is archived.
    have member := List.mem_of_getElem? atIndex
    rw [written, Disk.contents_write, Function.update_of_ne]
    rintro rfl
    obtain ⟨_, mine, here⟩ := inv.tasks _ member
    have same : b.name = block.name := congrArg Prod.snd (s.disk.single _ _ _ present here)
    obtain ⟨idle, _⟩ := inv.stored b archived
    exact List.countP_eq_zero.mp idle _ member (beq_iff_eq.mpr same.symm)
  · rw [filed, fileArchivedBlock, Disk.contents_rename]

end

theorem run_grows (inv : Inv s) {i : Nat} {event : Event} (orderly : Orderly s (.run i event))
    (taken : step dir s (.run i event) = some t) : Grows s t := by
  obtain ⟨before, task, after, p, split, atIndex, advanced, rfl⟩ := step_run taken
  refine { found := fun b found => found, attempts := fun a member => List.mem_append_left _ member
           kept := fun name inode kept => run_kept orderly atIndex advanced inv kept, quiet := ?_, frozen := ?_ }
  · intro name written
    have silent : ∀ other ∈ s.tasks, ¬ Writes name other = true := List.countP_eq_zero.mp written.2
    refine List.countP_eq_zero.mpr ?_
    intro other member
    rcases List.mem_append.mp member with member | later
    · rcases List.mem_append.mp member with earlier | new
      · exact silent other (by rw [split]; exact List.mem_append_left _ earlier)
      · exact run_quiet orderly atIndex advanced written other new
    · exact silent other (by rw [split]; exact List.mem_append_right _ (List.mem_cons_of_mem _ later))
  · -- Only a writer of a block's file adds the block to the archived ones.
    intro name written b archived named
    rcases List.mem_append.mp archived with old | new
    · exact old
    · cases advance_inv advanced with
      | completes =>
        obtain rfl := List.mem_singleton.mp new
        exact absurd (beq_iff_eq.mpr named) (List.countP_eq_zero.mp written.2 _ (List.mem_of_getElem? atIndex))
      | _ => cases new

/-! ### The tasks a task becomes -/

theorem submitBlock_rpc {first : Result JsonResult} {refreshed : Option (Result JsonResult)} {e : RpcError}
    (answer : trySubmit (submitBlock first refreshed) = .err (.rpc e)) : callWithRefresh first refreshed = .err (.rpc e) := by
  have submitted : submitBlock first refreshed = .err (.rpc e) := by
    cases outcome : submitBlock first refreshed <;> rw [outcome] at answer <;> first | exact answer | cases answer
  unfold submitBlock at submitted
  cases called : callWithRefresh first refreshed with
  | ok value =>
    rw [called, Outcome.ok_bind] at submitted
    split at submitted <;> cases submitted
  | err why =>
    rw [called, Outcome.err_bind] at submitted
    rw [Outcome.err.inj submitted]
  | panic =>
    rw [called] at submitted
    cases submitted

theorem rejects_of_filed {first : Result JsonResult} {refreshed : Option (Result JsonResult)} {e : PoolError}
    (able : nodeBusy (callWithRefresh first refreshed) = false)
    (answer : trySubmit (submitBlock first refreshed) = .err e)
    (refused : (isPermanentReject e || isNodeSideError e) = true) : rejectsBlock e = true := by
  cases e with
  | submitBlockRejected reason => rfl
  | rpc why =>
    cases why with
    | jsonRpc code =>
      rw [submitBlock_rpc answer] at able
      simpa [nodeBusy, rejectsBlock] using able
    | transport => cases refused
  | _ => cases refused

theorem read_speaks (inv : Inv s) {name text : String} (idle : writers s name = 0)
    (read : s.disk.read (.top, name) = some text) : Speaks s name (trim text) := by
  obtain ⟨inode, present, rfl⟩ := Option.map_eq_some_iff.mp read
  refine .inr ⟨⟨⟨inode, .top, present⟩, idle⟩, ?_⟩
  rintro b archived rfl
  obtain ⟨_, stored, ⟨place, kept⟩, text⟩ := inv.stored b archived
  obtain rfl := inv.lone _ _ _ _ _ kept present
  obtain rfl := Option.some.inj (kept.symm.trans present)
  rw [text, b.trim_blockHex]

/-- An accepted answer earns its file the move to `submitted`. -/
theorem accepted_ok {task next : Task} {text : String} (ok : TaskOk s task) (sends : submits task = some (text, next))
    (attempt : (text, .ok ()) ∈ s.attempts) : TaskOk s next := by
  cases task with
  | submitting block =>
    cases sends
    exact ⟨_, .inl ⟨block, ok, rfl, rfl⟩, attempt⟩
  | retrying =>
    cases sends
    exact ⟨_, ok, attempt⟩
  | resubmitting =>
    cases sends
    exact ⟨⟨_, ok.1, attempt⟩, fun other listed => ok.2 other (List.mem_cons_of_mem _ listed)⟩
  | _ => cases sends

theorem next_ok (inv : Inv s) (grows : Grows s t) {i : Nat} {task : Task} {event : Event} {p : Progress}
    (orderly : Orderly s (.run i event)) (atIndex : s.tasks[i]? = some task)
    (advanced : task.advance dir s.disk event = some p) (disk : t.disk = p.disk)
    (attempts : ∀ a ∈ p.attempts, a ∈ t.attempts) : ∀ next ∈ p.next, TaskOk t next := by
  have ok := inv.tasks task (List.mem_of_getElem? atIndex)
  intro next member
  cases advance_inv advanced with
  | @opens block =>
    obtain rfl := List.mem_singleton.mp member
    have missing := orderly.missing atIndex
    obtain ⟨inode, entries, _⟩ := Disk.create_new "" (hasFile_false missing .top)
    refine ⟨grows.found _ ok, .top, ?_⟩
    rw [disk]
    show (s.disk.create (.top, block.name) "").1.inode? (.top, block.name) = some (s.disk.create _ _).2
    rw [entries, if_pos rfl, inode]
  | writes =>
    obtain rfl := List.mem_singleton.mp member
    exact grows.taskOk ok
  | sees =>
    obtain rfl := List.mem_singleton.mp member
    exact grows.taskOk ok
  | lists =>
    obtain rfl := List.mem_singleton.mp member
    intro name listed
    obtain ⟨inTop, _⟩ := List.mem_filter.mp ((List.mem_insertionSort _).mp listed)
    obtain ⟨inode, present⟩ := Disk.mem_list.mp inTop
    exact grows.named (inv.named _ _ _ present)
  | @reads name text rest read =>
    obtain rfl := List.mem_singleton.mp member
    have idle := orderly.idle atIndex
    exact ⟨grows.speaks (read_speaks inv idle read), fun other listed => grows.named (ok other listed)⟩
  | skips =>
    obtain rfl := List.mem_singleton.mp member
    exact fun other listed => grows.named (ok other (List.mem_cons_of_mem _ listed))
  | files =>
    obtain rfl := List.mem_singleton.mp member
    exact fun other listed => grows.named (ok.2 other listed)
  | leaves =>
    obtain rfl := List.mem_singleton.mp member
    exact fun other listed => grows.named (ok.2 other listed)
  | accepted sends answer =>
    obtain rfl := List.mem_singleton.mp member
    exact accepted_ok (grows.taskOk ok) sends (attempts _ (List.mem_singleton_self _))
  | retries =>
    obtain rfl := List.mem_singleton.mp member
    exact grows.found _ ok
  | @spawns block =>
    obtain rfl := List.mem_singleton.mp member
    exact .inl ⟨block, grows.found _ ok, rfl, rfl⟩
  | waits =>
    obtain rfl := List.mem_singleton.mp member
    exact grows.speaks ok
  | @rejects name blockHex rest first refreshed e answer refused =>
    obtain rfl := List.mem_singleton.mp member
    have able := orderly.able atIndex
    have earned : Earned t name .rejected :=
      ⟨blockHex, e, grows.speaks ok.1, attempts _ (List.mem_singleton_self _), rejects_of_filed able answer refused⟩
    exact ⟨earned, fun other listed => grows.named (ok.2 other (List.mem_cons_of_mem _ listed))⟩
  | defers answer parsed =>
    obtain ⟨b, _, rfl⟩ := ok.2 _ List.mem_cons_self
    rw [b.parse_name, Option.getD_some] at parsed
    obtain ⟨rfl, rfl⟩ := Prod.mk.inj parsed
    rcases List.mem_pair.mp member with rfl | rfl
    · exact grows.speaks ok.1
    · exact fun other listed => grows.named (ok.2 other (List.mem_cons_of_mem _ listed))
  | completes | marks | ends | refused => cases member

/-! ### Every step keeps the invariant -/

theorem moves_earned {task : Task} {name : String} {bucket : Bucket} (ok : TaskOk s task)
    (move : moves task = some (name, bucket)) : Earned s name bucket := by
  cases task <;> cases move
  · exact ok
  · exact ok
  · exact ok.1

theorem run_stored (inv : Inv s) {i : Nat} {event : Event} (orderly : Orderly s (.run i event))
    (taken : step dir s (.run i event) = some t) :
    ∀ b ∈ t.archived, writers t b.name = 0 ∧ ∃ inode, Kept t b.name inode ∧ t.disk.contents inode = b.blockHex := by
  have grows := run_grows inv orderly taken
  obtain ⟨before, task, after, p, split, atIndex, advanced, rfl⟩ := step_run taken
  have ok := inv.tasks task (List.mem_of_getElem? atIndex)
  intro b archived
  rcases List.mem_append.mp archived with old | new
  · obtain ⟨idle, inode, kept, text⟩ := inv.stored b old
    have same := run_contents orderly atIndex advanced inv old kept
    exact ⟨grows.quiet _ ⟨⟨inode, kept⟩, idle⟩, inode, grows.kept _ _ kept, same.trans text⟩
  · cases advance_inv advanced with
    | @completes block inode =>
      obtain rfl := List.mem_singleton.mp new
      have alone := inv.oneWriter b.name
      unfold writers at alone ⊢
      rw [writers_split split] at alone
      simp only [Writes, beq_self_eq_true, if_true] at alone
      refine ⟨?_, inode, grows.kept _ _ ok.2, ?_⟩
      · rw [List.append_nil, List.countP_append]
        omega
      · rw [Disk.contents_write, Function.update_self]
    | _ => cases new

theorem run_oneWriter (inv : Inv s) {i : Nat} {event : Event} (orderly : Orderly s (.run i event))
    (taken : step dir s (.run i event) = some t) : ∀ name, writers t name ≤ 1 := by
  obtain ⟨before, task, after, p, split, atIndex, advanced, rfl⟩ := step_run taken
  intro name
  have alone := inv.oneWriter name
  unfold writers at alone ⊢
  rw [List.countP_append, List.countP_append]
  rw [writers_split split] at alone
  rcases advance_cases advanced with ⟨_, _, quiet⟩ | ⟨block, rfl, rfl, _, _, next⟩ |
    ⟨block, inode, data, rfl, _, ended⟩ | ⟨other, place, move, _, _, quiet⟩
  · rw [writers_none quiet]
    omega
  · -- A second writer of this name would have a file open already.
    have missing := orderly.missing atIndex
    rw [next, List.countP_singleton]
    by_cases same : block.name = name
    · subst same
      have none : ∀ other ∈ s.tasks, ¬ Writes block.name other = true := by
        intro other member writes
        cases other with
        | writing other inode =>
          obtain ⟨_, place, present⟩ := inv.tasks _ member
          rw [show other.name = block.name from beq_iff_eq.mp writes, hasFile_false missing] at present
          cases present
        | _ => cases writes
      have zero := List.countP_eq_zero.mpr none
      rw [writers_split split] at zero
      simp only [Writes, beq_self_eq_true, if_true]
      omega
    · simp only [Writes, beq_eq_false_iff_ne.mpr same, Bool.false_eq_true, if_false] at alone ⊢
      omega
  · rcases ended with ⟨_, next⟩ | ⟨_, next, _⟩
    · rw [next, List.countP_singleton]
      omega
    · rw [next, List.countP_nil]
      omega
  · rw [writers_none quiet]
    omega

theorem run_inv (inv : Inv s) {i : Nat} {event : Event} (orderly : Orderly s (.run i event))
    (taken : step dir s (.run i event) = some t) : Inv t := by
  have grows := run_grows inv orderly taken
  have stored := run_stored inv orderly taken
  have oneWriter := run_oneWriter inv orderly taken
  obtain ⟨before, task, after, p, split, atIndex, advanced, rfl⟩ := step_run taken
  have ok := inv.tasks task (List.mem_of_getElem? atIndex)
  refine { lone := run_lone orderly atIndex advanced inv, named := ?_, oneText := inv.oneText, archivedFound := ?_,
           oneWriter, stored, earned := ?_, tasks := ?_ }
  · intro bucket name inode present
    rcases run_entries orderly atIndex advanced inv present with old | ⟨block, rfl, rfl, _⟩ | ⟨_, _, old⟩
    · exact grows.named (inv.named _ _ _ old)
    · exact ⟨block, ok, rfl⟩
    · exact grows.named (inv.named _ _ _ old)
  · intro b archived
    rcases List.mem_append.mp archived with old | new
    · exact inv.archivedFound b old
    · cases advance_inv advanced with
      | completes => exact List.mem_singleton.mp new ▸ ok.1
      | _ => cases new
  · intro bucket name inode present
    rcases run_entries orderly atIndex advanced inv present with old | ⟨_, _, _, rfl⟩ | ⟨move, _⟩
    · exact grows.earned (inv.earned _ _ _ old)
    · trivial
    · exact grows.earned (moves_earned ok move)
  · intro other member
    rcases List.mem_append.mp member with member | member
    · rcases List.mem_append.mp member with old | new
      · exact grows.taskOk (inv.tasks other (by rw [split]; exact List.mem_append_left _ old))
      · exact next_ok inv grows orderly atIndex advanced rfl (fun a made => List.mem_append_right _ made) other new
    · exact grows.taskOk (inv.tasks other (by rw [split]; exact List.mem_append_right _ (List.mem_cons_of_mem _ member)))

theorem inv_of_tasks (inv : Inv s) {found : List FoundBlock} {running : Bool} {tasks : List Task}
    (more : ∀ b ∈ s.found, b ∈ found) (oneText : ∀ b ∈ found, ∀ b' ∈ found, b.name = b'.name → b.blockHex = b'.blockHex)
    (fewer : ∀ name, tasks.countP (Writes name) ≤ writers s name)
    (ok : ∀ task ∈ tasks, task ∉ s.tasks → ∀ t : Archive, t.found = found → TaskOk t task) :
    Inv { s with found, running, tasks } := by
  have grows : Grows s { s with found, running, tasks } :=
    { found := more, attempts := fun a member => member, kept := fun name inode kept => kept
      quiet := fun name settled => Nat.le_zero.mp (settled.2 ▸ fewer name)
      frozen := fun name _ b archived _ => archived }
  refine { lone := inv.lone, named := ?_, oneText, archivedFound := fun b archived => more b (inv.archivedFound b archived)
           oneWriter := fun name => (fewer name).trans (inv.oneWriter name), stored := ?_, earned := ?_, tasks := ?_ }
  · intro bucket name inode present
    exact grows.named (inv.named _ _ _ present)
  · intro b archived
    obtain ⟨idle, inode, kept, text⟩ := inv.stored b archived
    exact ⟨grows.quiet _ ⟨⟨inode, kept⟩, idle⟩, inode, kept, text⟩
  · intro bucket name inode present
    exact grows.earned (inv.earned _ _ _ present)
  · intro task member
    by_cases old : task ∈ s.tasks
    · exact grows.taskOk (inv.tasks task old)
    · exact ok task member old _ rfl

theorem step_inv {a : Action} (inv : Inv s) (orderly : Orderly s a) (taken : step dir s a = some t) : Inv t := by
  cases a with
  | boot =>
    simp only [step] at taken
    split at taken
    · cases taken
    · obtain rfl := Option.some.inj taken
      refine inv_of_tasks inv (fun b found => found) inv.oneText (fun name => ?_) ?_
      · exact Nat.zero_le _
      · intro task member _ _ _
        obtain rfl := List.mem_singleton.mp member
        trivial
  | crash =>
    obtain rfl := Option.some.inj taken
    exact inv_of_tasks inv (fun b found => found) inv.oneText (fun name => Nat.zero_le _) (by simp)
  | found block =>
    simp only [step] at taken
    split at taken
    · obtain rfl := Option.some.inj taken
      refine inv_of_tasks inv (fun b found => List.mem_append_left _ found) ?_ (fun name => ?_) ?_
      · intro b found b' found' same
        simp only [List.mem_append, List.mem_singleton] at found found'
        rcases found with found | rfl <;> rcases found' with found' | rfl
        · exact inv.oneText b found b' found' same
        · exact orderly b found same
        · exact (orderly b' found' same.symm).symm
        · rfl
      · simp [writers, List.countP_append, Writes]
      · intro task member new later sameFound
        have here : block ∈ later.found := by
          rw [sameFound]
          exact List.mem_append_right _ (List.mem_singleton_self _)
        rcases List.mem_append.mp member with old | member
        · exact absurd old new
        · rcases List.mem_pair.mp member with rfl | rfl
          · exact here
          · exact here
    · cases taken
  | run i event => exact run_inv inv orderly taken

theorem start_inv : Inv start where
  lone := Disk.Lone.empty ""
  named := fun bucket name inode present => by cases (Disk.inode?_empty "" (bucket, name)).symm.trans present
  oneText := by simp [start]
  archivedFound := by simp [start]
  oneWriter := by simp [start, writers]
  stored := by simp [start]
  earned := fun bucket name inode present => by cases (Disk.inode?_empty "" (bucket, name)).symm.trans present
  tasks := by simp [start]

theorem reach_inv (reached : Reach (step dir) Orderly start s) : Inv s :=
  reached.invariant Inv start_inv (fun _ _ _ _ inv orderly taken => step_inv inv orderly taken)

/-! ### The fate of an archived block -/

def decided (s : Archive) : List (String × Bucket) := s.tasks.filterMap moves

/-- An answer that says nothing about the block moves no file and decides no move. -/
theorem temporary_decides_nothing {i : Nat} {first : Result JsonResult} {refreshed : Option (Result JsonResult)}
    (orderly : Orderly s (.run i (.reply first refreshed)))
    (taken : step dir s (.run i (.reply first refreshed)) = some t)
    (unrelated : temporary (trySubmit (submitBlock first refreshed)) = true) :
    t.disk = s.disk ∧ t.decided = s.decided := by
  obtain ⟨before, task, after, p, split, atIndex, advanced, rfl⟩ := step_run taken
  have staying : p.disk = s.disk ∧ moves task = none ∧ p.next.filterMap moves = [] := by
    cases advance_inv advanced with
    | accepted _ answer =>
      rw [answer] at unrelated
      cases unrelated
    | refused sends => exact ⟨rfl, (submits_quiet sends).1, rfl⟩
    | retries | spawns | waits | defers => exact ⟨rfl, rfl, rfl⟩
    | rejects answer refused =>
      have able := orderly.able atIndex
      rw [answer, temporary, rejects_of_filed able answer refused] at unrelated
      cases unrelated
    | skips silent => simp at silent
    | ends silent => simp at silent
  obtain ⟨disk, still, none⟩ := staying
  refine ⟨disk, ?_⟩
  unfold decided
  rw [split, List.filterMap_append, List.filterMap_append, none, List.filterMap_append, List.filterMap_cons, still,
    List.append_nil]

/-- Nothing about an archived block is lost in an orderly run: its file is in one directory with the block's text, in
`submitted` only after an accepted attempt and in `rejected` only after the node rejected the block. Until then the next
boot replays it, and no temporary answer changes that. -/
theorem archived_block_kept (reached : Reach (step dir) Orderly start s) {b : FoundBlock} (archived : b ∈ s.archived) :
    (∃! bucket, s.disk.holds (bucket, b.name) = true) ∧
    (∃ bucket, s.disk.read (bucket, b.name) = some b.blockHex) ∧
    (s.disk.holds (.submitted, b.name) = true → (b.blockHex, .ok ()) ∈ s.attempts) ∧
    (s.disk.holds (.rejected, b.name) = true → ∃ e, (b.blockHex, .err e) ∈ s.attempts ∧ rejectsBlock e = true) ∧
    ((∀ answer, (b.blockHex, answer) ∈ s.attempts → temporary answer = true) → b.name ∈ listArchivedBlocks s.disk) ∧
    ∀ i first refreshed t, Orderly s (.run i (.reply first refreshed)) →
      step dir s (.run i (.reply first refreshed)) = some t →
      temporary (trySubmit (submitBlock first refreshed)) = true → t.disk = s.disk ∧ t.decided = s.decided := by
  have inv := reach_inv reached
  obtain ⟨_, inode, ⟨place, present⟩, text⟩ := inv.stored b archived
  have submitted : s.disk.holds (.submitted, b.name) = true → (b.blockHex, .ok ()) ∈ s.attempts := by
    intro here
    obtain ⟨inode, found⟩ := Option.isSome_iff_exists.mp here
    obtain ⟨text, speaks, attempt⟩ := inv.earned _ _ _ found
    rwa [inv.speaks_archived archived speaks] at attempt
  have rejected : s.disk.holds (.rejected, b.name) = true →
      ∃ e, (b.blockHex, .err e) ∈ s.attempts ∧ rejectsBlock e = true := by
    intro here
    obtain ⟨inode, found⟩ := Option.isSome_iff_exists.mp here
    obtain ⟨text, e, speaks, attempt, about⟩ := inv.earned _ _ _ found
    rw [inv.speaks_archived archived speaks] at attempt
    exact ⟨e, attempt, about⟩
  have here : s.disk.holds (place, b.name) = true := Option.isSome_iff_exists.mpr ⟨inode, present⟩
  refine ⟨⟨place, here, ?_⟩, ⟨place, ?_⟩, submitted, rejected, ?_, ?_⟩
  · intro other also
    obtain ⟨_, found⟩ := Option.isSome_iff_exists.mp also
    exact inv.lone _ _ _ _ _ found present
  · rw [Disk.read, present, Option.map_some, text]
  · intro unanswered
    have atTop : place = .top := by
      cases place with
      | top => rfl
      | submitted => cases unanswered _ (submitted here)
      | rejected =>
        obtain ⟨e, attempt, about⟩ := rejected here
        have temp := unanswered _ attempt
        rw [temporary, about] at temp
        cases temp
    subst atTop
    exact (List.mem_insertionSort _).mpr (List.mem_filter.mpr ⟨Disk.mem_list.mpr ⟨inode, present⟩, b.hasHexExtension_name⟩)
  · intro i first refreshed t orderly taken unrelated
    exact temporary_decides_nothing orderly taken unrelated

/-! ### A block on both sides of a restart -/

def testBlock : FoundBlock where
  height := 840000
  hash := .zero 32
  blockHex := hexEncode [0x20]
  encoded := ⟨_, rfl⟩

def unreachable : Event := .reply (.err (.rpc .transport)) none

def foundAndReplayed : List Action :=
  [.boot, .found testBlock, .run 1 .proceed, .run 1 .proceed, .run 1 unreachable, .run 1 unreachable, .run 1 unreachable,
   .crash, .boot, .run 0 .proceed, .run 0 .proceed]

theorem archived_block_kept_replayed :
    ∃ s, Reach (step "found_blocks") Orderly start s ∧ s.disk.holds (.submitted, testBlock.name) = true ∧
      (∃! bucket, s.disk.holds (bucket, testBlock.name) = true) ∧ (testBlock.blockHex, .ok ()) ∈ s.attempts := by
  obtain ⟨s, reached, archived, filed⟩ : ∃ s, Reach (step "found_blocks") Orderly start s ∧ testBlock ∈ s.archived ∧
      s.disk.holds (.submitted, testBlock.name) = true :=
    Reach.of_run (foundAndReplayed ++ [.run 0 (.reply (.ok .null) none), .run 0 .proceed]) (by decide +kernel)
  have kept := archived_block_kept reached archived
  exact ⟨s, reached, filed, kept.1, kept.2.2.1 filed⟩

/-- A node that is still warming up answers the replay with error −28, and the block is filed as rejected. -/
theorem warmup_files_rejected :
    ∃ s, Reach (step "found_blocks") Always start s ∧ testBlock ∈ s.archived ∧
      s.disk.holds (.rejected, testBlock.name) = true ∧ testBlock.name ∉ listArchivedBlocks s.disk ∧
      ∀ a ∈ s.attempts, temporary a.2 = true :=
  Reach.of_run (foundAndReplayed ++ [.run 0 (.reply (.err (.rpc (.jsonRpc (-28)))) none), .run 0 .proceed])
    (by decide +kernel)

end Archive

end SoloPool
