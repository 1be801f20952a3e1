import Mathlib.Data.List.Sort
import SoloPool.Bitcoin.Rpc
import SoloPool.Config
import SoloPool.Lib.Disk
import SoloPool.Lib.Run
import SoloPool.Mining.Validator

/-!
# The archive of found blocks

`submit_found_block`, `replay_archived_blocks` and the file helpers of `mining/engine.rs`. Each call and each spawned
thread is a task that makes one file operation or one `submitblock` attempt at a time; a crash ends them all and leaves
the disk.
-/

namespace SoloPool
open Lib

inductive Bucket where
  | top
  | submitted
  | rejected
  deriving DecidableEq

/-! ### File names -/

def archiveName (height : UInt64) (hashHex : String) : String :=
  "block_" ++ toString height.toNat ++ "_" ++ hashHex ++ ".hex"

def parseU64 (cs : List Char) : Option UInt64 :=
  let digits := match cs with
    | '+' :: rest => rest
    | cs => cs
  if digits.isEmpty || !digits.all Char.isDigit then none
  else
    let n := Nat.ofDigitChars 10 digits 0
    if n < 2 ^ 64 then some (UInt64.ofNat n) else none

def isAsciiHexdigit (ch : Char) : Bool :=
  ch.isDigit || ('a' ≤ ch && ch ≤ 'f') || ('A' ≤ ch && ch ≤ 'F')

def splitOnce (sep : Char) (cs : List Char) : Option (List Char × List Char) :=
  match cs.dropWhile (· != sep) with
  | [] => none
  | _ :: after => some (cs.takeWhile (· != sep), after)

def parseArchiveName (name : String) : Option (UInt64 × String) := do
  let stem ← ".hex".toList.isSuffixOf? name.toList
  let rest ← "block_".toList.isPrefixOf? stem
  let (height, hash) ← splitOnce '_' rest
  let height ← parseU64 height
  if hash.length = 64 ∧ hash.all isAsciiHexdigit then some (height, String.ofList hash) else none

def hasHexExtension (name : String) : Bool := ".hex".toList.isSuffixOf name.toList && name != ".hex"

def displayPath (dir name : String) : String :=
  if dir.isEmpty || dir.toList.getLast? = some '/' then dir ++ name else dir ++ "/" ++ name

/-! ### Files -/

abbrev ArchiveDisk := Disk Bucket String String

def listArchivedBlocks (disk : ArchiveDisk) : List String :=
  ((disk.list .top).filter hasHexExtension).insertionSort (· ≤ ·)

/-- The rename; creating the directory or renaming may fail, and then nothing has moved. -/
def fileArchivedBlock (disk : ArchiveDisk) (name : String) (bucket : Bucket) : ArchiveDisk :=
  disk.rename (.top, name) (bucket, name)

/-! ### Submission -/

structure FoundBlock where
  height : UInt64
  hash : Hash
  blockHex : String
  encoded : ∃ bytes, blockHex = hexEncode bytes
  deriving DecidableEq

def FoundBlock.name (b : FoundBlock) : String := archiveName b.height (hashDisplayHex b.hash)

def submitInlineAttempts : Nat := 3

/-- `try_submit`: a panic of the blocking call is an error like others. -/
def trySubmit : Result Unit → Result Unit
  | .panic => .err (.other .submitblockTaskPanicked)
  | outcome => outcome

def isPermanentReject : PoolError → Bool
  | .submitBlockRejected _ => true
  | _ => false

def isNodeSideError : PoolError → Bool
  | .rpc (.jsonRpc _) => true
  | _ => false

namespace Archive

inductive Task where
  /-- `archive_found_block` before it has opened its file, and after. -/
  | archiving (block : FoundBlock)
  | writing (block : FoundBlock) (inode : Nat)
  | submitting (block : FoundBlock) (attempt : Nat)
  | retrying (height : UInt64) (hashHex blockHex : String)
  /-- `mark_archived_submitted` before its second look for the file, and after it has seen it. -/
  | marking (name : String)
  | moving (name : String)
  /-- `replay_archived_blocks`: before it lists the directory, between two files, with a file's text read, and with
  the file's new place decided. -/
  | listing
  | replaying (pending : List String)
  | resubmitting (name blockHex : String) (pending : List String)
  | filing (name : String) (bucket : Bucket) (pending : List String)
  deriving DecidableEq

inductive Event where
  | proceed
  | fail
  | wrote (count : Nat)
  | reply (first : Result JsonResult) (refreshed : Option (Result JsonResult))
  /-- The retrier's two hours are over. -/
  | deadline

structure Progress where
  disk : ArchiveDisk
  attempts : List (String × Result Unit)
  archived : List FoundBlock
  next : List Task

def Task.advance (dir : String) (disk : ArchiveDisk) : Task → Event → Option Progress
  | .archiving block, .proceed =>
    let (disk, inode) := disk.create (.top, block.name) ""
    some { disk, attempts := [], archived := [], next := [.writing block inode] }
  | .archiving _, .fail => some { disk, attempts := [], archived := [], next := [] }
  | .writing block inode, .wrote count =>
    some { disk := disk.write inode (String.ofList (block.blockHex.toList.take count)), attempts := [], archived := [],
           next := [.writing block inode] }
  | .writing block inode, .proceed =>
    some { disk := disk.write inode block.blockHex, attempts := [], archived := [block], next := [] }
  | .writing _ _, .fail => some { disk, attempts := [], archived := [], next := [] }
  | .submitting block attempt, .reply first refreshed =>
    let outcome := trySubmit (submitBlock first refreshed)
    let next := match outcome with
      | .ok () => [.marking block.name]
      | .err e =>
        if isPermanentReject e then []
        else if attempt < submitInlineAttempts then [.submitting block (attempt + 1)]
        else [.retrying block.height (hashDisplayHex block.hash) block.blockHex]
      | .panic => []
    some { disk, attempts := [(block.blockHex, outcome)], archived := [], next }
  | .retrying height hashHex blockHex, .reply first refreshed =>
    let outcome := trySubmit (submitBlock first refreshed)
    let next := match outcome with
      | .ok () => [.marking (archiveName height hashHex)]
      | .err e => if isPermanentReject e then [] else [.retrying height hashHex blockHex]
      | .panic => []
    some { disk, attempts := [(blockHex, outcome)], archived := [], next }
  | .retrying _ _ _, .deadline => some { disk, attempts := [], archived := [], next := [] }
  | .marking name, .proceed =>
    some { disk, attempts := [], archived := [], next := if disk.holds (.top, name) then [.moving name] else [] }
  | .moving name, .proceed =>
    some { disk := fileArchivedBlock disk name .submitted, attempts := [], archived := [], next := [] }
  | .moving _, .fail => some { disk, attempts := [], archived := [], next := [] }
  | .listing, .proceed => some { disk, attempts := [], archived := [], next := [.replaying (listArchivedBlocks disk)] }
  | .listing, .fail => some { disk, attempts := [], archived := [], next := [] }
  | .replaying [], .proceed => some { disk, attempts := [], archived := [], next := [] }
  | .replaying (name :: rest), .proceed =>
    let next := match disk.read (.top, name) with
      | some text => [.resubmitting name (trim text) rest]
      | none => [.replaying rest]
    some { disk, attempts := [], archived := [], next }
  | .replaying (_ :: rest), .fail => some { disk, attempts := [], archived := [], next := [.replaying rest] }
  | .resubmitting name blockHex rest, .reply first refreshed =>
    let outcome := trySubmit (submitBlock first refreshed)
    let next := match outcome with
      | .ok () => [.filing name .submitted rest]
      | .err e =>
        if isPermanentReject e || isNodeSideError e then [.filing name .rejected rest]
        else
          let (height, hashHex) := (parseArchiveName name).getD (0, displayPath dir name)
          [.retrying height hashHex blockHex, .replaying rest]
      | .panic => []
    some { disk, attempts := [(blockHex, outcome)], archived := [], next }
  | .filing name bucket rest, .proceed =>
    some { disk := fileArchivedBlock disk name bucket, attempts := [], archived := [], next := [.replaying rest] }
  | .filing _ _ rest, .fail => some { disk, attempts := [], archived := [], next := [.replaying rest] }
  | _, _ => none

end Archive

/-! ### Runs -/

structure Archive where
  disk : ArchiveDisk
  running : Bool
  tasks : List Archive.Task
  found : List FoundBlock
  /-- The blocks whose archive write has completed. -/
  archived : List FoundBlock
  attempts : List (String × Result Unit)

namespace Archive

def start : Archive :=
  { disk := .empty "", running := false, tasks := [], found := [], archived := [], attempts := [] }

inductive Action where
  | boot
  | crash
  | found (block : FoundBlock)
  | run (task : Nat) (event : Event)

def step (dir : String) (s : Archive) : Action → Option Archive
  | .boot => if s.running then none else some { s with running := true, tasks := [.listing] }
  | .crash => some { s with running := false, tasks := [] }
  | .found block =>
    if s.running then
      some { s with found := s.found ++ [block], tasks := s.tasks ++ [.archiving block, .submitting block 1] }
    else none
  | .run i event => do
    let task ← s.tasks[i]?
    let progress ← task.advance dir s.disk event
    return { s with
      disk := progress.disk
      tasks := s.tasks.take i ++ progress.next ++ s.tasks.drop (i + 1)
      archived := s.archived ++ progress.archived
      attempts := s.attempts ++ progress.attempts }

end Archive

end SoloPool
