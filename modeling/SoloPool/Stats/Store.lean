import Mathlib.Data.List.Sort
import SoloPool.Lib.Float
import SoloPool.Mining.Vardiff

/-!
# The statistics database

`StatsStore` of `stats.rs`: the tables as lists of rows, each SQL statement as a function on them. SQLite integers are
signed, so a `u64` is cut off at the largest `i64` on its way in. The work of a round is a double that is a whole number,
kept as that number.
-/

namespace SoloPool.Stats
open Lib

def i64Max : Nat := 2 ^ 63 - 1

def dbU64 (v : UInt64) : Int := (min v.toNat i64Max : Nat)

/-- Reads a column back; a negative value fails the read. -/
def getU64 (v : Int) : Option UInt64 := if 0 ≤ v then some (UInt64.ofNat v.toNat) else none

/-- The work of a round with a credited difficulty added, both doubles. -/
def addWork (work : Nat) (credited : UInt64) : Nat := nearestF64 (work + nearestF64 credited.toNat)

/-- Nothing is rounded before the work of a round passes 2⁵³. -/
theorem addWork_exact {work : Nat} {credited : UInt64} (small : work + credited.toNat ≤ 2 ^ 53) :
    addWork work credited = work + credited.toNat := by
  unfold addWork
  rw [nearestF64_of_le (Nat.le_trans (Nat.le_add_left _ _) small), nearestF64_of_le small]

/-- A round that is a double loses nothing of what it has. -/
theorem le_addWork {work : Nat} (double : nearestF64 work = work) (credited : UInt64) : work ≤ addWork work credited :=
  le_nearestF64 double (Nat.le_add_right _ _)

example : addWork (2 ^ 53) 3 = 2 ^ 53 + 4 := by decide

structure FoundBlock where
  height : UInt64
  hash : String
  worker : String
  ts : UInt64
  roundWork : Nat
  networkDifficulty : F64
  deriving DecidableEq

structure FoundRow where
  hash : String
  height : Int
  worker : String
  ts : Int
  roundWork : Nat
  networkDifficulty : F64
  deriving DecidableEq

structure ShareLogRow where
  worker : String
  ts : Int
  credited : Int
  serial : Option Nat
  deriving DecidableEq

/-- An accepted share waiting for the next flush of the share log. -/
structure LoggedShare where
  worker : String
  ts : UInt64
  credited : UInt64
  serial : Option Nat
  deriving DecidableEq

/-- The tables; the row of `pool_stats` is spread over the first three fields. The hash of a found block is its key. -/
structure Database where
  bestShareDifficulty : Int
  roundWork : Nat
  roundStartTs : Int
  foundBlocks : List FoundRow
  hashrateHistory : List (Int × F64)
  shareLog : List ShareLogRow
  workerBestShares : List (String × Int)
  keyed : (foundBlocks.map (·.hash)).Nodup

structure LoadedStats where
  bestShareDifficulty : UInt64
  roundWork : Nat
  roundStartTs : UInt64
  workerBestShares : List (String × UInt64)
  foundBlocks : List FoundBlock
  deriving DecidableEq

def LoadedStats.default : LoadedStats :=
  { bestShareDifficulty := 0, roundWork := 0, roundStartTs := 0, workerBestShares := [], foundBlocks := [] }

/-- The rows of the highest `keep` values, highest first. -/
def highest {α : Type} (value : α → Int) (keep : Nat) (rows : List α) : List α :=
  (rows.insertionSort (fun a b => value b ≤ value a)).take keep

def assign (rows : List (String × Int)) (key : String) (value : Int) : List (String × Int) :=
  if rows.any (·.1 == key) then rows.map (fun row => if row.1 = key then (key, value) else row) else rows ++ [(key, value)]

def FoundRow.load (row : FoundRow) : Option FoundBlock := do
  let height ← getU64 row.height
  let ts ← getU64 row.ts
  return { height, hash := row.hash, worker := row.worker, ts, roundWork := row.roundWork,
           networkDifficulty := row.networkDifficulty }

def FoundBlock.row (block : FoundBlock) : FoundRow where
  hash := block.hash
  height := dbU64 block.height
  worker := block.worker
  ts := dbU64 block.ts
  roundWork := block.roundWork
  networkDifficulty := block.networkDifficulty

/-- `ORDER BY ts ASC, height ASC`. -/
def FoundRow.before (a b : FoundRow) : Prop := a.ts < b.ts ∨ a.ts = b.ts ∧ a.height ≤ b.height

instance (a b : FoundRow) : Decidable (a.before b) := inferInstanceAs (Decidable (_ ∨ _ ∧ _))

namespace Database

/-- The file as `open` creates it. -/
def create : Database where
  bestShareDifficulty := 0
  roundWork := 0
  roundStartTs := 0
  foundBlocks := []
  hashrateHistory := []
  shareLog := []
  workerBestShares := []
  keyed := List.nodup_nil

def loadValues (db : Database) : Option LoadedStats := do
  let bestShareDifficulty ← getU64 db.bestShareDifficulty
  let roundStartTs ← getU64 db.roundStartTs
  let workerBestShares ← db.workerBestShares.mapM (fun row => (getU64 row.2).map (row.1, ·))
  let foundBlocks ← (db.foundBlocks.insertionSort FoundRow.before).mapM FoundRow.load
  return { bestShareDifficulty, roundWork := db.roundWork, roundStartTs, workerBestShares, foundBlocks }

def setRound (db : Database) (roundWork : Nat) (roundStartTs : UInt64) : Database :=
  { db with roundWork, roundStartTs := dbU64 roundStartTs }

/-- `INSERT OR IGNORE`: a row of the same hash stays as it is. -/
def insertFoundBlock (db : Database) (block : FoundBlock) : Database :=
  if fresh : block.hash ∈ db.foundBlocks.map (·.hash) then db
  else
    { db with
      foundBlocks := db.foundBlocks ++ [block.row]
      keyed := by
        rw [List.map_append, List.map_singleton, List.nodup_append]
        refine ⟨db.keyed, List.nodup_singleton _, ?_⟩
        rintro hash old _ new rfl
        obtain rfl := List.mem_singleton.mp new
        exact fresh old }

def setBestShareDifficulty (db : Database) (difficulty : UInt64) : Database :=
  if dbU64 difficulty > db.bestShareDifficulty then { db with bestShareDifficulty := dbU64 difficulty } else db

/-- `INSERT OR REPLACE` under the second it was taken. -/
def insertHashrate (db : Database) (ts : UInt64) (hps : F64) : Database :=
  { db with hashrateHistory := db.hashrateHistory.filter (fun row => decide (row.1 ≠ dbU64 ts)) ++ [(dbU64 ts, hps)] }

def pruneHashrates (db : Database) (ts : UInt64) : Database :=
  let cutoff := dbU64 (UInt64.ofNat (ts.toNat - 6 * 30 * 24 * 3600))
  { db with hashrateHistory := db.hashrateHistory.filter (fun row => decide (cutoff ≤ row.1)) }

def shareCutoff (now : UInt64) : Int := dbU64 (UInt64.ofNat (now.toNat - 86400))

/-- The transaction that writes a batch and drops the rows older than the longest window. -/
def appendShares (db : Database) (batch : List LoggedShare) (now : UInt64) : Database :=
  let rows := batch.map (fun share =>
    { worker := share.worker, ts := dbU64 share.ts, credited := dbU64 share.credited, serial := share.serial })
  { db with shareLog := (db.shareLog ++ rows).filter (fun row => decide (shareCutoff now ≤ row.ts)) }

def getShares (db : Database) (worker : String) (now : UInt64) : List ShareRow :=
  let rows := db.shareLog.filter (fun row => decide (row.worker = worker ∧ shareCutoff now ≤ row.ts))
  (rows.insertionSort (fun a b => a.ts ≤ b.ts)).filterMap (fun row => do
    let ts ← getU64 row.ts
    let credited ← getU64 row.credited
    return { ts, credited, serial := row.serial })

def setWorkerBestShare (db : Database) (worker : String) (difficulty : UInt64) : Database :=
  if (db.workerBestShares.lookup worker).any (fun best => decide (dbU64 difficulty ≤ best)) then db
  else { db with workerBestShares := assign db.workerBestShares worker (dbU64 difficulty) }

def pruneWorkerBestShares (db : Database) (keep : Nat) : Database :=
  { db with workerBestShares := highest (·.2) keep db.workerBestShares }

end Database

end SoloPool.Stats
