import Mathlib.Data.List.Infix
import SoloPool.Lib.Hex

/-!
# Configuration

The sections of `config.rs` that modelled functions read, and `Config::validate`, which every loaded configuration has
passed. An error carries the values its message shows.
-/

namespace SoloPool
open Lib

/-! ### Text -/

/-- `char::is_whitespace`: the Unicode property White_Space. -/
def isWhitespace (ch : Char) : Bool :=
  let n := ch.toNat
  (0x09 ≤ n && n ≤ 0x0d) || n == 0x20 || n == 0x85 || n == 0xa0 || n == 0x1680 || (0x2000 ≤ n && n ≤ 0x200a) ||
    n == 0x2028 || n == 0x2029 || n == 0x202f || n == 0x205f || n == 0x3000

def trim (s : String) : String :=
  String.ofList (((s.toList.dropWhile isWhitespace).reverse.dropWhile isWhitespace).reverse)

/-! ### Sections -/

inductive F64 where
  | finite (value : Rat)
  | infinite (negative : Bool)
  | nan
  deriving DecidableEq

structure PoolConfig where
  coinbaseAddress : String
  coinbaseTag : String
  initialDifficulty : UInt64
  extranonce1Size : Nat
  extranonce2Size : Nat
  foundBlockDir : String
  network : Option String
  deriving DecidableEq

structure VardiffConfig where
  targetShareTimeSecs : UInt64
  retargetIntervalSecs : UInt64
  minDifficulty : UInt64
  maxDifficulty : UInt64
  maxRetargetFactor : F64
  deriving DecidableEq

structure Sv2Config where
  enabled : Bool
  persistAuthorityKey : Bool
  authorityKeyFile : String
  deriving DecidableEq

structure SecurityConfig where
  maxInvalidShares : UInt32
  maxWorkerNameLen : Nat
  maxAuthorizationsPerSession : UInt32
  deriving DecidableEq

structure Config where
  pool : PoolConfig
  vardiff : VardiffConfig
  security : SecurityConfig
  sv2 : Sv2Config
  allowedHosts : List String
  logMaxFiles : Nat
  deriving DecidableEq

/-! ### Validation -/

inductive ConfigError where
  | logMaxFiles
  | allowedHostsEntry (entry : String)
  | extranonceTotalZero
  | extranonceTotalOver32 (total : Nat)
  | extranonce1Zero
  | scriptSigTooLong (length tagBytes total : Nat)
  | authorityKeyFileEmpty
  | minDifficultyZero
  | difficultyRangeInverted (minDifficulty maxDifficulty : UInt64)
  | maxRetargetFactor (factor : F64)
  | targetShareTimeZero
  | retargetIntervalZero
  deriving DecidableEq

def unusableHost (entry : String) : Bool :=
  entry.isEmpty || decide ("://".toList <:+: entry.toList) || decide ('/' ∈ entry.toList)

/-- The bytes of the scriptSig around the height push and the tag; the placeholder takes at least four. -/
def scriptSigLength (pool : PoolConfig) : Nat :=
  5 + (strBytes pool.coinbaseTag).length + max (pool.extranonce1Size + pool.extranonce2Size) 4

def validateVardiff (v : VardiffConfig) : Except ConfigError Unit := do
  if v.minDifficulty = 0 then throw .minDifficultyZero
  if v.minDifficulty > v.maxDifficulty then throw (.difficultyRangeInverted v.minDifficulty v.maxDifficulty)
  match v.maxRetargetFactor with
  | .finite value => if value < 1 then throw (.maxRetargetFactor v.maxRetargetFactor)
  | _ => throw (.maxRetargetFactor v.maxRetargetFactor)
  if v.targetShareTimeSecs = 0 then throw .targetShareTimeZero
  if v.retargetIntervalSecs = 0 then throw .retargetIntervalZero

def Config.validate (cfg : Config) : Except ConfigError Unit := do
  if cfg.logMaxFiles = 0 then throw .logMaxFiles
  for entry in cfg.allowedHosts do
    if unusableHost (trim entry) then throw (.allowedHostsEntry (trim entry))
  let enTotal := cfg.pool.extranonce1Size + cfg.pool.extranonce2Size
  if enTotal = 0 then throw .extranonceTotalZero
  if enTotal > 32 then throw (.extranonceTotalOver32 enTotal)
  if cfg.pool.extranonce1Size = 0 then throw .extranonce1Zero
  if scriptSigLength cfg.pool > 100 then
    throw (.scriptSigTooLong (scriptSigLength cfg.pool) (strBytes cfg.pool.coinbaseTag).length enTotal)
  if cfg.sv2.enabled && cfg.sv2.persistAuthorityKey && (trim cfg.sv2.authorityKeyFile).isEmpty then
    throw .authorityKeyFileEmpty
  validateVardiff cfg.vardiff

/-- The values of `config.toml.example`, with a payout address filled in. -/
def exampleConfig : Config where
  pool := {
    coinbaseAddress := "bc1qw508d6qejxtdg4y5r3zarvary0c5xw7kv8f3t4"
    coinbaseTag := "/solo-pool-rs/"
    initialDifficulty := 4096
    extranonce1Size := 4
    extranonce2Size := 4
    foundBlockDir := "found-blocks"
    network := none }
  vardiff := {
    targetShareTimeSecs := 15
    retargetIntervalSecs := 60
    minDifficulty := 512
    maxDifficulty := 4194304
    maxRetargetFactor := .finite 4 }
  security := { maxInvalidShares := 5, maxWorkerNameLen := 128, maxAuthorizationsPerSession := 8 }
  sv2 := { enabled := true, persistAuthorityKey := true, authorityKeyFile := "sv2-authority.key" }
  allowedHosts := []
  logMaxFiles := 14

example : exampleConfig.validate = .ok () := by decide

end SoloPool
