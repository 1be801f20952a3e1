import SoloPool.Lib.Json
import SoloPool.Network.Session

/-!
# The parameters of `mining.configure`

`ConfigureParams::parse` of `protocol/sv1.rs`. The list of extensions is gone through in order; the values of an extension
are looked up in the object after it, and a value that does not parse counts as absent.
-/

namespace SoloPool
open Lib

/-- `ConfigureParams` with all its fields. -/
structure ConfigureFields where
  versionRolling : Bool
  versionRollingMask : Option UInt32
  versionRollingMinBitCount : Option UInt32
  minimumDifficulty : Option UInt64
  subscribeExtranonce : Bool
  deriving DecidableEq

namespace ConfigureFields

def default : ConfigureFields where
  versionRolling := false
  versionRollingMask := none
  versionRollingMinBitCount := none
  minimumDifficulty := none
  subscribeExtranonce := false

/-- The fields that `handle_configure` decides on. -/
def params (fields : ConfigureFields) : ConfigureParams where
  versionRolling := fields.versionRolling
  versionRollingMask := fields.versionRollingMask
  versionRollingMinBitCount := fields.versionRollingMinBitCount

def extensions (params : Json) : List Json :=
  ((params.asArray.bind (·.head?)).bind Json.asArray).getD []

def extParams (params : Json) : List (String × Json) :=
  ((params.asArray.bind (·[1]?)).bind Json.asObject).getD []

def addVersionRolling (extParams : List (String × Json)) (result : ConfigureFields) : ConfigureFields :=
  let result := { result with versionRolling := true }
  let result := match (extParams.lookup "version-rolling.mask").bind Json.asStr with
    | some maskStr => { result with versionRollingMask := u32FromStrRadix16 maskStr }
    | none => result
  match (extParams.lookup "version-rolling.min-bit-count").bind Json.asU64 with
  -- `min_bits as u32` keeps the low half of a larger count.
  | some minBits => { result with versionRollingMinBitCount := some minBits.toUInt32 }
  | none => result

def addExtension (extParams : List (String × Json)) (result : ConfigureFields) (ext : Json) : ConfigureFields :=
  match ext.asStr with
  | some "version-rolling" => result.addVersionRolling extParams
  | some "minimum-difficulty" =>
    { result with minimumDifficulty := (extParams.lookup "minimum-difficulty.value").bind Json.asU64 }
  | some "subscribe-extranonce" => { result with subscribeExtranonce := true }
  | _ => result

def parse (params : Json) : ConfigureFields := (extensions params).foldl (addExtension (extParams params)) default

end ConfigureFields

end SoloPool
