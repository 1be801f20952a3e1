import SoloPool.Config
import SoloPool.Lib.Text

/-!
# Environment overrides

`apply_env_overrides` of `config.rs`: variables of the process written into the parsed TOML before it becomes a
configuration. `f64::from_str` is a parameter.
-/

namespace SoloPool.Overrides
open Lib

/-! ### TOML -/

/-- `toml::Value`. A table is the map of its entries. -/
inductive TomlValue where
  | string (s : String)
  | integer (i : Int64)
  | float (f : F64)
  | boolean (b : Bool)
  | datetime (text : String)
  | array (items : List TomlValue)
  | table (entries : String → Option TomlValue)

abbrev TomlTable := String → Option TomlValue

def TomlValue.asTable : TomlValue → Option TomlTable
  | .table entries => some entries
  | _ => none

inductive Kind where
  | string
  | integer
  | float
  | boolean
  | datetime
  | array
  | table
  deriving DecidableEq

def TomlValue.kind : TomlValue → Kind
  | .string _ => .string
  | .integer _ => .integer
  | .float _ => .float
  | .boolean _ => .boolean
  | .datetime _ => .datetime
  | .array _ => .array
  | .table _ => .table

/-- `i64::from_str`. -/
def parseI64 (cs : List Char) : Option Int64 :=
  let (negative, digits) := match cs with
    | '-' :: rest => (true, rest)
    | '+' :: rest => (false, rest)
    | cs => (false, cs)
  if digits.isEmpty || !digits.all Char.isDigit then none
  else
    let n := Nat.ofDigitChars 10 digits 0
    if negative then if n ≤ 2 ^ 63 then some (Int64.ofInt (-n)) else none
    else if n < 2 ^ 63 then some (Int64.ofInt n) else none

/-- `bool::from_str`. -/
def parseBool (raw : String) : Option Bool :=
  if raw = "true" then some true else if raw = "false" then some false else none

/-! ### Variables -/

/-- A variable of the environment. -/
structure Var where
  name : String
  raw : String
  deriving DecidableEq

inductive OverrideError where
  | rootNotTable
  | noSeparator (name : String)
  | emptyPart (name : String)
  | notTable (sect : String)
  | mistyped (name sect key : String)
  | notScalar (name sect key : String)
  deriving DecidableEq

def envPrefix : String := "SOLO_POOL_"

def OverrideError.text : OverrideError → String
  | .rootNotTable => "Config root is not a TOML table"
  | .noSeparator name => name ++ ": expected " ++ envPrefix ++ "<SECTION>__<KEY> (double underscore between section and key)"
  | .emptyPart name => name ++ ": empty section or key"
  | .notTable sect => "[" ++ sect ++ "] is not a table"
  | .mistyped name sect key => name ++ ": value does not parse as the type of " ++ sect ++ "." ++ key ++ " in the file"
  | .notScalar name sect key => name ++ ": cannot override non-scalar " ++ sect ++ "." ++ key

/-- The section and the key a variable names, if it is one of the pool's. -/
def target (name : String) : Except OverrideError (Option (String × String)) :=
  match envPrefix.toList.isPrefixOf? name.toList with
  | none => .ok none
  | some rest =>
    match splitOncePattern ['_', '_'] rest with
    | none => .error (.noSeparator name)
    | some (sect, key) =>
      let (sect, key) := (asciiLower sect, asciiLower key)
      if sect.isEmpty || key.isEmpty then .error (.emptyPart name)
      else .ok (some (String.ofList sect, String.ofList key))

/-- The double quote. -/
def quote : Char := Char.ofNat 34

/-- The text between two double quotes. -/
def unquote (cs : List Char) : Option (List Char) :=
  ([quote].isPrefixOf? cs).bind fun rest => [quote].isSuffixOf? rest

variable (parseF64 : String → Option F64)

def inferTomlScalar (raw : String) : TomlValue :=
  match unquote raw.toList with
  | some quoted => .string (String.ofList quoted)
  | none =>
    if raw = "true" ∨ raw = "false" then .boolean (raw = "true")
    else
      match parseI64 raw.toList with
      | some i => .integer i
      | none =>
        match parseF64 raw with
        | some f => .float f
        | none => .string raw

/-- The new value of an entry, `existing` being the one it has. -/
def parsed (name sect key : String) (existing : Option TomlValue) (raw : String) : Except OverrideError TomlValue :=
  let orMistyped (value : Option TomlValue) : Except OverrideError TomlValue :=
    match value with
    | some value => .ok value
    | none => .error (.mistyped name sect key)
  match existing with
  | some (.integer _) => orMistyped ((parseI64 raw.toList).map .integer)
  | some (.float _) => orMistyped ((parseF64 raw).map .float)
  | some (.boolean _) => orMistyped ((parseBool raw).map .boolean)
  | some (.string _) => .ok (.string raw)
  | some _ => .error (.notScalar name sect key)
  | none => .ok (inferTomlScalar parseF64 raw)

/-- The table of a section, a new one when there is none. -/
def sectionTable (root : TomlTable) (sect : String) : Except OverrideError TomlTable :=
  match root sect with
  | none => .ok fun _ => none
  | some (.table entries) => .ok entries
  | some _ => .error (.notTable sect)

/-! ### The loop -/

structure Overridden where
  root : TomlTable
  applied : List String

def applyVar (s : Overridden) (v : Var) : Except OverrideError Overridden := do
  match ← target v.name with
  | none => pure s
  | some (sect, key) =>
    let table ← sectionTable s.root sect
    let value ← parsed parseF64 v.name sect key (table key) v.raw
    pure {
      root := Function.update s.root sect (some (.table (Function.update table key (some value))))
      applied := s.applied ++ [sect ++ "." ++ key]
    }

def applyEnvOverrides (value : TomlValue) (vars : List Var) : Except OverrideError (TomlValue × List String) :=
  match value.asTable with
  | none => .error .rootNotTable
  | some root => do
    let s ← vars.foldlM (applyVar parseF64) { root, applied := [] }
    pure (.table s.root, s.applied)

end SoloPool.Overrides
