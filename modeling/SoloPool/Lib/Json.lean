import SoloPool.Lib.Bytes

/-!
# JSON values

The values of `serde_json` and the accessors that return nothing on a value of another kind.
-/

namespace SoloPool.Lib

/-- A number as it is kept: unsigned when it fits, signed when negative, else the bits of a float. -/
inductive JsonNumber where
  | posInt (n : UInt64)
  | negInt (n : Int64)
  | float (bits : UInt64)
  deriving DecidableEq

/-- An object lists the entries of a map: a key occurs in it once. -/
inductive Json where
  | null
  | bool (b : Bool)
  | number (n : JsonNumber)
  | string (s : String)
  | array (items : List Json)
  | object (fields : List (String × Json))

namespace Json

def asStr : Json → Option String
  | .string s => some s
  | _ => none

def asU64 : Json → Option UInt64
  | .number (.posInt n) => some n
  | _ => none

def asArray : Json → Option (List Json)
  | .array items => some items
  | _ => none

def asObject : Json → Option (List (String × Json))
  | .object fields => some fields
  | _ => none

/-- `Value::get` with a key. -/
def get (v : Json) (key : String) : Option Json := v.asObject.bind (·.lookup key)

theorem get_cons (key key' : String) (value : Json) (fields : List (String × Json)) :
    (object ((key', value) :: fields)).get key = if key = key' then some value else (object fields).get key := by
  show List.lookup key ((key', value) :: fields) = if key = key' then some value else List.lookup key fields
  rw [List.lookup_cons]
  by_cases same : key = key'
  · rw [if_pos same, beq_iff_eq.mpr same]
  · rw [if_neg same, beq_eq_false_iff_ne.mpr same]

end Json

end SoloPool.Lib
