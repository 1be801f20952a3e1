import SoloPool.Config
import SoloPool.Error

/-!
# The session guard

`security/mod.rs`, as far as one session uses it: the check of worker names, the count of worker identities and the
count of invalid shares.
-/

namespace SoloPool
open Lib

/-- `char::is_control`: the Unicode category Cc. -/
def isControl (ch : Char) : Bool := ch.toNat < 0x20 || (0x7f ≤ ch.toNat && ch.toNat ≤ 0x9f)

def validateWorkerName (name : String) (maxLen : Nat) : Except PoolError Unit :=
  if name.isEmpty then .error (.invalidParams "worker name" "worker name must not be empty")
  else if (strBytes name).length > maxLen then .error (.invalidParams "worker name" "worker name too long")
  else if name.toList.any (fun ch => isControl ch || isWhitespace ch) then
    .error (.invalidParams "worker name" "worker name must not contain control or whitespace characters")
  else .ok ()

structure SessionGuard where
  invalidCount : UInt32
  maxInvalid : UInt32
  maxWorkerNameLen : Nat
  authorizations : UInt32
  maxAuthorizations : UInt32
  deriving DecidableEq

namespace SessionGuard

def new (cfg : SecurityConfig) : SessionGuard where
  invalidCount := 0
  maxInvalid := cfg.maxInvalidShares
  maxWorkerNameLen := cfg.maxWorkerNameLen
  authorizations := 0
  maxAuthorizations := cfg.maxAuthorizationsPerSession

def checkWorkerName (g : SessionGuard) (name : String) : Except PoolError Unit := validateWorkerName name g.maxWorkerNameLen

/-- Whether the session may take one more identity; a cap of 0 disables the limit. -/
def recordNewAuthorization (g : SessionGuard) : Bool × SessionGuard :=
  if g.maxAuthorizations = 0 then (true, g)
  else
    let authorizations := g.authorizations + 1
    (decide (authorizations ≤ g.maxAuthorizations), { g with authorizations })

def recordInvalid (g : SessionGuard) : Bool × SessionGuard :=
  if g.maxInvalid = 0 then (false, g)
  else
    let invalidCount := g.invalidCount + 1
    (decide (invalidCount ≥ g.maxInvalid), { g with invalidCount })

end SessionGuard

end SoloPool
