import SoloPool.Lib.Ip
import SoloPool.Mining.Concurrent

/-!
# The dashboard's mutating routes

`network/dashboard.rs`: which requests may change settings, and `POST /api/settings` as the steps of `Refreshes`. A
header is given by its bytes, an error by the values its message shows.
-/

namespace SoloPool
open Lib

/-! ### The host of a request -/

def localSuffixes : List String :=
  [".localhost", ".local", ".lan", ".home", ".home.arpa", ".internal", ".intranet", ".private"]

/-- The first half of `authority_host`: an authority without brackets or port. -/
def hostPart (authority : List Char) : List Char :=
  match authority with
  | '[' :: rest => rest.takeWhile (· != ']')
  | _ =>
    -- A bare IPv6 literal has several colons; only a single one is a port.
    match rsplitOnce ':' authority with
    | some (h, port) => if !h.contains ':' && port.all Char.isDigit then h else authority
    | none => authority

/-- The host of an authority, without trailing dots and in lower case. -/
def authorityHost (authority : String) : Option String :=
  let host := asciiLower (trimEndMatches '.' (hostPart (trim authority).toList))
  if host = [] then none else some (String.ofList host)

def isLocalHost (host : String) : Bool :=
  isIpAddr host.toList || host == "localhost" || !host.toList.contains '.' ||
    localSuffixes.any (fun suffix => suffix.toList.isSuffixOf host.toList)

/-! ### The check -/

/-- `HeaderValue::to_str`: only visible ASCII, space and tab. -/
def headerText (value : Bytes) : Option String :=
  if value.all (fun b => (decide (0x20 ≤ b) && decide (b < 0x7f)) || b == 0x09) then
    some (String.ofList (value.map (fun b => Char.ofNat b.toNat)))
  else none

structure Headers where
  host : Option Bytes
  origin : Option Bytes
  deriving DecidableEq

inductive MutationError where
  | settingsDisabled
  | missingHost
  | emptyHost
  | notLocal (host : String)
  | unreadableOrigin
  | crossOrigin (origin host : String)
  deriving DecidableEq

def originAuthority (origin : String) : List Char :=
  match splitOncePattern "://".toList origin.toList with
  | some (_, rest) => rest.takeWhile (· != '/')
  | none => []

def checkMutationOrigin (headers : Headers) (allowedHosts : List String) : Except MutationError Unit := do
  let some hostHdr := headers.host.bind headerText | throw .missingHost
  let some host := authorityHost hostHdr | throw .emptyHost
  if !isLocalHost host && !allowedHosts.contains host then throw (.notLocal host)
  match headers.origin with
  | none => return ()
  | some value =>
    let some origin := headerText value | throw .unreadableOrigin
    if origin = "null" ∨ asciiLower (originAuthority origin) ≠ asciiLower (trim hostHdr).toList then
      throw (.crossOrigin origin (trim hostHdr))

/-! ### Changing the payout address -/

structure Dashboard where
  allowSettings : Bool
  /-- Normalised at start. -/
  allowedHosts : List String

def Dashboard.start (allowSettings : Bool) (cfg : Config) : Dashboard :=
  { allowSettings, allowedHosts := cfg.allowedHosts.filterMap authorityHost }

/-- The gates of a mutating route. -/
def Dashboard.admits (d : Dashboard) (headers : Headers) : Except MutationError Unit :=
  if !d.allowSettings then .error .settingsDisabled else checkMutationOrigin headers d.allowedHosts

inductive Refusal where
  | forbidden (e : MutationError)
  | unprocessable (e : AddressError)
  deriving DecidableEq

/-- Why `settings_post` refuses a request under the settings in force, if it does. -/
def Dashboard.refuses (d : Dashboard) (c : Crates) (settings : RuntimeSettings) (headers : Headers)
    (coinbaseAddress : String) : Option Refusal :=
  match d.admits headers with
  | .error e => some (.forbidden e)
  | .ok () =>
    match settings.update c (trim coinbaseAddress) with
    | .error e => some (.unprocessable e)
    | .ok _ => none

/-- The first step of `settings_post`, taken by task `t`. -/
def Dashboard.settingsPost (d : Dashboard) (t : Nat) (headers : Headers) (coinbaseAddress : String) : Refreshes.Action :=
  .post t (d.admits headers).isOk coinbaseAddress

end SoloPool
