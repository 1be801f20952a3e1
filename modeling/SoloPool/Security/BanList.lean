import Mathlib.Data.List.Sort
import SoloPool.Security.RateLimiter

/-!
# The ban list

`security/mod.rs`: the addresses that are banned, in a map of bounded size. A call takes its readings of the clock as
arguments, in the order it makes them; `latest` is the last instant the platform can represent, and `rank` is the order in
which the map happens to be iterated.
-/

namespace SoloPool
open Lib

/-- `Instant + Duration`, which panics beyond the last instant. -/
def checkedAdd (latest now : Instant) (duration : Nat) : Option Instant :=
  if now + duration ≤ latest then some (now + duration) else none

structure BanEntry where
  expiry : Instant
  reason : String
  deriving DecidableEq

structure BanList where
  entries : AList fun _ : IpAddr => BanEntry
  banDuration : Nat
  maxEntries : Nat

namespace BanList

def withCapacityLimit (banDurationSecs : UInt64) (maxEntries : Nat) : BanList where
  entries := ∅
  banDuration := secs banDurationSecs.toNat
  maxEntries := maxEntries

def new (banDurationSecs : UInt64) : BanList := withCapacityLimit banDurationSecs 65536

def prune (bl : BanList) (now : Instant) : BanList :=
  { bl with entries := retain (fun entry => decide (now < entry.expiry)) bl.entries }

/-- The first entry with the earliest expiry, in the order of the iteration. -/
def victim (rank : IpAddr → Nat) (bl : BanList) : Option IpAddr :=
  let order := bl.entries.entries.insertionSort fun a b => rank a.1 ≤ rank b.1
  (minByKey (fun entry => entry.2.expiry) order).map (·.1)

/-- A new address in a full map first drops the expired entries, then the one closest to expiry. -/
def makeRoom (rank : IpAddr → Nat) (bl : BanList) (pruneAt : Instant) (ip : IpAddr) : BanList :=
  if bl.entries.keys.length ≥ bl.maxEntries ∧ ip ∉ bl.entries then
    let pruned := bl.prune pruneAt
    if pruned.entries.keys.length ≥ pruned.maxEntries then
      match pruned.victim rank with
      | some victim => { pruned with entries := pruned.entries.erase victim }
      | none => pruned
    else pruned
  else bl

/-- A call that panics leaves the map as it was made ready for the entry. -/
def ban (latest : Instant) (rank : IpAddr → Nat) (bl : BanList) (pruneAt now : Instant) (ip : IpAddr) (reason : String) :
    Result Unit × BanList :=
  let room := bl.makeRoom rank pruneAt ip
  match checkedAdd latest now bl.banDuration with
  | some expiry => (.ok (), { room with entries := room.entries.insert ip { expiry, reason } })
  | none => (.panic, room)

/-- An expired ban is removed by the call that finds it, after a second look at the clock. -/
def isBanned (bl : BanList) (first second : Instant) (ip : IpAddr) : Bool × BanList :=
  match bl.entries.lookup ip with
  | none => (false, bl)
  | some entry =>
    if first < entry.expiry then (true, bl)
    else if second ≥ entry.expiry then (false, { bl with entries := bl.entries.erase ip })
    else (false, bl)

end BanList

end SoloPool
