import SoloPool.Bitcoin.Template
import SoloPool.Config

/-!
# Runtime settings

`settings.rs`: the payout address in force. The network comes from the node and never changes.
-/

namespace SoloPool
open Lib

structure RuntimeSettings where
  network : String
  address : String
  valid : Bool
  deriving DecidableEq

def networkOfName : String → Option Network
  | "mainnet" => some .bitcoin
  | "testnet" => some .testnet
  | "testnet4" => some .testnet4
  | "signet" => some .signet
  | "regtest" => some .regtest
  | _ => none

inductive AddressError where
  | unknownNetwork (network : String)
  | notParseable
  | notValidFor (network : String)
  deriving DecidableEq

def validateAddress (c : Crates) (address network : String) : Except AddressError Unit :=
  match networkOfName network with
  | none => .error (.unknownNetwork network)
  | some net =>
    match c.addressToScript address with
    | .error _ => .error .notParseable
    | .ok _ => if c.requireNetwork address net then .ok () else .error (.notValidFor network)

/-- The network of a chain name that `getblockchaininfo` reports. -/
def networkOfChain : String → Option String
  | "main" => some "mainnet"
  | "test" => some "testnet"
  | "testnet4" => some "testnet4"
  | "signet" => some "signet"
  | "regtest" => some "regtest"
  | _ => none

inductive BootError where
  | unrecognizedChain (chain : String)
  | networkAsserted (asserted network : String)
  deriving DecidableEq

namespace RuntimeSettings

/-- The address of the file, which need not be valid for the node's chain. -/
def new (c : Crates) (pool : PoolConfig) (nodeChain : String) : Except BootError RuntimeSettings :=
  match networkOfChain nodeChain with
  | none => .error (.unrecognizedChain nodeChain)
  | some network =>
    match pool.network.filter (fun asserted => decide (asserted ≠ network)) with
    | some asserted => .error (.networkAsserted asserted network)
    | none =>
      .ok { network, address := pool.coinbaseAddress, valid := (validateAddress c pool.coinbaseAddress network).isOk }

/-- `apply_persisted`: a stored address that no longer validates is skipped. -/
def applyPersisted (c : Crates) (s : RuntimeSettings) : Option String → RuntimeSettings
  | none => s
  | some address =>
    match validateAddress c address s.network with
    | .ok () => { s with address, valid := true }
    | .error _ => s

/-- The settings a process starts with. -/
def boot (c : Crates) (pool : PoolConfig) (nodeChain : String) (persisted : Option String) :
    Except BootError RuntimeSettings := do
  let s ← new c pool nodeChain
  return s.applyPersisted c persisted

def update (c : Crates) (s : RuntimeSettings) (address : String) : Except AddressError RuntimeSettings :=
  match validateAddress c address s.network with
  | .ok () => .ok { s with address, valid := true }
  | .error e => .error e

def validCoinbaseAddress (s : RuntimeSettings) : Option String := if s.valid then some s.address else none

theorem update_inv {c : Crates} {s t : RuntimeSettings} {address : String} (h : s.update c address = .ok t) :
    t = { s with address, valid := true } ∧ validateAddress c address s.network = .ok () := by
  unfold update at h
  split at h
  · rename_i valid
    obtain rfl := Except.ok.inj h
    exact ⟨rfl, valid⟩
  · simp at h

theorem update_ok {c : Crates} {s t : RuntimeSettings} {address : String} (h : s.update c address = .ok t) :
    t.validCoinbaseAddress = some address := by
  obtain ⟨rfl, _⟩ := update_inv h
  rfl

/-- A stored address that validates on the network is the one the process starts with. -/
theorem boot_persisted {c : Crates} {pool : PoolConfig} {nodeChain address : String} {s : RuntimeSettings}
    (booted : boot c pool nodeChain (some address) = .ok s) (valid : validateAddress c address s.network = .ok ()) :
    s = { network := s.network, address, valid := true } := by
  unfold boot at booted
  cases fresh : new c pool nodeChain with
  | error e =>
    rw [fresh] at booted
    cases booted
  | ok first =>
    rw [fresh] at booted
    obtain rfl := Except.ok.inj booted
    unfold applyPersisted at valid ⊢
    dsimp only at valid ⊢
    split at valid
    · rfl
    · rename_i refused
      rw [refused] at valid
      cases valid

end RuntimeSettings

end SoloPool
