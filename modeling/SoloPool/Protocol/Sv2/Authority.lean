import SoloPool.Config
import SoloPool.Lib.Hex
import SoloPool.Lib.Links
import SoloPool.Lib.Run

/-!
# The authority key file

`protocol/sv2/noise.rs`: `load_or_generate_secret`, `write_owner_only` and `link_into_place`, one file operation a step.
Any operation may fail, a write may stop short, a process may be killed between two operations and the power may fail
at any time. The base58check text of a key belongs to a crate and is a parameter.
-/

namespace SoloPool.Sv2
open Lib

/-- The text of a secret key, written and read. -/
structure KeyUtils (κ : Type) where
  encode : κ → String
  parse : String → Option κ

/-- What base58check promises. -/
structure KeyUtils.Base58 {κ : Type} (c : KeyUtils κ) : Prop where
  parse_encode : ∀ key, c.parse (c.encode key) = some key
  visible : ∀ key, ∀ ch ∈ (c.encode key).toList, isWhitespace ch = false

structure KeyPath where
  parent : String
  fileName : Option String
  deriving DecidableEq

def keyTmpPath (path : KeyPath) : KeyPath := { path with fileName := some (path.fileName.getD "" ++ ".tmp") }

/-- Text that is not UTF-8 is a read error. -/
def readToString (data : Bytes) : Option String := String.fromUTF8? data.toByteArray

inductive KeyFileError where
  | parsing
  | reading
  | creatingDirectory
  | writing
  deriving DecidableEq

def KeyFileError.context (path parent : String) : KeyFileError → String
  | .parsing => s!"Parsing SV2 authority key file {path} (base58check secret key). Delete the file to generate a fresh key."
  | .reading => s!"Reading SV2 authority key file {path}"
  | .creatingDirectory => s!"Creating directory {parent}"
  | .writing => s!"Writing SV2 authority key file {path}"

/-! ### One startup -/

/-- The operation that comes next. -/
inductive Startup (κ : Type) where
  /-- `generated` is the key that `generate_secret` will draw. -/
  | reading (generated : κ)
  | creatingDir (secret : κ)
  | clearing (secret : κ)
  | opening (secret : κ)
  | writing (secret : κ) (inode : Nat) (rest : Bytes)
  | newline (secret : κ) (inode : Nat)
  | syncing (secret : κ) (inode : Nat)
  | linking (secret : κ)
  | moving (secret : κ)
  /-- The last `remove_file`, with what the block before it returned. -/
  | cleaning (result : Option κ)

/-- What the operating system answers. -/
inductive Reply where
  | done
  | fails
  | wrote (count : Nat)
  deriving DecidableEq

inductive Progress (κ : Type) where
  | next (startup : Startup κ)
  | returned (result : Except KeyFileError κ)

abbrev KeyVolume := Volume KeyPath Bytes

variable {κ : Type}

def Startup.afterWrite (secret : κ) (inode : Nat) (rest : Bytes) : Startup κ :=
  if rest = [] then .newline secret inode else .writing secret inode rest

/-- The match on `read_to_string`. -/
def Startup.loaded (c : KeyUtils κ) (path : KeyPath) (generated : κ) : Option Bytes → Progress κ
  | none => .next (if path.parent = "" then .clearing generated else .creatingDir generated)
  | some data =>
    match readToString data with
    | none => .returned (.error .reading)
    | some contents =>
      match c.parse (trim contents) with
      | some key => .returned (.ok key)
      | none => .returned (.error .parsing)

def Startup.cleaned : Option κ → Progress κ
  | some secret => .returned (.ok secret)
  | none => .returned (.error .writing)

def Startup.call (c : KeyUtils κ) (path : KeyPath) (v : KeyVolume) :
    Startup κ → Reply → Option (KeyVolume × Progress κ)
  | .reading generated, .done => some (v, loaded c path generated (v.read path))
  | .reading _, .fails => some (v, .returned (.error .reading))
  | .creatingDir secret, .done => some (v, .next (.clearing secret))
  | .creatingDir _, .fails => some (v, .returned (.error .creatingDirectory))
  | .clearing secret, .done => some (v.remove (keyTmpPath path), .next (.opening secret))
  | .clearing secret, .fails => some (v, .next (.opening secret))
  | .opening secret, .done =>
    match v.createNew (keyTmpPath path) [] with
    | some (v, inode) => some (v, .next (afterWrite secret inode (strBytes (c.encode secret))))
    | none => some (v, .next (.cleaning none))
  | .opening _, .fails => some (v, .next (.cleaning none))
  | .writing secret inode rest, .wrote count =>
    if count = 0 then some (v, .next (.cleaning none))
    else some (v.write inode (v.data inode ++ rest.take count), .next (afterWrite secret inode (rest.drop count)))
  | .writing .., .fails => some (v, .next (.cleaning none))
  | .newline secret inode, .done =>
    some (v.write inode (v.data inode ++ strBytes "\n"), .next (.syncing secret inode))
  | .newline .., .fails => some (v, .next (.cleaning none))
  | .syncing secret inode, .done => some (v.sync inode, .next (.linking secret))
  | .syncing .., .fails => some (v, .next (.cleaning none))
  | .linking secret, .done =>
    match v.hardLink (keyTmpPath path) path with
    | .ok v => some (v, .next (.cleaning (some secret)))
    | .error .alreadyExists => some (v, .next (.cleaning none))
    | .error .notFound => some (v, .next (.moving secret))
  -- A filesystem without hard links.
  | .linking secret, .fails => some (v, .next (.moving secret))
  | .moving secret, .done =>
    match v.rename (keyTmpPath path) path with
    | some v => some (v, .next (.cleaning (some secret)))
    | none => some (v, .next (.cleaning none))
  | .moving _, .fails => some (v, .next (.cleaning none))
  | .cleaning result, .done => some (v.remove (keyTmpPath path), cleaned result)
  | .cleaning result, .fails => some (v, cleaned result)
  | _, _ => none

/-! ### Startups over time -/

/-- The volume, the startups under way and what the finished ones returned. -/
structure KeyStore (κ : Type) where
  volume : KeyVolume
  startups : List (Startup κ)
  results : List (Except KeyFileError κ)

namespace KeyStore

inductive Action (κ : Type) where
  | start (generated : κ)
  | call (i : Nat) (reply : Reply)
  | kill (i : Nat)
  | powerLoss (choice : KeyPath → Nat) (garbage : Nat → Bytes)
  /-- Someone deletes the key file. -/
  | delete

def empty : KeyStore κ := { volume := .blank [], startups := [], results := [] }

def settle (s : KeyStore κ) (i : Nat) (v : KeyVolume) : Progress κ → KeyStore κ
  | .next startup => { s with volume := v, startups := s.startups.set i startup }
  | .returned result => { volume := v, startups := s.startups.eraseIdx i, results := s.results ++ [result] }

def step (c : KeyUtils κ) (path : KeyPath) (s : KeyStore κ) : Action κ → Option (KeyStore κ)
  | .start generated => some { s with startups := s.startups ++ [.reading generated] }
  | .call i reply => do
    let startup ← s.startups[i]?
    let (v, progress) ← startup.call c path s.volume reply
    return s.settle i v progress
  | .kill i => some { s with startups := s.startups.eraseIdx i }
  | .powerLoss choice garbage => some { s with volume := s.volume.powerLoss choice garbage, startups := [] }
  | .delete => some { s with volume := s.volume.remove path }

end KeyStore

end SoloPool.Sv2
