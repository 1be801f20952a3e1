import SoloPool.Lib.Hex

/-!
# Pool errors

`PoolError` of `error.rs`, less the variants no modelled function builds. `OtherError` names the texts wrapped in
`PoolError::Other`, each with the values its message shows.
-/

namespace SoloPool
open Lib

inductive OtherError where
  | invalidCoinbaseAddress (reason : String)
  | witnessCommitmentHex (e : FromHexError)
  | extranonceSentinelNotFound
  | malformedTxid (txid : String)
  | invalidPrevHashHex
  | prevHashNot32Bytes
  | invalidBits (bits : String)
  | bitsOverflow (bits : UInt32)
  | unexpectedSubmitblockResponse
  | submitblockTaskPanicked
  | submitblockNeverAttempted
  | missingField (key : String)
  deriving DecidableEq, Repr

/-- A `bitcoincore_rpc::Error`: an error object the node answered with (its code), or a call that failed otherwise. -/
inductive RpcError where
  | jsonRpc (code : Int)
  | transport
  deriving DecidableEq, Repr

inductive PoolError where
  | notSubscribed
  | notAuthorized
  | invalidParams (method detail : String)
  | staleJob (jobId : String)
  | duplicateShare
  | lowDifficulty
  | invalidHeader
  | badExtranonceSize (got expected : Nat)
  | rpc (e : RpcError)
  | submitBlockRejected (reason : String)
  | other (e : OtherError)
  deriving DecidableEq, Repr

abbrev Result := Outcome PoolError

end SoloPool
