import SoloPool.Bitcoin.Template

/-!
# Stratum V1 work

`build_notify` of `network/session.rs` and `ResponseBuilder::notify` of `protocol/sv1.rs`: the parameters of
`mining.notify`, each in the text form it is sent in.
-/

namespace SoloPool
open Lib

structure Notify where
  jobId : String
  prevHash : String
  coinbase1 : String
  coinbase2 : String
  merkleBranch : List String
  version : String
  bits : String
  ntime : String
  cleanJobs : Bool
  deriving DecidableEq

def buildNotify (job : StratumJob) (clean : Bool) : Notify where
  jobId := job.jobId
  prevHash := job.prevHash
  coinbase1 := hexEncode job.coinbase1
  coinbase2 := hexEncode job.coinbase2
  merkleBranch := job.merkleBranch
  version := hex08 job.version
  bits := job.bits
  ntime := hex08 job.curTime
  cleanJobs := clean

end SoloPool
