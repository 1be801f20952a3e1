import SoloPool.Error

/-!
# The node's answers

`bitcoin/rpc.rs`: a call that may be made twice, and what the pool makes of the answer to `submitblock`.
-/

namespace SoloPool
open Lib

inductive JsonResult where
  | null
  | string (value : String)
  | other
  deriving DecidableEq

/-- `call_with_refresh` with the outcome of the call, and of the second one made when the cookie file has changed. -/
def callWithRefresh {α : Type} (first : Result α) (refreshed : Option (Result α)) : Result α :=
  match first with
  | .err e => refreshed.getD (.err e)
  | outcome => outcome

def submitBlock (first : Result JsonResult) (refreshed : Option (Result JsonResult)) : Result Unit := do
  match ← callWithRefresh first refreshed with
  | .null => return ()
  | .string "duplicate" | .string "duplicate-inconclusive" => return ()
  | .string "inconclusive" => return ()
  | .string reason => .err (.submitBlockRejected reason)
  | .other => .err (.other .unexpectedSubmitblockResponse)

end SoloPool
