import Floodgate.Text.Quoted
import Floodgate.Text.Token
/-!
# Floodgate.StoreError

**Why a status could not be stored.** The causes are shared by every backend; `message` is the
one place with their wording.
-/

namespace Floodgate

/-- Why a status could not be stored. -/
inductive StoreError where
  /-- The lock data holds a token with a meaning of its own. -/
  | invalidLockData (data token : String)
  /-- No status stream is open to the peer. -/
  | disconnected (peer : String)
  /-- The hash server failed. -/
  | redis
  /-- A remote call failed. -/
  | rpc
  /-- The store has been shut down. -/
  | shutDown
  deriving DecidableEq, Repr

namespace StoreError

/-- The wording of the error. -/
def message : StoreError → String
  | invalidLockData data token =>
    "lock data " ++ Text.quoted data ++ " contains reserved token " ++ Text.quoted token
  | disconnected peer => "peer '" ++ peer ++ "' has no open status stream"
  | redis => "redis error"
  | rpc => "rpc failed"
  | shutDown => "store has been shut down"

end StoreError

end Floodgate
