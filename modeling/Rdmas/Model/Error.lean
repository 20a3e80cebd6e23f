import Mathlib.Init

/-! # Errors

`RdmaError` of `error.rs`, the error type of every client and transport operation.
-/

namespace Rdmas.Model

inductive RdmaError where
  | timeout
  | casFailed
  | versionMismatch
  | kvFull
  | invalidKey
  | hardwareError (message : String)
  | notConnected
  | protocolVersionMismatch (message : String)
  | internal (message : String)
deriving DecidableEq, Repr

/-- The operation should be retried. -/
def RdmaError.isRetriable : RdmaError → Bool
  | .timeout | .casFailed | .versionMismatch | .notConnected => true
  | _ => false

end Rdmas.Model
