import NeonEvm.Evm.Buffer

/-!
# Evm/Context — what a frame is called with, and how a run ends
-/

namespace NeonEvm

/-- `Reason`: why a frame was opened. -/
inductive Reason where
  | call
  | create
  deriving DecidableEq

/-- `Context`. -/
structure Context where
  caller : Address
  contract : Address
  value : U256
  codeAddress : Option Address
  deriving DecidableEq

/-- `ExitStatus`. -/
inductive ExitStatus where
  | stop
  | ret (value : Bytes)
  | revert (value : Bytes)
  | suicide
  | stepLimit
  deriving DecidableEq

end NeonEvm
