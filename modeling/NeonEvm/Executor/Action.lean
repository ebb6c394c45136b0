import NeonEvm.Platform
import NeonEvm.Evm.Buffer

/-!
# Executor/Action — the changes a run queues

Nothing is written while a contract runs; every effect becomes an `Action` of the journal, and the
journal is applied when the run has ended.
-/

namespace NeonEvm

/-- `executor::Action`. -/
inductive Action where
  | externalInstruction (programId : Pubkey) (accounts : List AccountMeta) (data : Bytes)
      (seeds : List Bytes) (fee : ℕ)
  | neonTransfer (source target : Address) (value : U256)
  | neonWithdraw (source : Address) (value : U256)
  | evmSetStorage (address : Address) (index value : U256)
  | evmIncrementNonce (address : Address)
  | evmSetCode (address : Address) (code : Buffer)
  | evmSelfDestruct (address : Address)
  deriving DecidableEq

namespace Action

/-- The accounts of an external instruction. -/
def metas : Action → List AccountMeta
  | externalInstruction _ accounts _ _ _ => accounts
  | _ => []

end Action

end NeonEvm
