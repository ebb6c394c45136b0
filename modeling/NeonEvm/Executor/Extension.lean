import NeonEvm.Executor.Metaplex
import NeonEvm.Executor.NeonToken

/-!
# Executor/Extension — calling a precompile extension by its address
-/

namespace NeonEvm

namespace ExecutorState

/-- `call_precompile_extension`: nothing unless the address is an extension's. -/
def callPrecompileExtension [Platform] (B : AccountStorage) (context : Context)
    (address : Address) (input : Bytes) (isStatic : Bool) : Option (Db Bytes) :=
  if address = SYSTEM_ACCOUNT_QUERY then
    some (QueryAccount.queryAccount B address input context isStatic)
  else if address = SYSTEM_ACCOUNT_NEON_TOKEN then
    some (NeonToken.neonToken B address input context isStatic)
  else if address = SYSTEM_ACCOUNT_SPL_TOKEN then
    some (SplToken.splToken B address input context isStatic)
  else if address = SYSTEM_ACCOUNT_METAPLEX then
    some (Metaplex.metaplex B address input context isStatic)
  else none

end ExecutorState

end NeonEvm
