import NeonEvm.Instruction.Deposit
import NeonEvm.Instruction.Holders
import NeonEvm.Instruction.Process

/-!
# Instruction/Entrypoint — the program is invoked

    tag :: instruction  ──parse──▸  one of the instructions, run on the accounts

What the program reads of the runtime besides the accounts is the clock and the height of the stack
of invocations.
-/

namespace NeonEvm

open Exec

/-- `EvmInstruction`. -/
inductive EvmInstruction where
  | depositV03
  | createAccountV03
  | collectTreasure
  | holderCreate
  | holderDelete
  | holderWrite
  | transactionExecuteFromInstruction
  | transactionExecuteFromAccount
  | transactionStepFromInstruction
  | transactionStepFromAccount
  | transactionStepFromAccountNoChainId
  | cancel
  | createMainTreasury
  | accountBlockAdd
  | testAccountUpdateNonce
  deriving DecidableEq

namespace EvmInstruction

/-- `parse`. -/
def parse (tag : UInt8) : Except ProgramError EvmInstruction :=
  match tag.toNat with
  | 0x1e => .ok collectTreasure
  | 0x1f => .ok transactionExecuteFromInstruction
  | 0x20 => .ok transactionStepFromInstruction
  | 0x21 => .ok transactionStepFromAccount
  | 0x22 => .ok transactionStepFromAccountNoChainId
  | 0x23 => .ok cancel
  | 0x24 => .ok holderCreate
  | 0x25 => .ok holderDelete
  | 0x26 => .ok holderWrite
  | 0x27 => .ok depositV03
  | 0x28 => .ok createAccountV03
  | 0x29 => .ok createMainTreasury
  | 0x2A => .ok transactionExecuteFromAccount
  | 0x2B => .ok accountBlockAdd
  | 0x2C => .ok testAccountUpdateNonce
  | _ => .error .invalidInstructionData

end EvmInstruction

/-- What an invocation finds of the runtime; the fuel is for the runs that the source does not
bound. -/
structure Invoked where
  clock : Clock
  stackHeight : ℕ
  fuel : ℕ

variable [Platform] [Runtime] [RlpCrate] [Config] [Bincode] [Loader]

/-- The arms of `process_instruction`. -/
def EvmInstruction.process (env : Invoked) (accounts : List AccountMeta) (instruction : Bytes) :
    EvmInstruction → Program Unit
  | holderCreate => accountHolderCreate accounts instruction
  | holderDelete => accountHolderDelete accounts
  | holderWrite => accountHolderWrite accounts instruction
  | depositV03 => neonTokensDeposit accounts instruction
  | cancel => transactionCancel env.clock accounts instruction
  | transactionExecuteFromInstruction =>
    NeonEvm.transactionExecuteFromInstruction env.fuel env.clock accounts instruction
  | transactionExecuteFromAccount =>
    NeonEvm.transactionExecuteFromAccount env.fuel env.clock accounts instruction
  | transactionStepFromInstruction =>
    NeonEvm.transactionStepFromInstruction env.clock accounts instruction
  | transactionStepFromAccount => NeonEvm.transactionStepFromAccount env.clock accounts instruction
  | transactionStepFromAccountNoChainId =>
    NeonEvm.transactionStepFromAccountNoChainId env.clock accounts instruction
  | createAccountV03 => accountCreate accounts instruction
  | collectTreasure => collectTreasury accounts instruction
  | createMainTreasury => NeonEvm.createMainTreasury accounts
  | accountBlockAdd => NeonEvm.accountBlockAdd env.stackHeight accounts
  | testAccountUpdateNonce => NeonEvm.testAccountUpdateNonce accounts instruction

/-- `process_instruction`. -/
def processInstruction (env : Invoked) (accounts : List AccountMeta) : Bytes → Program Unit
  | [] => fail (.ofProgram .invalidInstructionData)
  | tag :: instruction =>
    match EvmInstruction.parse tag with
    | .ok kind => kind.process env accounts instruction
    | .error e => fail (.ofProgram e)

end NeonEvm
