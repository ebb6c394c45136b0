import NeonEvm.Instruction.BlockAdd
import NeonEvm.Instruction.HolderWrite
import NeonEvm.Instruction.Step

/-!
# Instruction/Process — the instructions that begin, continue, cancel and execute

    holder · finalized state ──begin──▸ state ──continue──▸ state … ──▸ finalized state
                                          └────────cancel─────────▸ finalized state

Each reads its accounts by their places, and its arguments from the bytes of the instruction.  What
it leaves of the accounts counts where it succeeds.
-/

namespace NeonEvm

open Exec Packable ProgramAccountStorage

/-- `GAS_LIMIT_MULTIPLIER_NO_CHAINID`. -/
def GAS_LIMIT_MULTIPLIER_NO_CHAINID : ℕ := 1000

section

variable [Platform] [Runtime] [RlpCrate]

/-- Run on the accounts that were opened, as they are now. -/
def onAccounts {α : Type} (S : ProgramAccountStorage) (x : Apply α) : Program α :=
  zoom (fun L => { S with ledger := L }) (fun _ S => S.ledger) id x

/-- `CHAIN_ID`. -/
def CHAIN_ID : U256 := BitVec.ofNat 256 Runtime.chainId

/-- The transaction in a holder. -/
def holderTransaction (key operator : Pubkey) : Program Transaction := do
  let (holder, rest) ← openAccount Holder key
  failIf (holder.owner ≠ operator) (.holderInvalidOwner holder.owner operator)
  let message ← ofOption .index (holder.transaction rest)
  let trx ← lift (Transaction.fromRlp message)
  failIf (holder.transactionHash ≠ trx.hash) (.holderInvalidHash holder.transactionHash trx.hash)
  pure trx

/-- `validate` of `transaction_execute`. -/
def validateTransaction (trx : Transaction) : Apply Unit := do
  failIf (trx.chainId ≠ some CHAIN_ID) (.invalidChainId (trx.chainId.getD 0))
  checkForBlockedAccounts

/-- `execute` of `transaction_execute`. -/
def executeTransaction (fuel : ℕ) (accounts : StepAccounts) (gasometer : Gasometer)
    (trx : Transaction) (caller : Address) : Apply Unit := do
  let operator := accounts.operator.pubkey
  onLedger (systemTransfer operator accounts.treasury PAYMENT_TO_TREASURE)
  let B := (← get).backend
  let (machine, backend) ← lift (runExecutor (.new B) (Machine.new B trx caller))
  let ((result, _), backend, _) ← lift (executeMachine B fuel U64_MAX backend machine)
  let actions ← lift backend.intoActions
  let readiness ← applyStateChange operator actions
  assertThat (readiness = .ready) .assertion
  let lamports := ((← get).ledger operator).lamports
  let usedGas := (gasometer.recordOperatorExpenses lamports).usedGas
  failIf (trx.gasLimit < usedGas) (.outOfGas trx.gasLimit usedGas)
  transferGasPayment caller accounts.operatorEtherInfo accounts.operatorEther
    accounts.operatorEtherRest (usedGas.saturatingMul trx.gasPrice)
  assertThat (result ≠ .stepLimit) .unsupported

/-- `transaction_execute_from_instruction::process`. -/
def transactionExecuteFromInstruction (fuel : ℕ) (clock : Clock) (accounts : List AccountMeta)
    (instruction : Bytes) : Program Unit := do
  let treasuryIndex ← readU32 instruction 0
  let accounts ← StepAccounts.read operatorFromAccountNotWhitelisted treasuryIndex accounts 0
  let trx ← lift (Transaction.fromRlp (instruction.drop 4))
  let caller ← lift trx.recoverCallerAddress
  let S ← ProgramAccountStorage.new clock accounts.operator accounts.systemProgram
    accounts.remainingAccounts
  let gasometer ← Gasometer.new none accounts.operator.pubkey
  let gasometer :=
    gasometer.recordSolanaTransactionCost.recordAddressLookupTable accounts.allAccounts
  onAccounts S do
    validateTransaction trx
    executeTransaction fuel accounts gasometer trx caller

/-- `transaction_execute_from_account::process`. -/
def transactionExecuteFromAccount (fuel : ℕ) (clock : Clock) (accounts : List AccountMeta)
    (instruction : Bytes) : Program Unit := do
  let treasuryIndex ← readU32 instruction 0
  let holderInfo ← ofOption .index accounts[0]?
  let _ ← openAccount Holder holderInfo.pubkey
  let accounts ← StepAccounts.read operatorFromAccountNotWhitelisted treasuryIndex accounts 1
  let trx ← holderTransaction holderInfo.pubkey accounts.operator.pubkey
  let caller ← lift trx.recoverCallerAddress
  let S ← ProgramAccountStorage.new clock accounts.operator accounts.systemProgram
    accounts.remainingAccounts
  let gasometer ← Gasometer.new none accounts.operator.pubkey
  let gasometer :=
    (gasometer.recordSolanaTransactionCost.recordAddressLookupTable
      accounts.allAccounts).recordWriteToHolder trx
  onAccounts S do
    validateTransaction trx
    executeTransaction fuel accounts gasometer trx caller

end

section

variable [Platform] [Runtime] [RlpCrate] [Config] [Bincode]

/-! ## Iterative transactions -/

/-- The gas of a first iteration. -/
def beginGas (accounts : StepAccounts) : Program Gasometer := do
  let gasometer ← Gasometer.new none accounts.operator.pubkey
  pure (gasometer.recordSolanaTransactionCost.recordAddressLookupTable
    accounts.allAccounts).recordIterativeOverhead

/-- A state that is there already: load it and go on. -/
def continueStep (clock : Clock) (stepCount : ℕ) (info : AccountMeta) (accounts : StepAccounts)
    (S : ProgramAccountStorage) : Program Unit := do
  let (state, _) ← State.restore clock info accounts.operator.pubkey accounts.remainingAccounts false
  let gasometer ← Gasometer.new (some state.data.gasUsed) accounts.operator.pubkey
  let gasometer := gasometer.recordSolanaTransactionCost
  onAccounts S (doContinue stepCount info accounts state gasometer)

/-- `transaction_step_from_instruction::process`. -/
def transactionStepFromInstruction (clock : Clock) (accounts : List AccountMeta)
    (instruction : Bytes) : Program Unit := do
  let treasuryIndex ← readU32 instruction 0
  let stepCount ← readU32 instruction 4
  assertThat (12 ≤ instruction.length) .index
  let message := instruction.drop 12
  let info ← ofOption .index accounts[0]?
  let accounts ← StepAccounts.read operatorFromAccount treasuryIndex accounts 1
  let S ← ProgramAccountStorage.new clock accounts.operator accounts.systemProgram
    accounts.remainingAccounts
  let tag ← accountTag info.pubkey
  if tag = TAG Holder ∨ tag = TAG FinalizedState then do
    let trx ← lift (Transaction.fromRlp message)
    let caller ← lift trx.recoverCallerAddress
    let state ← State.new clock info accounts caller trx
    let gasometer ← beginGas accounts
    onAccounts S (doBegin info accounts state gasometer trx caller)
  else if tag = TAG State then continueStep clock stepCount info accounts S
  else fail (.accountInvalidTag info.pubkey (TAG Holder))

/-- `execute` of `transaction_step_from_account`. -/
def executeFromAccount (clock : Clock) (info : AccountMeta) (accounts : StepAccounts)
    (S : ProgramAccountStorage) (stepCount : ℕ) (expectedChainId : Option U256) : Program Unit := do
  let tag ← accountTag info.pubkey
  if tag = TAG Holder then do
    let trx ← holderTransaction info.pubkey accounts.operator.pubkey
    failIf (trx.chainId ≠ expectedChainId) (.invalidChainId (trx.chainId.getD 0))
    let caller ← lift trx.recoverCallerAddress
    let state ← State.new clock info accounts caller trx
    let state := if expectedChainId = none then
      { state with data := { state.data with
          gasLimit := state.data.gasLimit.saturatingMul
            (BitVec.ofNat 256 GAS_LIMIT_MULTIPLIER_NO_CHAINID) } }
      else state
    let gasometer ← beginGas accounts
    onAccounts S (doBegin info accounts state (gasometer.recordWriteToHolder trx) trx caller)
  else if tag = TAG State then continueStep clock stepCount info accounts S
  else if tag = TAG FinalizedState then fail .storageAccountFinalized
  else fail (.accountInvalidTag info.pubkey (TAG Holder))

/-- `process` of `transaction_step_from_account` and of `transaction_step_from_account_no_chainid`,
which differ in the chain that they expect. -/
def stepFromAccount (expectedChainId : Option U256) (clock : Clock) (accounts : List AccountMeta)
    (instruction : Bytes) : Program Unit := do
  let treasuryIndex ← readU32 instruction 0
  let stepCount ← readU32 instruction 4
  let info ← ofOption .index accounts[0]?
  let accounts ← StepAccounts.read operatorFromAccount treasuryIndex accounts 1
  let S ← ProgramAccountStorage.new clock accounts.operator accounts.systemProgram
    accounts.remainingAccounts
  executeFromAccount clock info accounts S stepCount expectedChainId

/-- `transaction_step_from_account::process`. -/
def transactionStepFromAccount : Clock → List AccountMeta → Bytes → Program Unit :=
  stepFromAccount (some CHAIN_ID)

/-- `transaction_step_from_account_no_chainid::process`. -/
def transactionStepFromAccountNoChainId : Clock → List AccountMeta → Bytes → Program Unit :=
  stepFromAccount none

/-! ## Cancelling -/

/-- One account of a cancelled transaction. -/
def cancelAccount (caller : Address) (blocked : BlockedAccountMeta) (info : AccountMeta) :
    Program Unit := do
  if !blocked.exists_ then pure ()
  else
    match ← tryOpen EthereumAccount info.pubkey with
    | none => pure ()
    | some (d, rest) => do
      let d := { d.locked false with
        trxCount := if d.address = caller then wrappingAdd d.trxCount 1 else d.trxCount }
      assertThat info.isWritable .assertion
      modify (·.setContent info.pubkey (.ethereum d rest))

/-- `transaction_cancel::process`. -/
def transactionCancel (clock : Clock) (accounts : List AccountMeta) (instruction : Bytes) :
    Program Unit := do
  let info ← ofOption .index accounts[0]?
  let operator ← operatorFromAccount (← ofOption .index accounts[1]?)
  let incinerator ← programFromAccount Config.incineratorId (← ofOption .index accounts[2]?)
  let remainingAccounts := accounts.drop 3
  let (state, blockedAccounts) ← State.restore clock info operator remainingAccounts true
  let transactionHash := U256.ofBytes (← lift (sliceOf instruction 0 32))
  failIf (state.data.transactionHash ≠ transactionHash) (.ofProgram .invalidInstructionData)
  foldl (fun _ e => cancelAccount state.data.caller e.1 e.2) ()
    (blockedAccounts.zip remainingAccounts)
  state.data.finalize info incinerator.pubkey

end

end NeonEvm
