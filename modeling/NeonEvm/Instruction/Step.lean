import NeonEvm.Account.StateAccount
import NeonEvm.AccountStorage.Apply
import NeonEvm.Evm.Execute
import NeonEvm.Instruction.Gasometer
import NeonEvm.Instruction.Treasury

/-!
# Instruction/Step — a transaction in several instructions

    begin       check the locks · lock · new machine · save it · pay
    continue    load · execute · save it · [apply, when the run was over already] · pay
    finalize    unlock · the deposit back

The execution is saved behind the list of locked accounts, and what it asks for is applied in an
instruction of its own.  The bytes that the executor and the machine are saved as are those of
another crate.
-/

namespace NeonEvm

open Exec Packable Chunks
open BlockedAccountMeta (format)

/-- `PAYMENT_TO_TREASURE`. -/
def PAYMENT_TO_TREASURE : ℕ := 5000

/-- `EVM_STEPS_MIN`. -/
def EVM_STEPS_MIN : ℕ := 500

/-- `EVM_STEPS_LAST_ITERATION_MAX`. -/
def EVM_STEPS_LAST_ITERATION_MAX : ℕ := 1

/-- What `bincode` makes of the executor and of a machine; the buffers of a machine that stand for
an account are loaded without their bytes. -/
class Bincode where
  serializeState : ExecutorState → Bytes
  deserializeState : Bytes → Except String ExecutorState
  serializeMachine : Machine → Bytes
  deserializeMachine : Bytes → Except String Machine

/-- How an abort of the machine is reported. -/
def Panic.toFault : Panic → Fault
  | .fault f => f
  | _ => .unsupported

/-- `transaction_step::Accounts` and `transaction_execute::Accounts`. -/
structure StepAccounts where
  operator : AccountMeta
  treasury : Pubkey
  operatorEtherInfo : AccountMeta
  operatorEther : EthereumAccount
  operatorEtherRest : Bytes
  systemProgram : AccountMeta
  remainingAccounts : List AccountMeta
  allAccounts : List AccountMeta

variable [Platform] [Runtime]

/-- The accounts of an instruction, from the operator on. -/
def StepAccounts.read (operatorFromAccount : AccountMeta → Program Pubkey) (treasuryIndex : ℕ)
    (accounts : List AccountMeta) (first : ℕ) : Program StepAccounts := do
  let operator ← ofOption .index accounts[first]?
  let _ ← operatorFromAccount operator
  let treasury ← treasuryFromAccount treasuryIndex (← ofOption .index accounts[first + 1]?)
  let info ← ofOption .index accounts[first + 2]?
  let (ether, rest) ← openAccount EthereumAccount info.pubkey
  let systemProgram ← programFromAccount Platform.systemProgramId
    (← ofOption .index accounts[first + 3]?)
  let _ ← programFromAccount programId (← ofOption .index accounts[first + 4]?)
  pure ⟨operator, treasury, info, ether, rest, systemProgram, accounts.drop (first + 5), accounts⟩

/-! ## The state of a new transaction -/

namespace State

/-- The owner of an account that becomes a state. -/
def ownerOf (info : AccountMeta) (trx : Transaction) : Program Pubkey := do
  let tag ← accountTag info.pubkey
  if tag = TAG Holder then do
    pure (← fromAccount Holder info.pubkey).owner
  else if tag = TAG FinalizedState then do
    let finalized ← fromAccount FinalizedState info.pubkey
    failIf (finalized.transactionHash = trx.hash) .storageAccountFinalized
    pure finalized.owner
  else fail (.ofProgram .invalidAccountData)

/-- `write_blocked_accounts`; the state itself on the list is borrowed twice. -/
def writeBlockedAccounts (state : Handle State) (accounts : List AccountMeta) :
    Program (Handle State) := do
  assertThat (state.data.accountsLen = accounts.length) .assertion
  failIf (state.rest.length < state.data.evmDataOffset) (.ofProgram .accountDataTooSmall)
  assertThat (state.key ∉ accounts.map (·.pubkey)) .assertion
  let L ← get
  let rest := overwrite state.rest 0
    (format.row (accounts.map fun info => ⟨info.pubkey, L.accountExists info.pubkey, info.isWritable⟩))
  modify (·.setContent state.key (.state state.data rest))
  pure { state with rest }

/-- `State::new`. -/
def new (clock : Clock) (info : AccountMeta) (accounts : StepAccounts) (caller : Address)
    (trx : Transaction) : Program (Handle State) := do
  let owner ← ownerOf info trx
  let operator := accounts.operator.pubkey
  failIf (owner ≠ operator) (.ofProgram .invalidAccountData)
  let d : State :=
    { owner, caller, operator
      transactionHash := trx.hash
      gasLimit := trx.gasLimit
      gasPrice := trx.gasPrice
      gasUsed := 0
      slot := clock.slot
      accountsLen := accounts.remainingAccounts.length
      evmStateLen := 0
      evmMachineLen := 0 }
  modify fun L => L.setContent info.pubkey (.raw (0 :: (L info.pubkey).content.bytes.tail))
  initAccount info d
  systemTransfer operator info.pubkey PAYMENT_TO_DEPOSIT
  let (_, rest) ← openAccount State info.pubkey
  writeBlockedAccounts ⟨info.pubkey, d, rest⟩ accounts.remainingAccounts

end State

/-! ## Saving and loading an execution -/

section

variable [Bincode]

/-- New bytes behind the header of a state. -/
def Ledger.setStateRest (L : Ledger) (key : Pubkey) (rest : Bytes) : Ledger :=
  match (split (L key).content : Option (State × Bytes)) with
  | some (d, _) => L.setContent key (.state d rest)
  | none => L

/-- `serialize_evm_state`. -/
def serializeEvmState (state : Handle State) (backend : ExecutorState) (machine : Machine) :
    Program (Handle State) := do
  let offset := state.data.evmDataOffset
  assertThat (offset ≤ state.rest.length) .index
  let room := state.rest.length - offset
  let backendBytes := Bincode.serializeState backend
  failIf (room < backendBytes.length) (.bincodeError "io error: failed to write whole buffer")
  let evmBytes := Bincode.serializeMachine machine
  failIf (room - backendBytes.length < evmBytes.length)
    (.bincodeError "io error: failed to write whole buffer")
  let rest := overwrite state.rest offset (backendBytes ++ evmBytes)
  modify (·.setStateRest state.key rest)
  pure { state with
    data := { state.data with
      evmStateLen := backendBytes.length
      evmMachineLen := evmBytes.length }
    rest }

/-- A result of `bincode`. -/
def ofBincode {α : Type} : Except String α → Fallible α
  | .ok a => pure a
  | .error text => fail (.bincodeError text)

/-- `reinit_buffer`; the bytes of an account that was not supplied abort. -/
def reinitBuffer (B : AccountStorage) (buffer : Buffer) : Option Buffer :=
  match buffer.uninitData with
  | some (key, range) => (B.mapSolanaAccount key).map fun info =>
      .account key range ((info.data.drop range.start).take range.len)
  | none => some buffer

/-- `reinit_machine`, on one frame. -/
def reinitFrame (B : AccountStorage) (frame : Frame) : Option Frame := do
  let callData ← reinitBuffer B frame.env.callData
  let executionCode ← reinitBuffer B frame.env.executionCode
  let returnData ← reinitBuffer B frame.locals.returnData
  let container ← match frame.env.container with
    | none => some none
    | some container => do
      let code ← container.code.mapM (reinitBuffer B)
      let data ← reinitBuffer B container.data
      some (some { container with code, data })
  some ⟨{ frame.env with callData, executionCode, container }, { frame.locals with returnData }⟩

/-- `Machine::deserialize_from`. -/
def Machine.deserializeFrom (B : AccountStorage) (bytes : Bytes) : Fallible Machine := do
  let machine ← ofBincode (Bincode.deserializeMachine bytes)
  let frame ← ofOption .account (reinitFrame B machine.frame)
  let parents ← ofOption .account (machine.parents.mapM (reinitFrame B))
  pure ⟨frame, parents⟩

/-- `deserialize_evm_state`. -/
def deserializeEvmState (B : AccountStorage) (d : State) (rest : Bytes) :
    Fallible (ExecutorState × Machine) := do
  assertThat (d.evmDataOffset ≤ rest.length) .index
  let buffer := rest.drop d.evmDataOffset
  assertThat (d.evmStateLen ≤ buffer.length) .index
  let backend ← ofBincode (Bincode.deserializeState (buffer.take d.evmStateLen))
  assertThat (d.evmStateLen + d.evmMachineLen ≤ buffer.length) .index
  let machine ← Machine.deserializeFrom B ((buffer.drop d.evmStateLen).take d.evmMachineLen)
  pure (backend, machine)

/-! ## The instructions -/

open ProgramAccountStorage

/-- Run the executor on the accounts of an instruction, which it only reads. -/
def runExecutor {α : Type} (backend : ExecutorState) (x : Exec Fault Error ExecutorState α) :
    Fallible (α × ExecutorState) := fun _ =>
  match x backend with
  | .ok a b => .ok (a, b) ()
  | .err e _ => .err e ()
  | .panic p => .panic p

/-- `Machine::execute`: how it ends and the steps it took, with what is left of the executor and the
machine. -/
def executeMachine (B : AccountStorage) (fuel stepCount : ℕ) (backend : ExecutorState)
    (machine : Machine) : Fallible ((ExitStatus × ℕ) × ExecutorState × Machine) :=
  match execute B fuel stepCount ⟨machine.frame, machine.parents, backend, none⟩ with
  | some (.exited status s, steps) => pure ((status, steps), s.backend, s.machine)
  | some (.escaped e _, _) => fail e
  | some (.panicked p, _) => abort p.toFault
  | _ => abort .diverge

/-- `pay_gas_cost`. -/
def payGasCost (usedGas : U256) (accounts : StepAccounts) (state : Handle State) :
    Apply (Handle State) := do
  let value := usedGas.saturatingMul state.data.gasPrice
  let data := { state.data with gasUsed := state.data.gasUsed.saturatingAdd usedGas }
  transferGasPayment data.caller accounts.operatorEtherInfo accounts.operatorEther
    accounts.operatorEtherRest value
  pure { state with data }

/-- The journal applied, in `finalize`: the status, once everything is. -/
def applyResults (operator : Pubkey) :
    Option (ExitStatus × List Action) → Apply (Option ExitStatus)
  | none => pure none
  | some (status, actions) => do
    let readiness ← applyStateChange operator actions
    pure (if readiness = .ready then some status else none)

/-- The end of an instruction: the transaction is over, or the handle of its state is dropped. -/
def settleState (info : AccountMeta) (operator : Pubkey) (state : Handle State) :
    Option ExitStatus → Apply Unit
  | some status => do
    assertThat (status ≠ .stepLimit) .unsupported
    blockAccounts false
    onLedger (state.data.finalize info operator)
  | none => do
    assertThat info.isWritable .assertion
    onLedger (modify (·.setContent info.pubkey (.state state.data state.rest)))

/-- `finalize`. -/
def finalizeStep (stepsExecuted : ℕ) (info : AccountMeta) (accounts : StepAccounts)
    (state : Handle State) (results : Option (ExitStatus × List Action)) (gasometer : Gasometer) :
    Apply Unit := do
  let operator := accounts.operator.pubkey
  if 0 < stepsExecuted then onLedger (systemTransfer operator accounts.treasury PAYMENT_TO_TREASURE)
  else pure ()
  let exitReason ← applyResults operator results
  let lamports := ((← get).ledger operator).lamports
  let gasometer := gasometer.recordOperatorExpenses lamports
  failIf (state.data.gasLimit < gasometer.usedGasTotal)
    (.outOfGas state.data.gasLimit gasometer.usedGasTotal)
  let state ← payGasCost gasometer.usedGas accounts state
  settleState info operator state exitReason

/-- `do_begin`. -/
def doBegin (info : AccountMeta) (accounts : StepAccounts) (state : Handle State)
    (gasometer : Gasometer) (trx : Transaction) (caller : Address) : Apply Unit := do
  checkForBlockedAccounts
  blockAccounts true
  let B := (← get).backend
  let (machine, backend) ← lift (runExecutor (.new B) (Machine.new B trx caller))
  let state ← onLedger (serializeEvmState state backend machine)
  finalizeStep 0 info accounts state none gasometer

/-- What `do_continue` applies: the journal of a run that was over, or that this step ended. -/
def resultsOf (result : ExitStatus) (stepsExecuted : ℕ) (backend : ExecutorState) :
    Fallible (Option (ExitStatus × List Action)) :=
  if result = .stepLimit then pure none
  else if EVM_STEPS_LAST_ITERATION_MAX < stepsExecuted then pure none
  else do pure (some (result, ← backend.intoActions))

/-- `do_continue`; the fuel is enough for the steps. -/
def doContinue (stepCount : ℕ) (info : AccountMeta) (accounts : StepAccounts)
    (state : Handle State) (gasometer : Gasometer) : Apply Unit := do
  failIf (stepCount < EVM_STEPS_MIN && 0 < state.data.gasPrice)
    (.custom s!"Step limit {stepCount} below minimum {EVM_STEPS_MIN}")
  let B := (← get).backend
  let (backend, machine) ← lift (deserializeEvmState B state.data state.rest)
  let ((result, stepsExecuted), backend, machine) ← match backend.exitStatus with
    | some status => pure ((status, 0), backend, machine)
    | none => lift (executeMachine B (stepCount + 2) stepCount backend machine)
  let backend := if result ≠ .stepLimit && 0 < stepsExecuted then
    { backend with exitStatus := some result } else backend
  let state ← if 0 < stepsExecuted then onLedger (serializeEvmState state backend machine)
    else pure state
  let results ← lift (resultsOf result stepsExecuted backend)
  finalizeStep stepsExecuted info accounts state results gasometer

end

end NeonEvm
