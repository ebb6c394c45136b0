import NeonEvm.Evm.Opcode

/-!
# Evm/System — the opcodes that touch the journal or the chain of frames

    enter   fork · snapshot · checks · transfer · precompile
    leave   commit or revert · join · deliver to the caller

Every one of them keeps frames and snapshots in step by hand.
-/

namespace NeonEvm

open Exec

/-- `opcode::Action`. -/
inductive OpAction where
  | continue
  | jump (target : ℕ)
  | stop
  | ret (value : Bytes)
  | revert (value : Bytes)
  | codeSection (section_ pc : ℕ)
  | suicide
  | noop
  deriving DecidableEq

/-- A local action among all of them. -/
def LocalAction.toOpAction : LocalAction → OpAction
  | .continue => .continue
  | .jump target => .jump target
  | .codeSection section_ pc => .codeSection section_ pc

namespace Evm

open Locals

/-! ## Leaving a frame -/

/-- What a caller finds when its child is gone: the bytes written to its return range, and the word
pushed. -/
def deliver (bytes : Bytes) (word : U256) : LocalM Unit := do
  writeRange (← get).returnRange bytes
  pushWord word

/-- What is delivered depends on why the child was opened. -/
def deliverTo (reason : Reason) (call create : LocalM Unit) : LocalM Unit :=
  match reason with
  | .call => call
  | .create => create

/-- The events of a frame's end. -/
def emitEnd (status : ExitStatus) (returnData : Option Bytes) : EvmM Unit := do
  emit (.endStep returnData)
  emit (.endVM status)

/-- Leave the current frame, its snapshot taken back already: exit if it is the first one, else
deliver to the caller. -/
def leave (exit : OpAction) (status : ExitStatus) (returnData : Option Bytes)
    (delivery : Frame → LocalM Unit) : EvmM OpAction := do
  if (← get).parents = [] then pure exit
  else do
    emitEnd status returnData
    let returned ← join
    onLocals (delivery returned)
    pure .continue

/-- The tail of `opcode_stop` and `opcode_selfdestruct`: commit, and leave without data. -/
def leaveEmpty (exit : OpAction) (status : ExitStatus) : EvmM OpAction := do
  dbStack ExecutorState.commitSnapshot
  leave exit status none fun returned =>
    deliverTo returned.env.reason (deliver [] (wordOfBool true)) (pushWord 0)

/-- What a constructor returns is checked like a container and stored; nothing is left of it. -/
def storeCode (contract : Address) (code : Buffer) : EvmM Buffer := do
  let _ ← fallible (containerOf .create code)
  db (ExecutorState.setCode contract code)
  pure .empty

/-- `opcode_return_impl`. -/
def opcodeReturnImpl (data : Buffer) : EvmM OpAction := do
  let env := (← get).env
  let returnData ← if env.reason = .create then storeCode env.context.contract data else pure data
  dbStack ExecutorState.commitSnapshot
  leave (.ret returnData.toList) (.ret returnData.toList) (some returnData.toList) fun returned =>
    deliverTo returned.env.reason
      (do
        deliver returnData.toList (wordOfBool true)
        modify fun l => { l with returnData := returnData })
      (pushAddress returned.env.context.contract)

/-- `opcode_revert_impl`. -/
def opcodeRevertImpl (returnData : Buffer) : EvmM OpAction := do
  dbStack ExecutorState.revertSnapshot
  leave (.revert returnData.toList) (.revert returnData.toList) (some returnData.toList)
    fun returned => do
      deliverTo returned.env.reason (deliver returnData.toList (wordOfBool false)) (pushWord 0)
      modify fun l => { l with returnData := returnData }

/-- `opcode_stop`. -/
def opcodeStop : EvmM OpAction := leaveEmpty .stop .stop

section

variable [Platform] (B : AccountStorage)

/-- `opcode_selfdestruct`. -/
def opcodeSelfdestruct : EvmM OpAction := do
  let env := (← get).env
  if env.isStatic then fail (.staticModeViolation env.context.contract)
  else do
    let address ← onLocals popAddress
    let value ← db (ExecutorState.balance B env.context.contract)
    db (ExecutorState.transfer B env.context.contract address value)
    db (ExecutorState.selfdestruct env.context.contract)
    leaveEmpty .suicide .suicide

/-- `opcode_return`. -/
def opcodeReturn : EvmM OpAction := do
  let offset ← onLocals popUsize
  let length ← onLocals popUsize
  opcodeReturnImpl (← onLocals (readBuffer offset length))

/-- `opcode_revert`. -/
def opcodeRevert : EvmM OpAction := do
  let offset ← onLocals popUsize
  let length ← onLocals popUsize
  opcodeRevertImpl (← onLocals (readBuffer offset length))

/-- `opcode_retf`: a return from the first function of a frame stops without leaving it. -/
def opcodeRetf : EvmM OpAction := do
  match (← get).frame.locals.returnStack with
  | [] => fail .emptyStack
  | retCtx :: returnStack =>
    onLocals (modify fun l => { l with returnStack := returnStack })
    if returnStack = [] then pure .stop
    else pure (.codeSection retCtx.codeSection retCtx.pc)

/-! ## Storage -/

/-- `opcode_sload`. -/
def opcodeSload : EvmM OpAction := do
  let index ← onLocals popWord
  let value ← db (ExecutorState.storage B (← get).env.context.contract index)
  emit (.storageAccess index value)
  onLocals (pushWord value)
  pure .continue

/-- `opcode_sstore`. -/
def opcodeSstore : EvmM OpAction := do
  let env := (← get).env
  if env.isStatic then fail (.staticModeViolation env.context.contract)
  else do
    let index ← onLocals popWord
    let value ← onLocals popWord
    emit (.storageAccess index value)
    db (ExecutorState.setStorage env.context.contract index value)
    pure .continue

/-! ## Calls -/

/-- `opcode_call_precompile_impl`: a precompile or an extension returns at once. -/
def opcodeCallPrecompileImpl (address : Address) : EvmM OpAction := do
  let env := (← get).env
  let result :=
    match precompile address env.callData.toList with
    | some x => some (fallible x)
    | none =>
      (ExecutorState.callPrecompileExtension B env.context address env.callData.toList
        env.isStatic).map db
  match result with
  | some x => opcodeReturnImpl (Buffer.fromSlice (← x))
  | none => pure .noop

/-- The words popped by a call. -/
structure CallArgs where
  gasLimit : U256
  address : Address
  value : U256
  argsOffset : ℕ
  argsLength : ℕ
  returnOffset : ℕ
  returnLength : ℕ

/-- Pop the words of a call, with or without a value. -/
def popCallArgs (withValue : Bool) : LocalM CallArgs := do
  let gasLimit ← popWord
  let address ← popAddress
  let value ← if withValue then popWord else pure 0
  let argsOffset ← popUsize
  let argsLength ← popUsize
  let returnOffset ← popUsize
  let returnLength ← popUsize
  pure ⟨gasLimit, address, value, argsOffset, argsLength, returnOffset, returnLength⟩

/-- What the four calls share: forget the last result, read the call data and the code, and fork. -/
def forkCall (args : CallArgs) (context : Context) : EvmM Unit := do
  onLocals (modify fun l =>
    { l with
      returnData := .empty
      returnRange := ⟨args.returnOffset, wrappingAdd args.returnOffset args.returnLength⟩ })
  let callData ← onLocals (readBuffer args.argsOffset args.argsLength)
  let code ← db (ExecutorState.code B args.address)
  emit (.beginVM context code.toList)
  fork .call context code callData (some args.gasLimit)

/-- `backend.snapshot()`. -/
def takeSnapshot : EvmM Unit := modify fun s => s.setBackend s.backend.snapshot

/-- Fail unless the caller of the current frame has the value. -/
def requireBalance (value : U256) : EvmM Unit := do
  let caller := (← get).env.context.caller
  failIf ((← db (ExecutorState.balance B caller)) < value) (.insufficientBalance caller value)

/-- `opcode_call`. -/
def opcodeCall : EvmM OpAction := do
  let args ← onLocals (popCallArgs true)
  let self := (← get).env.context
  forkCall B args
    { caller := self.contract, contract := args.address, value := args.value
      codeAddress := some args.address }
  takeSnapshot
  let env := (← get).env
  failIf (env.isStatic ∧ args.value ≠ 0) (.staticModeViolation env.context.caller)
  requireBalance B args.value
  db (ExecutorState.transfer B env.context.caller env.context.contract args.value)
  opcodeCallPrecompileImpl B args.address

/-- `opcode_callcode`: the value must be there, and stays where it is. -/
def opcodeCallcode : EvmM OpAction := do
  let args ← onLocals (popCallArgs true)
  let self := (← get).env.context
  forkCall B args
    { caller := self.contract, contract := self.contract, value := args.value
      codeAddress := some args.address }
  takeSnapshot
  requireBalance B args.value
  opcodeCallPrecompileImpl B args.address

/-- `opcode_delegatecall`. -/
def opcodeDelegatecall : EvmM OpAction := do
  let args ← onLocals (popCallArgs false)
  let self := (← get).env.context
  forkCall B args { self with codeAddress := some args.address }
  takeSnapshot
  opcodeCallPrecompileImpl B args.address

/-- Make the current frame static. -/
def setStatic (s : Evm) : Evm :=
  { s with frame := { s.frame with env := { s.frame.env with isStatic := true } } }

/-- `opcode_staticcall`. -/
def opcodeStaticcall : EvmM OpAction := do
  let args ← onLocals (popCallArgs false)
  let self := (← get).env.context
  forkCall B args
    { caller := self.contract, contract := args.address, value := 0
      codeAddress := some args.address }
  modify setStatic
  takeSnapshot
  opcodeCallPrecompileImpl B args.address

/-! ## Creation -/

/-- `opcode_create_impl`. -/
def opcodeCreateImpl (address : Address) (value : U256) (offset length : ℕ) : EvmM OpAction := do
  let self := (← get).env.context
  failIf ((← db (ExecutorState.nonce B self.contract)) = U64_MAX) (.nonceOverflow self.contract)
  db (ExecutorState.incrementNonce self.contract)
  onLocals (modify fun l => { l with returnData := .empty, returnRange := ⟨0, 0⟩ })
  let initCode ← onLocals (readBuffer offset length)
  let context : Context :=
    { caller := self.contract, contract := address, value, codeAddress := none }
  emit (.beginVM context initCode.toList)
  let isCallerEof := hasEofMagic (← db (ExecutorState.code B context.caller))
  failIf (!isCallerEof && hasEofMagic initCode) .eofLegacyCode
  fork .create context initCode .empty none
  takeSnapshot
  let caller := (← get).env.context.caller
  let nonce ← db (ExecutorState.nonce B address)
  failIf (nonce ≠ 0) (.deployToExistingAccount address caller)
  failIf ((← db (ExecutorState.codeSize B address)) ≠ 0) (.deployToExistingAccount address caller)
  requireBalance B value
  db (ExecutorState.incrementNonce address)
  db (ExecutorState.transfer B caller address value)
  pure .noop

/-- `opcode_create`. -/
def opcodeCreate : EvmM OpAction := do
  let env := (← get).env
  if env.isStatic then fail (.staticModeViolation env.context.contract)
  else do
    let value ← onLocals popWord
    let offset ← onLocals popUsize
    let length ← onLocals popUsize
    let nonce ← db (ExecutorState.nonce B env.context.contract)
    let _ ← onLocals (readMemory offset length)
    let createdAddress := Address.fromCreate env.context.contract nonce
    opcodeCreateImpl B createdAddress value offset length

/-- `opcode_create2`. -/
def opcodeCreate2 : EvmM OpAction := do
  let env := (← get).env
  if env.isStatic then fail (.staticModeViolation env.context.contract)
  else do
    let value ← onLocals popWord
    let offset ← onLocals popUsize
    let length ← onLocals popUsize
    let salt ← onLocals popWord
    let initializationCode ← onLocals (readMemory offset length)
    let createdAddress := Address.fromCreate2 env.context.contract salt initializationCode
    opcodeCreateImpl B createdAddress value offset length

end

end Evm

/-! ## Opcodes -/

/-- The opcodes of this module. -/
inductive SysOp where
  | sload
  | sstore
  | create
  | create2
  | call
  | callcode
  | delegatecall
  | staticcall
  | ret
  | revert
  | stop
  | selfdestruct
  | retf
  deriving DecidableEq

namespace SysOp

/-- What the opcode does. -/
def run [Platform] (B : AccountStorage) : SysOp → EvmM OpAction
  | sload => Evm.opcodeSload B
  | sstore => Evm.opcodeSstore
  | create => Evm.opcodeCreate B
  | create2 => Evm.opcodeCreate2 B
  | call => Evm.opcodeCall B
  | callcode => Evm.opcodeCallcode B
  | delegatecall => Evm.opcodeDelegatecall B
  | staticcall => Evm.opcodeStaticcall B
  | ret => Evm.opcodeReturn
  | revert => Evm.opcodeRevert
  | stop => Evm.opcodeStop
  | selfdestruct => Evm.opcodeSelfdestruct B
  | retf => Evm.opcodeRetf

end SysOp

/-- An entry of the opcode table. -/
inductive Opcode where
  | loc (op : LocalOp)
  | sys (op : SysOp)

/-- Run an opcode. -/
def Opcode.run [Platform] (B : AccountStorage) : Opcode → EvmM OpAction
  | loc op => fun s =>
    (Evm.onLocals (do pure (← op ⟨B, s.env, s.backend.toDatabase⟩).toOpAction)) s
  | sys op => op.run B

end NeonEvm
