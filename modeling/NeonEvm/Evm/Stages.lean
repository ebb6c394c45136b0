import NeonEvm.Evm.System

/-!
# Evm/Stages — the opcodes that open a child, one stage after another

    CALL    =  openCall >>= native contract, extension        openCall = pop · readCall · fork · …
    CREATE  =  popCreate >>= readCreate >>= openCreate

Each stage is a part of its opcode as it stands; the opcode is what the stages come to.
-/

namespace NeonEvm

open Exec ExecutorState

namespace Evm

open Locals

/-! ## Calls -/

section

variable (B : AccountStorage)

/-- What a call reads before it announces its child: the call data and the code. -/
def readCall (args : CallArgs) : EvmM (Buffer × Buffer) := do
  onLocals (modify fun l =>
    { l with
      returnData := .empty
      returnRange := ⟨args.returnOffset, wrappingAdd args.returnOffset args.returnLength⟩ })
  let callData ← onLocals (readBuffer args.argsOffset args.argsLength)
  let code ← db (ExecutorState.code B args.address)
  pure (callData, code)

/-- `opcode_call` up to its precompile. -/
def openCall : EvmM CallArgs := do
  let args ← onLocals (popCallArgs true)
  let self := (← get).env.context
  forkCall B args
    { caller := self.contract, contract := args.address, value := args.value
      codeAddress := some args.address }
  takeSnapshot
  let env := (← get).env
  failIf (env.isStatic ∧ args.value ≠ 0) (.staticModeViolation env.context.caller)
  requireBalance B args.value
  db (ExecutorState.transfer B env.context.caller env.context.contract args.value)
  pure args

/-- `opcode_callcode` up to its precompile. -/
def openCallcode : EvmM CallArgs := do
  let args ← onLocals (popCallArgs true)
  let self := (← get).env.context
  forkCall B args
    { caller := self.contract, contract := self.contract, value := args.value
      codeAddress := some args.address }
  takeSnapshot
  requireBalance B args.value
  pure args

/-- `opcode_delegatecall` up to its precompile. -/
def openDelegatecall : EvmM CallArgs := do
  let args ← onLocals (popCallArgs false)
  let self := (← get).env.context
  forkCall B args { self with codeAddress := some args.address }
  takeSnapshot
  pure args

/-- `opcode_staticcall` up to its precompile. -/
def openStaticcall : EvmM CallArgs := do
  let args ← onLocals (popCallArgs false)
  let self := (← get).env.context
  forkCall B args
    { caller := self.contract, contract := args.address, value := 0
      codeAddress := some args.address }
  modify setStatic
  takeSnapshot
  pure args

/-- **What answers a call** of the address in the frame that is open: a native contract or an
extension, over the call data. -/
def answer [Platform] (address : Address) (env : CallEnv) : Option (EvmM Bytes) :=
  match precompile address env.callData.toList with
  | some x => some (fallible x)
  | none => (callPrecompileExtension B env.context address env.callData.toList env.isStatic).map db

end

/-! ## Creations -/

/-- What a creation finds on the stack and in the memory: the address of its child, the value, and
where the code is. -/
structure CreateArgs where
  address : Address
  value : U256
  offset : ℕ
  length : ℕ

/-- What a creation does before it announces its child: it counts, and reads the code. -/
def readCreate (B : AccountStorage) (offset length : ℕ) : EvmM (Context × Buffer) := do
  let self := (← get).env.context
  failIf ((← db (ExecutorState.nonce B self.contract)) = U64_MAX) (.nonceOverflow self.contract)
  db (ExecutorState.incrementNonce self.contract)
  onLocals (modify fun l => { l with returnData := .empty, returnRange := ⟨0, 0⟩ })
  let initCode ← onLocals (readBuffer offset length)
  pure (self, initCode)

/-- What a creation does with the code that it has read. -/
def openCreate (B : AccountStorage) (address : Address) (value : U256)
    (d : Context × Buffer) : EvmM OpAction := do
  let context : Context :=
    { caller := d.1.contract, contract := address, value, codeAddress := none }
  emit (.beginVM context d.2.toList)
  let isCallerEof := hasEofMagic (← db (ExecutorState.code B context.caller))
  failIf (!isCallerEof && hasEofMagic d.2) .eofLegacyCode
  fork .create context d.2 .empty none
  takeSnapshot
  let caller := (← get).env.context.caller
  let nonce ← db (ExecutorState.nonce B address)
  failIf (nonce ≠ 0) (.deployToExistingAccount address caller)
  failIf ((← db (ExecutorState.codeSize B address)) ≠ 0)
    (.deployToExistingAccount address caller)
  requireBalance B value
  db (ExecutorState.incrementNonce address)
  db (ExecutorState.transfer B caller address value)
  pure .noop

variable [Platform]

/-- The arguments of `CREATE`. -/
def popCreate (B : AccountStorage) : EvmM CreateArgs := do
  let env := (← get).env
  if env.isStatic then fail (.staticModeViolation env.context.contract)
  else do
    let value ← onLocals popWord
    let offset ← onLocals popUsize
    let length ← onLocals popUsize
    let nonce ← db (ExecutorState.nonce B env.context.contract)
    let _ ← onLocals (readMemory offset length)
    pure ⟨Address.fromCreate env.context.contract nonce, value, offset, length⟩

/-- The arguments of `CREATE2`. -/
def popCreate2 : EvmM CreateArgs := do
  let env := (← get).env
  if env.isStatic then fail (.staticModeViolation env.context.contract)
  else do
    let value ← onLocals popWord
    let offset ← onLocals popUsize
    let length ← onLocals popUsize
    let salt ← onLocals popWord
    let initializationCode ← onLocals (readMemory offset length)
    pure ⟨Address.fromCreate2 env.context.contract salt initializationCode, value, offset, length⟩

end Evm

/-- The calls, up to their precompile. -/
def Evm.opening (B : AccountStorage) : Opcode → Option (EvmM Evm.CallArgs)
  | .sys .call => some (Evm.openCall B)
  | .sys .callcode => some (Evm.openCallcode B)
  | .sys .delegatecall => some (Evm.openDelegatecall B)
  | .sys .staticcall => some (Evm.openStaticcall B)
  | _ => none

/-- The opcodes that create, and the arguments that they pop. -/
def Evm.popCreation [Platform] (B : AccountStorage) : Opcode → Option (EvmM Evm.CreateArgs)
  | .sys .create => some (Evm.popCreate B)
  | .sys .create2 => some Evm.popCreate2
  | _ => none

/-! ## An opcode is its stages -/

section

variable {B : AccountStorage} {s : Evm} {op : Opcode}

/-- A call, up to its child. -/
theorem forkCall_eq (args : Evm.CallArgs) (context : Context) :
    Evm.forkCall B args context = (Evm.readCall B args >>= fun d =>
      Evm.emit (.beginVM context d.2.toList) >>= fun _ =>
        Evm.fork .call context d.2 d.1 (some args.gasLimit)) := by
  simp only [Evm.forkCall, Evm.readCall, bind_bind]
  rfl

/-- A creation, up to its child. -/
theorem opcodeCreateImpl_eq (address : Address) (value : U256) (offset length : ℕ) :
    Evm.opcodeCreateImpl B address value offset length =
      (Evm.readCreate B offset length >>= Evm.openCreate B address value) := by
  simp only [Evm.opcodeCreateImpl, Evm.readCreate, bind_bind]
  rfl

variable [Platform]

/-- **A call opens its frame, then its precompile answers.** -/
theorem run_opening {x : EvmM Evm.CallArgs} (h : Evm.opening B op = some x) :
    op.run B = (x >>= fun args => Evm.opcodeCallPrecompileImpl B args.address) := by
  match op, h with
  | .sys .call, h =>
    obtain rfl := Option.some.inj h
    simp only [Evm.openCall, bind_bind]
    rfl
  | .sys .callcode, h =>
    obtain rfl := Option.some.inj h
    simp only [Evm.openCallcode, bind_bind]
    rfl
  | .sys .delegatecall, h =>
    obtain rfl := Option.some.inj h
    simp only [Evm.openDelegatecall, bind_bind]
    rfl
  | .sys .staticcall, h =>
    obtain rfl := Option.some.inj h
    simp only [Evm.openStaticcall, bind_bind]
    rfl

/-- The answer is returned; where there is none, the child runs its code. -/
theorem opcodeCallPrecompileImpl_run (address : Address) :
    Evm.opcodeCallPrecompileImpl B address s = match Evm.answer B address s.env with
      | some y => (y >>= fun value => Evm.opcodeReturnImpl (.fromSlice value)) s
      | none => .ok .noop s := by
  unfold Evm.opcodeCallPrecompileImpl Evm.answer
  rw [bind_run, get_run, Outcome.ok_andThen]
  cases precompile address s.env.callData.toList with
  | some x => rfl
  | none =>
    cases callPrecompileExtension B s.env.context address s.env.callData.toList s.env.isStatic with
    | none => rfl
    | some x => rfl

/-- **What answers a call** is a computation on the database, or without state. -/
theorem sat_answer {address : Address} {env : CallEnv} {z : EvmM Bytes}
    (hz : Evm.answer B address env = some z) : (z s).Sat
      (fun _ t => t.frame = s.frame ∧ t.parents = s.parents)
      (fun _ t => t.frame = s.frame ∧ t.parents = s.parents) fun _ => True := by
  have zoomed {ρ σ α : Type} {view : Evm → σ} {put : Evm → σ → Evm} {ab : ρ → Panic}
      {x : Exec ρ Error σ α} (hset : ∀ a, (put s a).frame = s.frame ∧ (put s a).parents = s.parents) :
      (zoom view put ab x s).Sat (fun _ t => t.frame = s.frame ∧ t.parents = s.parents)
        (fun _ t => t.frame = s.frame ∧ t.parents = s.parents) fun _ => True := by
    unfold zoom
    cases x (view s) with
    | ok a t => exact hset t
    | err e t => exact hset t
    | panic p => trivial
  unfold Evm.answer at hz
  cases hp : precompile address env.callData.toList with
  | some x =>
    rw [hp] at hz
    obtain rfl := Option.some.inj hz
    exact zoomed fun _ => ⟨rfl, rfl⟩
  | none =>
    rw [hp] at hz
    obtain ⟨x, -, rfl⟩ := Option.map_eq_some_iff.1 hz
    exact zoomed fun _ => ⟨rfl, rfl⟩

theorem answer_ok {t : Evm} {address : Address} {env : CallEnv} {z : EvmM Bytes} {d : Bytes}
    (hz : Evm.answer B address env = some z) (h : z s = .ok d t) :
    t.frame = s.frame ∧ t.parents = s.parents := by
  have hs := sat_answer (s := s) hz
  rwa [h] at hs

theorem answer_err {t : Evm} {address : Address} {env : CallEnv} {z : EvmM Bytes} {e : Error}
    (hz : Evm.answer B address env = some z) (h : z s = .err e t) :
    t.frame = s.frame ∧ t.parents = s.parents := by
  have hs := sat_answer (s := s) hz
  rwa [h] at hs

theorem opcodeCreate_eq : Evm.opcodeCreate B = (Evm.popCreate B >>= fun a =>
    Evm.opcodeCreateImpl B a.address a.value a.offset a.length) := by
  refine funext fun s => ?_
  rw [Evm.opcodeCreate, Evm.popCreate, bind_bind, bind_run, bind_run]
  simp only [get_run, Outcome.ok_andThen]
  split
  · rfl
  · simp only [bind_bind]
    rfl

theorem opcodeCreate2_eq : Evm.opcodeCreate2 B = (Evm.popCreate2 >>= fun a =>
    Evm.opcodeCreateImpl B a.address a.value a.offset a.length) := by
  refine funext fun s => ?_
  rw [Evm.opcodeCreate2, Evm.popCreate2, bind_bind, bind_run, bind_run]
  simp only [get_run, Outcome.ok_andThen]
  split
  · rfl
  · simp only [bind_bind]
    rfl

/-- **A creation pops its arguments, then they are used.** -/
theorem run_popCreation {x : EvmM Evm.CreateArgs} (h : Evm.popCreation B op = some x) :
    op.run B = (x >>= fun a =>
      Evm.opcodeCreateImpl B a.address a.value a.offset a.length) := by
  match op, h with
  | .sys .create, h =>
    obtain rfl := Option.some.inj h
    exact opcodeCreate_eq
  | .sys .create2, h =>
    obtain rfl := Option.some.inj h
    exact opcodeCreate2_eq

end

end NeonEvm
