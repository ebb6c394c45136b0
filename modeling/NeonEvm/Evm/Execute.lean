import NeonEvm.Evm.OpcodeTable
import NeonEvm.Types.Transaction

/-!
# Evm/Execute — building a machine and running it

    new       check the transaction · consume the nonce · snapshot · transfer
    execute   fetch · opcode [· revert the frame that failed] · next, up to the step limit

One turn of the loop is at most two steps of `micro`: the opcode, and what reverts its frame if it
fails.  The table is chosen once, when `execute` is entered.
-/

namespace NeonEvm

open Exec

/-! ## A new machine -/

namespace Machine

open ExecutorState (onDatabase)

/-- The first frame of a run. -/
def first (trx : Transaction) (origin : Address) (context : Context) (reason : Reason)
    (executionCode callData : Buffer) (container : Option Container) : Machine where
  frame := {
    env := {
      origin, context, executionCode, container, callData, reason
      gasPrice := trx.gasPrice
      gasLimit := trx.gasLimit
      isStatic := false }
    locals := Locals.new }
  parents := []

variable [Platform] (B : AccountStorage)

/-- `Machine::new_call`. -/
def newCall (trx : Transaction) (origin target : Address) : Exec Fault Error ExecutorState Machine := do
  onDatabase (ExecutorState.incrementNonce origin)
  modify ExecutorState.snapshot
  onDatabase (ExecutorState.transfer B origin target trx.value)
  let executionCode ← onDatabase (ExecutorState.code B target)
  let container ← lift (containerOf .call executionCode)
  let context : Context :=
    { caller := origin, contract := target, value := trx.value, codeAddress := some target }
  pure (first trx origin context .call executionCode trx.callData container)

/-- `Machine::new_create`. -/
def newCreate (trx : Transaction) (origin : Address) : Exec Fault Error ExecutorState Machine := do
  let target := Address.fromCreate origin trx.nonce
  failIf ((← onDatabase (ExecutorState.nonce B target)) ≠ 0) (.deployToExistingAccount target origin)
  failIf ((← onDatabase (ExecutorState.codeSize B target)) ≠ 0)
    (.deployToExistingAccount target origin)
  onDatabase (ExecutorState.incrementNonce origin)
  modify ExecutorState.snapshot
  onDatabase (ExecutorState.incrementNonce target)
  onDatabase (ExecutorState.transfer B origin target trx.value)
  let container ← lift (containerOf .create trx.callData)
  let context : Context :=
    { caller := origin, contract := target, value := trx.value, codeAddress := none }
  pure (first trx origin context .create trx.callData .empty container)

/-- The checks of `Machine::new`. -/
def checkTransaction (trx : Transaction) (origin : Address) : Db Unit := do
  let originNonce ← ExecutorState.nonce B origin
  failIf (originNonce = U64_MAX) (.nonceOverflow origin)
  failIf (originNonce ≠ trx.nonce) (.invalidTransactionNonce origin originNonce trx.nonce)
  failIf (trx.chainId.any (ExecutorState.chainId B ≠ ·)) (.invalidChainId (trx.chainId.getD 0))
  failIf ((← ExecutorState.balance B origin) < trx.value) (.insufficientBalance origin trx.value)
  failIf ((← ExecutorState.codeSize B origin) ≠ 0) (.senderHasDeployedCode origin)

/-- `Machine::new`. -/
def new (trx : Transaction) (origin : Address) : Exec Fault Error ExecutorState Machine := do
  onDatabase (checkTransaction B trx origin)
  match trx.target with
  | some target => newCall B trx origin target
  | none => newCreate B trx origin

end Machine

/-! ## One turn -/

/-- How far a run is: between two opcodes, behind an opcode that failed, or over. -/
inductive Progress where
  | running (s : Evm)
  | failed (e : Error) (s : Evm)
  | exited (status : ExitStatus) (s : Evm)
  | escaped (e : Error) (s : Evm)
  | panicked (p : Panic)

namespace OpAction

/-- The status a run exits with. -/
def exit? : OpAction → Option ExitStatus
  | stop => some .stop
  | ret value => some (.ret value)
  | revert value => some (.revert value)
  | suicide => some .suicide
  | _ => none

/-- Move the program counter. -/
def movePc (l : Locals) : OpAction → Locals
  | .continue => { l with pc := l.pc + 1 }
  | jump target => { l with pc := target }
  | codeSection section_ pc => { l with codeSection := section_, pc := pc }
  | _ => l

/-- The data of the event that ends a step. -/
def returned : OpAction → Option Bytes
  | ret value | revert value => some value
  | _ => none

end OpAction

namespace Evm

/-- `trace_end_step!` at the end of a turn. -/
def traceEndStep (a : OpAction) (s : Evm) : Evm :=
  if a = .noop then s
  else { s with tracer := s.tracer.map (· ++ [.endStep a.returned]) }

/-- The next opcode byte. -/
def fetch : EvmM UInt8 := do
  let s ← get
  let l := s.frame.locals
  match getCode s.env l with
  | .error f => abort (.fault f)
  | .ok code =>
    let opcode := code.getOrDefault l.pc
    emit (.beginStep opcode l.pc l.stack.words.reverse (l.memory.data.take l.memory.size))
    pure opcode

/-- What a turn does with the result of its opcode. -/
def conclude (a : OpAction) (s : Evm) : Progress :=
  let s := traceEndStep a s
  match a.exit? with
  | some status => .exited status s
  | none => .running (s.setLocals (a.movePc s.frame.locals))

variable [Platform] (B : AccountStorage)

/-- Run the next opcode under one of the two tables. -/
def runOpcode (isEof : Bool) : EvmM OpAction := do
  (tableOf isEof (← fetch)).run B

/-- What the loop does when an opcode fails: revert the frame with the text of the error. -/
def handleError (e : Error) : EvmM OpAction := opcodeRevertImpl (Buffer.fromSlice e.revertMessage)

end Evm

section

variable [Platform] (B : AccountStorage)

/-- One step: an opcode, or what follows an opcode that failed. -/
def micro (isEof : Bool) : Progress → Progress
  | .running s =>
    match Evm.runOpcode B isEof s with
    | .ok a s => Evm.conclude a s
    | .err e s => .failed e s
    | .panic p => .panicked p
  | .failed e s =>
    match Evm.handleError e s with
    | .ok a s => Evm.conclude a s
    | .err e s => .escaped e s
    | .panic p => .panicked p
  | p => p

/-- One turn of the loop. -/
def turn (isEof : Bool) (s : Evm) : Progress :=
  match micro B isEof (.running s) with
  | .failed e s => micro B isEof (.failed e s)
  | p => p

/-- The loop, from a number of steps on; the counter is a `u64`. -/
def runLoop (isEof : Bool) : (fuel step limit : ℕ) → Evm → Option (Progress × ℕ)
  | 0, _, _, _ => none
  | fuel + 1, step, limit, s =>
    let step := (step + 1) % USIZE
    if limit < step then some (.exited .stepLimit s, step)
    else
      match turn B isEof s with
      | .running s => runLoop isEof fuel step limit s
      | p => some (p, step)

/-- What `execute` does before its loop: a precompile contract answers at once. -/
def enterVM : EvmM (Option ExitStatus) := do
  let s ← get
  let env := s.env
  match getCode env s.frame.locals with
  | .error f => abort (.fault f)
  | .ok code =>
    assertThat
      (code.isInitialized && env.callData.isInitialized
        && s.frame.locals.returnData.isInitialized)
      (.fault .assertion)
    Evm.emit (.beginVM env.context env.executionCode.toList)
    if isPrecompileAddress env.context.contract then do
      let value ← Evm.fallible
        ((precompile env.context.contract env.callData.toList).getD (abort .unwrap))
      Evm.dbStack ExecutorState.commitSnapshot
      pure (some (.ret value))
    else pure none

/-- The state in which the loop is entered. -/
def enter (s : Evm) : Progress :=
  match enterVM s with
  | .ok none s => .running s
  | .ok (some status) s => .exited status s
  | .err e s => .escaped e s
  | .panic p => .panicked p

/-- The kind of table that `execute` chooses. -/
def entryTable (s : Evm) : Bool := s.env.container.isSome

/-- The event that ends a run. -/
def Progress.traceEnd : Progress → Progress
  | .exited status s =>
    .exited status { s with tracer := s.tracer.map (· ++ [.endVM status]) }
  | p => p

/-- `Machine::execute`: where it ends and the number of steps it counted, nothing if the fuel does
not last. -/
def execute (fuel stepLimit : ℕ) (s : Evm) : Option (Progress × ℕ) :=
  match enter s with
  | .running t => (runLoop B (entryTable s) fuel 0 stepLimit t).map fun (p, n) => (p.traceEnd, n)
  | p => some (p.traceEnd, 0)

end

end NeonEvm
