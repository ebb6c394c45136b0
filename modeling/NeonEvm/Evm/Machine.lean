import NeonEvm.Evm.Memory
import NeonEvm.Evm.Precompile
import NeonEvm.Evm.Stack
import NeonEvm.Evm.Validate
import NeonEvm.Executor.Extension

/-!
# Evm/Machine — a frame, its parents, and the database under them

    Evm = frame · parents (the nearest first) · executor state · tracer

A frame is split into what its caller fixed (`CallEnv`) and what its own opcodes change (`Locals`).
`fork` puts a child on top; `join` takes it off.
-/

namespace NeonEvm

open Exec

/-- `ReturnContext`. -/
structure ReturnContext where
  codeSection : ℕ
  pc : ℕ
  stackHeight : ℕ
  deriving DecidableEq

/-- The part of a machine that stays as the caller made it. -/
structure CallEnv where
  origin : Address
  context : Context
  gasPrice : U256
  gasLimit : U256
  executionCode : Buffer
  container : Option Container
  callData : Buffer
  isStatic : Bool
  reason : Reason
  deriving DecidableEq

/-- The part of a machine that its opcodes change.  `returnStack` has the last entry first. -/
structure Locals where
  returnData : Buffer
  returnRange : Range
  stack : Stack
  memory : Memory
  pc : ℕ
  codeSection : ℕ
  returnStack : List ReturnContext
  deriving DecidableEq

/-- The locals of a frame that has just been opened. -/
def Locals.new : Locals where
  returnData := .empty
  returnRange := ⟨0, 0⟩
  stack := .new
  memory := .new
  pc := 0
  codeSection := 0
  returnStack := [⟨0, 0, 0⟩]

/-- A machine without its parent. -/
structure Frame where
  env : CallEnv
  locals : Locals
  deriving DecidableEq

/-- `Machine`: the current frame and its chain of parents, the nearest first. -/
structure Machine where
  frame : Frame
  parents : List Frame
  deriving DecidableEq

/-- `tracing::Event`. -/
inductive Event where
  | beginVM (context : Context) (code : Bytes)
  | endVM (status : ExitStatus)
  | beginStep (opcode : UInt8) (pc : ℕ) (stack : List U256) (memory : Bytes)
  | endStep (returnData : Option Bytes)
  | storageAccess (index value : U256)
  deriving DecidableEq

/-- A machine, the executor's state it runs against, and the events a tracer has seen; there is no
tracer on the chain. -/
structure Evm where
  frame : Frame
  parents : List Frame
  backend : ExecutorState
  tracer : Option (List Event)

/-- A computation on the whole. -/
abbrev EvmM (α : Type) : Type := Exec Panic Error Evm α

/-- A computation on the locals of the current frame. -/
abbrev LocalM (α : Type) : Type := Exec Fault Error Locals α

namespace Evm

def machine (s : Evm) : Machine := ⟨s.frame, s.parents⟩

def env (s : Evm) : CallEnv := s.frame.env

def setBackend (s : Evm) (b : ExecutorState) : Evm := { s with backend := b }

def setLocals (s : Evm) (l : Locals) : Evm := { s with frame := { s.frame with locals := l } }

/-- Run on the database. -/
def db {α : Type} (x : Db α) : EvmM α :=
  zoom (·.backend) setBackend Panic.fault (ExecutorState.onDatabase x)

/-- Take a snapshot back, one way or the other. -/
def dbStack {α : Type} (x : Exec Panic Error ExecutorState α) : EvmM α :=
  zoom (·.backend) setBackend id x

/-- Run on the locals of the current frame. -/
def onLocals {α : Type} (x : LocalM α) : EvmM α := zoom (·.frame.locals) setLocals Panic.fault x

/-- Run a function without state. -/
def fallible {α : Type} (x : Fallible α) : EvmM α :=
  zoom (fun _ => ()) (fun s _ => s) Panic.fault x

/-- `tracing_event!`. -/
def emit (e : Event) : EvmM Unit := modify fun s => { s with tracer := s.tracer.map (· ++ [e]) }

end Evm

/-! ## Code -/

/-- `Machine::get_code`. -/
def getCode (env : CallEnv) (l : Locals) : Except Fault Buffer :=
  match env.container with
  | none => .ok env.executionCode
  | some container =>
    match container.code[l.codeSection]? with
    | some code => .ok code
    | none => .error .index

/-- The container of code that has one. -/
def containerOf (reason : Reason) (executionCode : Buffer) : Fallible (Option Container) := do
  if hasEofMagic executionCode then do
    let container ← Container.unmarshalBinary executionCode
    if reason = .create then container.validateContainer
    pure (some container)
  else pure none

namespace Evm

/-- `Machine::fork`. -/
def fork (reason : Reason) (context : Context) (executionCode callData : Buffer)
    (gasLimit : Option U256) : EvmM Unit := do
  let container ← fallible (containerOf reason executionCode)
  modify fun s =>
    { s with
      frame := {
        env := { s.env with
          context, executionCode, container, callData, reason
          gasLimit := gasLimit.getD s.env.gasLimit }
        locals := Locals.new }
      parents := s.frame :: s.parents }

/-- `Machine::join`: the child that was on top. -/
def join : EvmM Frame := fun s =>
  match s.parents with
  | [] => .panic (.fault .assertion)
  | parent :: parents => .ok s.frame { s with frame := parent, parents := parents }

end Evm

end NeonEvm
