import Mathlib.Data.List.AList
import NeonEvm.Evm.Machine

/-!
# Evm/StructLogger — what a tracer makes of the events

    BeginVM    depth + 1
    EndVM      depth - 1
    BeginStep  a log, with the depth
    EndStep    completes the last log
-/

namespace NeonEvm

/-- The `Config` of a logger. -/
structure TraceConfig where
  enableMemory : Bool
  disableStorage : Bool
  disableStack : Bool
  enableReturnData : Bool

/-- `StructLog`; the operation is named by its byte. -/
structure StructLog where
  pc : ℕ
  opcode : UInt8
  depth : ℕ
  stack : Option (List U256)
  returnData : Option Bytes
  memory : Option (List Bytes)
  storage : Option (AList fun _ : U256 => U256)

/-- `StructLogger`. -/
structure StructLogger where
  config : TraceConfig
  logs : List StructLog
  depth : ℕ
  storageAccess : Option (U256 × U256)

namespace StructLogger

/-- `StructLogger::new`. -/
def new (config : TraceConfig) : StructLogger := ⟨config, [], 0, none⟩

/-- The log of a step that begins. -/
def begun (l : StructLogger) (opcode : UInt8) (pc : ℕ) (stack : List U256) (memory : Bytes) :
    StructLog where
  pc := pc
  opcode := opcode
  depth := l.depth
  stack := if l.config.disableStack then none else some stack
  returnData := none
  memory := if l.config.enableMemory then some (memory.toChunks 32) else none
  storage := none

/-- The log of a step that has ended. -/
def ended (l : StructLogger) (last : StructLog) (returnData : Option Bytes) : StructLog where
  pc := last.pc
  opcode := last.opcode
  depth := last.depth
  stack := last.stack
  returnData := if l.config.enableReturnData then returnData else last.returnData
  memory := last.memory
  storage :=
    if l.config.disableStorage then last.storage
    else match l.storageAccess with
      | some (index, value) => some ((last.storage.getD ∅).insert index value)
      | none => last.storage

/-- `StructLogger::event`; a step cannot end before one began. -/
def event (l : StructLogger) : Event → Except Fault StructLogger
  | .beginVM _ _ => .ok { l with depth := l.depth + 1 }
  | .endVM _ => .ok { l with depth := l.depth - 1 }
  | .beginStep opcode pc stack memory =>
    .ok { l with logs := l.logs ++ [l.begun opcode pc stack memory] }
  | .endStep returnData =>
    match l.logs.getLast? with
    | none => .error .unwrap
    | some last =>
      .ok { l with
        logs := l.logs.dropLast ++ [l.ended last returnData]
        storageAccess := if l.config.disableStorage then l.storageAccess else none }
  | .storageAccess index value =>
    .ok (if l.config.disableStorage then l else { l with storageAccess := some (index, value) })

/-- All events of a run. -/
def replay (l : StructLogger) (events : List Event) : Except Fault StructLogger :=
  events.foldlM event l

end StructLogger

/-- The logger that has seen the events of a machine. -/
def Evm.logger (config : TraceConfig) (s : Evm) : Option StructLogger :=
  s.tracer.bind fun events => ((StructLogger.new config).replay events).toOption

/-- The machine with one more event. -/
def Evm.traced (s : Evm) (e : Event) : Evm := { s with tracer := s.tracer.map (· ++ [e]) }

namespace StructLogger

variable {config : TraceConfig} {l : StructLogger} {s t : Evm}

/-- **One more event.** -/
theorem logger_traced (s : Evm) (e : Event) :
    (s.traced e).logger config = (s.logger config).bind fun l => (l.event e).toOption := by
  unfold Evm.logger Evm.traced
  rcases s.tracer with _ | events
  · rfl
  · simp only [Option.map_some, Option.bind_some, replay, List.foldlM_append, List.foldlM_cons,
      List.foldlM_nil]
    rcases events.foldlM event (new config) with _ | l
    · rfl
    · show (l.event e >>= pure).toOption = (l.event e).toOption
      rw [bind_pure]

theorem logger_congr (h : t.tracer = s.tracer) : t.logger config = s.logger config := by
  rw [Evm.logger, h, Evm.logger]

/-- **A step that begins** is logged with the depth. -/
theorem event_beginStep (l : StructLogger) (opcode : UInt8) (pc : ℕ) (stack : List U256)
    (memory : Bytes) :
    ∃ l', l.event (.beginStep opcode pc stack memory) = .ok l' ∧ l'.depth = l.depth ∧
      l'.logs.getLast?.map (·.depth) = some l.depth :=
  ⟨_, rfl, rfl, by rw [List.getLast?_concat]; rfl⟩

/-- **A step that ends** leaves the depth. -/
theorem event_endStep (returnData : Option Bytes) (h : l.logs ≠ []) :
    ∃ l', l.event (.endStep returnData) = .ok l' ∧ l'.depth = l.depth ∧ l'.logs ≠ [] := by
  unfold event
  rw [List.getLast?_eq_some_getLast h]
  exact ⟨_, rfl, rfl, List.append_ne_nil_of_right_ne_nil _ (List.cons_ne_nil _ _)⟩

theorem event_storageAccess (l : StructLogger) (index value : U256) :
    ∃ l', l.event (.storageAccess index value) = .ok l' ∧ l'.depth = l.depth ∧
      l'.logs = l.logs := by
  refine ⟨_, rfl, ?_, ?_⟩ <;> split_ifs <;> rfl

end StructLogger

end NeonEvm
