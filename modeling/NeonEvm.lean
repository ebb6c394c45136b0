import NeonEvm.Executor.Crash
import NeonEvm.Evm.InStep
import NeonEvm.Evm.EofCodec
import NeonEvm.Evm.Accepted
import NeonEvm.Evm.MemoryRuns
import NeonEvm.Evm.Escape
import NeonEvm.Types.OneEncoding
import NeonEvm.Account.PageSeed
import NeonEvm.AccountStorage.History
import NeonEvm.AccountStorage.SlotHash
import NeonEvm.AccountStorage.Funds
import NeonEvm.Evm.Signed
import NeonEvm.Evm.Creation
import NeonEvm.Evm.Jumpdest
import NeonEvm.Evm.CallResult
import NeonEvm.Emulator.Storage
import NeonEvm.Emulator.CodeHash
import NeonEvm.Emulator.Overrides
import NeonEvm.Evm.PastTheEnd
import NeonEvm.Evm.PrecompileInputs
import NeonEvm.AccountStorage.PageMap
import NeonEvm.Lib.Refine
import NeonEvm.Evm.RawStack
import NeonEvm.Evm.StackRefinement
import NeonEvm.AccountStorage.Rent
import NeonEvm.Lib.Pieces
import NeonEvm.Account.Operator
import NeonEvm.Instruction.HolderWrite
import NeonEvm.Evm.StructLogger
import NeonEvm.Evm.TracedDepth
import NeonEvm.Lib.Redeem
import NeonEvm.Evm.CodeWrites
import NeonEvm.Evm.Constructors
import NeonEvm.Evm.CodeOnce
import NeonEvm.AccountStorage.Deployment
import NeonEvm.Executor.Requests
import NeonEvm.Evm.Appends
import NeonEvm.Evm.Asked
import NeonEvm.Lib.Rows
import NeonEvm.Account.StateAccount
import NeonEvm.Account.Locks
import NeonEvm.Instruction.BlockAdd
import NeonEvm.Instruction.Gasometer
import NeonEvm.Instruction.Step
import NeonEvm.Instruction.Process
import NeonEvm.Instruction.Treasury
import NeonEvm.Instruction.Holders
import NeonEvm.Instruction.Deposit
import NeonEvm.Instruction.Entrypoint
import NeonEvm.Lib.Leases
import NeonEvm.AccountStorage.Frame
import NeonEvm.AccountStorage.Works
import NeonEvm.AccountStorage.Locking
import NeonEvm.Instruction.Saved
import NeonEvm.Instruction.Turns
import NeonEvm.Instruction.UnderWay
import NeonEvm.Evm.JumpAgreement
import NeonEvm.Evm.Stages
import NeonEvm.Evm.Endures
import NeonEvm.Evm.Aborts
import NeonEvm.Evm.Contained
import NeonEvm.AccountStorage.Bypasses
import NeonEvm.Instruction.Interleaving
