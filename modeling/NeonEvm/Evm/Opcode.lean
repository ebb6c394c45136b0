import NeonEvm.Evm.Machine

/-!
# Evm/Opcode — the opcodes that stay inside their frame

Each reads its frame's environment and the database, and changes nothing but the frame's own locals;
the type of an opcode says so.
-/

namespace NeonEvm

open Exec

/-- What an opcode of this module may read. -/
structure Scope where
  B : AccountStorage
  env : CallEnv
  db : Database

/-- Where a frame goes on after one of its own opcodes. -/
inductive LocalAction where
  | continue
  | jump (target : ℕ)
  | codeSection (section_ pc : ℕ)
  deriving DecidableEq

/-- An opcode that stays inside its frame. -/
abbrev LocalOp : Type := Scope → LocalM LocalAction

/-! ## The stack and the memory -/

namespace Locals

/-- Replace the stack and go on with a value. -/
def onStack {α : Type} (f : Stack → Except Error (α × Stack)) : LocalM α := fun l =>
  match f l.stack with
  | .ok (a, stack) => .ok a { l with stack := stack }
  | .error e => .err e l

/-- Run a memory operation, which leaves a memory even where it fails. -/
def onMemory {α : Type} (f : Memory → Memory × Except Error α) : LocalM α := fun l =>
  match f l.memory with
  | (memory, .ok a) => .ok a { l with memory := memory }
  | (memory, .error e) => .err e { l with memory := memory }

/-- `pop_u256`, `pop_i256` and `pop_array`: the word on top. -/
def popWord : LocalM U256 := onStack Stack.pop

/-- `pop_usize`; the word is gone even where it does not fit. -/
def popUsize : LocalM ℕ := do lift (tryUsize (← popWord))

/-- `pop_address`: the low twenty bytes of the word on top. -/
def popAddress : LocalM Address := do pure ((← popWord).setWidth 160)

/-- `push_u256`, `push_i256`, `push_array` and `push_array_2_31`. -/
def pushWord (w : U256) : LocalM Unit := onStack fun s => (s.push w).map ((), ·)

/-- `push_usize` and `push_byte`. -/
def pushNat (n : ℕ) : LocalM Unit := pushWord (BitVec.ofNat 256 n)

/-- `push_bool`. -/
def pushBool (b : Bool) : LocalM Unit := pushNat (if b then 1 else 0)

/-- `push_address`. -/
def pushAddress (a : Address) : LocalM Unit := pushWord (a.setWidth 256)

/-- `Memory::read`. -/
def readMemory (offset length : ℕ) : LocalM Bytes := onMemory fun m => m.read offset length

/-- `Memory::read_buffer`. -/
def readBuffer (offset length : ℕ) : LocalM Buffer := do
  pure (Buffer.fromSlice (← readMemory offset length))

/-- `Memory::write_buffer`. -/
def writeBuffer (offset length : ℕ) (source : Bytes) (sourceOffset : ℕ) : LocalM Unit :=
  onMemory fun m => m.writeBuffer offset length source sourceOffset

/-- `Memory::write_range`. -/
def writeRange (range : Range) (source : Bytes) : LocalM Unit :=
  onMemory fun m => m.writeRange range source

end Locals

open Locals

/-- The code that is running. -/
def runningCode (c : Scope) : LocalM Buffer := fun l =>
  match getCode c.env l with
  | .ok code => .ok code l
  | .error f => .panic f

/-- Read the database, which a read does not change. -/
def readDb {α : Type} (c : Scope) (x : Db α) : LocalM α := fun l =>
  match x c.db with
  | .ok a _ => .ok a l
  | .err e _ => .err e l
  | .panic f => .panic f

/-! ## Families

Opcodes that pop words, compute and push. -/

/-- Push the value of a word. -/
def pushOp (f : Scope → Locals → U256) : LocalOp := fun c => do
  pushWord (f c (← get))
  pure .continue

/-- Pop one word, push one. -/
def unaryOp (f : U256 → U256) : LocalOp := fun _ => do
  let a ← popWord
  pushWord (f a)
  pure .continue

/-- Pop two words, push one. -/
def binaryOp (f : U256 → U256 → U256) : LocalOp := fun _ => do
  let a ← popWord
  let b ← popWord
  pushWord (f a b)
  pure .continue

/-- Pop three words, push one. -/
def ternaryOp (f : U256 → U256 → U256 → U256) : LocalOp := fun _ => do
  let a ← popWord
  let b ← popWord
  let m ← popWord
  pushWord (f a b m)
  pure .continue

/-- Push a word read from the database. -/
def readOp (f : Scope → Db U256) : LocalOp := fun c => do
  pushWord (← readDb c (f c))
  pure .continue

/-- A word for a boolean. -/
def wordOfBool (b : Bool) : U256 := if b then 1 else 0

/-- Copy from a byte string to the memory: destination, source offset and length are popped. -/
def copyOp (source : Scope → Bytes) : LocalOp := fun c => do
  let memoryOffset ← popUsize
  let dataOffset ← popUsize
  let length ← popUsize
  writeBuffer memoryOffset length (source c) dataOffset
  pure .continue

/-- Fail with the byte at the program counter. -/
def refuseOp (error : Address → UInt8 → Error) : LocalOp := fun c => do
  let code ← runningCode c
  let op ← ofOption .index code.toList[(← get).pc]?
  fail (error c.env.context.contract op)

/-! ## Arithmetic -/

def opcodeUnknown : LocalOp := refuseOp .unknownOpcode

def opcodeAdd : LocalOp := binaryOp fun a b => a + b

def opcodeMul : LocalOp := binaryOp fun a b => a * b

def opcodeSub : LocalOp := binaryOp fun a b => a - b

def opcodeDiv : LocalOp := binaryOp fun a b => if b = 0 then 0 else a / b

def opcodeSdiv : LocalOp := binaryOp fun a b => if b = 0 then 0 else a.sdiv b

def opcodeMod : LocalOp := binaryOp fun a b => if b = 0 then 0 else a % b

def opcodeSmod : LocalOp := binaryOp fun a b => if b = 0 then 0 else a.srem b

/-- `(a + b) % m`, from differences only. -/
def addmod (a b m : U256) : U256 :=
  if m = 0 then 0
  else if b = 0 then a % m
  else
    let a := a % m
    let b := m - b % m
    if b ≤ a then a - b else (m - b) + a

def opcodeAddmod : LocalOp := ternaryOp addmod

/-- The loop of `MULMOD`: double and add, the sums kept below `m`. -/
def mulmodLoop (m : U256) : (fuel : ℕ) → (a b result : U256) → U256
  | 0, _, _, result => result
  | fuel + 1, a, b, result =>
    if a = 0 then result
    else
      let result :=
        if a &&& 1 ≠ 0 then (if m - result ≤ b then result - m else result) + b else result
      let temp := if m - b ≤ b then b - m else b
      mulmodLoop m fuel (a >>> 1) (b + temp) result

/-- `(a * b) % m`; a word has 256 bits, which bounds the loop. -/
def mulmod (a b m : U256) : U256 :=
  if m = 0 then 0
  else
    let (a, b) := if b < a then (b, a) else (a, b)
    let b := if m ≤ b then b % m else b
    mulmodLoop m 256 a b 0

def opcodeMulmod : LocalOp := ternaryOp mulmod

/-- The loop of `EXP`: square and multiply, but for the last bit. -/
def expLoop : (fuel : ℕ) → (a b result : U256) → U256
  | 0, _, _, result => result
  | fuel + 1, a, b, result =>
    if 1 < b then
      expLoop fuel (a * a) (b >>> 1) (if b &&& 1 = 1 then result * a else result)
    else if b = 1 then result * a
    else result

def opcodeExp : LocalOp := binaryOp fun a b => expLoop 257 a b 1

/-- `SIGNEXTEND` of `x` from `b + 1` bytes. -/
def signextend (b x : U256) : U256 :=
  if b < 32 then
    let bitIndex := 8 * b.toNat + 7
    let mask : U256 := (1 <<< bitIndex) - 1
    if x &&& (1 <<< bitIndex) ≠ 0 then x ||| ~~~mask else x &&& mask
  else x

def opcodeSignextend : LocalOp := binaryOp signextend

/-! ## Comparison and bits -/

def opcodeLt : LocalOp := binaryOp fun a b => wordOfBool (a < b)

def opcodeGt : LocalOp := binaryOp fun a b => wordOfBool (b < a)

def opcodeSlt : LocalOp := binaryOp fun a b => wordOfBool (a.slt b)

def opcodeSgt : LocalOp := binaryOp fun a b => wordOfBool (b.slt a)

def opcodeEq : LocalOp := binaryOp fun a b => wordOfBool (a = b)

def opcodeIszero : LocalOp := unaryOp fun a => wordOfBool (a = 0)

def opcodeAnd : LocalOp := binaryOp fun a b => a &&& b

def opcodeOr : LocalOp := binaryOp fun a b => a ||| b

def opcodeXor : LocalOp := binaryOp fun a b => a ^^^ b

def opcodeNot : LocalOp := unaryOp fun a => ~~~a

def opcodeByte : LocalOp := binaryOp fun i x =>
  if 32 ≤ i then 0 else BitVec.ofNat 256 (x.bytes.getD i.toNat 0).toNat

def opcodeShl : LocalOp := binaryOp fun shift value =>
  if shift < 256 then value <<< shift.toNat else 0

def opcodeShr : LocalOp := binaryOp fun shift value =>
  if shift < 256 then value >>> shift.toNat else 0

/-- `SAR`: a shift of 256 or more gives zero whatever the sign. -/
def opcodeSar : LocalOp := binaryOp fun shift value =>
  if shift < 256 then value.sshiftRight shift.toNat else 0

def opcodeSha3 [Platform] : LocalOp := fun _ => do
  let offset ← popUsize
  let length ← popUsize
  let data ← readMemory offset length
  pushWord (keccak data)
  pure .continue

/-! ## The environment -/

def opcodeAddress : LocalOp := pushOp fun c _ => c.env.context.contract.setWidth 256

def opcodeBalance : LocalOp := fun c => do
  let address ← popAddress
  pushWord (← readDb c (ExecutorState.balance c.B address))
  pure .continue

def opcodeOrigin : LocalOp := pushOp fun c _ => c.env.origin.setWidth 256

def opcodeCaller : LocalOp := pushOp fun c _ => c.env.context.caller.setWidth 256

def opcodeCallvalue : LocalOp := pushOp fun c _ => c.env.context.value

/-- The 32 bytes at `index`, zeros behind the end; `index + 32` wraps around. -/
def calldataWord (data : Bytes) (index : ℕ) : Bytes :=
  let stop := wrappingAdd index 32
  if index ≤ stop ∧ stop ≤ data.length then (data.drop index).take 32
  else padRight (data.drop index) 32

def opcodeCalldataload : LocalOp := fun c => do
  let index ← popUsize
  pushWord (U256.ofBytes (calldataWord c.env.callData.toList index))
  pure .continue

def opcodeCalldatasize : LocalOp := pushOp fun c _ => BitVec.ofNat 256 c.env.callData.len

def opcodeCalldatacopy : LocalOp := copyOp fun c => c.env.callData.toList

def opcodeCodesize : LocalOp := pushOp fun c _ => BitVec.ofNat 256 c.env.executionCode.len

def opcodeCodecopy : LocalOp := copyOp fun c => c.env.executionCode.toList

def opcodeGasprice : LocalOp := pushOp fun c _ => c.env.gasPrice

def opcodeExtcodesize : LocalOp := fun c => do
  let address ← popAddress
  pushNat (← readDb c (ExecutorState.codeSize c.B address))
  pure .continue

def opcodeExtcodecopy : LocalOp := fun c => do
  let address ← popAddress
  let memoryOffset ← popUsize
  let dataOffset ← popUsize
  let length ← popUsize
  let code ← readDb c (ExecutorState.code c.B address)
  writeBuffer memoryOffset length code.toList dataOffset
  pure .continue

def opcodeReturndatasize : LocalOp := pushOp fun _ l => BitVec.ofNat 256 l.returnData.len

def opcodeReturndatacopy : LocalOp := fun _ => do
  let memoryOffset ← popUsize
  let dataOffset ← popUsize
  let length ← popUsize
  let returnData := (← get).returnData
  failIf (returnData.len < saturatingAdd dataOffset length)
    (.returnDataCopyOverflow dataOffset length)
  writeBuffer memoryOffset length returnData.toList dataOffset
  pure .continue

def opcodeExtcodehash [Platform] : LocalOp := fun c => do
  let address ← popAddress
  pushWord (← readDb c (ExecutorState.codeHash c.B address))
  pure .continue

/-! ## The block -/

def opcodeBlockhash : LocalOp := fun c => do
  let blockNumber ← popWord
  pushWord (← readDb c (ExecutorState.blockHash c.B blockNumber))
  pure .continue

def opcodeCoinbase : LocalOp := pushOp fun _ _ => 0

def opcodeTimestamp : LocalOp := readOp fun _ => ExecutorState.blockTimestamp

def opcodeNumber : LocalOp := readOp fun _ => ExecutorState.blockNumber

def opcodeDifficulty : LocalOp := pushOp fun _ _ => 0

def opcodeGaslimit : LocalOp := pushOp fun _ _ => BitVec.allOnes 256

def opcodeChainid : LocalOp := pushOp fun c _ => ExecutorState.chainId c.B

def opcodeSelfbalance : LocalOp := readOp fun c =>
  ExecutorState.balance c.B c.env.context.contract

def opcodeBasefee : LocalOp := pushOp fun _ _ => 0

/-! ## Stack, memory and flow -/

def opcodePop : LocalOp := fun _ => do
  let _ ← popWord
  pure .continue

def opcodeMload : LocalOp := fun _ => do
  let offset ← popUsize
  pushWord (← onMemory fun m => m.read32 offset)
  pure .continue

def opcodeMstore : LocalOp := fun _ => do
  let offset ← popUsize
  let value ← popWord
  onMemory fun m => m.write32 offset value
  pure .continue

def opcodeMstore8 : LocalOp := fun _ => do
  let offset ← popUsize
  let value ← popWord
  onMemory fun m => m.writeByte offset (UInt8.ofNat value.toNat)
  pure .continue

def JUMPDEST : UInt8 := 0x5B

/-- Jump to `target` if the code has a `JUMPDEST` there. -/
def jumpTo (c : Scope) (target : ℕ) : LocalM LocalAction :=
  if c.env.executionCode.toList[target]? = some JUMPDEST then pure (.jump target)
  else fail (.invalidJump c.env.context.contract target)

def opcodeJump : LocalOp := fun c => do
  let value ← popUsize
  jumpTo c value

def opcodeJumpi : LocalOp := fun c => do
  let value ← popUsize
  let condition ← popWord
  if condition = 0 then pure .continue else jumpTo c value

def opcodePc : LocalOp := pushOp fun _ l => BitVec.ofNat 256 l.pc

def opcodeMsize : LocalOp := pushOp fun _ l => BitVec.ofNat 256 l.memory.size

def opcodeGas : LocalOp := pushOp fun c _ => c.env.gasLimit

def opcodeJumpdest : LocalOp := fun _ => pure .continue

/-- Relative to the opcode behind the operand. -/
def opcodeRjump : LocalOp := fun c => do
  let code ← runningCode c
  let pc := (← get).pc
  pure (.jump (usizeOfInt (pc + 3 + code.getI16OrDefault (pc + 1))))

def opcodeRjumpi : LocalOp := fun c => do
  let condition ← popWord
  if condition = 0 then pure (.jump ((← get).pc + 3)) else opcodeRjump c

/-- `RJUMPV`: an index equal to the count is still taken, and entries are read one byte late. -/
def opcodeRjumpv : LocalOp := fun c => do
  let idx ← popWord
  let code ← runningCode c
  let pc := (← get).pc
  let count := (code.getOrDefault (pc + 1)).toNat
  if U64_MAX < idx.toNat ∨ count < idx.toNat then pure (.jump (pc + 2 + count * 2))
  else
    let offset := code.getI16OrDefault (pc + 1 + 2 + 2 * idx.toNat)
    pure (.jump (usizeOfInt (pc + 2 + count * 2 + offset)))

def opcodePush0 : LocalOp := pushOp fun _ _ => 0

/-- `PUSHn`: the code must go on behind the operand. -/
def pushImmediate (n : ℕ) (last : ℕ) : LocalOp := fun c => do
  let code ← runningCode c
  let pc := (← get).pc
  failIf (code.len ≤ last) (.pushOutOfBounds c.env.context.contract)
  pushWord (U256.ofBytes ((code.toList.drop (pc + 1)).take n))
  pure (.jump (pc + 1 + n))

def opcodePush1 : LocalOp := fun c => do
  pushImmediate 1 ((← get).pc + 1) c

def opcodePush231 (n : ℕ) : LocalOp := fun c => do
  pushImmediate n ((← get).pc + 1 + n) c

def opcodePush32 : LocalOp := fun c => do
  pushImmediate 32 ((← get).pc + 1 + 32) c

def opcodeDup116 (n : ℕ) : LocalOp := fun _ => do
  onStack fun s => (s.dup116 n).map ((), ·)
  pure .continue

def opcodeSwap116 (n : ℕ) : LocalOp := fun _ => do
  onStack fun s => (s.swap116 n).map ((), ·)
  pure .continue

/-- `LOGn`; the record itself goes to the log of the transaction. -/
def opcodeLog04 (n : ℕ) : LocalOp := fun c => do
  failIf (c.env.isStatic) (.staticModeViolation c.env.context.contract)
  let offset ← popUsize
  let length ← popUsize
  let _ ← readMemory offset length
  let _ ← forEach (fun _ => popWord) (List.range n)
  pure .continue

def opcodeInvalid : LocalOp := refuseOp .invalidOpcode

def opcodeDeprecated : LocalOp := refuseOp .deprecatedOpcode

/-! ## Functions -/

/-- `CALLF`. -/
def opcodeCallf : LocalOp := fun c => do
  let code ← runningCode c
  let l ← get
  let idx := code.getU16OrDefault (l.pc + 1)
  match c.env.container with
  | none => fail .containerNotFound
  | some container =>
    let typ ← ofOption .index container.types[idx]?
    failIf (1024 ≤ l.stack.len + typ.maxStackHeight) .stackOverflow
    let retCtx : ReturnContext :=
      ⟨l.codeSection, l.pc + 3, wrappingAdd l.stack.len (USIZE - typ.input.toNat)⟩
    modify fun l => { l with returnStack := retCtx :: l.returnStack }
    pure (.codeSection idx 0)

end NeonEvm
