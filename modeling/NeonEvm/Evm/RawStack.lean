import Mathlib.Data.List.Induction
import NeonEvm.Evm.Stack
import NeonEvm.Lib.Chunks
import NeonEvm.Lib.Refine

/-!
# Evm/RawStack — the stack behind its pointers

    begin ─ word ─ word ─ … ─ word ─ top ─ scratch ─ end ─ one element ─
    [      the words, the lowest first   |      whatever was left there      ]

The stack as the source has it: one allocation of `STACK_SIZE` bytes and an offset into it, written
before the bound is looked at and read in seven layouts.  It refines `Stack`, the list of words that
the opcodes are stated on.
-/

namespace NeonEvm

open Exec Chunks

/-- An access outside of the allocation. -/
inductive Outside where
  | outside
  deriving DecidableEq

/-- `evm::stack::Stack`: the allocation, and `top - begin`. -/
structure RawStack where
  buffer : Bytes
  top : ℕ
  deriving DecidableEq

/-- What an operation of the stack returns. -/
inductive StackValue where
  | unit
  | word (value : U256)
  | int (value : ℤ)
  | bytes (value : Bytes)
  | usize (value : ℕ)
  | address (value : Address)
  deriving DecidableEq

/-- A computation on the allocation; it aborts with an access outside. -/
abbrev RawM (α : Type) : Type := Exec Outside Error RawStack α

/-- `end - begin`. -/
def STACK_END : ℕ := STACK_SIZE - ELEMENT_SIZE

namespace RawStack

/-- `Stack::new`, on what the allocator returns. -/
def new (buffer : Bytes) : RawStack := ⟨buffer, 0⟩

/-! ## Accesses -/

/-- Read at an offset. -/
def readAt (offset len : ℕ) : RawM Bytes := do
  assertThat (offset + len ≤ STACK_SIZE) .outside
  gets fun r => (r.buffer.drop offset).take len

/-- `copy_nonoverlapping` and `write_bytes` to an offset. -/
def writeAt (offset : ℕ) (bytes : Bytes) : RawM Unit := do
  assertThat (offset + bytes.length ≤ STACK_SIZE) .outside
  modify fun r => { r with buffer := overwrite r.buffer offset bytes }

/-- `top.sub(count)`. -/
def topSub (count : ℕ) : RawM ℕ := do
  let top ← gets top
  assertThat (count ≤ top) .outside
  pure (top - count)

/-- `Stack::read`. -/
def read : RawM Bytes := do readAt (← gets top) 32

/-- `Stack::push`. -/
def push : RawM Unit := do
  failIf ((← gets top) = STACK_END) .stackOverflow
  modify fun r => { r with top := r.top + 32 }

/-- `Stack::pop`. -/
def pop : RawM Unit := do
  failIf ((← gets top) = 0) .stackUnderflow
  let top ← topSub 32
  modify fun r => { r with top := top }

/-! ## Taking from the stack -/

/-- `pop_u256`. -/
def popU256 : RawM U256 := do
  pop
  pure (U256.ofBytes (← read))

/-- `pop_i256`. -/
def popI256 : RawM ℤ := do
  pop
  pure (U256.ofBytes (← read)).toInt

/-- `pop_array`. -/
def popArray : RawM Bytes := do
  pop
  read

/-- `pop_usize`. -/
def popUsize : RawM ℕ := do
  let value ← popU256
  match value.toUsize? with
  | some n => pure n
  | none => fail .tryFromIntError

/-- `pop_address`. -/
def popAddress : RawM Address := do
  pop
  let bytes ← readAt ((← gets top) + 12) 20
  pure (BitVec.ofNat 160 (ofBeBytes bytes))

/-- `discard`. -/
def discard : RawM Unit := pop

/-! ## Putting on the stack -/

/-- `push_byte`. -/
def pushByte (value : UInt8) : RawM Unit := do
  let top ← gets top
  writeAt top (List.replicate 32 0)
  writeAt (top + 31) [value]
  push

/-- `push_zero`. -/
def pushZero : RawM Unit := do
  writeAt (← gets top) (List.replicate 32 0)
  push

/-- `push_array`. -/
def pushArray (value : Bytes) : RawM Unit := do
  writeAt (← gets top) value
  push

/-- `push_array_2_31`. -/
def pushArray231 (value : Bytes) : RawM Unit := do
  let zeroBytes := 32 - value.length
  let top ← gets top
  writeAt top (List.replicate zeroBytes 0)
  writeAt (top + zeroBytes) value
  push

/-- `push_bool`. -/
def pushBool (value : Bool) : RawM Unit := if value then pushByte 1 else pushZero

/-- `push_address`. -/
def pushAddress (address : Address) : RawM Unit := pushArray231 address.bytes

/-- `push_usize`. -/
def pushUsize (value : BitVec 64) : RawM Unit := pushArray231 (toBeBytes 8 value.toNat)

/-- `push_u256`. -/
def pushU256 (value : U256) : RawM Unit := pushArray value.bytes

/-- `push_i256`. -/
def pushI256 (value : ℤ) : RawM Unit := pushArray (U256.bytes (BitVec.ofInt 256 value))

/-! ## Moving words -/

/-- `dup_1_16`. -/
def dup116 (n : ℕ) : RawM Unit := do
  let offset ← gets top
  failIf (offset < n * 32) .stackUnderflow
  let source ← topSub (n * 32)
  writeAt offset (← readAt source 32)
  push

/-- `swap_1_16`. -/
def swap116 (n : ℕ) : RawM Unit := do
  failIf ((← gets top) < (n + 1) * 32) .stackUnderflow
  let a ← topSub 32
  let b ← topSub ((n + 1) * 32)
  let c ← readAt a 32
  writeAt a (← readAt b 32)
  writeAt b c

/-! ## Serialisation -/

/-- `Serialize for Stack`. -/
def serialize : RawM Bytes := do
  let offset ← gets top
  readAt 0 offset

/-- `Deserialize for Stack`, into a new allocation; nothing is returned for a length that is not one
of words. -/
def deserialize (allocation v : Bytes) : RawM Unit := do
  failIf (v.length % 32 ≠ 0)
    (.bincodeError ("invalid length " ++ toString v.length ++ ", expected EVM Stack"))
  modify fun _ => ⟨allocation, v.length⟩
  writeAt 0 v

end RawStack

/-! ## Operations, on the allocation and on the list -/

/-- An operation of the stack; the constants of the source's generics are in range. -/
inductive StackOp where
  | pushByte (value : UInt8)
  | pushZero
  | pushArray (value : Bytes) (h : value.length = 32)
  | pushArray231 (value : Bytes) (h : 2 ≤ value.length ∧ value.length ≤ 31)
  | pushBool (value : Bool)
  | pushAddress (address : Address)
  | pushUsize (value : BitVec 64)
  | pushU256 (value : U256)
  | pushI256 (value : ℤ) (h : -2 ^ 255 ≤ value ∧ value < 2 ^ 255)
  | popU256
  | popI256
  | popArray
  | popUsize
  | popAddress
  | discard
  | dup116 (n : ℕ) (h : 1 ≤ n ∧ n ≤ 16)
  | swap116 (n : ℕ) (h : 1 ≤ n ∧ n ≤ 16)
  | reload (allocation : Bytes) (h : allocation.length = STACK_SIZE)

namespace Stack

/-- A computation on the list of words. -/
abbrev WordsM (α : Type) : Type := Exec Outside Error Stack α

/-- Replace the list of words and go on with a value. -/
def onWords {α : Type} (f : Stack → Except Error (α × Stack)) : WordsM α := fun s =>
  match f s with
  | .ok (a, s) => .ok a s
  | .error e => .err e s

def pushWord (w : U256) : WordsM Unit := onWords fun s => (s.push w).map ((), ·)

def popWord : WordsM U256 := onWords pop

end Stack

namespace StackOp

open RawStack in
/-- The operation, on the allocation. -/
def exec : StackOp → RawM StackValue
  | .pushByte value => do RawStack.pushByte value; pure .unit
  | .pushZero => do RawStack.pushZero; pure .unit
  | .pushArray value _ => do RawStack.pushArray value; pure .unit
  | .pushArray231 value _ => do RawStack.pushArray231 value; pure .unit
  | .pushBool value => do RawStack.pushBool value; pure .unit
  | .pushAddress address => do RawStack.pushAddress address; pure .unit
  | .pushUsize value => do RawStack.pushUsize value; pure .unit
  | .pushU256 value => do RawStack.pushU256 value; pure .unit
  | .pushI256 value _ => do RawStack.pushI256 value; pure .unit
  | .popU256 => do pure (.word (← RawStack.popU256))
  | .popI256 => do pure (.int (← RawStack.popI256))
  | .popArray => do pure (.bytes (← RawStack.popArray))
  | .popUsize => do pure (.usize (← RawStack.popUsize))
  | .popAddress => do pure (.address (← RawStack.popAddress))
  | .discard => do RawStack.discard; pure .unit
  | .dup116 n _ => do RawStack.dup116 n; pure .unit
  | .swap116 n _ => do RawStack.swap116 n; pure .unit
  | .reload allocation _ => do
    deserialize allocation (← serialize)
    pure .unit

open Stack in
/-- The operation, on the list. -/
def meaning : StackOp → WordsM StackValue
  | .pushByte value => do pushWord (BitVec.ofNat 256 value.toNat); pure .unit
  | .pushZero => do pushWord 0; pure .unit
  | .pushArray value _ => do pushWord (U256.ofBytes value); pure .unit
  | .pushArray231 value _ => do pushWord (U256.ofBytes value); pure .unit
  | .pushBool value => do pushWord (if value then 1 else 0); pure .unit
  | .pushAddress address => do pushWord (address.setWidth 256); pure .unit
  | .pushUsize value => do pushWord (value.setWidth 256); pure .unit
  | .pushU256 value => do pushWord value; pure .unit
  | .pushI256 value _ => do pushWord (BitVec.ofInt 256 value); pure .unit
  | .popU256 => do pure (.word (← popWord))
  | .popI256 => do pure (.int (← popWord).toInt)
  | .popArray => do pure (.bytes (← popWord).bytes)
  | .popUsize => do
    match (← popWord).toUsize? with
    | some n => pure (.usize n)
    | none => fail .tryFromIntError
  | .popAddress => do pure (.address ((← popWord).setWidth 160))
  | .discard => do
    let _ ← popWord
    pure .unit
  | .dup116 n _ => do onWords fun s => (s.dup116 n).map ((), ·); pure .unit
  | .swap116 n _ => do onWords fun s => (s.swap116 n).map ((), ·); pure .unit
  | .reload _ _ => pure .unit

/-- Whether the operation puts a word on the stack. -/
def pushes : StackOp → Bool
  | .popU256 | .popI256 | .popArray | .popUsize | .popAddress | .discard | .swap116 .. |
    .reload .. => false
  | _ => true

/-- The number of words that the operation looks at. -/
def needs : StackOp → ℕ
  | .popU256 | .popI256 | .popArray | .popUsize | .popAddress | .discard => 1
  | .dup116 n _ => n
  | .swap116 n _ => n + 1
  | _ => 0

/-- A push and a pop of one form, and the value that is pushed. -/
inductive SameForm : StackOp → StackOp → StackValue → Prop
  | u256 (value : U256) : SameForm (.pushU256 value) .popU256 (.word value)
  | i256 (value : ℤ) (h : -2 ^ 255 ≤ value ∧ value < 2 ^ 255) :
    SameForm (.pushI256 value h) .popI256 (.int value)
  | array (value : Bytes) (h : value.length = 32) :
    SameForm (.pushArray value h) .popArray (.bytes value)
  | usize (value : BitVec 64) : SameForm (.pushUsize value) .popUsize (.usize value.toNat)
  | address (value : Address) : SameForm (.pushAddress value) .popAddress (.address value)

end StackOp

end NeonEvm
