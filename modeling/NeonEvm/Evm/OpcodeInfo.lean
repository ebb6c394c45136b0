import NeonEvm.Error

/-!
# Evm/OpcodeInfo — what the validator knows of each opcode

For every opcode that an EOF section may hold: the words it needs, the stack it may start from, and
whether a section may end with it.
-/

namespace NeonEvm

open Exec

namespace opcode

def PC : UInt8 := 0x58
def JUMP : UInt8 := 0x56
def JUMPI : UInt8 := 0x57
def RJUMP : UInt8 := 0x5C
def RJUMPI : UInt8 := 0x5D
def RJUMPV : UInt8 := 0x5E
def PUSH0 : UInt8 := 0x5F
def PUSH1 : UInt8 := 0x60
def PUSH32 : UInt8 := 0x7F
def DUP1 : UInt8 := 0x80
def SWAP1 : UInt8 := 0x90
def LOG0 : UInt8 := 0xA0
def CALLF : UInt8 := 0xB0
def RETF : UInt8 := 0xB1
def CALLCODE : UInt8 := 0xF2
def SELFDESTRUCT : UInt8 := 0xFF

end opcode

/-- `Container::STACK_LIMIT`. -/
def Container.STACK_LIMIT : ℕ := 1024

/-- `OpcodeInfo`. -/
structure OpcodeInfo where
  minStack : ℕ
  maxStack : ℕ
  terminal : Bool
  deriving DecidableEq

namespace OpcodeInfo

/-- `OpcodeInfo::max_stack`. -/
def maxStackOf (pop push : ℕ) : ℕ := Container.STACK_LIMIT + pop - push

/-- The entry of an opcode that pops and pushes so many words. -/
def info (pop push : ℕ) (terminal : Bool) : OpcodeInfo := ⟨pop, maxStackOf pop push, terminal⟩

/-- The entries of the opcodes in families: `PUSHn`, `DUPn`, `SWAPn`, `LOGn`. -/
def familyInfo : List (UInt8 × OpcodeInfo) :=
  (List.range 33).map (fun n => (opcode.PUSH0 + UInt8.ofNat n, info 0 1 false))
    ++ (List.range 16).map (fun n => (opcode.DUP1 + UInt8.ofNat n, info (n + 1) (n + 2) false))
    ++ (List.range 16).map (fun n => (opcode.SWAP1 + UInt8.ofNat n, info (n + 2) (n + 2) false))
    ++ (List.range 5).map (fun n => (opcode.LOG0 + UInt8.ofNat n, info (n + 2) 0 false))

/-- `OpcodeInfo::OPCODE_INFO`, the entries that are there. -/
def OPCODE_INFO : List (UInt8 × OpcodeInfo) := [
  (0x00, info 0 0 true),  -- STOP
  (0x01, info 2 1 false),  -- ADD
  (0x02, info 2 1 false),  -- MUL
  (0x03, info 2 1 false),  -- SUB
  (0x04, info 2 1 false),  -- DIV
  (0x05, info 2 1 false),  -- SDIV
  (0x06, info 2 1 false),  -- MOD
  (0x07, info 2 1 false),  -- SMOD
  (0x08, info 3 1 false),  -- ADDMOD
  (0x09, info 3 1 false),  -- MULMOD
  (0x0A, info 2 1 false),  -- EXP
  (0x0B, info 2 1 false),  -- SIGNEXTEND
  (0x10, info 2 1 false),  -- LT
  (0x11, info 2 1 false),  -- GT
  (0x12, info 2 1 false),  -- SLT
  (0x13, info 2 1 false),  -- SGT
  (0x14, info 2 1 false),  -- EQ
  (0x15, info 1 1 false),  -- ISZERO
  (0x16, info 2 1 false),  -- AND
  (0x17, info 2 1 false),  -- OR
  (0x18, info 2 1 false),  -- XOR
  (0x19, info 1 1 false),  -- NOT
  (0x1A, info 2 1 false),  -- BYTE
  (0x1B, info 2 1 false),  -- SHL
  (0x1C, info 2 1 false),  -- SHR
  (0x1D, info 2 1 false),  -- SAR
  (0x20, info 2 1 false),  -- KECCAK256
  (0x30, info 0 1 false),  -- ADDRESS
  (0x31, info 1 1 false),  -- BALANCE
  (0x32, info 0 1 false),  -- ORIGIN
  (0x33, info 0 1 false),  -- CALLER
  (0x34, info 0 1 false),  -- CALLVALUE
  (0x35, info 1 1 false),  -- CALLDATALOAD
  (0x36, info 0 1 false),  -- CALLDATASIZE
  (0x37, info 3 0 false),  -- CALLDATACOPY
  (0x38, info 0 1 false),  -- CODESIZE
  (0x39, info 3 0 false),  -- CODECOPY
  (0x3A, info 0 1 false),  -- GASPRICE
  (0x3B, info 1 1 false),  -- EXTCODESIZE
  (0x3C, info 4 0 false),  -- EXTCODECOPY
  (0x3D, info 0 1 false),  -- RETURNDATASIZE
  (0x3E, info 3 0 false),  -- RETURNDATACOPY
  (0x3F, info 1 1 false),  -- EXTCODEHASH
  (0x40, info 1 1 false),  -- BLOCKHASH
  (0x41, info 0 1 false),  -- COINBASE
  (0x42, info 0 1 false),  -- TIMESTAMP
  (0x43, info 0 1 false),  -- NUMBER
  (0x44, info 0 1 false),  -- DIFFICULTY
  (0x45, info 0 1 false),  -- GASLIMIT
  (0x46, info 0 1 false),  -- CHAINID
  (0x47, info 0 1 false),  -- SELFBALANCE
  (0x48, info 0 1 false),  -- BASEFEE
  (0x50, info 1 0 false),  -- POP
  (0x51, info 1 1 false),  -- MLOAD
  (0x52, info 2 0 false),  -- MSTORE
  (0x53, info 2 0 false),  -- MSTORE8
  (0x54, info 1 1 false),  -- SLOAD
  (0x55, info 2 0 false),  -- SSTORE
  (0x56, info 1 0 false),  -- JUMP
  (0x57, info 2 0 false),  -- JUMPI
  (0x58, info 0 1 false),  -- PC
  (0x59, info 0 1 false),  -- MSIZE
  (0x5A, info 0 1 false),  -- GAS
  (0x5B, info 0 0 false),  -- JUMPDEST
  (0xF0, info 3 1 false),  -- CREATE
  (0xF1, info 7 1 false),  -- CALL
  (0xF2, info 7 1 false),  -- CALLCODE
  (0xF3, info 2 0 true),  -- RETURN
  (0xF4, info 6 1 false),  -- DELEGATECALL
  (0xF5, info 4 1 false),  -- CREATE2
  (0xFA, info 6 1 false),  -- STATICCALL
  (0xFD, info 2 0 true),  -- REVERT
  (0xFE, info 0 0 true),  -- INVALID
  (0xFF, info 1 0 false),  -- SELFDESTRUCT
  (0x5C, info 0 0 true),  -- RJUMP
  (0x5D, info 1 0 false),  -- RJUMPI
  (0x5E, info 1 0 false),  -- RJUMPV
  (0xB0, info 0 0 false),  -- CALLF
  (0xB1, info 0 0 true)   -- RETF
] ++ familyInfo

/-- The entry of an opcode. -/
def find? (op : UInt8) : Option OpcodeInfo := OPCODE_INFO.lookup op

/-- `OpcodeInfo::is_opcode_valid`. -/
def isOpcodeValid (op : UInt8) : Bool := (find? op).isSome

/-- `OpcodeInfo::assert_opcode_valid`. -/
def assertOpcodeValid (op : UInt8) : Fallible Unit :=
  require (isOpcodeValid op) (.unsupportedOpcode op)

/-- `OpcodeInfo::is_terminal_opcode`. -/
def isTerminalOpcode (op : UInt8) : Bool := (find? op).any (·.terminal)

end OpcodeInfo

end NeonEvm
