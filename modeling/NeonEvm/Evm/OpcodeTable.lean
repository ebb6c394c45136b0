import NeonEvm.Evm.System

/-!
# Evm/OpcodeTable — which opcode a byte stands for

The table of legacy code, and the entries in which EOF code differs from it.
-/

namespace NeonEvm

variable [Platform]

/-- The opcodes in families: `PUSH2` to `PUSH31`, `DUPn`, `SWAPn`, `LOGn`. -/
def familyTable : List (UInt8 × Opcode) :=
  (List.range 30).map (fun n => (0x61 + UInt8.ofNat n, .loc (opcodePush231 (n + 2))))
    ++ (List.range 16).map (fun n => (0x80 + UInt8.ofNat n, .loc (opcodeDup116 (n + 1))))
    ++ (List.range 16).map (fun n => (0x90 + UInt8.ofNat n, .loc (opcodeSwap116 (n + 1))))
    ++ (List.range 5).map (fun n => (0xA0 + UInt8.ofNat n, .loc (opcodeLog04 n)))

/-- Arithmetic. -/
def arithmeticTable : List (UInt8 × Opcode) := [
  (0x00, .sys .stop), (0x01, .loc opcodeAdd), (0x02, .loc opcodeMul), (0x03, .loc opcodeSub),
  (0x04, .loc opcodeDiv), (0x05, .loc opcodeSdiv), (0x06, .loc opcodeMod),
  (0x07, .loc opcodeSmod), (0x08, .loc opcodeAddmod), (0x09, .loc opcodeMulmod),
  (0x0A, .loc opcodeExp), (0x0B, .loc opcodeSignextend)]

/-- Comparison, bits and hashing. -/
def bitTable : List (UInt8 × Opcode) := [
  (0x10, .loc opcodeLt), (0x11, .loc opcodeGt), (0x12, .loc opcodeSlt), (0x13, .loc opcodeSgt),
  (0x14, .loc opcodeEq), (0x15, .loc opcodeIszero), (0x16, .loc opcodeAnd), (0x17, .loc opcodeOr),
  (0x18, .loc opcodeXor), (0x19, .loc opcodeNot), (0x1A, .loc opcodeByte), (0x1B, .loc opcodeShl),
  (0x1C, .loc opcodeShr), (0x1D, .loc opcodeSar), (0x20, .loc opcodeSha3)]

/-- The environment. -/
def environmentTable : List (UInt8 × Opcode) := [
  (0x30, .loc opcodeAddress), (0x31, .loc opcodeBalance), (0x32, .loc opcodeOrigin),
  (0x33, .loc opcodeCaller), (0x34, .loc opcodeCallvalue), (0x35, .loc opcodeCalldataload),
  (0x36, .loc opcodeCalldatasize), (0x37, .loc opcodeCalldatacopy), (0x38, .loc opcodeCodesize),
  (0x39, .loc opcodeCodecopy), (0x3A, .loc opcodeGasprice), (0x3B, .loc opcodeExtcodesize),
  (0x3C, .loc opcodeExtcodecopy), (0x3D, .loc opcodeReturndatasize),
  (0x3E, .loc opcodeReturndatacopy), (0x3F, .loc opcodeExtcodehash)]

/-- The block. -/
def blockTable : List (UInt8 × Opcode) := [
  (0x40, .loc opcodeBlockhash), (0x41, .loc opcodeCoinbase), (0x42, .loc opcodeTimestamp),
  (0x43, .loc opcodeNumber), (0x44, .loc opcodeDifficulty), (0x45, .loc opcodeGaslimit),
  (0x46, .loc opcodeChainid), (0x47, .loc opcodeSelfbalance), (0x48, .loc opcodeBasefee)]

/-- Stack, memory, storage and flow. -/
def flowTable : List (UInt8 × Opcode) := [
  (0x50, .loc opcodePop), (0x51, .loc opcodeMload), (0x52, .loc opcodeMstore),
  (0x53, .loc opcodeMstore8), (0x54, .sys .sload), (0x55, .sys .sstore), (0x56, .loc opcodeJump),
  (0x57, .loc opcodeJumpi), (0x58, .loc opcodePc), (0x59, .loc opcodeMsize),
  (0x5A, .loc opcodeGas), (0x5B, .loc opcodeJumpdest), (0x5F, .loc opcodePush0),
  (0x60, .loc opcodePush1), (0x7F, .loc opcodePush32)]

/-- Frames. -/
def systemTable : List (UInt8 × Opcode) := [
  (0xF0, .sys .create), (0xF1, .sys .call), (0xF2, .sys .callcode), (0xF3, .sys .ret),
  (0xF4, .sys .delegatecall), (0xF5, .sys .create2), (0xFA, .sys .staticcall),
  (0xFD, .sys .revert), (0xFE, .loc opcodeInvalid), (0xFF, .sys .selfdestruct)]

/-- `OPCODES`, the entries that are not `opcode_unknown`. -/
def OPCODES : List (UInt8 × Opcode) :=
  arithmeticTable ++ bitTable ++ environmentTable ++ blockTable ++ flowTable ++ systemTable
    ++ familyTable

/-- `EOF_OPCODES`, the entries that are not those of `OPCODES`. -/
def EOF_OPCODES : List (UInt8 × Opcode) := [
  (0x5C, .loc opcodeRjump), (0x5D, .loc opcodeRjumpi), (0x5E, .loc opcodeRjumpv),
  (0xB0, .loc opcodeCallf), (0xB1, .sys .retf),
  (0xF2, .loc opcodeDeprecated), (0xFF, .loc opcodeDeprecated), (0x56, .loc opcodeDeprecated),
  (0x57, .loc opcodeDeprecated), (0x58, .loc opcodeDeprecated)]

/-- The opcode that `execute_opcode` runs. -/
def opcodeOf (opcode : UInt8) : Opcode := (OPCODES.lookup opcode).getD (.loc opcodeUnknown)

/-- The opcode that `execute_eof_opcode` runs. -/
def eofOpcodeOf (opcode : UInt8) : Opcode := (EOF_OPCODES.lookup opcode).getD (opcodeOf opcode)

/-- The opcode under the table of one kind of code or the other. -/
def tableOf (isEof : Bool) (opcode : UInt8) : Opcode :=
  if isEof then eofOpcodeOf opcode else opcodeOf opcode

end NeonEvm
