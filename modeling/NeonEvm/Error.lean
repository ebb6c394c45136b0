import NeonEvm.Lib.Exec
import NeonEvm.Types.Word

/-!
# Error — the errors of the program and the revert messages built from them

An error raised inside a frame reverts the frame with the error's text, so the texts are data that
contracts can read.  An error of another crate is kept as its own text.
-/

namespace NeonEvm

/-- `Error`. -/
inductive Error where
  | custom (message : String)
  | programError (text : String)
  | rlpError (text : String)
  | secp256k1Error (text : String)
  | bincodeError (text : String)
  | fromHexError (text : String)
  | tryFromIntError
  | tryFromSliceError
  | accountMissing (address : Address)
  | accountBlocked (address : Address)
  | accountInvalidTag (key : Pubkey) (tag : UInt8)
  | accountInvalidOwner (key owner : Pubkey)
  | accountInvalidKey (key expected : Pubkey)
  | accountInvalidData (key : Pubkey)
  | accountNotWritable (key : Pubkey)
  | accountNotSigner (key : Pubkey)
  | accountNotRentExempt (key : Pubkey)
  | accountAlreadyInitialized (key : Pubkey)
  | unauthorizedOperator
  | storageAccountUninitialized
  | storageAccountFinalized
  | unknownPrecompileMethodSelector (address : Address) (selector : Bytes)
  | insufficientBalance (address : Address) (required : U256)
  | outOfGas (limit required : U256)
  | stackOverflow
  | stackUnderflow
  | pushOutOfBounds (contract : Address)
  | memoryAccessOutOfLimits (offset length : ℕ)
  | returnDataCopyOverflow (offset length : ℕ)
  | staticModeViolation (contract : Address)
  | invalidJump (contract : Address) (target : ℕ)
  | invalidOpcode (contract : Address) (opcode : UInt8)
  | deprecatedOpcode (contract : Address) (opcode : UInt8)
  | unknownOpcode (contract : Address) (opcode : UInt8)
  | nonceOverflow (address : Address)
  | invalidTransactionNonce (origin : Address) (nonce trxNonce : ℕ)
  | invalidChainId (chainId : U256)
  | deployToExistingAccount (address caller : Address)
  | evmObjectFormatNotSupported (contract : Address)
  | contractCodeSizeLimit (contract : Address) (size : ℕ)
  | senderHasDeployedCode (address : Address)
  | integerOverflow
  | outOfBounds
  | holderInvalidOwner (owner expected : Pubkey)
  | holderInvalidHash (hash expected : U256)
  | validationUndefinedInstruction (op : UInt8) (pos : ℕ)
  | validationTruncatedImmediate (op : UInt8) (pos : ℕ)
  | validationInvalidSectionArgument (arg last pos : ℕ)
  | validationInvalidJumpDest (offset : ℤ) (dest pos : ℕ)
  | validationConflictingStack (found want : ℕ)
  | validationInvalidBranchCount (pos : ℕ)
  | validationInvalidOutputs (found : UInt8) (want pos : ℕ)
  | validationInvalidMaxStackHeight (index found want : ℕ)
  | validationInvalidCodeTermination (op : UInt8) (pos : ℕ)
  | validationUnreachableCode
  | emptyStack
  | containerNotFound
  | functionMetadataNotFound (index : ℕ)
  | unsupportedOpcode (op : UInt8)
  | unexpectedEndOfFile
  | invalidMagic
  | invalidVersion (version : UInt8)
  | missingSectionHeader (expected found : UInt8)
  | invalidTypeSizeMustBeDivisibleBy4 (size : ℕ)
  | invalidTypeSizeExceed (size : ℕ)
  | invalidCodeHeader
  | mismatchCodeSize (types code : ℕ)
  | invalidCodeSize (index : ℕ)
  | missingTerminator (found : UInt8)
  | tooManyInputs (index input : UInt8)
  | tooManyOutputs (index input : UInt8)
  | tooLargeMaxStackHeight (index input : UInt8)
  | invalidSection0Type (input output : UInt8)
  | eofLegacyCode
  | invalidContainerSize (found want : ℕ)
  | unknownSectionHeader (kind : UInt8)
  deriving DecidableEq

namespace Error

/-- `Display for Error`. -/
def display : Error → String
  | custom m => s!"Error: {m}"
  | programError t => s!"Solana Program Error: {t}"
  | rlpError t => s!"RLP error: {t}"
  | secp256k1Error t => s!"Secp256k1 error: {t}"
  | bincodeError t => s!"Bincode error: {t}"
  | fromHexError t => s!"FromHexError error: {t}"
  | tryFromIntError =>
    "TryFromIntError error: out of range integral type conversion attempted"
  | tryFromSliceError => "TryFromSliceError error: could not convert slice to array"
  | accountMissing a => s!"Account {a.display} - not found"
  | accountBlocked a => s!"Account {a.display} - blocked"
  | accountInvalidTag k t => s!"Account {k.display} - invalid tag, expected {t.toNat}"
  | accountInvalidOwner k o => s!"Account {k.display} - invalid owner, expected {o.display}"
  | accountInvalidKey k e => s!"Account {k.display} - invalid public key, expected {e.display}"
  | accountInvalidData k => s!"Account {k.display} - invalid data"
  | accountNotWritable k => s!"Account {k.display} - not writable"
  | accountNotSigner k => s!"Account {k.display} - not signer"
  | accountNotRentExempt k => s!"Account {k.display} - not rent exempt"
  | accountAlreadyInitialized k => s!"Account {k.display} - already initialized"
  | unauthorizedOperator => "Operator is not authorized"
  | storageAccountUninitialized => "Storage Account is uninitialized"
  | storageAccountFinalized => "Storage Account is finalized"
  | unknownPrecompileMethodSelector a s =>
    s!"Unknown extension method selector {s.map UInt8.toNat}, contract {a.display}"
  | insufficientBalance a r =>
    s!"Insufficient balance for transfer, account = {a.display}, required = {r.toNat}"
  | outOfGas l r => s!"Out of Gas, limit = {l.toNat}, required = {r.toNat}"
  | stackOverflow => "EVM Stack Overflow"
  | stackUnderflow => "EVM Stack Underflow"
  | pushOutOfBounds c => s!"EVM Push opcode out of bounds, contract = {c.display}"
  | memoryAccessOutOfLimits o l =>
    s!"EVM Memory Access at offset = {o} with length = {l} is out of limits"
  | returnDataCopyOverflow o l =>
    s!"EVM RETURNDATACOPY offset = {o} with length = {l} exceeds data size"
  | staticModeViolation c => s!"EVM static mode violation, contract = {c.display}"
  | invalidJump c t => s!"EVM invalid jump destination = {t}, contract = {c.display}"
  | invalidOpcode c o =>
    s!"EVM encountered invalid opcode, contract = {c.display}, opcode = {upperHex o.toNat}"
  | deprecatedOpcode c o =>
    s!"EVM encountered deprecated opcode, contract = {c.display}, opcode = {upperHex o.toNat}"
  | unknownOpcode c o =>
    s!"EVM encountered unknown opcode, contract = {c.display}, opcode = {upperHex o.toNat}"
  | nonceOverflow a => s!"Account {a.display} nonce overflow"
  | invalidTransactionNonce o n t =>
    s!"Invalid Nonce, origin {o.display} nonce {n} != Transaction nonce {t}"
  | invalidChainId c => s!"Invalid Chain ID {c.toNat}"
  | deployToExistingAccount a c =>
    s!"Attempt to deploy to existing account {a.display}, caller = {c.display}"
  | evmObjectFormatNotSupported c =>
    s!"New contract code starting with the 0xEF byte (EIP-3541), contract = {c.display}"
  | contractCodeSizeLimit c s =>
    s!"New contract code size exceeds 24kb (EIP-170), contract = {c.display}, size = {s}"
  | senderHasDeployedCode a =>
    "Transaction is rejected from a sender with deployed code (EIP-3607), contract = "
      ++ a.display
  | integerOverflow => "Checked Integer Math Overflow"
  | outOfBounds => "Index out of bounds"
  | holderInvalidOwner o e =>
    s!"Holder Account - invalid owner {o.display}, expected = {e.display}"
  | holderInvalidHash h e =>
    s!"Holder Account - invalid transaction hash {hexEncode h.bytes}, "
      ++ s!"expected = {hexEncode e.bytes}"
  | validationUndefinedInstruction o p =>
    s!"Validation: undefined instruction: op {upperHex o.toNat}, pos {p}"
  | validationTruncatedImmediate o p =>
    s!"Validation: truncated immediate: op {upperHex o.toNat}, pos {p}"
  | validationInvalidSectionArgument a l p =>
    s!"Validation: invalid section argument: arg {a}, last {l}, pos {p}"
  | validationInvalidJumpDest o d p =>
    s!"Validation: invalid jump destination: offset {o}, dest {d}, pos {p}"
  | validationConflictingStack h w =>
    s!"Validation: conflicting stack height: have {h}, want {w}"
  | validationInvalidBranchCount p =>
    s!"Validation: invalid number of branches in jump table: must not be 0, pos {p}"
  | validationInvalidOutputs h w p =>
    s!"Validation: invalid number of outputs: have {h.toNat}, want {w}, at pos {p}"
  | validationInvalidMaxStackHeight s h w =>
    s!"Validation: invalid max stack height: {s}: have {h}, want {w}"
  | validationInvalidCodeTermination o p =>
    s!"Validation: invalid code termination: end with {o.toNat}, pos {p}"
  | validationUnreachableCode => "Validation: unreachable code"
  | emptyStack => "EVM Empty stack"
  | containerNotFound => "EVM container not found"
  | functionMetadataNotFound i => s!"EVM function metadata not found at index {i}"
  | unsupportedOpcode o => s!"Opcode not supported, opcode {upperHex o.toNat}"
  | unexpectedEndOfFile => "Unexpected end of file"
  | invalidMagic => "Invalid magic: want 0xEF00"
  | invalidVersion v => s!"Invalid version: have {v.toNat}, want 1"
  | missingSectionHeader e f =>
    s!"Missing section header: found section kind {e.toNat} instead of {f.toNat}"
  | invalidTypeSizeMustBeDivisibleBy4 s =>
    s!"Invalid type section size: type section size must be divisible by 4, have {s}"
  | invalidTypeSizeExceed s =>
    s!"Invalid type section size: type section must not exceed 4*1024, have {s}"
  | invalidCodeHeader => "Invalid code header"
  | mismatchCodeSize t c =>
    "Invalid code size: mismatch of code sections cound and type signatures, "
      ++ s!"types {t}, code {c}"
  | invalidCodeSize i => s!"Invalid code size for section {i}: size must not be 0"
  | missingTerminator f => s!"Missing header terminator: have (0x{lowerHex f.toNat})"
  | tooManyInputs i n =>
    s!"Invalid type content, too many inputs for section {i.toNat}: have {n.toNat}"
  | tooManyOutputs i n =>
    s!"Invalid type content, too many outputs for section {i.toNat}: have {n.toNat}"
  | tooLargeMaxStackHeight i n =>
    s!"Invalid type content, max stack height exceeds limit for section {i.toNat}: "
      ++ s!"have {n.toNat}"
  | invalidSection0Type i o =>
    s!"Invalid section 0 type, input and output should be zero: have {i.toNat}, {o.toNat}"
  | eofLegacyCode => "invalid code: EOF contract must not deploy legacy code"
  | invalidContainerSize h w => s!"Invalid container size: have {h}, want {w}"
  | unknownSectionHeader k => s!"Unknown section header (0x{lowerHex k.toNat})"

end Error

/-- `ProgramError`, the ones the program itself returns. -/
inductive ProgramError where
  | invalidArgument
  | invalidInstructionData
  | invalidAccountData
  | accountDataTooSmall
  | insufficientFunds
  | missingRequiredSignature
  | accountAlreadyInitialized
  | uninitializedAccount
  | notEnoughAccountKeys
  deriving DecidableEq

/-- `Display for ProgramError`. -/
def ProgramError.display : ProgramError → String
  | invalidArgument => "The arguments provided to a program instruction where invalid"
  | invalidInstructionData => "An instruction's data contents was invalid"
  | invalidAccountData => "An account's data contents was invalid"
  | accountDataTooSmall => "An account's data was too small"
  | insufficientFunds => "An account's balance was too small to complete the instruction"
  | missingRequiredSignature => "A signature was required but not found"
  | accountAlreadyInitialized =>
    "An initialize instruction was sent to an account that has already been initialized"
  | uninitializedAccount => "An attempt to operate on an account that hasn't been initialized"
  | notEnoughAccountKeys => "The instruction expected additional account keys"

/-- `From<ProgramError> for Error`. -/
def Error.ofProgram (e : ProgramError) : Error := .programError e.display

/-- What aborts a function outside the bookkeeping of frames. -/
inductive Fault where
  /-- A slice, an array or a split is out of range. -/
  | index
  /-- An `unwrap` or an `expect` of a value that is not there. -/
  | unwrap
  /-- An `assert!`. -/
  | assertion
  /-- The account storage is asked for an account it was not given. -/
  | account
  /-- A function of another crate aborts. -/
  | foreign
  /-- A `panic!`, an `unimplemented!` or an `unreachable!`. -/
  | unsupported
  /-- A loop outlives its fuel. -/
  | diverge
  deriving DecidableEq

/-- How the program aborts. -/
inductive Panic where
  /-- `Fatal Error: Inconsistent EVM Call Stack`. -/
  | callStack
  /-- The sanity assertions of `revert_snapshot`. -/
  | sanity
  | fault (fault : Fault)
  deriving DecidableEq

/-- A function without state that may fail or abort. -/
abbrev Fallible (α : Type) : Type := Exec Fault Error Unit α

/-- `bytes[i]`. -/
def byteAt (bytes : Bytes) (i : ℕ) : Fallible UInt8 := Exec.ofOption .index bytes[i]?

/-- `&bytes[start..stop]`. -/
def sliceOf (bytes : Bytes) (start stop : ℕ) : Fallible Bytes :=
  if start ≤ stop ∧ stop ≤ bytes.length then pure ((bytes.drop start).take (stop - start))
  else Exec.abort .index

/-- `bytes.split_at(mid)`. -/
def splitAt (bytes : Bytes) (mid : ℕ) : Fallible (Bytes × Bytes) :=
  if mid ≤ bytes.length then pure (bytes.splitAt mid) else Exec.abort .index

/-- `usize::try_from` of a word, with the error it is converted to. -/
def tryUsize (a : U256) : Fallible ℕ :=
  match a.toUsize? with
  | some n => pure n
  | none => Exec.fail .tryFromIntError

/-- The selector of `Error(string)`. -/
def ERROR_SELECTOR : Bytes := [0x08, 0xc3, 0x79, 0xa0]

/-- The length `build_revert_message` pads a message to. -/
def revertDataLen (len : ℕ) : ℕ := if len % 32 = 0 then max len 32 else (len / 32 + 1) * 32

/-- `build_revert_message`, on the bytes of the message. -/
def buildRevertMessage (msg : Bytes) : Bytes :=
  ERROR_SELECTOR ++ toBeBytes 32 0x20 ++ toBeBytes 32 msg.length ++ msg
    ++ List.replicate (revertDataLen msg.length - msg.length) 0

/-- The bytes a frame reverts with when an opcode fails. -/
def Error.revertMessage (e : Error) : Bytes := buildRevertMessage e.display.toUTF8.data.toList

end NeonEvm
