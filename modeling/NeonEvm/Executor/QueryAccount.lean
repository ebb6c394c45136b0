import NeonEvm.Executor.State

/-!
# Executor/QueryAccount — the extension that reads Solana accounts

Every method reads the account as it is in the chain, past the journal.
-/

namespace NeonEvm

open Exec

/-- `&bytes[start..]`. -/
def sliceFrom (bytes : Bytes) (start : ℕ) : Fallible Bytes := sliceOf bytes start bytes.length

/-- `array_ref![bytes, offset, len]`. -/
def arrayRef (bytes : Bytes) (offset len : ℕ) : Fallible Bytes :=
  sliceOf bytes offset (offset + len)

/-- Thirty-two bytes that spell a boolean. -/
def solidityBool (b : Bool) : Bytes := toBeBytes 32 (if b then 1 else 0)

namespace QueryAccount

open ExecutorState

section

variable (B : AccountStorage) (key : Pubkey)

def accountOwner : Db Bytes := do
  pure (U256.bytes (← mapSolanaAccount B key).owner)

def accountLamports : Db Bytes := do
  pure (toBeBytes 32 (← mapSolanaAccount B key).lamports)

def accountRentEpoch : Db Bytes := do
  pure (toBeBytes 32 (← mapSolanaAccount B key).rentEpoch)

def accountIsExecutable : Db Bytes := do
  pure (solidityBool (← mapSolanaAccount B key).executable)

def accountDataLength : Db Bytes := do
  pure (toBeBytes 32 (← mapSolanaAccount B key).data.length)

/-- `account_data`: the end of the range wraps around. -/
def accountData (offset length : ℕ) : Db Bytes := do
  if length = 0 then fail (.custom "Query Account: data() - length == 0")
  else
    let data := (← mapSolanaAccount B key).data
    let stop := wrappingAdd offset length
    if offset ≤ stop ∧ stop ≤ data.length then pure ((data.drop offset).take (stop - offset))
    else fail (.custom "Query Account: data() - out of bounds")

/-- `account_info`: key, lamports, owner, executable and rent epoch in five words. -/
def accountInfo : Db Bytes := do
  let info ← mapSolanaAccount B key
  pure (U256.bytes info.key ++ toBeBytes 32 info.lamports ++ U256.bytes info.owner
    ++ solidityBool info.executable ++ toBeBytes 32 info.rentEpoch)

end

/-- `query_account`. -/
def queryAccount (B : AccountStorage) (address : Address) (input : Bytes) (context : Context)
    (_isStatic : Bool) : Db Bytes := do
  failIf (context.value ≠ 0) (.custom "Query Account: value != 0")
  let (methodId, rest) ← lift (splitAt input 4)
  let (accountAddress, rest) ← lift (splitAt rest 32)
  let key := U256.ofBytes accountAddress
  if methodId = [0x2b, 0x3c, 0x83, 0x22] then
    -- cache(uint256,uint64,uint64), deprecated
    pure []
  else if methodId = [0xa1, 0x23, 0xc3, 0x3e] ∨ methodId = [0x02, 0x57, 0x1b, 0xe3] then
    accountOwner B key
  else if methodId = [0xaa, 0x8b, 0x99, 0xd2] ∨ methodId = [0xa9, 0xdb, 0xaf, 0x25] then
    accountDataLength B key
  else if methodId = [0x74, 0x8f, 0x2d, 0x8a] ∨ methodId = [0x62, 0x73, 0x44, 0x8f] then
    accountLamports B key
  else if methodId = [0xc2, 0x19, 0xa7, 0x85] ∨ methodId = [0xe6, 0xbe, 0xf4, 0x88] then
    accountIsExecutable B key
  else if methodId = [0xc4, 0xd3, 0x69, 0xb5] ∨ methodId = [0x8b, 0xb9, 0xe6, 0xf4] then
    accountRentEpoch B key
  else if methodId = [0x43, 0xca, 0x51, 0x61] ∨ methodId = [0x7d, 0xd6, 0xc1, 0xa0] then do
    let arguments ← lift (arrayRef rest 0 64)
    let offset ← lift (tryUsize (U256.ofBytes (arguments.take 32)))
    let length ← lift (tryUsize (U256.ofBytes (arguments.drop 32)))
    accountData B key offset length
  else if methodId = [0xb6, 0x4a, 0x09, 0x7e] then
    accountInfo B key
  else fail (.unknownPrecompileMethodSelector address methodId)

end QueryAccount

end NeonEvm
