import NeonEvm.AccountStorage.Apply
import NeonEvm.Executor.NeonToken
import NeonEvm.Instruction.Treasury

/-!
# Instruction/Deposit — Ethereum accounts are made, and NEON comes in

    tokens of the depositor ──▸ pool        the same value ──▸ balance of the account

Anyone may do so for any account.  A deposit is made of what was delegated to the account, whose own
seeds sign for it.
-/

namespace NeonEvm

open Exec Packable

/-- `Address::from` of 20 bytes. -/
def addressAt (bytes : Bytes) : Address := BitVec.ofNat 160 (ofBeBytes bytes)

variable [Platform] [Runtime]

/-- `EthereumAccount::create_and_init_account`. -/
def createAndInitAccount (operator : Pubkey) (address : Address) (info : AccountMeta)
    (bumpSeed : UInt8) (space : ℕ) : Program Unit := do
  ProgramAccountStorage.createAccount operator address info.pubkey bumpSeed space
  initAccount info (EthereumAccount.new address bumpSeed)

/-- `account_create::process`. -/
def accountCreate (accounts : List AccountMeta) (instruction : Bytes) : Program Unit := do
  let operator ← operatorFromAccountNotWhitelisted (← ofOption .index accounts[0]?)
  let _ ← programFromAccount Platform.systemProgramId (← ofOption .index accounts[1]?)
  let info ← ofOption .index accounts[2]?
  let address := addressAt (← lift (sliceOf instruction 0 20))
  failIf ((← accountAt info.pubkey).owner ≠ Platform.systemProgramId) (.ofProgram .invalidArgument)
  let (key, bumpSeed) := address.findSolanaAddress programId
  failIf (key ≠ info.pubkey) (.ofProgram .invalidArgument)
  createAndInitAccount operator address info bumpSeed (SIZE EthereumAccount)

/-- `validate` of `neon_tokens_deposit`. -/
def validateDeposit (pool : AccountMeta) (sourceState poolState : TokenAccount)
    (account : AccountMeta) (address : Address) : Program UInt8 := do
  let (key, bumpSeed) := address.findSolanaAddress programId
  failIf (key ≠ account.pubkey) (.ofProgram .invalidArgument)
  failIf (sourceState.mint ≠ Runtime.neonTokenMint) (.ofProgram .invalidArgument)
  failIf (pool.pubkey ≠ poolKey programId Runtime.neonTokenMint) (.ofProgram .invalidArgument)
  failIf (poolState.mint ≠ Runtime.neonTokenMint) (.ofProgram .invalidArgument)
  failIf (sourceState.delegate ≠ some account.pubkey) (.ofProgram .invalidArgument)
  failIf (sourceState.delegatedAmount < 1) (.ofProgram .invalidArgument)
  pure bumpSeed

/-- `neon_tokens_deposit::process`. -/
def neonTokensDeposit (accounts : List AccountMeta) (instruction : Bytes) : Program Unit := do
  let source ← ofOption .index accounts[0]?
  let sourceState ← tokenStateFromAccount source
  let pool ← ofOption .index accounts[1]?
  let poolState ← tokenStateFromAccount pool
  let info ← ofOption .index accounts[2]?
  let _ ← programFromAccount Platform.splTokenId (← ofOption .index accounts[3]?)
  let operator ← operatorFromAccountNotWhitelisted (← ofOption .index accounts[4]?)
  let _ ← programFromAccount Platform.systemProgramId (← ofOption .index accounts[5]?)
  let address := addressAt (← lift (sliceOf instruction 0 20))
  let bumpSeed ← validateDeposit pool sourceState poolState info address
  let transfer ← lift (ofForeign (Platform.splTransfer source.pubkey pool.pubkey info.pubkey
    sourceState.delegatedAmount))
  invokeSigned (.external transfer) (accountSeeds address bumpSeed)
  if (← accountAt info.pubkey).owner = Platform.systemProgramId then
    createAndInitAccount operator address info bumpSeed (SIZE EthereumAccount)
  else pure ()
  let deposit := sourceState.delegatedAmount * 10 ^ additionalDecimals
  let (account, rest) ← openAccount EthereumAccount info.pubkey
  failIf (2 ^ 256 ≤ account.balance.toNat + deposit) (.ofProgram .invalidArgument)
  assertThat info.isWritable .assertion
  modify (·.setContent info.pubkey
    (.ethereum { account with balance := account.balance + BitVec.ofNat 256 deposit } rest))

end NeonEvm
