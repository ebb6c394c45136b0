import NeonEvm.Executor.QueryAccount

/-!
# Executor/NeonToken — the extension that withdraws NEON into SPL tokens

    withdraw = [create the target's token account] · transfer pool → target · debit the caller
-/

namespace NeonEvm

open Exec

variable [Platform]

/-- The decimals of NEON that its SPL token lacks: `18 - token_mint::decimals()`. -/
def additionalDecimals : ℕ := 18 - Platform.tokenMintDecimals.val

/-- The seed of the pool's authority, `b"Deposit"`. -/
def DEPOSIT_SEED : Bytes := [0x44, 0x65, 0x70, 0x6f, 0x73, 0x69, 0x74]

/-- The authority of the pool and its bump seed. -/
def poolAuthority (programId : Pubkey) : Pubkey × UInt8 :=
  Platform.findProgramAddress [DEPOSIT_SEED] programId

/-- The token account that backs every balance. -/
def poolKey (programId mint : Pubkey) : Pubkey :=
  Platform.getAssociatedTokenAddress (poolAuthority programId).1 mint

namespace NeonToken

open ExecutorState

/-- `NEON_TOKEN_METHOD_WITHDRAW_ID`. -/
def NEON_TOKEN_METHOD_WITHDRAW_ID : Bytes := [0x8e, 0x19, 0x89, 0x9e]

/-- Queue the creation of the target's token account unless the token program owns it already. -/
def createTargetToken (B : AccountStorage) (target : Pubkey) (account : AccountInfo) : Db Unit :=
  if account.owner = Platform.splTokenId then pure ()
  else do
    let createAssociated := Platform.createAssociatedTokenAccount B.operator target
      B.neonTokenMint Platform.splTokenId
    let fee ← lift (ofForeign (Platform.minimumBalance Platform.tokenAccountLen))
    queueExternalInstruction createAssociated [] fee

/-- `withdraw`. -/
def withdraw (B : AccountStorage) (source : Address) (target : Pubkey) (value : U256) :
    Db Unit := do
  failIf (value = 0) (.custom "Neon Withdraw: value == 0")
  let minAmount := 10 ^ additionalDecimals
  let splAmount := value.toNat / minAmount
  let remainder := value.toNat % minAmount
  failIf (U64_MAX < splAmount) (.custom "Neon Withdraw: value exceeds u64::max")
  failIf (remainder ≠ 0)
    (.custom s!"Neon Withdraw: value must be divisible by 10^{additionalDecimals}")
  let targetToken := Platform.getAssociatedTokenAddress target B.neonTokenMint
  let account ← externalAccount B targetToken
  createTargetToken B target account
  let (authority, bumpSeed) := poolAuthority B.programId
  let pool := poolKey B.programId B.neonTokenMint
  let transfer ← lift (ofForeign (Platform.splTransferChecked pool B.neonTokenMint targetToken
    authority splAmount Platform.tokenMintDecimals.val))
  queueExternalInstruction transfer [DEPOSIT_SEED, [bumpSeed]] 0
  withdrawNeons source value

/-- `neon_token`. -/
def neonToken (B : AccountStorage) (address : Address) (input : Bytes) (context : Context)
    (isStatic : Bool) : Db Bytes := do
  failIf (context.contract ≠ address) (.custom "Withdraw: callcode or delegatecall is not allowed")
  let (methodId, rest) ← lift (splitAt input 4)
  if methodId = NEON_TOKEN_METHOD_WITHDRAW_ID then
    if isStatic then fail (.staticModeViolation address)
    else do
      let destination ← lift (arrayRef rest 0 32)
      withdraw B context.contract (U256.ofBytes destination) context.value
      pure (solidityBool true)
  else fail (.unknownPrecompileMethodSelector address methodId)

end NeonToken

end NeonEvm
