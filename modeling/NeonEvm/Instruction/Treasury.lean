import NeonEvm.Account.Operator
import NeonEvm.Executor.QueryAccount

/-!
# Instruction/Treasury — the pool that the iterations pay into

    treasury 0, 1, …  ──collect──▸  main treasury

The treasuries lie at addresses of the program.  Who may upgrade the program makes the main one, and
anyone collects.
-/

namespace NeonEvm

open Exec

/-- `TREASURY_POOL_SEED`. -/
def TREASURY_POOL_SEED : Bytes := "treasury_pool".toUTF8.toList

/-- What the loader of upgradeable programs keeps, the mint of wrapped SOL, and the features of the
build. -/
class Loader where
  /-- `spl_token::native_mint::id`. -/
  nativeMintId : Pubkey
  /-- `bpf_loader_upgradeable::id`. -/
  bpfLoaderUpgradeableId : Pubkey
  /-- The upgrade authority in the data of a program; nothing where the data is of another kind. -/
  deserializeProgramData : Bytes → Except String (Option (Option Pubkey))
  mainnet : Bool
  devnet : Bool
  testnet : Bool
  ci : Bool

/-- `array_ref![instruction, offset, 4]`, as a number. -/
def readU32 (instruction : Bytes) (offset : ℕ) : Program ℕ := do
  pure (ofLeBytes (← lift (sliceOf instruction offset (offset + 4))))

/-- `program::System::from_account`, `program::Token::from_account`, `program::Neon::from_account`
and `Incinerator::from_account`. -/
def programFromAccount (key : Pubkey) (info : AccountMeta) : Program AccountMeta := do
  failIf (info.pubkey ≠ key) (.ofProgram .invalidArgument)
  pure info

variable [Platform] [Runtime]

/-- The seeds of a treasury. -/
def treasurySeeds (index : ℕ) : List Bytes := [TREASURY_POOL_SEED, toLeBytes 4 index]

/-- `Treasury::address`. -/
def treasuryAddress (index : ℕ) : Pubkey × UInt8 :=
  Platform.findProgramAddress (treasurySeeds index) programId

/-- `Treasury::from_account`. -/
def treasuryFromAccount (index : ℕ) (info : AccountMeta) : Program Pubkey := do
  failIf (info.pubkey ≠ (treasuryAddress index).1) (.ofProgram .invalidArgument)
  pure info.pubkey

/-- `MainTreasury::address`. -/
def mainTreasuryAddress : Pubkey × UInt8 :=
  Platform.findProgramAddress [TREASURY_POOL_SEED] programId

/-- `token::State::from_account`. -/
def tokenStateFromAccount (info : AccountMeta) : Program TokenAccount := do
  let account ← accountAt info.pubkey
  failIf (account.owner ≠ Platform.splTokenId) (.ofProgram .invalidArgument)
  lift (ofForeign (Platform.unpackTokenAccount account.content.bytes))

section

variable [Loader]

/-- `MainTreasury::from_account`. -/
def mainTreasuryFromAccount (info : AccountMeta) : Program Pubkey := do
  failIf (info.pubkey ≠ mainTreasuryAddress.1) (.ofProgram .invalidArgument)
  let account ← tokenStateFromAccount info
  failIf (account.mint ≠ Loader.nativeMintId) (.ofProgram .invalidArgument)
  pure info.pubkey

/-- `collect_treasury::process`. -/
def collectTreasury (accounts : List AccountMeta) (instruction : Bytes) : Program Unit := do
  let treasuryIndex ← readU32 instruction 0
  let mainTreasury ← mainTreasuryFromAccount (← ofOption .index accounts[0]?)
  let treasury ← treasuryFromAccount treasuryIndex (← ofOption .index accounts[1]?)
  let _ ← programFromAccount Platform.systemProgramId (← ofOption .index accounts[2]?)
  let account ← accountAt treasury
  let availableLamports := account.lamports - (← minimumBalance account.content.len)
  if 0 < availableLamports then
    invokeSigned (.transfer treasury mainTreasury availableLamports)
      (treasurySeeds treasuryIndex ++ [[(treasuryAddress treasuryIndex).2]])
  else pure ()

/-- `get_program_upgrade_authority`. -/
def programUpgradeAuthority (programData : AccountMeta) : Program Pubkey := do
  let (key, _) := Platform.findProgramAddress [programId.bytes] Loader.bpfLoaderUpgradeableId
  failIf (programData.pubkey ≠ key) (.ofProgram .invalidArgument)
  let account ← accountAt programData.pubkey
  match Loader.deserializeProgramData account.content.bytes with
  | .ok (some (some authority)) => pure authority
  | _ => fail (.ofProgram .invalidAccountData)

/-- `create_main_treasury::process`. -/
def createMainTreasury (accounts : List AccountMeta) : Program Unit := do
  let mainTreasury ← ofOption .index accounts[0]?
  let programData ← ofOption .index accounts[1]?
  let programUpgradeAuth ← ofOption .index accounts[2]?
  let _ ← programFromAccount Platform.splTokenId (← ofOption .index accounts[3]?)
  let _ ← programFromAccount Platform.systemProgramId (← ofOption .index accounts[4]?)
  let mint ← ofOption .index accounts[5]?
  let payer ← operatorFromAccountNotWhitelisted (← ofOption .index accounts[6]?)
  let (key, bumpSeed) := mainTreasuryAddress
  failIf (mainTreasury.pubkey ≠ key) (.ofProgram .invalidArgument)
  failIf (mint.pubkey ≠ Loader.nativeMintId) (.ofProgram .invalidArgument)
  let authority ← programUpgradeAuthority programData
  failIf (programUpgradeAuth.pubkey ≠ authority) (.ofProgram .invalidArgument)
  failIf (!programUpgradeAuth.isSigner) (.ofProgram .missingRequiredSignature)
  createPdaAccount Platform.splTokenId payer mainTreasury.pubkey [TREASURY_POOL_SEED, [bumpSeed]]
    Platform.tokenAccountLen
  let instruction ← lift (ofForeign (Platform.splInitializeAccount3 Platform.splTokenId
    mainTreasury.pubkey mint.pubkey programUpgradeAuth.pubkey))
  invokeSigned (.external instruction) []

/-- `get_program_upgrade_authority` of `test_account_update_nonce`. -/
def testUpgradeAuthority (programData : AccountMeta) : Program Pubkey := do
  let (key, _) := Platform.findProgramAddress [programId.bytes] Loader.bpfLoaderUpgradeableId
  failIf (programData.pubkey ≠ key) (.accountInvalidKey programData.pubkey key)
  let account ← accountAt programData.pubkey
  match Loader.deserializeProgramData account.content.bytes with
  | .ok (some (some authority)) => pure authority
  | .ok (some none) => fail (.custom "NeonEVM must have valid upgrade authority")
  | .ok none => fail (.accountInvalidData programData.pubkey)
  | .error text => fail (.bincodeError text)

/-- `test_account_update_nonce::process`. -/
def testAccountUpdateNonce (accounts : List AccountMeta) (instruction : Bytes) : Program Unit := do
  failIf Loader.mainnet (.ofProgram .invalidInstructionData)
  failIf (!(Loader.devnet || Loader.testnet || Loader.ci)) (.ofProgram .invalidInstructionData)
  let nonce := ofLeBytes (← lift (sliceOf instruction 0 8))
  let signer ← ofOption .index accounts[0]?
  let programData ← ofOption .index accounts[1]?
  let info ← ofOption .index accounts[2]?
  let (account, rest) ← openAccount EthereumAccount info.pubkey
  failIf (!signer.isSigner) (.accountNotSigner signer.pubkey)
  let authority ← testUpgradeAuthority programData
  failIf (authority ≠ signer.pubkey) (.custom "Signer is not program upgrade authority")
  assertThat info.isWritable .assertion
  modify (·.setContent info.pubkey (.ethereum { account with trxCount := nonce } rest))

end

end NeonEvm
