import NeonEvm.Executor.QueryAccount

/-!
# Executor/SplToken — the extension that drives the SPL token program

    selector · arguments   ⟼   queued instructions, signed for the caller

The methods that queue an instruction refuse static calls, each for itself.
-/

namespace NeonEvm

open Exec

variable [Platform]

/-- `b"ContractData"`. -/
def CONTRACT_DATA_SEED : Bytes :=
  [0x43, 0x6f, 0x6e, 0x74, 0x72, 0x61, 0x63, 0x74, 0x44, 0x61, 0x74, 0x61]

/-- `b"AUTH"`. -/
def AUTH_SEED : Bytes := [0x41, 0x55, 0x54, 0x48]

/-- The seeds that sign for the account of an address. -/
def signerSeeds (signer : Address) (bumpSeed : UInt8) : List Bytes :=
  [[ACCOUNT_SEED_VERSION], signer.bytes, [bumpSeed]]

namespace SplToken

open ExecutorState

/-! ## Arguments -/

/-- `read_u8`. -/
def readU8 (input : Bytes) : Fallible UInt8 := do
  let word := U256.ofBytes (← arrayRef input 0 32)
  if word.toNat < 2 ^ 8 then pure (UInt8.ofNat word.toNat) else fail .tryFromIntError

/-- `read_u64`. -/
def readU64 (input : Bytes) : Fallible ℕ := do
  tryUsize (U256.ofBytes (← arrayRef input 0 32))

/-- `read_pubkey`. -/
def readPubkey (input : Bytes) : Fallible Pubkey := do
  require (32 ≤ input.length) .outOfBounds
  pure (U256.ofBytes (← arrayRef input 0 32))

/-- `read_salt`. -/
def readSalt (input : Bytes) : Fallible Bytes := do
  require (32 ≤ input.length) .outOfBounds
  arrayRef input 0 32

section

variable (B : AccountStorage) (context : Context)

/-! ## Methods that queue one instruction

Each signs with the account of the caller. -/

/-- Queue an instruction signed for the caller's account. -/
def queueSigned (instruction : Pubkey → Except String Instruction) : Db Bytes := do
  let (signerPubkey, bumpSeed) := B.solanaAddress context.caller
  let instruction ← lift (ofForeign (instruction signerPubkey))
  queueExternalInstruction instruction (signerSeeds context.caller bumpSeed) 0
  pure []

def closeAccount (account : Pubkey) : Db Bytes :=
  queueSigned B context fun signer => Platform.splCloseAccount account B.operator signer

def approve (source target : Pubkey) (amount : ℕ) : Db Bytes :=
  queueSigned B context fun signer => Platform.splApprove source target signer amount

def revoke (account : Pubkey) : Db Bytes :=
  queueSigned B context fun signer => Platform.splRevoke account signer

def transfer (source target : Pubkey) (amount : ℕ) : Db Bytes :=
  queueSigned B context fun signer => Platform.splTransfer source target signer amount

def mintTo (mint target : Pubkey) (amount : ℕ) : Db Bytes :=
  queueSigned B context fun signer => Platform.splMintTo mint target signer amount

def burn (mint source : Pubkey) (amount : ℕ) : Db Bytes :=
  queueSigned B context fun signer => Platform.splBurn source mint signer amount

def freeze (mint target : Pubkey) : Db Bytes :=
  queueSigned B context fun signer => Platform.splFreezeAccount target mint signer

def thaw (mint target : Pubkey) : Db Bytes :=
  queueSigned B context fun signer => Platform.splThawAccount target mint signer

/-- `transfer_with_seed`: signs with an authority derived from the caller and the seed. -/
def transferWithSeed (seed : Bytes) (source target : Pubkey) (amount : ℕ) : Db Bytes := do
  let seeds := [[ACCOUNT_SEED_VERSION], AUTH_SEED, context.caller.bytes, seed]
  let (signerPubkey, signerSeed) := Platform.findProgramAddress seeds B.programId
  let instruction ← lift (ofForeign (Platform.splTransfer source target signerPubkey amount))
  queueExternalInstruction instruction (seeds ++ [[signerSeed]]) 0
  pure []

/-! ## Methods that create an account -/

/-- The seeds of an account that the caller's contract owns. -/
def contractDataSeeds (seed : Bytes) : List Bytes :=
  [[ACCOUNT_SEED_VERSION], CONTRACT_DATA_SEED, context.caller.bytes, seed]

/-- Queue the payment of the lamports that an account lacks for its rent. -/
def payRent (account : AccountInfo) (requiredLamports : ℕ) : Db Unit :=
  if 0 < requiredLamports then
    queueExternalInstruction (Platform.systemTransfer B.operator account.key requiredLamports) []
      requiredLamports
  else pure ()

/-- `create_account`. -/
def createAccount (account : AccountInfo) (space : ℕ) (seeds : List Bytes) : Db Unit := do
  let minimumBalance ← lift (ofForeign (Platform.minimumBalance space))
  payRent B account (minimumBalance - account.lamports)
  queueExternalInstruction (Platform.systemAllocate account.key space) seeds 0
  queueExternalInstruction (Platform.systemAssign account.key Platform.splTokenId) seeds 0

/-- The account of a seed, which must still belong to the system program, created with `space`
bytes; its key. -/
def createSeededAccount (seed : Bytes) (space : ℕ) : Db Pubkey := do
  let seeds := contractDataSeeds context seed
  let (key, bumpSeed) := Platform.findProgramAddress seeds B.programId
  let account ← externalAccount B key
  failIf (!isSystemProgram account.owner) (.accountInvalidOwner key Platform.systemProgramId)
  createAccount B account space (seeds ++ [[bumpSeed]])
  pure key

/-- `initialize_mint`. -/
def initializeMint (seed : Bytes) (decimals : UInt8)
    (mintAuthority freezeAuthority : Option Pubkey) : Db Bytes := do
  let (signerPubkey, _) := B.solanaAddress context.caller
  let mintKey ← createSeededAccount B context seed Platform.mintLen
  let instruction ← lift (ofForeign (Platform.splInitializeMint mintKey
    (mintAuthority.getD signerPubkey) (freezeAuthority.getD signerPubkey) decimals.toNat))
  queueExternalInstruction instruction [] 0
  pure (U256.bytes mintKey)

/-- `initialize_account`. -/
def initializeAccount (seed : Bytes) (mint : Pubkey) (owner : Option Pubkey) : Db Bytes := do
  let (signerPubkey, _) := B.solanaAddress context.caller
  let accountKey ← createSeededAccount B context seed Platform.tokenAccountLen
  let instruction ← lift (ofForeign (Platform.splInitializeAccount2 accountKey mint
    (owner.getD signerPubkey)))
  queueExternalInstruction instruction [] 0
  pure (U256.bytes accountKey)

/-! ## Methods that read -/

/-- `find_account`. -/
def findAccount (seed : Bytes) : Db Bytes :=
  pure (U256.bytes (Platform.findProgramAddress (contractDataSeeds context seed) B.programId).1)

/-- `is_system_account`. -/
def isSystemAccount (account : Pubkey) : Db Bytes := do
  pure (solidityBool (isSystemProgram (← externalAccount B account).owner))

/-- The state that an account of the token program holds; the default one where the account is not
there yet. -/
def readState {α : Type} (unpack : Bytes → Except String α) (default : α) (key : Pubkey) :
    Db α := do
  let account ← externalAccount B key
  if account.owner = Platform.splTokenId then lift (ofForeign (unpack account.data))
  else if isSystemProgram account.owner then pure default
  else fail (.programError ILLEGAL_OWNER)

/-- The bytes of an optional key, zeros if there is none. -/
def keyBytes (key : Option Pubkey) : Bytes := U256.bytes (key.getD 0)

/-- `get_account`. -/
def getAccount (account : Pubkey) : Db Bytes := do
  let token ← readState B Platform.unpackTokenAccount TokenAccount.default account
  pure (U256.bytes token.mint ++ U256.bytes token.owner ++ toBeBytes 32 token.amount
    ++ keyBytes token.delegate ++ toBeBytes 32 token.delegatedAmount
    ++ keyBytes token.closeAuthority ++ toBeBytes 32 token.state.toNat)

/-- `get_mint`. -/
def getMint (account : Pubkey) : Db Bytes := do
  let mint ← readState B Platform.unpackMint Mint.default account
  pure (toBeBytes 32 mint.supply ++ toBeBytes 32 mint.decimals.toNat
    ++ solidityBool mint.isInitialized ++ keyBytes mint.freezeAuthority
    ++ keyBytes mint.mintAuthority)

end

/-! ## Dispatch -/

/-- `spl_token`. -/
def splToken (B : AccountStorage) (address : Address) (input : Bytes) (context : Context)
    (isStatic : Bool) : Db Bytes := do
  failIf (context.value ≠ 0) (.custom "SplToken: value != 0")
  failIf (context.contract ≠ address) (.custom "SplToken: callcode or delegatecall is not allowed")
  let (selector, input) ← lift (splitAt input 4)
  if selector = [0xb1, 0x1e, 0xcc, 0x50] then
    -- initializeMint(bytes32 seed, uint8 decimals)
    if isStatic then fail (.staticModeViolation address)
    else do
      let seed ← lift (readSalt input)
      let decimals ← lift (do readU8 (← sliceFrom input 32))
      initializeMint B context seed decimals none none
  else if selector = [0xc3, 0xf3, 0xf2, 0xf2] then
    -- initializeMint(bytes32 seed, uint8 decimals, bytes32 mint_authority, bytes32 freeze_authority)
    if isStatic then fail (.staticModeViolation address)
    else do
      let seed ← lift (readSalt input)
      let decimals ← lift (do readU8 (← sliceFrom input 32))
      let mintAuthority ← lift (do readPubkey (← sliceFrom input 64))
      let freezeAuthority ← lift (do readPubkey (← sliceFrom input 96))
      initializeMint B context seed decimals (some mintAuthority) (some freezeAuthority)
  else if selector = [0xda, 0xa1, 0x2c, 0x5c] then
    -- initializeAccount(bytes32 seed, bytes32 mint)
    if isStatic then fail (.staticModeViolation address)
    else do
      let seed ← lift (readSalt input)
      let mint ← lift (do readPubkey (← sliceFrom input 32))
      initializeAccount B context seed mint none
  else if selector = [0xfc, 0x86, 0xb7, 0x17] then
    -- initializeAccount(bytes32 seed, bytes32 mint, bytes32 owner)
    if isStatic then fail (.staticModeViolation address)
    else do
      let seed ← lift (readSalt input)
      let mint ← lift (do readPubkey (← sliceFrom input 32))
      let owner ← lift (do readPubkey (← sliceFrom input 64))
      initializeAccount B context seed mint (some owner)
  else if selector = [0x57, 0x82, 0xa0, 0x43] then
    -- closeAccount(bytes32 account)
    if isStatic then fail (.staticModeViolation address)
    else do
      let account ← lift (readPubkey input)
      closeAccount B context account
  else if selector = [0xa9, 0xc1, 0x58, 0x06] then
    -- approve(bytes32 source, bytes32 target, uint64 amount)
    if isStatic then fail (.staticModeViolation address)
    else do
      let source ← lift (readPubkey input)
      let target ← lift (do readPubkey (← sliceFrom input 32))
      let amount ← lift (do readU64 (← sliceFrom input 64))
      approve B context source target amount
  else if selector = [0xb7, 0x5c, 0x7d, 0xc6] then
    -- revoke(bytes32 source)
    if isStatic then fail (.staticModeViolation address)
    else do
      let source ← lift (readPubkey input)
      revoke B context source
  else if selector = [0x78, 0x42, 0x3b, 0xcf] then
    -- transfer(bytes32 source, bytes32 target, uint64 amount)
    if isStatic then fail (.staticModeViolation address)
    else do
      let source ← lift (readPubkey input)
      let target ← lift (do readPubkey (← sliceFrom input 32))
      let amount ← lift (do readU64 (← sliceFrom input 64))
      transfer B context source target amount
  else if selector = [0x7c, 0x0e, 0xb8, 0x10] then
    -- transferWithSeed(bytes32,bytes32,bytes32,uint64)
    if isStatic then fail (.staticModeViolation address)
    else do
      let seed ← lift (readSalt input)
      let source ← lift (do readPubkey (← sliceFrom input 32))
      let target ← lift (do readPubkey (← sliceFrom input 64))
      let amount ← lift (do readU64 (← sliceFrom input 96))
      transferWithSeed B context seed source target amount
  else if selector = [0xc9, 0xd0, 0xe2, 0xfd] then
    -- mintTo(bytes32 mint, bytes32 account, uint64 amount)
    if isStatic then fail (.staticModeViolation address)
    else do
      let mint ← lift (readPubkey input)
      let account ← lift (do readPubkey (← sliceFrom input 32))
      let amount ← lift (do readU64 (← sliceFrom input 64))
      mintTo B context mint account amount
  else if selector = [0xc0, 0x67, 0xee, 0xbb] then
    -- burn(bytes32 mint, bytes32 account, uint64 amount)
    if isStatic then fail (.staticModeViolation address)
    else do
      let mint ← lift (readPubkey input)
      let account ← lift (do readPubkey (← sliceFrom input 32))
      let amount ← lift (do readU64 (← sliceFrom input 64))
      burn B context mint account amount
  else if selector = [0x44, 0xef, 0x32, 0x44] then
    -- freeze(bytes32 mint, bytes32 account)
    if isStatic then fail (.staticModeViolation address)
    else do
      let mint ← lift (readPubkey input)
      let account ← lift (do readPubkey (← sliceFrom input 32))
      freeze B context mint account
  else if selector = [0x3d, 0x71, 0x8c, 0x9a] then
    -- thaw(bytes32 mint, bytes32 account)
    if isStatic then fail (.staticModeViolation address)
    else do
      let mint ← lift (readPubkey input)
      let account ← lift (do readPubkey (← sliceFrom input 32))
      thaw B context mint account
  else if selector = [0xeb, 0x7d, 0xa7, 0x8c] then
    -- findAccount(bytes32 seed)
    let seed ← lift (readSalt input)
    findAccount B context seed
  else if selector = [0x6d, 0xa9, 0xde, 0x75] then
    -- isSystemAccount(bytes32 account)
    let account ← lift (readPubkey input)
    isSystemAccount B account
  else if selector = [0xd1, 0xde, 0x50, 0x11] then
    -- getAccount(bytes32 account)
    let account ← lift (readPubkey input)
    getAccount B account
  else if selector = [0xa2, 0xce, 0x9c, 0x1f] then
    -- getMint(bytes32 account)
    let account ← lift (readPubkey input)
    getMint B account
  else fail (.unknownPrecompileMethodSelector address selector)

end SplToken

end NeonEvm
