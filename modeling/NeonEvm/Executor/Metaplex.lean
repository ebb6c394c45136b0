import NeonEvm.Executor.SplToken

/-!
# Executor/Metaplex — the extension that drives the token metadata program
-/

namespace NeonEvm

open Exec

variable [Platform]

namespace Metaplex

open ExecutorState SplToken

/-! ## Arguments and results -/

/-- `read_u64`, which checks the length that the SPL extension's one does not. -/
def readU64 (input : Bytes) : Fallible ℕ := do
  require (32 ≤ input.length) .outOfBounds
  tryUsize (U256.ofBytes (← arrayRef input 0 32))

/-- `read_string`. -/
def readString (input : Bytes) (offsetPosition maxLength : ℕ) : Fallible String := do
  require (offsetPosition + 32 ≤ input.length) .outOfBounds
  let offset ← tryUsize (U256.ofBytes (← arrayRef input offsetPosition 32))
  require (saturatingAdd offset 32 ≤ input.length) .outOfBounds
  let length ← tryUsize (U256.ofBytes (← arrayRef input offset 32))
  require (length ≤ maxLength) .outOfBounds
  let start := saturatingAdd offset 32
  let stop := saturatingAdd start length
  require (stop ≤ input.length) .outOfBounds
  let data ← sliceOf input start stop
  match String.fromUTF8? ⟨data.toArray⟩ with
  | some s => pure s
  | none => fail (.custom "Invalid utf8 string")

/-- `to_solidity_string`. -/
def toSolidityString (s : Bytes) : Bytes :=
  toBeBytes 32 0x20 ++ toBeBytes 32 s.length ++ s
    ++ List.replicate (revertDataLen s.length - s.length) 0

/-- The bytes of `s.trim_end_matches('\0')`. -/
def trimmedBytes (s : String) : Bytes :=
  (s.toUTF8.data.toList.reverse.dropWhile (· = 0)).reverse

section

variable (B : AccountStorage) (context : Context)

/-! ## Methods that queue an instruction -/

/-- Queue an instruction signed for the caller's account, paying rent for `space` bytes and the fee
of a creation. -/
def queueCreation (instruction : Pubkey → Instruction) (space : ℕ) : Db Unit := do
  let (signerPubkey, bumpSeed) := B.solanaAddress context.caller
  let minimumBalance ← lift (ofForeign (Platform.minimumBalance space))
  queueExternalInstruction (instruction signerPubkey) (signerSeeds context.caller bumpSeed)
    (wrappingAdd minimumBalance Platform.createFee)

/-- `create_metadata`. -/
def createMetadata (mint : Pubkey) (name symbol uri : String) : Db Bytes := do
  let metadata := Platform.findMetadataAccount mint
  queueCreation B context
    (fun signer => Platform.createMetadataAccountsV3 metadata mint signer B.operator signer
      name symbol uri [⟨B.programId, false, 0⟩, ⟨signer, true, 100⟩])
    Platform.maxMetadataLen
  pure (U256.bytes metadata)

/-- `create_master_edition`. -/
def createMasterEdition (mint : Pubkey) (maxSupply : Option ℕ) : Db Bytes := do
  let metadata := Platform.findMetadataAccount mint
  let edition := Platform.findMasterEditionAccount mint
  queueCreation B context
    (fun signer => Platform.createMasterEditionV3 edition mint signer signer metadata B.operator
      maxSupply)
    Platform.maxMasterEditionLen
  pure (U256.bytes edition)

/-! ## Methods that read -/

/-- `metadata`. -/
def metadata (mint : Pubkey) : Db (Option Metadata) := do
  let account ← externalAccount B (Platform.findMetadataAccount mint)
  pure <|
    if account.owner = Platform.mplTokenMetadataId then
      Platform.deserializeMetadata account.data
    else none

def isInitialized (mint : Pubkey) : Db Bytes := do
  pure (solidityBool (← metadata B mint).isSome)

def isNft (mint : Pubkey) : Db Bytes := do
  pure (solidityBool ((← metadata B mint).any (·.isNonFungible)))

/-- A text of the metadata, empty where there is none. -/
def metadataText (text : Metadata → String) (mint : Pubkey) : Db Bytes := do
  pure (toSolidityString (trimmedBytes (((← metadata B mint).map text).getD "")))

def uri (mint : Pubkey) : Db Bytes := metadataText B Metadata.uri mint

def tokenName (mint : Pubkey) : Db Bytes := metadataText B Metadata.name mint

def symbol (mint : Pubkey) : Db Bytes := metadataText B Metadata.symbol mint

end

/-! ## Dispatch -/

/-- `metaplex`. -/
def metaplex (B : AccountStorage) (address : Address) (input : Bytes) (context : Context)
    (isStatic : Bool) : Db Bytes := do
  failIf (context.value ≠ 0) (.custom "Metaplex: value != 0")
  failIf (context.contract ≠ address) (.custom "Metaplex: callcode or delegatecall is not allowed")
  let (selector, input) ← lift (splitAt input 4)
  if selector = [0xc5, 0x73, 0x50, 0xc6] then
    -- createMetadata(bytes32,string,string,string)
    if isStatic then fail (.staticModeViolation address)
    else do
      let mint ← lift (readPubkey input)
      let name ← lift (readString input 32 256)
      let symbol ← lift (readString input 64 256)
      let uri ← lift (readString input 96 1024)
      createMetadata B context mint name symbol uri
  else if selector = [0x4a, 0xe8, 0xb6, 0x6b] then
    -- createMasterEdition(bytes32,uint64)
    if isStatic then fail (.staticModeViolation address)
    else do
      let mint ← lift (readPubkey input)
      let maxSupply ← lift (do readU64 (← sliceFrom input 32))
      createMasterEdition B context mint (some maxSupply)
  else if selector = [0xf7, 0xb6, 0x37, 0xbb] then
    -- isInitialized(bytes32)
    let mint ← lift (readPubkey input)
    isInitialized B mint
  else if selector = [0x23, 0x5b, 0x2b, 0x94] then
    -- isNFT(bytes32)
    let mint ← lift (readPubkey input)
    isNft B mint
  else if selector = [0x9e, 0xd1, 0x9d, 0xdb] then
    -- uri(bytes32)
    let mint ← lift (readPubkey input)
    uri B mint
  else if selector = [0x69, 0x1f, 0x34, 0x31] then
    -- name(bytes32)
    let mint ← lift (readPubkey input)
    tokenName B mint
  else if selector = [0x6b, 0xaa, 0x03, 0x30] then
    -- symbol(bytes32)
    let mint ← lift (readPubkey input)
    symbol B mint
  else fail (.unknownPrecompileMethodSelector address selector)

end Metaplex

end NeonEvm
