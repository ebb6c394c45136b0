import NeonEvm.Platform

/-!
# Executor/ExternalPrograms — the emulation of queued external instructions

Each program is run on copies of the accounts.  The instructions of the token program are handed to
the processors of its crate; the others are written out, on the types of their crates.
-/

namespace NeonEvm

open Exec

/-- A computation on the copies of the accounts. -/
abbrev Emulation (α : Type) : Type := Exec Fault Error SolanaAccounts α

/-- `meta[i].pubkey`. -/
def metaKey (metas : List AccountMeta) (i : ℕ) : Emulation Pubkey :=
  ofOption .index (metas[i]?.map (·.pubkey))

/-- `accounts.get_mut(key).unwrap()`. -/
def accountOf (key : Pubkey) : Emulation AccountInfo := do
  ofOption .unwrap ((← get) key)

/-- Write an account back. -/
def putAccount (key : Pubkey) (info : AccountInfo) : Emulation Unit :=
  modify fun accounts => Function.update accounts key (some info)

/-- `Vec::resize(len, 0)`. -/
def resizeZero (bytes : Bytes) (len : ℕ) : Bytes :=
  bytes.take len ++ List.replicate (len - bytes.length) 0

/-- A refusal by `Err!`: the text of the program error. -/
def refuse {α : Type} (text : String) : Emulation α := fail (.programError text)

/-- Write over the front of the data of an account; a slice that is too short is not written. -/
def serializeInto (key : Pubkey) (bytes : Bytes) : Emulation Unit := do
  let account ← accountOf key
  if account.data.length < bytes.length then refuse "IO Error: failed to write whole buffer"
  putAccount key { account with data := bytes ++ account.data.drop bytes.length }

section

def INSUFFICIENT_FUNDS : String :=
  "An account's balance was too small to complete the instruction"
def INVALID_INSTRUCTION_DATA : String := "An instruction's data contents was invalid"
def INVALID_ARGUMENT : String := "The arguments provided to a program instruction where invalid"
def ILLEGAL_OWNER : String := "Provided owner is not allowed"

variable [Platform]

/-- `system_program::check_id`. -/
def isSystemProgram (key : Pubkey) : Bool := key = Platform.systemProgramId

namespace SystemProgram

def createAccount (metas : List AccountMeta) (lamports space : ℕ) (owner : Pubkey) :
    Emulation Unit := do
  let funderKey ← metaKey metas 0
  let accountKey ← metaKey metas 1
  let funder ← accountOf funderKey
  if funder.lamports < lamports then refuse INSUFFICIENT_FUNDS
  putAccount funderKey { funder with lamports := funder.lamports - lamports }
  let account ← accountOf accountKey
  if 0 < account.lamports ∨ account.data ≠ [] ∨ !isSystemProgram account.owner then
    refuse INVALID_INSTRUCTION_DATA
  putAccount accountKey
    { account with lamports := lamports, owner := owner, data := resizeZero account.data space }

def assign (metas : List AccountMeta) (owner : Pubkey) : Emulation Unit := do
  let accountKey ← metaKey metas 0
  let account ← accountOf accountKey
  if !isSystemProgram account.owner then refuse INVALID_INSTRUCTION_DATA
  putAccount accountKey { account with owner := owner }

def transfer (metas : List AccountMeta) (lamports : ℕ) : Emulation Unit := do
  let fromKey ← metaKey metas 0
  let toKey ← metaKey metas 1
  let source ← accountOf fromKey
  if source.data ≠ [] then refuse INVALID_ARGUMENT
  if source.lamports < lamports then refuse INSUFFICIENT_FUNDS
  if !isSystemProgram source.owner then refuse INSUFFICIENT_FUNDS
  putAccount fromKey { source with lamports := source.lamports - lamports }
  let target ← accountOf toKey
  putAccount toKey { target with lamports := wrappingAdd target.lamports lamports }

def allocate (metas : List AccountMeta) (space : ℕ) : Emulation Unit := do
  let accountKey ← metaKey metas 0
  let account ← accountOf accountKey
  if account.data ≠ [] ∨ !isSystemProgram account.owner then refuse INVALID_INSTRUCTION_DATA
  putAccount accountKey { account with data := resizeZero account.data space }

/-- `system::emulate`. -/
def emulate (instruction : Bytes) (metas : List AccountMeta) : Emulation Unit := do
  match (← ofOption .unwrap (Platform.decodeSystemInstruction instruction)) with
  | .createAccount lamports space owner => createAccount metas lamports space owner
  | .assign owner => assign metas owner
  | .transfer lamports => transfer metas lamports
  | .allocate space => allocate metas space
  | .other => refuse INVALID_INSTRUCTION_DATA

end SystemProgram

namespace TokenProgram

/-- The accounts of an instruction, under the flags that it gives them. -/
def instructionAccounts (metas : List AccountMeta) : Emulation (List AccountInfo) :=
  forEach (fun a => do
    let info ← ofOption .index ((← get) a.pubkey)
    pure { info with isWritable := a.isWritable, isSigner := a.isSigner }) metas

/-- What a processor leaves of an account; the flags were those of the instruction. -/
def leave (info : AccountInfo) : Emulation Unit := do
  let account ← accountOf info.key
  putAccount info.key
    { account with lamports := info.lamports, data := info.data, owner := info.owner }

/-- Run a processor of the crate. -/
def process (x : Processed) (infos : List AccountInfo) : Emulation Unit := do
  match x infos with
  | none => abort .foreign
  | some (.error text) => refuse text
  | some (.ok infos) => foldl (fun _ info => leave info) () infos

/-- The processor of an instruction. -/
def processorOf : TokenInstruction → Option Processed
  | .initializeMint decimals mintAuthority freezeAuthority =>
    some (Platform.processInitializeMint decimals mintAuthority freezeAuthority)
  | .initializeMint2 decimals mintAuthority freezeAuthority =>
    some (Platform.processInitializeMint2 decimals mintAuthority freezeAuthority)
  | .initializeAccount => some (Platform.processInitializeAccount Platform.splTokenId)
  | .initializeAccount2 owner => some (Platform.processInitializeAccount2 Platform.splTokenId owner)
  | .initializeAccount3 owner => some (Platform.processInitializeAccount3 Platform.splTokenId owner)
  | .initializeMultisig m => some (Platform.processInitializeMultisig m)
  | .initializeMultisig2 m => some (Platform.processInitializeMultisig2 m)
  | .transfer amount => some (Platform.processTransfer Platform.splTokenId amount none)
  | .approve amount => some (Platform.processApprove Platform.splTokenId amount none)
  | .revoke => some (Platform.processRevoke Platform.splTokenId)
  | .setAuthority authorityType newAuthority =>
    some (Platform.processSetAuthority Platform.splTokenId authorityType newAuthority)
  | .mintTo amount => some (Platform.processMintTo Platform.splTokenId amount none)
  | .burn amount => some (Platform.processBurn Platform.splTokenId amount none)
  | .closeAccount => some (Platform.processCloseAccount Platform.splTokenId)
  | .freezeAccount => some (Platform.processToggleFreezeAccount Platform.splTokenId true)
  | .thawAccount => some (Platform.processToggleFreezeAccount Platform.splTokenId false)
  | .transferChecked amount decimals =>
    some (Platform.processTransfer Platform.splTokenId amount (some decimals))
  | .approveChecked amount decimals =>
    some (Platform.processApprove Platform.splTokenId amount (some decimals))
  | .mintToChecked amount decimals =>
    some (Platform.processMintTo Platform.splTokenId amount (some decimals))
  | .burnChecked amount decimals =>
    some (Platform.processBurn Platform.splTokenId amount (some decimals))
  | .syncNative => some (Platform.processSyncNative Platform.splTokenId)
  | .other => none

/-- `spl_token::emulate`. -/
def emulate (instruction : Bytes) (metas : List AccountMeta) : Emulation Unit := do
  let infos ← instructionAccounts metas
  let instruction ← lift (ofForeign (Platform.unpackTokenInstruction instruction))
  match processorOf instruction with
  | some x => process x infos
  | none => refuse INVALID_INSTRUCTION_DATA

end TokenProgram

namespace AssociatedToken

/-- `spl_associated_token::emulate`. -/
def emulate (instruction : Bytes) (metas : List AccountMeta) : Emulation Unit := do
  let decoded :=
    if instruction = [] then some .create
    else Platform.decodeAssociatedTokenInstruction instruction
  if decoded ≠ some AssociatedTokenInstruction.create then refuse INVALID_INSTRUCTION_DATA
  let funderKey ← metaKey metas 0
  let tokenKey ← metaKey metas 1
  let walletKey ← metaKey metas 2
  let mintKey ← metaKey metas 3
  let tokenProgramKey ← metaKey metas 5
  let token ← ofOption .index ((← get) tokenKey)
  let minimumBalance ← lift (ofForeign (Platform.minimumBalance Platform.tokenAccountLen))
  let requiredLamports := max minimumBalance 1 - token.lamports
  let funder ← accountOf funderKey
  if funder.lamports < requiredLamports then refuse INSUFFICIENT_FUNDS
  putAccount funderKey { funder with lamports := funder.lamports - requiredLamports }
  let token ← accountOf tokenKey
  if !isSystemProgram token.owner then refuse INVALID_INSTRUCTION_DATA
  putAccount tokenKey
    { token with
      lamports := wrappingAdd token.lamports requiredLamports
      owner := Platform.splTokenId
      data := resizeZero token.data Platform.tokenAccountLen }
  let instruction ← lift
    (ofForeign (Platform.splInitializeAccount3 tokenProgramKey tokenKey mintKey walletKey))
  TokenProgram.emulate instruction.data instruction.accounts

end AssociatedToken

namespace TokenMetadataProgram

/-- `Key::MetadataV1` and `Key::MasterEditionV2`. -/
def METADATA_V1 : UInt8 := 4
def MASTER_EDITION_V2 : UInt8 := 6

/-- `PREFIX` and `EDITION`. -/
def PREFIX : Bytes := "metadata".toUTF8.toList
def EDITION : Bytes := "edition".toUTF8.toList

/-- An account becomes one of Metaplex, of the given size and exempt from rent. -/
def takeOver (key : Pubkey) (len : ℕ) : Emulation AccountInfo := do
  let minimum ← lift (ofForeign (Platform.minimumBalance len))
  let account ← accountOf key
  let account :=
    { account with
      data := resizeZero account.data len
      owner := Platform.mplTokenMetadataId
      lamports := max account.lamports minimum }
  putAccount key account
  pure account

/-- The fields that a new metadata account is given. -/
def describe (metadata : TokenMetadata) (mintKey updateAuthorityKey : Pubkey) (mint : Mint)
    (data : MetadataDataV2) (isMutable : Bool) : TokenMetadata :=
  let metadata := Platform.puffOutDataFields
    { metadata with
      mint := mintKey
      key := METADATA_V1
      data := data.toMetadataData
      isMutable
      updateAuthority := updateAuthorityKey
      uses := data.uses
      collection := data.collection
      collectionDetails := none
      tokenStandard := some (if mint.decimals = 0 then .fungibleAsset else .fungible) }
  let (_, editionBumpSeed) := Platform.findProgramAddress
    [PREFIX, Platform.mplTokenMetadataId.bytes, metadata.mint.bytes, EDITION]
    Platform.mplTokenMetadataId
  { metadata with editionNonce := some editionBumpSeed }

/-- `create_metadata_accounts_v3`. -/
def createMetadataAccountsV3 (metas : List AccountMeta) (data : MetadataDataV2) (isMutable : Bool) :
    Emulation Unit := do
  let metadataKey ← metaKey metas 0
  let mintKey ← metaKey metas 1
  let updateAuthority ← ofOption .index metas[4]?
  let metadata ← lift (ofForeign
    (Platform.metadataFromAccountInfo (← takeOver metadataKey Platform.maxMetadataLen)))
  let mint ← lift (ofForeign (Platform.assertInitialized (← accountOf mintKey)))
  lift (ofForeign (Platform.assertDataValid data.toMetadataData updateAuthority.pubkey metadata false
    updateAuthority.isSigner))
  lift (ofForeign (Platform.assertValidUse data.uses none))
  lift (ofForeign (Platform.assertCollectionUpdateIsValid false none data.collection))
  serializeInto metadataKey (Platform.serializeMetadata
    (describe metadata mintKey updateAuthority.pubkey mint data isMutable))

/-- `create_master_edition_v3`. -/
def createMasterEditionV3 (metas : List AccountMeta) (maxSupply : Option ℕ) : Emulation Unit := do
  let editionKey ← metaKey metas 0
  let mintKey ← metaKey metas 1
  let metadataKey ← metaKey metas 5
  let metadata ← lift (ofForeign (Platform.metadataFromAccountInfo (← accountOf metadataKey)))
  let mint ← lift (ofForeign (Platform.assertInitialized (← accountOf mintKey)))
  if metadata.mint ≠ mintKey then refuse INVALID_ARGUMENT
  if mint.decimals ≠ 0 then refuse INVALID_ARGUMENT
  if mint.supply ≠ 1 then refuse INVALID_ARGUMENT
  let _ ← takeOver editionKey Platform.maxMasterEditionLen
  serializeInto editionKey (Platform.serializeMasterEdition ⟨MASTER_EDITION_V2, 0, maxSupply⟩)
  serializeInto metadataKey
    (Platform.serializeMetadata { metadata with tokenStandard := some .nonFungible })
  let mint := Platform.packMint
    { mint with
      mintAuthority := some editionKey
      freezeAuthority := mint.freezeAuthority.map fun _ => editionKey }
  let account ← accountOf mintKey
  assertThat (Platform.mintLen ≤ account.data.length) .index
  putAccount mintKey { account with data := mint ++ account.data.drop Platform.mintLen }

/-- `metaplex::emulate`. -/
def emulate (instruction : Bytes) (metas : List AccountMeta) : Emulation Unit := do
  match (← lift (ofForeign (Platform.decodeMetadataInstruction instruction))) with
  | .createMetadataAccountV3 data isMutable => createMetadataAccountsV3 metas data isMutable
  | .createMasterEditionV3 maxSupply => createMasterEditionV3 metas maxSupply
  | .other => refuse INVALID_INSTRUCTION_DATA

end TokenMetadataProgram

/-- The emulation of one queued instruction, chosen by its program. -/
def emulateExternal (programId : Pubkey) (data : Bytes) (metas : List AccountMeta) :
    Emulation Unit :=
  if isSystemProgram programId then SystemProgram.emulate data metas
  else if programId = Platform.splTokenId then TokenProgram.emulate data metas
  else if programId = Platform.splAssociatedTokenId then AssociatedToken.emulate data metas
  else if programId = Platform.mplTokenMetadataId then TokenMetadataProgram.emulate data metas
  else fail (.custom s!"Unknown external program: {programId.display}")

end

end NeonEvm
