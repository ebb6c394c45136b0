import Mathlib.Logic.Function.Basic
import NeonEvm.Error
import NeonEvm.Types.Rlp

/-!
# Platform — the code the program calls that is not its own

Syscalls, hash functions, address derivation, the instruction builders and account layouts of the
SPL and Metaplex crates, and the build configuration.  Everything is a parameter; what a result
needs of it is a hypothesis there.
-/

namespace NeonEvm

/-- `AccountInfo`, and the program's own copy of one (`OwnedAccountInfo`). -/
structure AccountInfo where
  key : Pubkey
  isSigner : Bool
  isWritable : Bool
  lamports : ℕ
  data : Bytes
  owner : Pubkey
  executable : Bool
  rentEpoch : ℕ
  deriving DecidableEq

/-- `OwnedAccountInfo::from_account_info`: the data of programs and of our own accounts is left
out. -/
def AccountInfo.owned (programId : Pubkey) (info : AccountInfo) : AccountInfo :=
  if info.executable || info.owner = programId then { info with data := [] } else info

/-- `BTreeMap<Pubkey, OwnedAccountInfo>`. -/
abbrev SolanaAccounts := Pubkey → Option AccountInfo

/-- `AccountMeta`. -/
structure AccountMeta where
  pubkey : Pubkey
  isSigner : Bool
  isWritable : Bool
  deriving DecidableEq

/-- `solana_program::instruction::Instruction`. -/
structure Instruction where
  programId : Pubkey
  accounts : List AccountMeta
  data : Bytes
  deriving DecidableEq

/-- `spl_token::state::Account`, without the fields the program does not read. -/
structure TokenAccount where
  mint : Pubkey
  owner : Pubkey
  amount : ℕ
  delegate : Option Pubkey
  state : UInt8
  delegatedAmount : ℕ
  closeAuthority : Option Pubkey
  deriving DecidableEq

/-- `spl_token::state::Account::default()`. -/
def TokenAccount.default : TokenAccount := ⟨0, 0, 0, none, 0, 0, none⟩

/-- `spl_token::state::Mint`. -/
structure Mint where
  mintAuthority : Option Pubkey
  supply : ℕ
  decimals : UInt8
  isInitialized : Bool
  freezeAuthority : Option Pubkey
  deriving DecidableEq

/-- `spl_token::state::Mint::default()`. -/
def Mint.default : Mint := ⟨none, 0, 0, false, none⟩

/-- `mpl_token_metadata::state::Metadata`, as far as the extension reads it. -/
structure Metadata where
  name : String
  symbol : String
  uri : String
  isNonFungible : Bool
  deriving DecidableEq

/-- `SystemInstruction`, as far as the emulation tells its cases apart. -/
inductive SystemInstruction where
  | createAccount (lamports space : ℕ) (owner : Pubkey)
  | assign (owner : Pubkey)
  | transfer (lamports : ℕ)
  | allocate (space : ℕ)
  | other
  deriving DecidableEq

/-- `AssociatedTokenAccountInstruction`, as far as the emulation tells its cases apart. -/
inductive AssociatedTokenInstruction where
  | create
  | other
  deriving DecidableEq

/-- `spl_token::instruction::TokenInstruction`, without the cases that the emulation refuses. -/
inductive TokenInstruction where
  | initializeMint (decimals : UInt8) (mintAuthority : Pubkey) (freezeAuthority : Option Pubkey)
  | initializeMint2 (decimals : UInt8) (mintAuthority : Pubkey) (freezeAuthority : Option Pubkey)
  | initializeAccount
  | initializeAccount2 (owner : Pubkey)
  | initializeAccount3 (owner : Pubkey)
  | initializeMultisig (m : UInt8)
  | initializeMultisig2 (m : UInt8)
  | transfer (amount : ℕ)
  | approve (amount : ℕ)
  | revoke
  | setAuthority (authorityType : UInt8) (newAuthority : Option Pubkey)
  | mintTo (amount : ℕ)
  | burn (amount : ℕ)
  | closeAccount
  | freezeAccount
  | thawAccount
  | transferChecked (amount : ℕ) (decimals : UInt8)
  | approveChecked (amount : ℕ) (decimals : UInt8)
  | mintToChecked (amount : ℕ) (decimals : UInt8)
  | burnChecked (amount : ℕ) (decimals : UInt8)
  | syncNative
  | other
  deriving DecidableEq

/-- What a processor of the token program makes of the accounts of its instruction; nothing where it
aborts. -/
abbrev Processed : Type := List AccountInfo → Option (Except String (List AccountInfo))

/-- `mpl_token_metadata::state::Creator`. -/
structure Creator where
  address : Pubkey
  verified : Bool
  share : ℕ
  deriving DecidableEq

/-- `mpl_token_metadata::state::Collection`. -/
structure Collection where
  verified : Bool
  key : Pubkey
  deriving DecidableEq

/-- `mpl_token_metadata::state::Uses`. -/
structure Uses where
  useMethod : UInt8
  remaining : ℕ
  total : ℕ
  deriving DecidableEq

/-- `mpl_token_metadata::state::Data`. -/
structure MetadataData where
  name : String
  symbol : String
  uri : String
  sellerFeeBasisPoints : ℕ
  creators : Option (List Creator)
  deriving DecidableEq

/-- `mpl_token_metadata::state::DataV2`. -/
structure MetadataDataV2 extends MetadataData where
  collection : Option Collection
  uses : Option Uses
  deriving DecidableEq

/-- `mpl_token_metadata::state::TokenStandard`. -/
inductive TokenStandard where
  | nonFungible
  | fungibleAsset
  | fungible
  | nonFungibleEdition
  | programmableNonFungible
  deriving DecidableEq

/-- `mpl_token_metadata::state::Metadata`, with everything that is saved. -/
structure TokenMetadata where
  key : UInt8
  updateAuthority : Pubkey
  mint : Pubkey
  data : MetadataData
  primarySaleHappened : Bool
  isMutable : Bool
  editionNonce : Option UInt8
  tokenStandard : Option TokenStandard
  collection : Option Collection
  uses : Option Uses
  /-- The size of a collection. -/
  collectionDetails : Option ℕ
  /-- The set of rules of a programmable token. -/
  programmableConfig : Option (Option Pubkey)
  deriving DecidableEq

/-- `mpl_token_metadata::state::MasterEditionV2`. -/
structure MasterEditionV2 where
  key : UInt8
  supply : ℕ
  maxSupply : Option ℕ
  deriving DecidableEq

/-- `mpl_token_metadata::instruction::MetadataInstruction`, as far as the emulation tells its cases
apart. -/
inductive MetadataInstruction where
  | createMetadataAccountV3 (data : MetadataDataV2) (isMutable : Bool)
  | createMasterEditionV3 (maxSupply : Option ℕ)
  | other
  deriving DecidableEq

/-- The functions and constants of other crates, and the build configuration. -/
class Platform where
  /-- `config::token_mint::decimals`, asserted to be at most 18. -/
  tokenMintDecimals : Fin 19
  -- syscalls and hashes
  keccak : Bytes → U256
  sha256 : Bytes → U256
  ripemd160 : Bytes → Bytes
  secp256k1Recover : Bytes → ℕ → Bytes → Option Bytes
  bigModExp : Bytes → Bytes → Bytes → Bytes
  altBn128Addition : Bytes → Option Bytes
  altBn128Multiplication : Bytes → Option Bytes
  altBn128Pairing : Bytes → Option Bytes
  findProgramAddress : List Bytes → Pubkey → Pubkey × UInt8
  createWithSeed : Pubkey → Bytes → Pubkey → Pubkey
  /-- `Rent::get()?.minimum_balance(space)`. -/
  minimumBalance : ℕ → Except String ℕ
  -- program identifiers
  systemProgramId : Pubkey
  splTokenId : Pubkey
  splAssociatedTokenId : Pubkey
  mplTokenMetadataId : Pubkey
  -- the system program
  systemTransfer : (source target : Pubkey) → (lamports : ℕ) → Instruction
  systemAllocate : (key : Pubkey) → (space : ℕ) → Instruction
  systemAssign : (key owner : Pubkey) → Instruction
  decodeSystemInstruction : Bytes → Option SystemInstruction
  -- the SPL token programs
  getAssociatedTokenAddress : (wallet mint : Pubkey) → Pubkey
  createAssociatedTokenAccount : (funder wallet mint tokenProgram : Pubkey) → Instruction
  decodeAssociatedTokenInstruction : Bytes → Option AssociatedTokenInstruction
  tokenAccountLen : ℕ
  mintLen : ℕ
  unpackTokenAccount : Bytes → Except String TokenAccount
  unpackMint : Bytes → Except String Mint
  splTransferChecked :
    (source mint target authority : Pubkey) → (amount decimals : ℕ) → Except String Instruction
  splTransfer : (source target authority : Pubkey) → (amount : ℕ) → Except String Instruction
  splApprove : (source delegate owner : Pubkey) → (amount : ℕ) → Except String Instruction
  splRevoke : (source owner : Pubkey) → Except String Instruction
  splMintTo : (mint target authority : Pubkey) → (amount : ℕ) → Except String Instruction
  splBurn : (source mint authority : Pubkey) → (amount : ℕ) → Except String Instruction
  splFreezeAccount : (target mint authority : Pubkey) → Except String Instruction
  splThawAccount : (target mint authority : Pubkey) → Except String Instruction
  splCloseAccount : (account destination owner : Pubkey) → Except String Instruction
  splInitializeMint :
    (mint authority freezeAuthority : Pubkey) → (decimals : ℕ) → Except String Instruction
  splInitializeAccount2 : (account mint owner : Pubkey) → Except String Instruction
  splInitializeAccount3 :
    (tokenProgram account mint owner : Pubkey) → Except String Instruction
  unpackTokenInstruction : Bytes → Except String TokenInstruction
  processInitializeMint :
    (decimals : UInt8) → (mintAuthority : Pubkey) → (freezeAuthority : Option Pubkey) → Processed
  processInitializeMint2 :
    (decimals : UInt8) → (mintAuthority : Pubkey) → (freezeAuthority : Option Pubkey) → Processed
  processInitializeAccount : (programId : Pubkey) → Processed
  processInitializeAccount2 : (programId owner : Pubkey) → Processed
  processInitializeAccount3 : (programId owner : Pubkey) → Processed
  processInitializeMultisig : (m : UInt8) → Processed
  processInitializeMultisig2 : (m : UInt8) → Processed
  processTransfer :
    (programId : Pubkey) → (amount : ℕ) → (expectedDecimals : Option UInt8) → Processed
  processApprove :
    (programId : Pubkey) → (amount : ℕ) → (expectedDecimals : Option UInt8) → Processed
  processRevoke : (programId : Pubkey) → Processed
  processSetAuthority :
    (programId : Pubkey) → (authorityType : UInt8) → (newAuthority : Option Pubkey) → Processed
  processMintTo :
    (programId : Pubkey) → (amount : ℕ) → (expectedDecimals : Option UInt8) → Processed
  processBurn :
    (programId : Pubkey) → (amount : ℕ) → (expectedDecimals : Option UInt8) → Processed
  processCloseAccount : (programId : Pubkey) → Processed
  processToggleFreezeAccount : (programId : Pubkey) → (freeze : Bool) → Processed
  processSyncNative : (programId : Pubkey) → Processed
  -- the Metaplex token metadata program
  findMetadataAccount : Pubkey → Pubkey
  findMasterEditionAccount : Pubkey → Pubkey
  maxMetadataLen : ℕ
  maxMasterEditionLen : ℕ
  createFee : ℕ
  createMetadataAccountsV3 :
    (metadata mint mintAuthority payer updateAuthority : Pubkey) →
      (name symbol uri : String) → List Creator → Instruction
  createMasterEditionV3 :
    (edition mint updateAuthority mintAuthority metadata payer : Pubkey) →
      (maxSupply : Option ℕ) → Instruction
  deserializeMetadata : Bytes → Option Metadata
  decodeMetadataInstruction : Bytes → Except String MetadataInstruction
  metadataFromAccountInfo : AccountInfo → Except String TokenMetadata
  serializeMetadata : TokenMetadata → Bytes
  serializeMasterEdition : MasterEditionV2 → Bytes
  /-- `assert_initialized`, of a mint. -/
  assertInitialized : AccountInfo → Except String Mint
  packMint : Mint → Bytes
  assertDataValid : (data : MetadataData) → (updateAuthority : Pubkey) → (existing : TokenMetadata) →
    (allowDirectCreatorWrites updateAuthorityIsSigner : Bool) → Except String Unit
  assertValidUse : (incoming current : Option Uses) → Except String Unit
  assertCollectionUpdateIsValid :
    (edition : Bool) → (existing incoming : Option Collection) → Except String Unit
  puffOutDataFields : TokenMetadata → TokenMetadata

export Platform (keccak)

/-- A platform to evaluate runs on that call no other crate: sizes and rent are the real ones, and a
function that such a run never reaches has a value that is never used. -/
@[reducible] def Platform.bare : Platform where
  tokenMintDecimals := 9
  keccak _ := 0
  sha256 _ := 0
  ripemd160 _ := []
  secp256k1Recover _ _ _ := none
  bigModExp _ _ _ := []
  altBn128Addition _ := none
  altBn128Multiplication _ := none
  altBn128Pairing _ := none
  findProgramAddress _ _ := (0, 255)
  createWithSeed _ _ _ := 0
  minimumBalance len := .ok ((128 + len) * 6960)
  systemProgramId := 0
  splTokenId := 1
  splAssociatedTokenId := 2
  mplTokenMetadataId := 3
  systemTransfer _ _ _ := ⟨0, [], []⟩
  systemAllocate _ _ := ⟨0, [], []⟩
  systemAssign _ _ := ⟨0, [], []⟩
  decodeSystemInstruction _ := none
  getAssociatedTokenAddress _ _ := 0
  createAssociatedTokenAccount _ _ _ _ := ⟨2, [], []⟩
  decodeAssociatedTokenInstruction _ := none
  tokenAccountLen := 165
  mintLen := 82
  unpackTokenAccount _ := .error ""
  unpackMint _ := .error ""
  splTransferChecked _ _ _ _ _ _ := .error ""
  splTransfer _ _ _ _ := .error ""
  splApprove _ _ _ _ := .error ""
  splRevoke _ _ := .error ""
  splMintTo _ _ _ _ := .error ""
  splBurn _ _ _ _ := .error ""
  splFreezeAccount _ _ _ := .error ""
  splThawAccount _ _ _ := .error ""
  splCloseAccount _ _ _ := .error ""
  splInitializeMint _ _ _ _ := .error ""
  splInitializeAccount2 _ _ _ := .error ""
  splInitializeAccount3 _ _ _ _ := .error ""
  unpackTokenInstruction _ := .error ""
  processInitializeMint _ _ _ _ := none
  processInitializeMint2 _ _ _ _ := none
  processInitializeAccount _ _ := none
  processInitializeAccount2 _ _ _ := none
  processInitializeAccount3 _ _ _ := none
  processInitializeMultisig _ _ := none
  processInitializeMultisig2 _ _ := none
  processTransfer _ _ _ _ := none
  processApprove _ _ _ _ := none
  processRevoke _ _ := none
  processSetAuthority _ _ _ _ := none
  processMintTo _ _ _ _ := none
  processBurn _ _ _ _ := none
  processCloseAccount _ _ := none
  processToggleFreezeAccount _ _ _ := none
  processSyncNative _ _ := none
  findMetadataAccount _ := 0
  findMasterEditionAccount _ := 0
  maxMetadataLen := 679
  maxMasterEditionLen := 282
  createFee := 0
  createMetadataAccountsV3 _ _ _ _ _ _ _ _ _ := ⟨3, [], []⟩
  createMasterEditionV3 _ _ _ _ _ _ _ := ⟨3, [], []⟩
  deserializeMetadata _ := none
  decodeMetadataInstruction _ := .error ""
  metadataFromAccountInfo _ := .error ""
  serializeMetadata _ := []
  serializeMasterEdition _ := []
  assertInitialized _ := .error ""
  packMint _ := []
  assertDataValid _ _ _ _ _ := .error ""
  assertValidUse _ _ := .error ""
  assertCollectionUpdateIsValid _ _ _ := .error ""
  puffOutDataFields metadata := metadata

/-- A foreign result, its error converted to ours. -/
def ofForeign {α : Type} : Except String α → Fallible α
  | .ok a => pure a
  | .error text => Exec.fail (.programError text)

theorem ofForeign_eq_ok {α : Type} {x : Except String α} {a : α}
    (h : ofForeign x () = .ok a ()) : x = .ok a := by
  cases x with
  | ok b => simpa [ofForeign] using h
  | error text => simp [ofForeign] at h

section

variable [Platform]

/-- The low 20 bytes of a hash. -/
def addressOfHash (h : U256) : Address := h.setWidth 160

/-- `Address::from_create`. -/
def Address.fromCreate (source : Address) (nonce : ℕ) : Address :=
  addressOfHash (keccak (Rlp.encodeList [Rlp.encodeBytes source.bytes, Rlp.encodeNat nonce]))

/-- `Address::from_create2`. -/
def Address.fromCreate2 (source : Address) (salt : U256) (initializationCode : Bytes) : Address :=
  addressOfHash
    (keccak ([0xFF] ++ source.bytes ++ salt.bytes ++ (keccak initializationCode).bytes))

/-- `ACCOUNT_SEED_VERSION`. -/
def ACCOUNT_SEED_VERSION : UInt8 := 3

/-- `Address::find_solana_address`. -/
def Address.findSolanaAddress (a : Address) (programId : Pubkey) : Pubkey × UInt8 :=
  Platform.findProgramAddress [[ACCOUNT_SEED_VERSION], a.bytes] programId

end

end NeonEvm
