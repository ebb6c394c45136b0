import NeonEvm.AccountStorage.Base
import NeonEvm.Executor.Keyed

/-!
# AccountStorage/Backend — what a contract reads of the accounts

`backend S` is the `AccountStorage` of an instruction: every read of the executor, answered from the
accounts that were supplied.
-/

namespace NeonEvm

open Packable EthereumStorage

/-! ## Slot hashes -/

namespace SlotHashes

/-- `data[offset..][..len]`. -/
def slice (data : Bytes) (offset len : ℕ) : Option Bytes :=
  if offset + len ≤ data.length then some ((data.drop offset).take len) else none

/-- `generate_fake_slot_hash`. -/
def generateFakeSlotHash (slot : ℕ) : U256 :=
  let bytes := (toBeBytes 8 slot).dropWhile (· = 0)
  U256.ofBytes (List.replicate (31 - bytes.length) 255 ++ [0] ++ bytes)

/-- The binary search of `find_slot_hash`, the offsets being a `usize`. -/
def search (value : ℕ) (data : Bytes) (left right : ℕ) : Option U256 :=
  if left < right then
    let mid := left + (right - left) / 2
    let offset := (mid * 40 + 8) % USIZE
    match (slice data offset 8).map ofLeBytes with
    | none => none
    | some slot =>
      if value < slot then search value data (mid + 1) right
      else if slot < value then search value data left mid
      else (slice data (wrappingAdd offset 8) 32).map U256.ofBytes
  else some (generateFakeSlotHash value)
termination_by right - left

/-- `find_slot_hash`. -/
def findSlotHash (value : ℕ) (data : Bytes) : Option U256 := do
  let len ← (slice data 0 8).map ofLeBytes
  search value data 0 (wrappingAdd len (USIZE - 1))

end SlotHashes

namespace ProgramAccountStorage

variable [Platform] [Runtime] (S : ProgramAccountStorage)

/-- A part of an account; `default` where the account is empty. -/
def mapAccount {α : Type} (address : Address) (default : α) (f : Handle EthereumAccount → α) :
    Option α :=
  (S.ethereumAccount address).map fun account => account.elim default f

/-- `nonce`. -/
def nonce (address : Address) : Option ℕ := S.mapAccount address 0 (·.data.trxCount)

/-- `balance`. -/
def balance (address : Address) : Option U256 := S.mapAccount address 0 (·.data.balance)

/-- `code_size`. -/
def codeSize (address : Address) : Option ℕ := S.mapAccount address 0 (·.data.codeSize)

/-- `generation`. -/
def generation (address : Address) : Option ℕ := S.mapAccount address 0 (·.data.generation)

/-- `code_hash`. -/
def codeHash (address : Address) : Option U256 := do
  if (← S.codeSize address) = 0 then
    if (← S.nonce address) = 0 && (← S.balance address) = 0 then some 0 else some (keccak [])
  else match ← S.ethereumAccount address with
    | none => some 0
    | some account => (account.data.code account.rest).map keccak

/-- `code`. -/
def code (address : Address) : Option Buffer := do
  match ← S.ethereumAccount address with
  | none => some .empty
  | some account =>
    if account.data.codeSize = 0 then some .empty
    else (account.data.code account.rest).map (.account account.key account.data.codeLocation)

/-- The slot of a contract's own account. -/
def staticSlot (account : Handle EthereumAccount) (index : ℕ) : Option U256 :=
  if account.data.isContract then
    (EthereumAccount.staticStorage account.rest).map fun storage =>
      U256.ofBytes ((storage.drop (index * 32)).take 32)
  else some 0

/-- `storage`. -/
def storage (address : Address) (index : U256) : Option U256 :=
  if index.toNat < STORAGE_ENTRIES_IN_CONTRACT_ACCOUNT then do
    match ← S.ethereumAccount address with
    | none => some 0
    | some account => staticSlot account index.toNat
  else
    (S.ethereumStorage address (pageOf index)).map fun page =>
      page.elim 0 fun page => EthereumStorage.get page.rest (subindexOf index)

/-- An account as it was supplied. -/
def accountInfo (key : Pubkey) : Option AccountInfo :=
  (S.solanaAccounts.lookup key).map fun info =>
    let account := S.ledger key
    { key
      isSigner := info.isSigner
      isWritable := info.isWritable
      lamports := account.lamports
      data := account.content.bytes
      owner := account.owner
      executable := account.executable
      rentEpoch := account.rentEpoch }

/-- `block_hash`. -/
def blockHash (slot : ℕ) : Option U256 := do
  let account ← S.accountInfo Runtime.slotHashesId
  SlotHashes.findSlotHash slot account.data

/-- `AccountStorage for ProgramAccountStorage`. -/
def backend : AccountStorage where
  neonTokenMint := Runtime.neonTokenMint
  programId := programId
  operator := S.operator
  blockNumber := BitVec.ofNat 256 S.clock.slot
  blockTimestamp := BitVec.ofNat 256 S.clock.unixTimestamp
  blockHash := S.blockHash
  chainId := Runtime.chainId
  nonce := S.nonce
  balance := S.balance
  codeSize := S.codeSize
  codeHash := S.codeHash
  code := S.code
  storage := S.storage
  cloneSolanaAccount key := (S.accountInfo key).map (·.owned programId)
  mapSolanaAccount := S.accountInfo
  solanaAddress := S.solanaAddress

theorem keyed_backend : Keyed S.backend.cloneSolanaAccount := fun key info h => by
  obtain ⟨info, hinfo, rfl⟩ := Option.map_eq_some_iff.1 h
  obtain ⟨_, -, rfl⟩ := Option.map_eq_some_iff.1 hinfo
  exact AccountInfo.owned_key _ _

end ProgramAccountStorage

end NeonEvm
