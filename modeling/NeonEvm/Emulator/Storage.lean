import NeonEvm.AccountStorage.Backend

/-!
# Emulator/Storage — what a contract reads of the chain, in the emulator

`backend E` is the `AccountStorage` of the emulator: every read of the executor, answered from the
accounts on the chain and from the overrides of a traced call.

    an account that does not open   reads as an empty one
    an override of a header         marks the handle as changed, which may not be dropped
-/

namespace NeonEvm

open Exec Packable EthereumStorage

/-- `AccountOverride`, the parts that are read. -/
structure AccountOverride where
  nonce : Option ℕ
  code : Option Bytes
  balance : Option U256
  state : Option (U256 → Option U256)
  stateDiff : Option (U256 → Option U256)

namespace AccountOverride

/-- `apply`. -/
def apply (o : AccountOverride) (d : EthereumAccount) : EthereumAccount :=
  { d with
    trxCount := o.nonce.getD d.trxCount
    balance := o.balance.getD d.balance
    codeSize := (o.code.map fun code => code.length % 2 ^ 32).getD d.codeSize }

/-- Whether `apply` has assigned anything, and the handle is dirty. -/
def dirties (o : AccountOverride) : Bool := o.nonce.isSome || o.balance.isSome || o.code.isSome

end AccountOverride

/-- `FAKE_OPERATOR`. -/
def FAKE_OPERATOR : Pubkey := 0x0bb1e2755db60c8391fc5ea736b0cefd4e04b728c215c614383f0f0a80000000

/-- `EmulatorAccountStorage`, and the chain behind it. -/
structure EmulatorAccountStorage where
  ledger : Ledger
  blockNumber : ℕ
  blockTimestamp : ℕ
  neonTokenMint : Pubkey
  chainId : ℕ
  stateOverrides : Address → Option AccountOverride

namespace EmulatorAccountStorage

variable [Platform] [Runtime] (E : EmulatorAccountStorage)

/-- The account of an address, if it opens. -/
def open? (address : Address) : Option (Handle EthereumAccount) :=
  let key := (address.findSolanaAddress programId).1
  match openAccount EthereumAccount key E.ledger with
  | .ok (data, rest) _ => some ⟨key, data, rest⟩
  | _ => none

/-- `ethereum_account_map_or`; `account_info` is not writable, so that a dirty handle aborts where it
is dropped. -/
def ethereumAccountMapOr {α : Type} (address : Address) (default : α)
    (f : Handle EthereumAccount → α) : Option α :=
  match E.open? address with
  | none => some default
  | some account =>
    match E.stateOverrides address with
    | none => some (f account)
    | some o => if o.dirties then none else some (f { account with data := o.apply account.data })

/-- `ethereum_contract_map_or`. -/
def ethereumContractMapOr {α : Type} (address : Address) (default : α)
    (f : Handle EthereumAccount → Option α) : Option α :=
  match E.open? address with
  | none => some default
  | some account => if account.data.isContract then f account else some default

/-- `nonce`. -/
def nonce (address : Address) : Option ℕ := E.ethereumAccountMapOr address 0 (·.data.trxCount)

/-- `balance`. -/
def balance (address : Address) : Option U256 := E.ethereumAccountMapOr address 0 (·.data.balance)

/-- `code_size`. -/
def codeSize (address : Address) : Option ℕ := E.ethereumAccountMapOr address 0 (·.data.codeSize)

/-- `generation`. -/
def generation (address : Address) : Option ℕ :=
  E.ethereumAccountMapOr address 0 (·.data.generation)

/-- `code_hash`. -/
def codeHash (address : Address) : Option U256 := do
  let isNonExistentAccount ← E.ethereumAccountMapOr address true fun a =>
    a.data.trxCount = 0 && a.data.balance = 0 && a.data.codeSize = 0
  if isNonExistentAccount then some 0
  else E.ethereumContractMapOr address (keccak []) fun account =>
    (account.data.code account.rest).map keccak

/-- `code`. -/
def code (address : Address) : Option Buffer :=
  E.ethereumContractMapOr address .empty fun account =>
    match (E.stateOverrides address).bind (·.code) with
    | none => (account.data.code account.rest).map Buffer.fromSlice
    | some code => some (Buffer.fromSlice code)

/-- The slot of a page on the chain. -/
def pageSlot (address : Address) (index : U256) : Option U256 := do
  let key := EthereumStorage.pubkey (address.findSolanaAddress programId).1 (pageOf index)
  if (E.ledger key).owner = Platform.systemProgramId then some 0
  else match openAccount EthereumStorage key E.ledger with
    | .ok (page, rest) _ =>
      if page.address ≠ address || page.index ≠ pageOf index then some 0
      else do
        let generation ← E.generation address
        if page.generation ≠ generation then some 0
        else some (EthereumStorage.get rest (subindexOf index))
    | _ => none

/-- The value of a slot on the chain. -/
def chainSlot (address : Address) (index : U256) : Option U256 :=
  if index.toNat < STORAGE_ENTRIES_IN_CONTRACT_ACCOUNT then
    E.ethereumContractMapOr address 0 fun account =>
      (EthereumAccount.staticStorage account.rest).map fun storage =>
        U256.ofBytes ((storage.drop (index.toNat * 32)).take 32)
  else E.pageSlot address index

/-- `storage`; an override may not give a state and a difference at once. -/
def storage (address : Address) (index : U256) : Option U256 :=
  match E.stateOverrides address with
  | none => E.chainSlot address index
  | some o =>
    match o.state, o.stateDiff with
    | none, none => E.chainSlot address index
    | some _, some _ => none
    | some state, none => some ((state index).getD 0)
    | none, some stateDiff =>
      match stateDiff index with
      | some value => some value
      | none => E.chainSlot address index

/-- An account as the chain has it. -/
def accountInfo (key : Pubkey) : AccountInfo :=
  let account := E.ledger key
  { key
    isSigner := false
    isWritable := false
    lamports := account.lamports
    data := account.content.bytes
    owner := account.owner
    executable := account.executable
    rentEpoch := account.rentEpoch }

/-- `clone_solana_account`. -/
def cloneSolanaAccount (key : Pubkey) : AccountInfo :=
  if key = FAKE_OPERATOR then
    { key
      isSigner := true
      isWritable := false
      lamports := 100 * 1000000000
      data := []
      owner := Platform.systemProgramId
      executable := false
      rentEpoch := 0 }
  else (E.accountInfo key).owned programId

/-- `AccountStorage for EmulatorAccountStorage`. -/
def backend : AccountStorage where
  neonTokenMint := E.neonTokenMint
  programId := programId
  operator := FAKE_OPERATOR
  blockNumber := BitVec.ofNat 256 E.blockNumber
  blockTimestamp := BitVec.ofNat 256 E.blockTimestamp
  blockHash slot := SlotHashes.findSlotHash slot (E.accountInfo Runtime.slotHashesId).data
  chainId := E.chainId
  nonce := E.nonce
  balance := E.balance
  codeSize := E.codeSize
  codeHash := E.codeHash
  code := E.code
  storage := E.storage
  cloneSolanaAccount key := some (E.cloneSolanaAccount key)
  mapSolanaAccount key := some (E.accountInfo key)
  solanaAddress address := address.findSolanaAddress programId

theorem keyed_backend : Keyed E.backend.cloneSolanaAccount := fun key info h => by
  obtain rfl := Option.some.inj h
  unfold cloneSolanaAccount
  split
  · rfl
  · exact AccountInfo.owned_key _ _

end EmulatorAccountStorage

end NeonEvm
