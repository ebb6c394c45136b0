import NeonEvm.AccountStorage.Backend

/-!
# AccountStorage/Apply — writing a journal into the accounts

    apply_state_change   rearrange · create or resize · apply the actions · apply the storage

What destroys an account comes last, and what the journal did to such an account, transfers apart,
is dropped.  The writes of slots are gathered by contract and made at the end.
-/

namespace NeonEvm

open Exec Packable Chunks EthereumStorage

/-- `MAX_PERMITTED_DATA_INCREASE`. -/
def MAX_PERMITTED_DATA_INCREASE : ℕ := 1024 * 10

/-- `AccountOperation`. -/
inductive AccountOperation where
  | create (space : ℕ)
  | resize (source target : ℕ)
  deriving DecidableEq

/-- `AccountsReadiness`. -/
inductive AccountsReadiness where
  | ready
  | needMoreReallocations
  deriving DecidableEq

/-- A byte string of a new length: cut, or filled up with zeros. -/
def resizeBytes (bytes : Bytes) (len : ℕ) : Bytes :=
  bytes.take len ++ List.replicate (len - bytes.length) 0

/-- `AccountInfo::realloc`, of an account of ours. -/
def Content.realloc (len : ℕ) : Content → Content
  | raw data => raw (resizeBytes data len)
  | ethereum d rest => ethereum d (resizeBytes rest (len - SIZE EthereumAccount))
  | storage d rest => storage d (resizeBytes rest (len - SIZE EthereumStorage))
  | holder d rest => holder d (resizeBytes rest (len - SIZE Holder))
  | state d rest => state d (resizeBytes rest (len - SIZE State))
  | finalized d rest => finalized d (resizeBytes rest (len - SIZE FinalizedState))

theorem resizeBytes_of_le {bytes : Bytes} {len : ℕ} (h : bytes.length ≤ len) :
    resizeBytes bytes len = bytes ++ List.replicate (len - bytes.length) 0 := by
  rw [resizeBytes, List.take_of_length_le h]

theorem Content.split_ethereum_realloc {len : ℕ} (c : Content)
    (h : split c = (none : Option (EthereumAccount × Bytes))) :
    split (c.realloc len) = (none : Option (EthereumAccount × Bytes)) := by
  cases c with
  | ethereum d rest => cases h
  | _ => rfl

theorem Content.split_storage_realloc {len : ℕ} (c : Content)
    (h : split c = (none : Option (EthereumStorage × Bytes))) :
    split (c.realloc len) = (none : Option (EthereumStorage × Bytes)) := by
  cases c with
  | storage d rest => cases h
  | _ => rfl

/-! ## The order of the actions -/

namespace Action

/-- The address an action destroys. -/
def destroyed : Action → Option Address
  | evmSelfDestruct address => some address
  | _ => none

/-- Whether `rearrange_actions` keeps the action in its place. -/
def stays (destroyed : List Address) : Action → Bool
  | externalInstruction .. | neonTransfer .. | neonWithdraw .. => true
  | evmSetStorage address _ _ | evmSetCode address _ | evmIncrementNonce address =>
    address ∉ destroyed
  | evmSelfDestruct _ => false

/-- The account an action needs, and its size. -/
def spaceNeeded : Action → Option (Address × ℕ)
  | neonTransfer _ target _ => some (target, EthereumAccount.spaceNeeded 0)
  | evmSelfDestruct address => some (address, EthereumAccount.spaceNeeded 0)
  | evmSetCode address code => some (address, EthereumAccount.spaceNeeded code.len)
  | _ => none

end Action

/-- `rearrange_actions`. -/
def rearrangeActions (actions : List Action) : List Action :=
  let accountsToDestroy := actions.filterMap Action.destroyed
  actions.filter (Action.stays accountsToDestroy) ++ actions.filter (·.destroyed.isSome)

namespace ProgramAccountStorage

variable [Platform] [Runtime]

/-! ## Sizes -/

/-- `solana_account_space`. -/
def solanaAccountSpace (S : ProgramAccountStorage) (address : Address) : Option (Option ℕ) :=
  let key := (S.solanaAddress address).1
  let account := S.ledger key
  if key ∉ S.solanaAccounts then none
  else if account.owner = Platform.systemProgramId then some none
  else if account.owner = programId then some (some account.content.len)
  else none

/-- The largest size that the actions ask of each account. -/
def spacesNeeded (actions : List Action) : HashMap Address ℕ :=
  (actions.filterMap Action.spaceNeeded).foldl
    (fun m (address, space) => m.insert address (max space ((m.lookup address).getD 0))) ∅

/-- `calc_accounts_operations`. -/
def calcAccountsOperations (S : ProgramAccountStorage) (actions : List Action) :
    Option (List (Address × AccountOperation)) := do
  let operations ← (spacesNeeded actions).entries.mapM fun e => do
    match ← S.solanaAccountSpace e.1 with
    | none => some [(e.1, AccountOperation.create e.2)]
    | some current => some (if current < e.2 then [(e.1, .resize current e.2)] else [])
  some operations.flatten

/-- `EthereumAccount::create_account`. -/
def createAccount (operator : Pubkey) (address : Address) (key : Pubkey) (bumpSeed : UInt8)
    (space : ℕ) : Program Unit := do
  failIf (space < SIZE EthereumAccount) (.ofProgram .accountDataTooSmall)
  createPdaAccount programId operator key (accountSeeds address bumpSeed) space

/-- The growth of an account in one instruction. -/
def resizeAccount (operator key : Pubkey) (source target : ℕ) : Program Unit := do
  assertThat ((← accountAt key).owner = programId) .assertion
  let space := min target (source + MAX_PERMITTED_DATA_INCREASE)
  let needed ← minimumBalance space
  topUp operator key (needed - (← accountAt key).lamports)
  modify fun L => L.setContent key ((L key).content.realloc space)

/-- One turn of `process_accounts_operations`. -/
def processOperation (operator : Pubkey) (readiness : AccountsReadiness)
    (operation : Address × AccountOperation) : Apply AccountsReadiness := do
  let (key, bumpSeed) := operation.1.findSolanaAddress programId
  if key ∉ (← get).solanaAccounts then fail (.ofProgram .uninitializedAccount)
  else match operation.2 with
  | .create space => do
    onLedger (createAccount operator operation.1 key bumpSeed
      (min MAX_PERMITTED_DATA_INCREASE space))
    pure (if MAX_PERMITTED_DATA_INCREASE < space then .needMoreReallocations else readiness)
  | .resize source target => do
    onLedger (resizeAccount operator key source target)
    pure (if source + MAX_PERMITTED_DATA_INCREASE < target then .needMoreReallocations
      else readiness)

/-- `process_accounts_operations`. -/
def processAccountsOperations (operator : Pubkey)
    (operations : List (Address × AccountOperation)) : Apply AccountsReadiness :=
  foldl (processOperation operator) .ready operations

/-- `create_account_if_not_exists`. -/
def createAccountIfNotExists (address : Address) : Apply Unit := do
  let S ← get
  if address ∈ S.ethereumAccounts then pure ()
  else
    let (key, bumpSeed) := address.findSolanaAddress programId
    match S.solanaAccounts.lookup key with
    | none => fail (.ofProgram .invalidArgument)
    | some info => do
      onLedger (initAccount info (EthereumAccount.new address bumpSeed))
      modify fun S => { S with ethereumAccounts := S.ethereumAccounts.insert address key }

/-! ## Single actions -/

/-- `transfer_neon_tokens`. -/
def transferNeonTokens (source target : Address) (value : U256) : Apply Unit := do
  if source = target then pure ()
  else
    let S ← get
    failIf (source ∉ S.ethereumAccounts) (.ofProgram .invalidArgument)
    failIf (target ∉ S.ethereumAccounts) (.ofProgram .invalidArgument)
    let balance ← ofOption .account (S.balance source)
    failIf (balance < value) (.ofProgram .insufficientFunds)
    modifyAccount source fun d => { d with balance := d.balance - value }
    modifyAccount target fun d => { d with balance := d.balance + value }

/-- The end of a NEON withdrawal. -/
def withdraw (source : Address) (value : U256) : Apply Unit := do
  let account ← ethereumAccountMut source
  failIf (account.data.balance < value) (.ofProgram .insufficientFunds)
  modifyAccount source fun d => { d with balance := d.balance - value }

/-- One more nonce. -/
def incrementNonce (address : Address) : Apply Unit := do
  let account ← ethereumAccountMut address
  failIf (account.data.trxCount = U64_MAX) (.ofProgram .invalidAccountData)
  modifyAccount address fun d => { d with trxCount := d.trxCount + 1 }

/-- `deploy_contract`. -/
def deployContract (address : Address) (code : Bytes) : Apply Unit := do
  let S ← get
  match (S.ethereumAccounts.lookup address).bind (S.ledger.handle? EthereumAccount) with
  | none => fail (.ofProgram .uninitializedAccount)
  | some account => do
    assertThat (account.data.codeSize = 0) .assertion
    assertThat (EthereumAccount.spaceNeeded code.length
      ≤ SIZE EthereumAccount + account.rest.length) .assertion
    assertThat (0 < code.length && code.length < 2 ^ 32) .unwrap
    save { account with
      data := { account.data with codeSize := code.length }
      rest := overwrite account.rest INTERNAL_STORAGE_SIZE code }

/-- `delete_account`. -/
def deleteAccount (address : Address) : Apply Unit := do
  let account ← ethereumAccountMut address
  failIf (2 ^ 32 ≤ account.data.generation + 1) (.ofProgram .invalidInstructionData)
  save { account with
    data := { account.data with
      trxCount := 0
      generation := account.data.generation + 1
      codeSize := 0 }
    rest := if account.data.isContract then List.replicate account.rest.length 0
      else account.rest }

/-- An external instruction; the accounts it names must have been supplied. -/
def invokeExternal (instruction : Instruction) (seeds : List Bytes) : Apply Unit := do
  let S ← get
  assertThat (instruction.programId ∈ S.solanaAccounts) .index
  assertThat (instruction.accounts.all (·.pubkey ∈ S.solanaAccounts)) .index
  onLedger (invokeSigned (.external instruction) seeds)

/-! ## Slots -/

/-- The lamports that pages which have grown still need. -/
abbrev Transfers : Type := HashMap Pubkey ℕ

/-- `EthereumStorage::create`. -/
def createStorage (operator : Pubkey) (contract : Handle EthereumAccount) (info : AccountMeta)
    (index : U256) (subindex : UInt8) (value : U256) : Program Unit := do
  createAccountWithSeed operator contract.key contract.data programId info.pubkey (makeSeed index)
    (SIZE EthereumStorage + RECORD)
  let d : EthereumStorage := ⟨contract.data.address, contract.data.generation, index⟩
  initAccount info d
  let (_, rest) ← openAccount EthereumStorage info.pubkey
  assertThat (rest.length = RECORD) .index
  modify (·.setContent info.pubkey (.storage d (record subindex value)))

/-- `EthereumStorage::set`. -/
def setStorage (page : Handle EthereumStorage) (transfers : Transfers) (subindex : UInt8)
    (value : U256) : Apply Transfers := do
  save { page with rest := setRest page.rest subindex value }
  if (setPresent page.rest subindex value).isSome then pure transfers
  else do
    let minimum ← onLedger (minimumBalance (SIZE EthereumStorage + page.rest.length + RECORD))
    let lamports := ((← get).ledger page.key).lamports
    pure (if lamports < minimum then transfers.insert page.key (minimum - lamports) else transfers)

/-- A slot of a page, in `apply_storage`. -/
def applyPaged (operator : Pubkey) (contract : Handle EthereumAccount) (transfers : Transfers)
    (index value : U256) : Apply Transfers := do
  let S ← get
  let subindex := subindexOf index
  let index := pageOf index
  match S.storageAccounts.lookup (contract.data.address, index) with
  | some key => do
    let page ← ofOption .unwrap (S.ledger.handle? EthereumStorage key)
    setStorage page transfers subindex value
  | none =>
    let key := EthereumStorage.pubkey contract.key index
    match S.solanaAccounts.lookup key with
    | none => fail (.ofProgram .invalidArgument)
    | some info => do
      failIf ((S.ledger key).owner ≠ Platform.systemProgramId) (.ofProgram .invalidAccountData)
      if value = 0 then pure transfers
      else do
        onLedger (createStorage operator contract info index subindex value)
        modify fun S => { S with
          storageAccounts := S.storageAccounts.insert (contract.data.address, index) key }
        pure transfers

/-- A slot, in `apply_storage`. -/
def applySlot (operator : Pubkey) (address : Address) (transfers : Transfers) (slot : U256 × U256) :
    Apply Transfers := do
  let (index, value) := slot
  let S ← get
  let contract ← ofOption .index
    ((S.ethereumAccounts.lookup address).bind (S.ledger.handle? EthereumAccount))
  assertThat contract.data.isContract .unwrap
  if index.toNat < STORAGE_ENTRIES_IN_CONTRACT_ACCOUNT then do
    assertThat (INTERNAL_STORAGE_SIZE ≤ contract.rest.length) .index
    save { contract with rest := overwrite contract.rest (index.toNat * 32) value.bytes }
    pure transfers
  else applyPaged operator contract transfers index value

/-- The writes of slots, by contract. -/
abbrev Slots : Type := HashMap Address (List (U256 × U256))

/-- `apply_storage`. -/
def applyStorage (operator : Pubkey) (storage : Slots) : Apply Unit := do
  let transfers ← foldl (fun transfers e => foldl (applySlot operator e.1) transfers e.2)
    (∅ : Transfers) storage.entries
  foldl (fun _ e => onLedger (systemTransfer operator e.1 e.2)) () transfers.entries

/-! ## All of them -/

/-- One action, in the main loop of `apply_state_change`. -/
def applyAction (storage : Slots) : Action → Apply Slots
  | .neonTransfer source target value => do
    transferNeonTokens source target value
    pure storage
  | .neonWithdraw source value => do
    withdraw source value
    pure storage
  | .evmSetStorage address index value =>
    pure (storage.insert address ((storage.lookup address).getD [] ++ [(index, value)]))
  | .evmIncrementNonce address => do
    incrementNonce address
    pure storage
  | .evmSetCode address code => do
    deployContract address code.toList
    pure storage
  | .evmSelfDestruct address => do
    deleteAccount address
    pure (storage.erase address)
  | .externalInstruction programId accounts data seeds _ => do
    invokeExternal ⟨programId, accounts, data⟩ seeds
    pure storage

/-- `apply_state_change`. -/
def applyStateChange (operator : Pubkey) (actions : List Action) : Apply AccountsReadiness := do
  let actions := rearrangeActions actions
  let operations ← ofOption .account ((← get).calcAccountsOperations actions)
  let readiness ← processAccountsOperations operator operations
  if readiness = .needMoreReallocations then pure .needMoreReallocations
  else
    foldl (fun _ address => createAccountIfNotExists address) ()
      ((actions.filterMap Action.spaceNeeded).map Prod.fst)
    let storage ← foldl applyAction ∅ actions
    applyStorage operator storage
    pure .ready

/-- `transfer_gas_payment`; the operator's handle is one of its own. -/
def transferGasPayment (origin : Address) (info : AccountMeta) (operator : EthereumAccount)
    (rest : Bytes) (value : U256) : Apply Unit := do
  let S ← get
  let balance ← ofOption .account (S.balance origin)
  failIf (balance < value) (.ofProgram .insufficientFunds)
  if operator.address = origin then pure ()
  else if operator.address ∈ S.ethereumAccounts then transferNeonTokens origin operator.address value
  else do
    modifyAccount origin fun d => { d with balance := d.balance - value }
    assertThat info.isWritable .assertion
    onLedger (modify (·.setContent info.pubkey
      (.ethereum { operator with balance := operator.balance + value } rest)))

end ProgramAccountStorage

end NeonEvm
