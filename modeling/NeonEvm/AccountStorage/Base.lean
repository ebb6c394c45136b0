import NeonEvm.Account.StoragePage

/-!
# AccountStorage/Base — the accounts an instruction was given

    new       open every account of ours that was supplied · clear the pages of an older generation
    lookup    the handle, if there is one · nothing, if the account is empty · else abort

`ProgramAccountStorage` is a view of the ledger by Ethereum address and by page.  A lookup of an
account that was not supplied aborts the instruction.
-/

namespace NeonEvm

open Exec Packable

/-- A handle of an account of ours. -/
structure Handle (τ : Type) where
  key : Pubkey
  data : τ
  rest : Bytes

/-- The maps of handles that `new` fills. -/
structure Handles where
  ethereumAccounts : HashMap Address Pubkey
  storageAccounts : HashMap (Address × U256) Pubkey

/-- `ProgramAccountStorage`, and the accounts behind it. -/
structure ProgramAccountStorage extends Handles where
  operator : Pubkey
  clock : Clock
  solanaAccounts : HashMap Pubkey AccountMeta
  ledger : Ledger

/-- The handle of data under the tag of `τ`. -/
def Ledger.handle? (τ : Type) [Packable τ] (L : Ledger) (key : Pubkey) : Option (Handle τ) :=
  (split (L key).content).map fun (data, rest) => ⟨key, data, rest⟩

variable [Platform] [Runtime]

/-- `EthereumStorage::clear`; a handle that changed may only be dropped if it is writable. -/
def EthereumStorage.clear (info : AccountMeta) (d : EthereumStorage) (generation : ℕ)
    (operator : Pubkey) : Program Unit := do
  assertThat info.isWritable .assertion
  modify (·.setContent info.pubkey (.storage { d with generation } []))
  let minimum ← minimumBalance (SIZE EthereumStorage)
  let excessive := (← accountAt info.pubkey).lamports - minimum
  if 0 < excessive then do
    modify fun L => L.setLamports info.pubkey ((L info.pubkey).lamports - excessive)
    modify fun L => L.setLamports operator ((L operator).lamports + excessive)

namespace ProgramAccountStorage

/-- The accounts by their keys; of two under one key the later one stays. -/
def supplied (operator : AccountMeta) (systemProgram : Option AccountMeta)
    (accounts : List AccountMeta) : HashMap Pubkey AccountMeta :=
  (accounts ++ operator :: systemProgram.toList).foldl (fun m info => m.insert info.pubkey info) ∅

/-- Open an account, if it is one of ours. -/
def openHandle (handles : Handles) (key : Pubkey) : Program Handles := do
  let account ← accountAt key
  if account.owner ≠ programId then pure handles
  else if account.content.tag = some (TAG EthereumAccount) then do
    let d ← fromAccount EthereumAccount key
    pure { handles with ethereumAccounts := handles.ethereumAccounts.insert d.address key }
  else if account.content.tag = some (TAG EthereumStorage) then do
    let d ← fromAccount EthereumStorage key
    pure { handles with storageAccounts := handles.storageAccounts.insert (d.address, d.index) key }
  else pure handles

/-- Clear a page of an older generation. -/
def clearStale (handles : Handles) (supplied : HashMap Pubkey AccountMeta) (operator : Pubkey)
    (address : Address) (key : Pubkey) : Program Unit := do
  let owner ← ofOption .index (handles.ethereumAccounts.lookup address)
  let owner ← fromAccount EthereumAccount owner
  let page ← fromAccount EthereumStorage key
  let info ← ofOption .index (supplied.lookup key)
  if page.generation ≠ owner.generation then page.clear info owner.generation operator

/-- `new`. -/
def new (clock : Clock) (operator : AccountMeta) (systemProgram : Option AccountMeta)
    (accounts : List AccountMeta) : Program ProgramAccountStorage := do
  let solanaAccounts := supplied operator systemProgram accounts
  let handles ← foldl openHandle ⟨∅, ∅⟩ (solanaAccounts.entries.map Sigma.fst)
  foldl (fun _ e => clearStale handles solanaAccounts operator.pubkey e.1.1 e.2) ()
    handles.storageAccounts.entries
  let ledger ← get
  pure { handles with operator := operator.pubkey, clock, solanaAccounts, ledger }

/-! ## Lookups

Nothing where the source aborts. -/

variable (S : ProgramAccountStorage)

/-- `is_account_empty`. -/
def isAccountEmpty (account : SolanaAccount) : Bool :=
  account.owner = Platform.systemProgramId ||
    (account.owner = programId && (account.content.tag.all (· = TAG_EMPTY)))

/-- `ethereum_account`. -/
def ethereumAccount (address : Address) : Option (Option (Handle EthereumAccount)) :=
  match S.ethereumAccounts.lookup address with
  | some key => (S.ledger.handle? EthereumAccount key).map some
  | none =>
    let key := (address.findSolanaAddress programId).1
    if key ∈ S.solanaAccounts && isAccountEmpty (S.ledger key) then some none else none

/-- `solana_address`. -/
def solanaAddress (address : Address) : Pubkey × UInt8 :=
  match (S.ethereumAccounts.lookup address).bind (S.ledger.handle? EthereumAccount) with
  | some account => (account.key, account.data.bumpSeed)
  | none => address.findSolanaAddress programId

/-- `ethereum_storage`. -/
def ethereumStorage (address : Address) (index : U256) :
    Option (Option (Handle EthereumStorage)) :=
  match S.storageAccounts.lookup (address, index) with
  | some key => (S.ledger.handle? EthereumStorage key).map some
  | none =>
    let key := EthereumStorage.pubkey (S.solanaAddress address).1 index
    if key ∈ S.solanaAccounts && (S.ledger key).owner = Platform.systemProgramId then some none
    else none

/-- `exists`. -/
def accountExists (address : Address) : Bool := address ∈ S.ethereumAccounts

end ProgramAccountStorage

/-! ## Changing handles -/

/-- A computation on the accounts of an instruction. -/
abbrev Apply (α : Type) : Type := Exec Fault Error ProgramAccountStorage α

namespace ProgramAccountStorage

/-- Run on the ledger. -/
def onLedger {α : Type} (x : Program α) : Apply α :=
  zoom (·.ledger) (fun S ledger => { S with ledger }) id x

/-- Drop a handle that changed. -/
def save {τ : Type} [Packable τ] (account : Handle τ) : Apply Unit := do
  let info ← ofOption .index ((← get).solanaAccounts.lookup account.key)
  assertThat info.isWritable .assertion
  onLedger (modify (·.setContent account.key (content account.data account.rest)))

/-- `ethereum_account_mut`. -/
def ethereumAccountMut (address : Address) : Apply (Handle EthereumAccount) := do
  let S ← get
  ofOption .unwrap ((S.ethereumAccounts.lookup address).bind (S.ledger.handle? EthereumAccount))

/-- Change the header of an account that is there. -/
def modifyAccount (address : Address) (f : EthereumAccount → EthereumAccount) : Apply Unit := do
  let account ← ethereumAccountMut address
  save { account with data := f account.data }

/-- `block_accounts`. -/
def blockAccounts (block : Bool) : Apply Unit := do
  foldl (fun _ address => modifyAccount address fun d => { d with rwBlocked := block }) ()
    ((← get).ethereumAccounts.entries.map Sigma.fst)

/-- `check_for_blocked_accounts`. -/
def checkForBlockedAccounts : Apply Unit := do
  foldl (fun _ address => do
      failIf (← ethereumAccountMut address).data.rwBlocked (.ofProgram .invalidAccountData)) ()
    ((← get).ethereumAccounts.entries.map Sigma.fst)

end ProgramAccountStorage

end NeonEvm
