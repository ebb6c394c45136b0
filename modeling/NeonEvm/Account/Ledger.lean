import NeonEvm.Account.Layout
import NeonEvm.Platform

/-!
# Account/Ledger — the accounts of Solana, and how the program opens and writes its own

    Ledger = key ↦ lamports · owner · data

An instruction is a computation on the ledger; where it fails or aborts the ledger stays as it was.
Other programs are reached through `Runtime.invoke`, of which only the rules of the runtime are
known.
-/

namespace NeonEvm

open Exec Packable

/-- An account of Solana; one that does not exist has no lamports and belongs to the system
program. -/
structure SolanaAccount where
  lamports : ℕ
  owner : Pubkey
  content : Content
  executable : Bool
  rentEpoch : ℕ

/-- All accounts. -/
abbrev Ledger : Type := Pubkey → SolanaAccount

/-- A computation on the accounts. -/
abbrev Program (α : Type) : Type := Exec Fault Error Ledger α

/-- A cross-program invocation: of the system program, or of the one that is named. -/
inductive Invocation where
  | transfer (source target : Pubkey) (lamports : ℕ)
  | createAccount (payer key : Pubkey) (lamports space : ℕ) (owner : Pubkey)
  | allocate (key : Pubkey) (space : ℕ)
  | assign (key owner : Pubkey)
  | createAccountWithSeed (payer key base : Pubkey) (seed : Bytes) (lamports space : ℕ)
      (owner : Pubkey)
  | allocateWithSeed (key base : Pubkey) (seed : Bytes) (space : ℕ) (owner : Pubkey)
  | assignWithSeed (key base : Pubkey) (seed : Bytes) (owner : Pubkey)
  | external (instruction : Instruction)
  deriving DecidableEq

/-- The runtime and the configuration of the build: the address the program is deployed at, and what
an invocation signed with the given seeds makes of the accounts. -/
class Runtime where
  programId : Pubkey
  slotHashesId : Pubkey
  neonTokenMint : Pubkey
  /-- `CHAIN_ID`. -/
  chainId : ℕ
  invoke : Invocation → List Bytes → Ledger → Except String Ledger

export Runtime (programId)

/-- A runtime under which no invocation succeeds. -/
@[reducible] def Runtime.bare : Runtime where
  programId := 9
  slotHashesId := 8
  neonTokenMint := 7
  chainId := 111
  invoke _ _ _ := .error "not supported"

/-- `Clock`; the program expects a timestamp that is not negative. -/
structure Clock where
  slot : ℕ
  unixTimestamp : ℕ

namespace Ledger

/-- Put an account in the place of another. -/
def set (L : Ledger) (key : Pubkey) (account : SolanaAccount) : Ledger :=
  Function.update L key account

/-- Change the data of an account. -/
def setContent (L : Ledger) (key : Pubkey) (content : Content) : Ledger :=
  L.set key { L key with content }

/-- Change the lamports of an account. -/
def setLamports (L : Ledger) (key : Pubkey) (lamports : ℕ) : Ledger :=
  L.set key { L key with lamports }

variable {L : Ledger} {key other : Pubkey} {content : Content} {lamports : ℕ}

@[simp] theorem set_self {account : SolanaAccount} : L.set key account key = account :=
  Function.update_self ..

theorem set_of_ne {account : SolanaAccount} (h : other ≠ key) : L.set key account other = L other :=
  Function.update_of_ne h ..

theorem setContent_apply :
    L.setContent key content other =
      if other = key then { L key with content } else L other := by
  rw [setContent, set, Function.update_apply]

@[simp] theorem owner_setContent : (L.setContent key content other).owner = (L other).owner := by
  rw [setContent_apply]
  split
  · rw [‹other = key›]
  · rfl

@[simp] theorem content_setContent_self : (L.setContent key content key).content = content := by
  rw [setContent_apply, if_pos rfl]

theorem setContent_of_ne (h : other ≠ key) : L.setContent key content other = L other := by
  rw [setContent_apply, if_neg h]

theorem setContent_setContent {content' : Content} :
    (L.setContent key content).setContent key content' = L.setContent key content' := by
  funext other
  rw [setContent_apply, setContent_apply, setContent_apply, setContent_apply, if_pos rfl]
  split_ifs
  · rfl
  · rfl

theorem setLamports_apply :
    L.setLamports key lamports other =
      if other = key then { L key with lamports } else L other := by
  rw [setLamports, set, Function.update_apply]

@[simp] theorem owner_setLamports : (L.setLamports key lamports other).owner = (L other).owner := by
  rw [setLamports_apply]
  split
  · rw [‹other = key›]
  · rfl

@[simp] theorem content_setLamports :
    (L.setLamports key lamports other).content = (L other).content := by
  rw [setLamports_apply]
  split
  · rw [‹other = key›]
  · rfl

end Ledger

/-! ## Handles of our own accounts

`AccountData`. -/

section

variable [Runtime]

/-- The account under a key. -/
def accountAt (key : Pubkey) : Program SolanaAccount := gets (· key)

/-- `account::tag`. -/
def accountTag (key : Pubkey) : Program UInt8 := do
  let account ← accountAt key
  failIf (account.owner ≠ programId) (.accountInvalidOwner key programId)
  match account.content.tag with
  | some tag => pure tag
  | none => fail (.accountInvalidData key)

/-- `AccountData::from_account`, with the rest. -/
def openAccount (τ : Type) [Packable τ] (key : Pubkey) : Program (τ × Bytes) := do
  let account ← accountAt key
  failIf (account.owner ≠ programId) (.accountInvalidOwner key programId)
  failIf (account.content.len < SIZE τ) (.accountInvalidData key)
  match split account.content with
  | some opened => pure opened
  | none => fail (.accountInvalidTag key (TAG τ))

/-- `AccountData::from_account`. -/
def fromAccount (τ : Type) [Packable τ] (key : Pubkey) : Program τ := do
  pure (← openAccount τ key).1

/-- `Rent::get()?.minimum_balance(len)`. -/
def minimumBalance [Platform] (len : ℕ) : Program ℕ := lift (ofForeign (Platform.minimumBalance len))

/-- `AccountData::init`. -/
def initAccount [Platform] {τ : Type} [Packable τ] (info : AccountMeta) (d : τ) : Program Unit := do
  let account ← accountAt info.pubkey
  failIf (account.owner ≠ programId) (.accountInvalidOwner info.pubkey programId)
  failIf (!info.isWritable) (.accountNotWritable info.pubkey)
  failIf (account.lamports < (← minimumBalance account.content.len))
    (.accountNotRentExempt info.pubkey)
  failIf (account.content.len < SIZE τ) (.accountInvalidData info.pubkey)
  failIf (account.content.tag ≠ some TAG_EMPTY) (.accountAlreadyInitialized info.pubkey)
  modify (·.setContent info.pubkey
    (content d (List.replicate (account.content.len - SIZE τ) 0)))

/-- `AccountData::replace`. -/
def replaceAccount {τ : Type} [Packable τ] (info : AccountMeta) (d : τ) : Program Unit := do
  failIf (!info.isWritable) (.accountNotWritable info.pubkey)
  let account ← accountAt info.pubkey
  failIf (account.content.len < SIZE τ) (.accountInvalidData info.pubkey)
  modify (·.setContent info.pubkey
    (content d (List.replicate (account.content.len - SIZE τ) 0)))

/-- `account::delete`. -/
def deleteAccount (key operator : Pubkey) : Program Unit := do
  modify fun L => L.setLamports operator ((L operator).lamports + (L key).lamports)
  modify fun L => L.setLamports key 0
  modify fun L => L.setContent key (.raw (List.replicate (L key).content.len 0))

/-! ## Invoking other programs -/

variable [Platform]

/-- `invoke`, `invoke_signed` and their unchecked variants. -/
def invokeSigned (invocation : Invocation) (seeds : List Bytes) : Program Unit := fun L =>
  match Runtime.invoke invocation seeds L with
  | .ok L => .ok () L
  | .error text => .err (.programError text) L

/-- `System::transfer`. -/
def systemTransfer (source target : Pubkey) (lamports : ℕ) : Program Unit :=
  invokeSigned (.transfer source target lamports) []

/-- Pay what an account still needs, if it needs anything. -/
def topUp (payer key : Pubkey) (lamports : ℕ) : Program Unit :=
  if 0 < lamports then systemTransfer payer key lamports else pure ()

/-- `System::create_pda_account`. -/
def createPdaAccount (owner payer newAccount : Pubkey) (seeds : List Bytes) (space : ℕ) :
    Program Unit := do
  let minimum := max (← minimumBalance space) 1
  let lamports := (← accountAt newAccount).lamports
  if 0 < lamports then do
    topUp payer newAccount (minimum - lamports)
    invokeSigned (.allocate newAccount space) seeds
    invokeSigned (.assign newAccount owner) seeds
  else invokeSigned (.createAccount payer newAccount minimum space owner) seeds

/-- The seeds of the address of an Ethereum account. -/
def accountSeeds (address : Address) (bumpSeed : UInt8) : List Bytes :=
  [[ACCOUNT_SEED_VERSION], address.bytes, [bumpSeed]]

/-- `System::create_account_with_seed`, for a base that is an Ethereum account. -/
def createAccountWithSeed (payer base : Pubkey) (contract : EthereumAccount)
    (owner newAccount : Pubkey) (seed : Bytes) (space : ℕ) : Program Unit := do
  let minimum := max (← minimumBalance space) 1
  let lamports := (← accountAt newAccount).lamports
  let seeds := accountSeeds contract.address contract.bumpSeed
  if 0 < lamports then do
    topUp payer newAccount (minimum - lamports)
    invokeSigned (.allocateWithSeed newAccount base seed space owner) seeds
    invokeSigned (.assignWithSeed newAccount base seed owner) seeds
  else invokeSigned (.createAccountWithSeed payer newAccount base seed minimum space owner) seeds

end

end NeonEvm
