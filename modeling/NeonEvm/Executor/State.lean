import NeonEvm.Evm.Context
import NeonEvm.Executor.Action
import NeonEvm.Executor.ExternalPrograms

/-!
# Executor/State — the database a contract runs against

    read = backend overlaid with the journal      write = append to the journal
    snapshot = push the journal's length          revert = truncate it to the popped length

`ExecutorState` never writes to its backend; `AccountStorage` is the backend's reading side, a read
being nothing where the account was not supplied with the instruction.
-/

namespace NeonEvm

open Exec

/-- `AccountStorage`: a missing value is an account that was not supplied, which aborts. -/
structure AccountStorage where
  neonTokenMint : Pubkey
  programId : Pubkey
  operator : Pubkey
  blockNumber : U256
  blockTimestamp : U256
  blockHash : ℕ → Option U256
  chainId : ℕ
  nonce : Address → Option ℕ
  balance : Address → Option U256
  codeSize : Address → Option ℕ
  codeHash : Address → Option U256
  code : Address → Option Buffer
  storage : Address → U256 → Option U256
  cloneSolanaAccount : Pubkey → Option AccountInfo
  mapSolanaAccount : Pubkey → Option AccountInfo
  solanaAddress : Address → Pubkey × UInt8

/-- A backend of contracts without storage, nonces or balances. -/
def AccountStorage.holding (code : Address → Bytes) : AccountStorage where
  neonTokenMint := 0
  programId := 0
  operator := 0
  blockNumber := 0
  blockTimestamp := 0
  blockHash _ := some 0
  chainId := 111
  nonce _ := some 0
  balance _ := some 0
  codeSize a := some (code a).length
  codeHash _ := some 0
  code a := some (Buffer.fromSlice (code a))
  storage _ _ := some 0
  cloneSolanaAccount _ := none
  mapSolanaAccount _ := none
  solanaAddress _ := (0, 255)

/-- `Cache`. -/
structure Cache where
  solanaAccounts : SolanaAccounts
  blockNumber : U256
  blockTimestamp : U256

/-- What a contract reads and writes through the executor: the journal, and the cache of accounts of
other programs. -/
structure Database where
  cache : Cache
  actions : List Action

/-- `ExecutorState`: the database and, the last one first, the snapshots of its journal's length. -/
structure ExecutorState extends Database where
  stack : List ℕ
  exitStatus : Option ExitStatus

/-- A computation on the executor's database, which does not see the snapshots. -/
abbrev Db (α : Type) : Type := Exec Fault Error Database α

/-! ## Reading through the journal -/

namespace Overlay

/-- `U256::checked_add`. -/
def checkedAddU256 (a b : U256) : Except Error U256 :=
  if a.toNat + b.toNat < 2 ^ 256 then .ok (a + b) else .error .integerOverflow

/-- `U256::checked_sub`. -/
def checkedSubU256 (a b : U256) : Except Error U256 :=
  if b ≤ a then .ok (a - b) else .error .integerOverflow

/-- The nonce after one more action. -/
def nonceStep (address : Address) (nonce : ℕ) : Action → Except Error ℕ
  | .evmIncrementNonce a =>
    if address = a then
      if nonce < U64_MAX then .ok (nonce + 1) else .error .integerOverflow
    else .ok nonce
  | _ => .ok nonce

/-- The balance after one more action. -/
def balanceStep (address : Address) (balance : U256) : Action → Except Error U256
  | .neonTransfer source target value => do
    let balance ← if address = source then checkedSubU256 balance value else .ok balance
    if address = target then checkedAddU256 balance value else .ok balance
  | .neonWithdraw source value =>
    if address = source then checkedSubU256 balance value else .ok balance
  | _ => .ok balance

/-- The nonce that the journal makes of the stored one. -/
def nonce (address : Address) (stored : ℕ) (actions : List Action) : Except Error ℕ :=
  actions.foldlM (nonceStep address) stored

/-- The balance that the journal makes of the stored one. -/
def balance (address : Address) (stored : U256) (actions : List Action) : Except Error U256 :=
  actions.foldlM (balanceStep address) stored

/-- The code an action gives to the address. -/
def codeOf (address : Address) : Action → Option Buffer
  | .evmSetCode a code => if address = a then some code else none
  | _ => none

/-- The first code the journal gives to the address. -/
def code (address : Address) (actions : List Action) : Option Buffer :=
  actions.findSome? (codeOf address)

/-- The value an action gives to the slot. -/
def storageOf (address : Address) (index : U256) : Action → Option U256
  | .evmSetStorage a i value => if address = a ∧ index = i then some value else none
  | _ => none

/-- The last value the journal gives to the slot. -/
def storage (address : Address) (index : U256) (actions : List Action) : Option U256 :=
  actions.reverse.findSome? (storageOf address index)

end Overlay

namespace ExecutorState

/-- `ExecutorState::new`. -/
def new (B : AccountStorage) : ExecutorState where
  cache := ⟨fun _ => none, B.blockNumber, B.blockTimestamp⟩
  actions := []
  stack := []
  exitStatus := none

/-- `ExecutorState::into_actions`. -/
def intoActions (s : ExecutorState) : Fallible (List Action) :=
  if s.stack = [] then pure s.actions else abort .assertion

/-- Replace the database. -/
def setDatabase (s : ExecutorState) (d : Database) : ExecutorState := { s with toDatabase := d }

/-- Run on the database. -/
def onDatabase {α : Type} (x : Db α) : Exec Fault Error ExecutorState α :=
  zoom (·.toDatabase) setDatabase id x

/-- Append to the journal. -/
def pushAction (action : Action) : Db Unit :=
  modify fun s => { s with actions := s.actions ++ [action] }

/-! ## Writes -/

/-- `increment_nonce`. -/
def incrementNonce (address : Address) : Db Unit := pushAction (.evmIncrementNonce address)

/-- `set_code`, refusing more than 24 kB. -/
def setCode (address : Address) (code : Buffer) : Db Unit := do
  failIf (0x6000 < code.len) (.contractCodeSizeLimit address code.len)
  pushAction (.evmSetCode address code)

/-- `selfdestruct`. -/
def selfdestruct (address : Address) : Db Unit := pushAction (.evmSelfDestruct address)

/-- `set_storage`. -/
def setStorage (address : Address) (index value : U256) : Db Unit :=
  pushAction (.evmSetStorage address index value)

/-- `withdraw_neons`. -/
def withdrawNeons (source : Address) (value : U256) : Db Unit :=
  pushAction (.neonWithdraw source value)

/-- `queue_external_instruction`. -/
def queueExternalInstruction (instruction : Instruction) (seeds : List Bytes) (fee : ℕ) :
    Db Unit :=
  pushAction
    (.externalInstruction instruction.programId instruction.accounts instruction.data seeds fee)

/-! ## Snapshots

Taking one back aborts where there is none. -/

/-- `snapshot`. -/
def snapshot (s : ExecutorState) : ExecutorState :=
  { s with stack := s.actions.length :: s.stack }

/-- The sanity check of `revert_snapshot`: what is left is the increment of the origin's nonce. -/
def isNonceOnly : List Action → Bool
  | [.evmIncrementNonce _] => true
  | _ => false

/-- `revert_snapshot`. -/
def revertSnapshot : Exec Panic Error ExecutorState Unit := fun s =>
  match s.stack with
  | [] => .panic .callStack
  | mark :: stack =>
    let actions := s.actions.take mark
    if stack = [] ∧ !isNonceOnly actions then .panic .sanity
    else .ok () { s with actions := actions, stack := stack }

/-- `commit_snapshot`. -/
def commitSnapshot : Exec Panic Error ExecutorState Unit := fun s =>
  match s.stack with
  | [] => .panic .callStack
  | _ :: stack => .ok () { s with stack := stack }

/-! ## Reads -/

section Reads

variable (B : AccountStorage)

/-- `chain_id`. -/
def chainId : U256 := BitVec.ofNat 256 B.chainId

/-- `nonce`. -/
def nonce (address : Address) : Db ℕ := do
  let stored ← ofOption .account (B.nonce address)
  ofExcept (Overlay.nonce address stored (← gets Database.actions))

/-- `balance`. -/
def balance (address : Address) : Db U256 := do
  let stored ← ofOption .account (B.balance address)
  ofExcept (Overlay.balance address stored (← gets Database.actions))

/-- `transfer`. -/
def transfer (source target : Address) (value : U256) : Db Unit := do
  if value = 0 then pure ()
  else if source = target then pure ()
  else
    failIf ((← balance B source) < value) (.insufficientBalance source value)
    pushAction (.neonTransfer source target value)

def SYSTEM_ACCOUNT_QUERY : Address := 0xff00000000000000000000000000000000000002
def SYSTEM_ACCOUNT_NEON_TOKEN : Address := 0xff00000000000000000000000000000000000003
def SYSTEM_ACCOUNT_SPL_TOKEN : Address := 0xff00000000000000000000000000000000000004
def SYSTEM_ACCOUNT_METAPLEX : Address := 0xff00000000000000000000000000000000000005

/-- `is_precompile_extension`. -/
def isPrecompileExtension (address : Address) : Bool :=
  address = SYSTEM_ACCOUNT_QUERY || address = SYSTEM_ACCOUNT_NEON_TOKEN
    || address = SYSTEM_ACCOUNT_SPL_TOKEN || address = SYSTEM_ACCOUNT_METAPLEX

/-- `code_size`; an extension counts as one byte, so that it can be called. -/
def codeSize (address : Address) : Db ℕ := do
  if isPrecompileExtension address then pure 1
  else match Overlay.code address (← gets Database.actions) with
    | some code => pure code.len
    | none => ofOption .account (B.codeSize address)

/-- `code_hash`. -/
def codeHash [Platform] (address : Address) : Db U256 := do
  match Overlay.code address (← gets Database.actions) with
  | some code => pure (keccak code.toList)
  | none => ofOption .account (B.codeHash address)

/-- `code`. -/
def code (address : Address) : Db Buffer := do
  match Overlay.code address (← gets Database.actions) with
  | some code => pure code
  | none => ofOption .account (B.code address)

/-- `storage`. -/
def storage (address : Address) (index : U256) : Db U256 := do
  match Overlay.storage address index (← gets Database.actions) with
  | some value => pure value
  | none => ofOption .account (B.storage address index)

/-- `block_hash`: zero outside the last 256 blocks. -/
def blockHash (number : U256) : Db U256 := do
  if U64_MAX ≤ number.toNat then pure 0
  else
    let number := number.toNat
    let blockSlot := (← gets fun s => s.cache.blockNumber.toNat) % USIZE
    let lowerBlockSlot := if blockSlot < 257 then 0 else blockSlot - 256
    if blockSlot ≤ number ∨ number < lowerBlockSlot then pure 0
    else ofOption .account (B.blockHash number)

/-- `block_number`. -/
def blockNumber : Db U256 := gets fun s => s.cache.blockNumber

/-- `block_timestamp`. -/
def blockTimestamp : Db U256 := gets fun s => s.cache.blockTimestamp

/-- `map_solana_account`. -/
def mapSolanaAccount (key : Pubkey) : Db AccountInfo :=
  ofOption .account (B.mapSolanaAccount key)

/-- `insert_account_if_not_present`, and the account that is present then. -/
def cachedAccount (key : Pubkey) : Db AccountInfo := do
  match (← gets fun s => s.cache.solanaAccounts key) with
  | some info => pure info
  | none =>
    let info ← ofOption .account (B.cloneSolanaAccount key)
    modify fun s =>
      { s with
        cache := { s.cache with
          solanaAccounts := Function.update s.cache.solanaAccounts key (some info) } }
    pure info

/-- The copies that the emulation starts from. -/
def collectAccounts (metas : List AccountMeta) : Db SolanaAccounts :=
  foldl (fun accounts m => do
      pure (Function.update accounts m.pubkey (some (← cachedAccount B m.pubkey))))
    (fun _ => none) metas

/-- The emulation of the queued external instructions, in their order. -/
def emulateActions [Platform] : List Action → Emulation Unit
  | [] => pure ()
  | .externalInstruction programId metas data _ _ :: actions => do
    emulateExternal programId data metas
    emulateActions actions
  | _ :: actions => emulateActions actions

/-- Run an emulation on its own accounts, from outside. -/
def runEmulation {α : Type} (accounts : SolanaAccounts) (x : Emulation α) : Db SolanaAccounts :=
  fun s =>
    match x accounts with
    | .ok _ accounts => .ok accounts s
    | .err e _ => .err e s
    | .panic p => .panic p

/-- `external_account`: the account as the queued external instructions would leave it. -/
def externalAccount [Platform] (address : Pubkey) : Db AccountInfo := do
  let actions ← gets Database.actions
  let metas := actions.flatMap Action.metas
  if !(metas.any fun m => m.pubkey = address && m.isWritable) then cachedAccount B address
  else
    let accounts ← collectAccounts B metas
    let accounts ← runEmulation accounts (emulateActions actions)
    ofOption .index (accounts address)

end Reads

end ExecutorState

end NeonEvm
