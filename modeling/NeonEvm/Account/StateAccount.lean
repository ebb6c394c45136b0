import NeonEvm.Account.Operator
import NeonEvm.AccountStorage.Base
import NeonEvm.Lib.Rows

/-!
# Account/StateAccount — the account of a transaction under way

    header · blocked accounts · executor state · machine · …

The accounts that the transaction has locked stand in a row behind the header, and the saved
execution behind them; where it begins is computed from the length of the row.  Offsets count from
the end of the header, and a length of memory does not wrap.
-/

namespace NeonEvm

open Exec Packable Chunks

/-- `PAYMENT_TO_DEPOSIT`. -/
def PAYMENT_TO_DEPOSIT : ℕ := 5000

/-- `OPERATOR_PRIORITY_SLOTS`. -/
def OPERATOR_PRIORITY_SLOTS : ℕ := 16

/-- `ACCOUNT_CHUNK_LEN`. -/
def ACCOUNT_CHUNK_LEN : ℕ := 1 + 1 + 32

/-- `BlockedAccountMeta`. -/
structure BlockedAccountMeta where
  key : Pubkey
  exists_ : Bool
  isWritable : Bool
  deriving DecidableEq

/-- `BlockedAccounts`. -/
abbrev BlockedAccounts : Type := List BlockedAccountMeta

/-- `u8::from` of a flag. -/
def flagByte (b : Bool) : UInt8 := if b then 1 else 0

theorem flagByte_ne_zero (b : Bool) : decide (flagByte b ≠ 0) = b := by
  cases b <;> rfl

/-- A blocked account as a chunk of bytes. -/
def BlockedAccountMeta.format : Format UInt8 BlockedAccountMeta where
  size := ACCOUNT_CHUNK_LEN
  pos := Nat.succ_pos _
  encode m := flagByte m.isWritable :: flagByte m.exists_ :: m.key.bytes
  decode bytes := ⟨U256.ofBytes (bytes.drop 2), bytes.getD 1 0 ≠ 0, bytes.getD 0 0 ≠ 0⟩
  length_encode m := by
    rw [List.length_cons, List.length_cons, Pubkey.bytes, length_toBeBytes]
    rfl
  decode_encode m := by
    show BlockedAccountMeta.mk (U256.ofBytes m.key.bytes) (flagByte m.exists_ ≠ 0)
      (flagByte m.isWritable ≠ 0) = m
    rw [flagByte_ne_zero, flagByte_ne_zero]
    exact congrArg (BlockedAccountMeta.mk · _ _) (U256.ofBytes_bytes m.key)

open BlockedAccountMeta (format)

namespace State

variable (d : State) (rest : Bytes)

/-- The end of `blocked_accounts_region`, where `evm_data_region` begins. -/
def evmDataOffset : ℕ := ACCOUNT_CHUNK_LEN * d.accountsLen

/-- `read_blocked_accounts`. -/
def readBlockedAccounts : Fallible BlockedAccounts := do
  failIf (rest.length < d.evmDataOffset) (.ofProgram .accountDataTooSmall)
  pure (format.read (rest.take d.evmDataOffset))

/-- `update_blocked_accounts`; `copy_within` and the slice abort where they are out of range. -/
def updateBlockedAccounts (accounts : BlockedAccounts) : Fallible (State × Bytes) := do
  let evmDataLen := d.evmStateLen + d.evmMachineLen
  let updated := { d with accountsLen := accounts.length }
  assertThat (d.evmDataOffset + evmDataLen ≤ rest.length) .index
  assertThat (updated.evmDataOffset + evmDataLen ≤ rest.length) .index
  pure (updated, format.regrow rest ((rest.drop d.evmDataOffset).take evmDataLen) accounts)

/-- The two slices of `evm_data` that `deserialize_evm_state` reads; nothing where one is out of
range. -/
def savedEvm : Option (Bytes × Bytes) :=
  if d.evmDataOffset + d.evmStateLen + d.evmMachineLen ≤ rest.length then
    some ((rest.drop d.evmDataOffset).take d.evmStateLen,
      (rest.drop (d.evmDataOffset + d.evmStateLen)).take d.evmMachineLen)
  else none

end State

/-! ## The list and the saved execution -/

namespace State

variable {d : State} {rest : Bytes} {accounts : BlockedAccounts}

/-- The bytes of the saved execution, and where they are cut. -/
theorem savedEvm_eq (d : State) (rest : Bytes) :
    d.savedEvm rest =
      if d.evmDataOffset + (d.evmStateLen + d.evmMachineLen) ≤ rest.length then
        some ((((rest.drop d.evmDataOffset).take (d.evmStateLen + d.evmMachineLen)).take
            d.evmStateLen),
          ((rest.drop d.evmDataOffset).take (d.evmStateLen + d.evmMachineLen)).drop d.evmStateLen)
      else none := by
  rw [savedEvm, Nat.add_assoc, List.take_take, Nat.min_eq_left (Nat.le_add_right ..), List.drop_take,
    Nat.add_sub_cancel_left, List.drop_drop]

theorem readBlockedAccounts_eq_ok :
    d.readBlockedAccounts rest () = .ok accounts () ↔
      d.evmDataOffset ≤ rest.length ∧ format.read (rest.take d.evmDataOffset) = accounts := by
  simp only [readBlockedAccounts, bind_eq_ok, failIf_eq_ok, pure_eq_ok, decide_eq_false_iff_not,
    not_lt]
  exact ⟨fun ⟨_, _, ⟨hle, _⟩, heq, _⟩ => ⟨hle, heq⟩, fun ⟨hle, heq⟩ =>
    ⟨(), (), ⟨hle, trivial⟩, heq, trivial⟩⟩

/-- **Where an execution is saved** the list can be read. -/
theorem readBlockedAccounts_of_savedEvm {saved : Bytes × Bytes} (h : d.savedEvm rest = some saved) :
    ∃ accounts, d.readBlockedAccounts rest () = .ok accounts () := by
  refine ⟨_, readBlockedAccounts_eq_ok.2 ⟨?_, rfl⟩⟩
  rw [savedEvm] at h
  split_ifs at h
  omega

/-- **The list grows and the saved execution stays** — the bytes are moved before the list is
written over them. -/
theorem updateBlockedAccounts_ok {d' : State} {rest' : Bytes}
    (h : d.updateBlockedAccounts rest accounts () = .ok (d', rest') ()) :
    d' = { d with accountsLen := accounts.length } ∧ rest'.length = rest.length ∧
      d'.savedEvm rest' = d.savedEvm rest ∧
      d'.readBlockedAccounts rest' () = .ok accounts () := by
  simp only [updateBlockedAccounts, bind_eq_ok, assertThat_eq_ok, pure_eq_ok, Prod.mk.injEq,
    decide_eq_true_eq] at h
  obtain ⟨_, _, ⟨hold, -⟩, _, _, ⟨hnew, -⟩, ⟨rfl, rfl⟩, -⟩ := h
  have hrow : evmDataOffset { d with accountsLen := accounts.length } =
      (format.row accounts).length := format.length_row.symm
  have hbody : ((rest.drop d.evmDataOffset).take (d.evmStateLen + d.evmMachineLen)).length =
      d.evmStateLen + d.evmMachineLen := by
    rw [List.length_take, List.length_drop]
    omega
  have hfits : (format.row accounts).length +
      ((rest.drop d.evmDataOffset).take (d.evmStateLen + d.evmMachineLen)).length ≤
        rest.length := by
    rw [hbody, ← hrow]
    exact hnew
  have hlen := format.length_regrow hfits
  have hmoved := format.drop_regrow hfits
  rw [hbody] at hmoved
  refine ⟨rfl, hlen, ?_, readBlockedAccounts_eq_ok.2 ⟨?_, ?_⟩⟩
  · rw [savedEvm_eq, savedEvm_eq, if_pos hold, hlen, if_pos hnew, hrow, hmoved]
  · rw [hlen]
    omega
  · rw [hrow, format.take_regrow, format.read_row]

end State

variable [Platform] [Runtime]

/-- `account_exists`. -/
def Ledger.accountExists (L : Ledger) (key : Pubkey) : Bool :=
  (L key).owner = programId && (L key).content.tag = some (TAG EthereumAccount)

/-- The three tests of a blocked account, in `check_blocked_accounts`. -/
def checkBlockedAccount (isCancelling : Bool) (blocked : BlockedAccountMeta) (info : AccountMeta) :
    Program Unit := do
  failIf (blocked.key ≠ info.pubkey) (.ofProgram .invalidAccountData)
  failIf (blocked.isWritable && !info.isWritable) (.ofProgram .invalidAccountData)
  failIf (!isCancelling && !blocked.exists_ && (← get).accountExists info.pubkey)
    (.ofProgram .accountAlreadyInitialized)

/-- `check_blocked_accounts`. -/
def checkBlockedAccounts (d : State) (rest : Bytes) (remainingAccounts : List AccountMeta)
    (isCancelling : Bool) : Program BlockedAccounts := do
  let blockedAccounts ← lift (d.readBlockedAccounts rest)
  failIf (blockedAccounts.length ≠ remainingAccounts.length) (.ofProgram .notEnoughAccountKeys)
  foldl (fun _ e => checkBlockedAccount isCancelling e.1 e.2) ()
    (blockedAccounts.zip remainingAccounts)
  pure blockedAccounts

namespace State

/-- `State::restore`: the handle, with the operator that goes on with it. -/
def restore (clock : Clock) (info : AccountMeta) (operator : Pubkey)
    (remainingAccounts : List AccountMeta) (isCancelling : Bool) :
    Program (Handle State × BlockedAccounts) := do
  let tag ← accountTag info.pubkey
  failIf (tag = TAG FinalizedState) .storageAccountFinalized
  failIf (tag = TAG Holder) .storageAccountUninitialized
  let (d, rest) ← openAccount State info.pubkey
  let blockedAccounts ← checkBlockedAccounts d rest remainingAccounts isCancelling
  failIf (operator ≠ d.operator && (clock.slot + USIZE - d.slot) % USIZE ≤ OPERATOR_PRIORITY_SLOTS)
    (.ofProgram .invalidAccountData)
  pure (⟨info.pubkey,
    if d.operator ≠ operator then { d with operator, slot := clock.slot } else d, rest⟩,
    blockedAccounts)

/-- `withdraw_deposit`. -/
def withdrawDeposit (source target : Pubkey) : Program Unit := do
  let sourceLamports := (← accountAt source).lamports
  failIf (sourceLamports < PAYMENT_TO_DEPOSIT) (.ofProgram .invalidArgument)
  let targetLamports := (← accountAt target).lamports
  failIf (USIZE ≤ targetLamports + PAYMENT_TO_DEPOSIT) (.ofProgram .invalidArgument)
  modify (·.setLamports source (sourceLamports - PAYMENT_TO_DEPOSIT))
  modify (·.setLamports target (targetLamports + PAYMENT_TO_DEPOSIT))

/-- `State::finalize`; the deposit goes back to the operator or is burnt. -/
def finalize (d : State) (info : AccountMeta) (deposit : Pubkey) : Program Unit := do
  withdrawDeposit info.pubkey deposit
  replaceAccount info (⟨d.owner, d.transactionHash⟩ : FinalizedState)

end State

/-! ## Passing the tests -/

omit [Platform] [Runtime] in
/-- A loop of tests passes where each of them does. -/
theorem foldl_tests_eq_ok {π ε σ β : Type} {f : β → Exec π ε σ Unit} {p : β → σ → Prop}
    (hf : ∀ b s t u, f b s = .ok u t ↔ p b s ∧ s = t) {bs : List β} {s t : σ} {u : Unit} :
    foldl (fun _ => f) () bs s = .ok u t ↔ (∀ b ∈ bs, p b s) ∧ s = t := by
  induction bs with
  | nil => simp [foldl]
  | cons b bs ih =>
    rw [foldl, bind_eq_ok, List.forall_mem_cons, and_assoc, ← ih]
    constructor
    · rintro ⟨_, v, hb, hbs⟩
      obtain ⟨hp, rfl⟩ := (hf _ _ _ _).1 hb
      exact ⟨hp, hbs⟩
    · rintro ⟨hp, hbs⟩
      exact ⟨(), s, (hf _ _ _ _).2 ⟨hp, rfl⟩, hbs⟩

/-- An account is as the list has it. -/
structure BlockedAccountMeta.Fits (L : Ledger) (isCancelling : Bool) (blocked : BlockedAccountMeta)
    (info : AccountMeta) : Prop where
  key : blocked.key = info.pubkey
  isWritable : blocked.isWritable = true → info.isWritable = true
  fresh : isCancelling = false → blocked.exists_ = false → L.accountExists blocked.key = false

variable {L L' : Ledger} {u : Unit} {isCancelling : Bool} {blocked : BlockedAccountMeta}
  {info : AccountMeta} {d : State} {rest : Bytes} {infos : List AccountMeta}
  {accounts : BlockedAccounts}

omit [Platform] in
theorem checkBlockedAccount_eq_ok :
    checkBlockedAccount isCancelling blocked info L = .ok u L' ↔
      blocked.Fits L isCancelling info ∧ L = L' := by
  simp only [checkBlockedAccount, bind_eq_ok, get_eq_ok, failIf_eq_ok]
  constructor
  · rintro ⟨_, _, ⟨hkey, rfl⟩, _, _, ⟨hwritable, rfl⟩, _, _, ⟨rfl, rfl⟩, hfresh, rfl⟩
    have hkey : blocked.key = info.pubkey := by simpa using hkey
    refine ⟨⟨hkey, ?_, ?_⟩, rfl⟩
    · simpa using hwritable
    · intro hcancel hexists
      rw [hkey]
      simpa [hcancel, hexists] using hfresh
  · rintro ⟨h, rfl⟩
    refine ⟨(), L, ⟨by simpa using h.key, rfl⟩, (), L, ⟨by simpa using h.isWritable, rfl⟩, L, L,
      ⟨rfl, rfl⟩, ?_, rfl⟩
    have hfresh := h.fresh
    rw [h.key] at hfresh
    cases isCancelling
    · simpa using hfresh
    · rfl

omit [Platform] in
/-- **The accounts are checked** against the list, one by one. -/
theorem checkBlockedAccounts_eq_ok :
    checkBlockedAccounts d rest infos isCancelling L = .ok accounts L' ↔
      d.readBlockedAccounts rest () = .ok accounts () ∧
        List.Forall₂ (BlockedAccountMeta.Fits L isCancelling) accounts infos ∧ L = L' := by
  have htests (bs : List (BlockedAccountMeta × AccountMeta)) (L L' : Ledger) (u : Unit) :
      foldl (fun _ e => checkBlockedAccount isCancelling e.1 e.2) () bs L = .ok u L' ↔
        (∀ e ∈ bs, e.1.Fits L isCancelling e.2) ∧ L = L' :=
    foldl_tests_eq_ok (f := fun e : BlockedAccountMeta × AccountMeta =>
      checkBlockedAccount isCancelling e.1 e.2) fun _ _ _ _ => checkBlockedAccount_eq_ok
  simp only [checkBlockedAccounts, bind_eq_ok, lift_eq_ok, failIf_eq_ok, pure_eq_ok, htests]
  rw [List.forall₂_iff_zip]
  constructor
  · rintro ⟨_, _, ⟨hread, rfl⟩, _, _, ⟨hlen, rfl⟩, _, _, ⟨hall, rfl⟩, rfl, rfl⟩
    exact ⟨hread, ⟨by simpa using hlen, fun {b i} h => hall (b, i) h⟩, rfl⟩
  · rintro ⟨hread, ⟨hlen, hall⟩, rfl⟩
    exact ⟨accounts, L, ⟨hread, rfl⟩, (), L, ⟨by simpa using hlen, rfl⟩, (), L,
      ⟨fun e h => hall h, rfl⟩, rfl, rfl⟩

end NeonEvm
