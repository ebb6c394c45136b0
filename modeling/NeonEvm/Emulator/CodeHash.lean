import NeonEvm.Emulator.Storage
import NeonEvm.Evm.NoTrace

/-!
# Emulator/CodeHash — which hash `EXTCODEHASH` finds

    no account (nonce 0, balance 0, no code)   0
    any other                                  the hash of its code

Both backends keep to this for the accounts that are stored.  The executor looks for a code in the
journal and asks the backend else: an account that begins to exist in the journal, or ends there, is
answered as it is stored.
-/

namespace NeonEvm

open Exec ExecutorState

/-! ## What the hash is to be -/

/-- An account that does not exist. -/
def NoAccount (nonce : ℕ) (balance : U256) (code : Bytes) : Prop :=
  nonce = 0 ∧ balance = 0 ∧ code = []

instance (nonce : ℕ) (balance : U256) (code : Bytes) : Decidable (NoAccount nonce balance code) :=
  inferInstanceAs (Decidable (_ ∧ _ ∧ _))

/-- **The hash is zero if and only if there is no account**, and otherwise that of the code.  A code
that hashes to zero could not be told from no account. -/
structure HashAgrees [Platform] (hash : U256) (nonce : ℕ) (balance : U256) (code : Bytes) : Prop where
  zero_iff : keccak code ≠ 0 → (hash = 0 ↔ NoAccount nonce balance code)
  hash : ¬NoAccount nonce balance code → hash = keccak code

/-- The two backends of the executor. -/
inductive AccountStorage.Backed [Platform] [Runtime] : AccountStorage → Prop
  | program (S : ProgramAccountStorage) : Backed S.backend
  | emulator (E : EmulatorAccountStorage) : Backed E.backend

/-! ## What the journal makes of an account -/

/-- What an action brings to the balance of an address. -/
def Action.brings (a : Address) : Action → ℕ
  | .neonTransfer _ target value => if a = target then value.toNat else 0
  | _ => 0

/-- What an action takes from the balance of an address. -/
def Action.takes (a : Address) : Action → ℕ
  | .neonTransfer source _ value | .neonWithdraw source value => if a = source then value.toNat else 0
  | _ => 0

/-- **An account that has been touched**: its nonce is counted, or its balance is not zero, where `n`
and `b` are the stored ones. -/
def Touched (a : Address) (n : ℕ) (b : U256) (actions : List Action) : Prop :=
  n ≠ 0 ∨ .evmIncrementNonce a ∈ actions ∨
    b.toNat + (actions.map (Action.brings a)).sum ≠ (actions.map (Action.takes a)).sum

/-- **Where the hash agrees**: if the journal gives a code to the address, that code is not empty or
the account is touched; if it gives none, the stored code is not empty, or the account is touched
just where it was stored with a nonce or a balance. -/
def HashKnown (B : AccountStorage) (a : Address) (n : ℕ) (b : U256) (actions : List Action) : Prop :=
  match Overlay.code a actions with
  | some code => code.toList ≠ [] ∨ Touched a n b actions
  | none => (∃ code, B.code a = some code ∧ code.toList ≠ []) ∨
    (Touched a n b actions ↔ n ≠ 0 ∨ b ≠ 0)

section

variable {B : AccountStorage} {a : Address} {n m : ℕ} {b c e : U256} {actions : List Action}

theorem nonceStep_ok {x : Action} (h : Overlay.nonceStep a n x = .ok m) :
    m = 0 ↔ n = 0 ∧ x ≠ .evmIncrementNonce a := by
  unfold Overlay.nonceStep at h
  split at h
  · split_ifs at h with ha hmax
    · obtain rfl := Except.ok.inj h
      simp [ha]
    · obtain rfl := Except.ok.inj h
      simp [Ne.symm ha]
  · obtain rfl := Except.ok.inj h
    simp_all

/-- **A nonce is zero** if it was stored as zero and is not counted. -/
theorem nonce_eq_zero_iff (h : Overlay.nonce a n actions = .ok m) :
    m = 0 ↔ n = 0 ∧ .evmIncrementNonce a ∉ actions := by
  induction actions generalizing n with
  | nil =>
    obtain rfl : n = m := Except.ok.inj h
    simp
  | cons x actions ih =>
    rw [Overlay.nonce, List.foldlM_cons] at h
    obtain ⟨r, hx, hrest⟩ := except_bind_eq_ok.1 h
    rw [ih hrest, nonceStep_ok hx, List.mem_cons, not_or, and_assoc]
    exact and_congr_right fun _ => and_congr_left fun _ => ne_comm

theorem checkedSub_ok (h : Overlay.checkedSubU256 b c = .ok e) : e.toNat + c.toNat = b.toNat := by
  unfold Overlay.checkedSubU256 at h
  split_ifs at h with hle
  obtain rfl := Except.ok.inj h
  rw [BitVec.toNat_sub_of_le hle]
  exact Nat.sub_add_cancel hle

theorem checkedAdd_ok (h : Overlay.checkedAddU256 b c = .ok e) : e.toNat = b.toNat + c.toNat := by
  unfold Overlay.checkedAddU256 at h
  split_ifs at h with hlt
  obtain rfl := Except.ok.inj h
  rw [BitVec.toNat_add, Nat.mod_eq_of_lt hlt]

theorem balanceStep_ok {x : Action} (h : Overlay.balanceStep a b x = .ok c) :
    c.toNat + x.takes a = b.toNat + x.brings a := by
  cases x with
  | neonTransfer source target value =>
    have hbind : ((if a = source then Overlay.checkedSubU256 b value else .ok b) >>= fun r =>
        if a = target then Overlay.checkedAddU256 r value else .ok r) = .ok c := by
      rw [← h]
      unfold Overlay.balanceStep
      dsimp only
      split_ifs <;> rfl
    obtain ⟨r, hr, h⟩ := except_bind_eq_ok.1 hbind
    have htaken : r.toNat + (if a = source then value.toNat else 0) = b.toNat := by
      split_ifs at hr ⊢
      · exact checkedSub_ok hr
      · rw [← Except.ok.inj hr]
        rfl
    have hbrought : c.toNat = r.toNat + if a = target then value.toNat else 0 := by
      split_ifs at h ⊢
      · exact checkedAdd_ok h
      · rw [← Except.ok.inj h]
        rfl
    rw [hbrought, ← htaken, Action.takes, Action.brings]
    omega
  | neonWithdraw source value =>
    change (if a = source then _ else _) = _ at h
    change c.toNat + (if a = source then value.toNat else 0) = b.toNat + 0
    split_ifs at h ⊢
    · exact checkedSub_ok h
    · rw [← Except.ok.inj h]
  | _ =>
    obtain rfl : b = c := Except.ok.inj h
    rfl

/-- **A balance** is what was stored, and what was brought and taken since. -/
theorem balance_sum (h : Overlay.balance a b actions = .ok c) :
    c.toNat + (actions.map (Action.takes a)).sum = b.toNat + (actions.map (Action.brings a)).sum := by
  induction actions generalizing b with
  | nil =>
    obtain rfl : b = c := Except.ok.inj h
    rfl
  | cons x actions ih =>
    rw [Overlay.balance, List.foldlM_cons] at h
    obtain ⟨r, hx, hrest⟩ := except_bind_eq_ok.1 h
    have hstep := balanceStep_ok hx
    have hsum := ih hrest
    rw [List.map_cons, List.map_cons, List.sum_cons, List.sum_cons]
    omega

/-- **An account has no nonce and no balance** in the journal if it is not touched there. -/
theorem touched_iff (hn : Overlay.nonce a n actions = .ok m) (hb : Overlay.balance a b actions = .ok c) :
    Touched a n b actions ↔ m ≠ 0 ∨ c ≠ 0 := by
  have hsum := balance_sum hb
  have hzero : c = 0 ↔ c.toNat = 0 := (BitVec.toNat_inj (y := 0)).symm
  have hc : c ≠ 0 ↔
      b.toNat + (actions.map (Action.brings a)).sum ≠ (actions.map (Action.takes a)).sum := by
    rw [Ne, hzero]
    omega
  have hm := nonce_eq_zero_iff hn
  rw [Touched, ← hc]
  tauto

/-! ## The backends -/

variable [Platform] [Runtime] {code : Buffer} {h : U256}

omit [Platform] [Runtime] in
/-- The code of a contract is not empty. -/
theorem EthereumAccount.code_ne_nil {d : EthereumAccount} {rest bytes : Bytes}
    (h : d.code rest = some bytes) (hsize : d.codeSize ≠ 0) : bytes ≠ [] := by
  unfold EthereumAccount.code EthereumAccount.extensionPart at h
  split_ifs at h with hlen
  obtain rfl := Option.some.inj h
  refine List.ne_nil_of_length_pos ?_
  rw [List.length_take, List.length_drop]
  omega

omit [Platform] [Runtime] in
/-- Code or no code. -/
theorem noAccount_iff {code : Bytes} : NoAccount n b code ↔ (n = 0 ∧ b = 0) ∧ code = [] := by
  rw [NoAccount, and_assoc]

theorem ProgramAccountStorage.codeHash_eq {S : ProgramAccountStorage} (hn : S.nonce a = some n)
    (hb : S.balance a = some b) (hc : S.code a = some code) (hh : S.codeHash a = some h) :
    h = if NoAccount n b code.toList then 0 else keccak code.toList := by
  unfold nonce mapAccount at hn
  unfold balance mapAccount at hb
  unfold ProgramAccountStorage.code at hc
  unfold ProgramAccountStorage.codeHash codeSize nonce balance mapAccount at hh
  rcases ha : S.ethereumAccount a with _ | _ | ⟨key, d, rest⟩ <;> rw [ha] at hn hb hc hh
  · cases hn
  · obtain rfl := Option.some.inj hn
    obtain rfl := Option.some.inj hb
    obtain rfl := Option.some.inj hc
    obtain rfl := Option.some.inj hh
    rfl
  · obtain rfl : d.trxCount = n := Option.some.inj hn
    obtain rfl : d.balance = b := Option.some.inj hb
    change (if d.codeSize = 0 then some Buffer.empty
      else (d.code rest).map (.account key d.codeLocation)) = _ at hc
    change (if d.codeSize = 0 then
      if d.trxCount = 0 && d.balance = 0 then some 0 else some (keccak [])
      else (d.code rest).map keccak) = _ at hh
    by_cases hsize : d.codeSize = 0
    · rw [if_pos hsize] at hc hh
      obtain rfl := Option.some.inj hc
      simp only [noAccount_iff, Buffer.toList, and_true]
      simp only [Bool.and_eq_true, decide_eq_true_eq] at hh
      split_ifs at hh ⊢ <;> exact (Option.some.inj hh).symm
    · rw [if_neg hsize, Option.map_eq_some_iff] at hc hh
      obtain ⟨bytes, hbytes, rfl⟩ := hc
      obtain ⟨bytes', hbytes', rfl⟩ := hh
      obtain rfl := Option.some.inj (hbytes.symm.trans hbytes')
      exact (if_neg fun hnone => EthereumAccount.code_ne_nil hbytes hsize hnone.2.2).symm

omit [Platform] [Runtime] in
/-- An override that changes an account stops every read of its header. -/
theorem AccountOverride.apply_of_clean {o : AccountOverride} {d : EthereumAccount}
    (h : ¬o.dirties = true) : o.apply d = d ∧ o.code = none := by
  rcases o with ⟨_ | _, _ | _, _ | _, state, stateDiff⟩ <;> simp_all [dirties, apply]

/-- **The emulator reads** an account as it is stored, where it reads it at all. -/
theorem EmulatorAccountStorage.ethereumAccountMapOr_eq_some {E : EmulatorAccountStorage} {α : Type}
    {default v : α} {f : Handle EthereumAccount → α}
    (h : E.ethereumAccountMapOr a default f = some v) :
    (E.open? a).elim default f = v ∧
      ∀ account, E.open? a = some account → (E.stateOverrides a).bind (·.code) = none := by
  unfold ethereumAccountMapOr at h
  cases ha : E.open? a with
  | none =>
    rw [ha] at h
    refine ⟨Option.some.inj h, fun account hopen => ?_⟩
    cases hopen
  | some account =>
    rw [ha] at h
    dsimp only at h
    cases ho : E.stateOverrides a with
    | none =>
      rw [ho] at h
      exact ⟨Option.some.inj h, fun _ _ => rfl⟩
    | some o =>
      rw [ho] at h
      dsimp only at h
      split_ifs at h with hdirty
      obtain ⟨happly, hcode⟩ := AccountOverride.apply_of_clean (d := account.data) hdirty
      rw [happly] at h
      exact ⟨Option.some.inj h, fun _ _ => hcode⟩

theorem EmulatorAccountStorage.codeHash_eq {E : EmulatorAccountStorage} (hn : E.nonce a = some n)
    (hb : E.balance a = some b) (hc : E.code a = some code) (hh : E.codeHash a = some h) :
    h = if NoAccount n b code.toList then 0 else keccak code.toList := by
  obtain ⟨hn, hcode⟩ := ethereumAccountMapOr_eq_some hn
  have hb := (ethereumAccountMapOr_eq_some hb).1
  unfold EmulatorAccountStorage.code ethereumContractMapOr at hc
  unfold EmulatorAccountStorage.codeHash at hh
  obtain ⟨absent, habsent, hh⟩ := Option.bind_eq_some_iff.1 hh
  have habsent := (ethereumAccountMapOr_eq_some habsent).1
  unfold ethereumContractMapOr at hh
  rcases ha : E.open? a with _ | ⟨key, d, rest⟩
  · rw [ha] at hn hb hc hh habsent
    obtain rfl := hn
    obtain rfl := hb
    obtain rfl := Option.some.inj hc
    obtain rfl := habsent
    exact (Option.some.inj hh).symm
  · have hcode := hcode _ ha
    rw [ha] at hn hb hc hh habsent
    obtain rfl : d.trxCount = n := hn
    obtain rfl : d.balance = b := hb
    have habsent : absent = true ↔ (d.trxCount = 0 ∧ d.balance = 0) ∧ d.codeSize = 0 := by
      rw [← habsent]
      simp
    dsimp only at hc hh
    rw [hcode] at hc
    unfold EthereumAccount.isContract at hc hh
    by_cases hsize : d.codeSize = 0
    · have hcontract : ¬decide (d.codeSize ≠ 0) = true := by simpa using hsize
      rw [if_neg hcontract] at hc
      rw [if_neg hcontract] at hh
      obtain rfl := Option.some.inj hc
      simp only [habsent, hsize, and_true] at hh
      simp only [noAccount_iff, Buffer.toList, and_true]
      split_ifs at hh ⊢ <;> exact (Option.some.inj hh).symm
    · rw [if_pos (by simpa using hsize), Option.map_eq_some_iff] at hc
      rw [if_neg fun h => hsize (habsent.1 h).2, if_pos (by simpa using hsize),
        Option.map_eq_some_iff] at hh
      obtain ⟨bytes, hbytes, rfl⟩ := hc
      obtain ⟨bytes', hbytes', rfl⟩ := hh
      obtain rfl := Option.some.inj (hbytes.symm.trans hbytes')
      have hexists : ¬NoAccount d.trxCount d.balance (Buffer.fromSlice bytes).toList := by
        rw [Buffer.toList_fromSlice]
        rintro ⟨-, -, hnil⟩
        exact EthereumAccount.code_ne_nil hbytes hsize hnil
      rw [if_neg hexists, Buffer.toList_fromSlice]

/-- **The hash of a stored account** is zero if there is none, and that of its code otherwise. -/
theorem AccountStorage.Backed.codeHash (hB : B.Backed) (hn : B.nonce a = some n)
    (hb : B.balance a = some b) (hc : B.code a = some code) (hh : B.codeHash a = some h) :
    h = if NoAccount n b code.toList then 0 else keccak code.toList := by
  cases hB with
  | program S => exact S.codeHash_eq hn hb hc hh
  | emulator E => exact E.codeHash_eq hn hb hc hh

/-! ## The executor -/

omit [Platform] [Runtime] in
theorem ExecutorState.nonce_ok {d t : Database} (h : ExecutorState.nonce B a d = .ok n t) :
    ∃ n₀, B.nonce a = some n₀ ∧ Overlay.nonce a n₀ d.actions = .ok n := by
  obtain ⟨n₀, s, hread, h⟩ := bind_eq_ok.1 h
  obtain ⟨hn₀, rfl⟩ := ofOption_eq_ok.1 hread
  obtain ⟨actions, s, hget, h⟩ := bind_eq_ok.1 h
  obtain ⟨rfl, rfl⟩ := gets_eq_ok.1 hget
  exact ⟨n₀, hn₀, (ofExcept_eq_ok.1 h).1⟩

omit [Platform] [Runtime] in
theorem ExecutorState.balance_ok {d t : Database} (h : ExecutorState.balance B a d = .ok b t) :
    ∃ b₀, B.balance a = some b₀ ∧ Overlay.balance a b₀ d.actions = .ok b := by
  obtain ⟨b₀, s, hread, h⟩ := bind_eq_ok.1 h
  obtain ⟨hb₀, rfl⟩ := ofOption_eq_ok.1 hread
  obtain ⟨actions, s, hget, h⟩ := bind_eq_ok.1 h
  obtain ⟨rfl, rfl⟩ := gets_eq_ok.1 hget
  exact ⟨b₀, hb₀, (ofExcept_eq_ok.1 h).1⟩

omit [Runtime] in
/-- **The code and its hash** come from the journal, or else both from what is stored. -/
theorem ExecutorState.codeHash_ok {d t t' : Database} (hc : ExecutorState.code B a d = .ok code t)
    (hh : ExecutorState.codeHash B a d = .ok h t') :
    Overlay.code a d.actions = some code ∧ h = keccak code.toList ∨
      Overlay.code a d.actions = none ∧ B.code a = some code ∧ B.codeHash a = some h := by
  obtain ⟨actions, s, hget, hc⟩ := bind_eq_ok.1 hc
  obtain ⟨rfl, rfl⟩ := gets_eq_ok.1 hget
  obtain ⟨actions, s, hget, hh⟩ := bind_eq_ok.1 hh
  obtain ⟨rfl, rfl⟩ := gets_eq_ok.1 hget
  cases ho : Overlay.code a d.actions with
  | some stored =>
    rw [ho] at hc hh
    obtain ⟨rfl, -⟩ := pure_eq_ok.1 hc
    exact .inl ⟨rfl, (pure_eq_ok.1 hh).1.symm⟩
  | none =>
    rw [ho] at hc hh
    exact .inr ⟨rfl, (ofOption_eq_ok.1 hc).1, (ofOption_eq_ok.1 hh).1⟩

omit [Runtime] in
/-- The hash of a code that is not empty agrees with any account. -/
theorem hashAgrees_of_code {c : Bytes} (hc : c ≠ []) : HashAgrees (keccak c) n b c :=
  ⟨fun hk => iff_of_false hk fun hnone => hc hnone.2.2, fun _ => rfl⟩

/-- **The hash of an account** is zero just where the account does not exist, and that of its code
otherwise, if and only if it is known where the account begins. -/
theorem codehash_agrees_where_known {d t u v w : Database} {n₀ : ℕ} {b₀ : U256} (hB : B.Backed)
    (hempty : keccak [] ≠ 0) (hn₀ : B.nonce a = some n₀) (hb₀ : B.balance a = some b₀)
    (hn : ExecutorState.nonce B a d = .ok n t) (hb : ExecutorState.balance B a d = .ok b u)
    (hc : ExecutorState.code B a d = .ok code v) (hh : ExecutorState.codeHash B a d = .ok h w) :
    HashAgrees h n b code.toList ↔ HashKnown B a n₀ b₀ d.actions := by
  obtain ⟨n', hn', hnonce⟩ := ExecutorState.nonce_ok hn
  obtain ⟨b', hb', hbalance⟩ := ExecutorState.balance_ok hb
  obtain rfl := Option.some.inj (hn'.symm.trans hn₀)
  obtain rfl := Option.some.inj (hb'.symm.trans hb₀)
  have htouched := touched_iff hnonce hbalance
  rcases ExecutorState.codeHash_ok hc hh with ⟨ho, rfl⟩ | ⟨ho, hcode, hhash⟩
  · unfold HashKnown
    rw [ho]
    dsimp only
    by_cases hnil : code.toList = []
    · rw [hnil, htouched]
      refine ⟨fun hagrees => .inr ?_, fun hknown => ⟨fun _ => iff_of_false hempty ?_, fun _ => rfl⟩⟩
      · by_contra hzero
        rw [not_or, not_not, not_not] at hzero
        exact hempty ((hagrees.zero_iff hempty).2 ⟨hzero.1, hzero.2, rfl⟩)
      · rintro ⟨rfl, rfl, -⟩
        simp at hknown
    · exact iff_of_true (hashAgrees_of_code hnil) (.inl hnil)
  · unfold HashKnown
    rw [ho, htouched]
    dsimp only
    have hstored := hB.codeHash hn₀ hb₀ hcode hhash
    by_cases hnil : code.toList = []
    · have hnone : ¬∃ c, B.code a = some c ∧ c.toList ≠ [] := by
        rintro ⟨c, hc, hne⟩
        obtain rfl := Option.some.inj (hcode.symm.trans hc)
        exact hne hnil
      simp only [hnil, noAccount_iff, and_true] at hstored
      rw [hnil, or_iff_right hnone]
      refine ⟨fun hagrees => ?_, fun hknown => ⟨fun _ => ?_, fun hexists => ?_⟩⟩
      · have hzero := hagrees.zero_iff hempty
        rw [noAccount_iff, and_iff_left rfl, hstored, ite_eq_left_iff, imp_iff_not hempty,
          not_not] at hzero
        rw [← not_and_or, ← not_and_or, hzero]
      · rw [← not_and_or, ← not_and_or, not_iff_not] at hknown
        rw [noAccount_iff, and_iff_left rfl, hstored, ite_eq_left_iff, imp_iff_not hempty,
          not_not, hknown]
      · rw [noAccount_iff, and_iff_left rfl] at hexists
        rw [← not_and_or, ← not_and_or, not_iff_not] at hknown
        rw [hstored, if_neg fun hzero => hexists (hknown.2 hzero)]
    · rw [if_neg fun hnone => hnil hnone.2.2] at hstored
      rw [hstored]
      exact iff_of_true (hashAgrees_of_code hnil) (.inl ⟨code, hcode, hnil⟩)

end

/-! ## Two accounts -/

/-- A platform with the hash of no bytes, whose derived keys are told apart by their seeds. -/
@[reducible] def Platform.seeded : Platform :=
  { Platform.bare with
    keccak := fun _ => 0xc5d2460186f7233c927e7db2dcc703c0e500b653ca82273b7bfad8045d85a470
    findProgramAddress := fun seeds _ => (BitVec.ofNat 256 (ofBeBytes seeds.flatten), 255) }

/-- A chain on which one account is stored. -/
def Ledger.one [Platform] [Runtime] (account : EthereumAccount) : Ledger := fun key =>
  if key = (account.address.findSolanaAddress programId).1 then
    ⟨10 ^ 9, programId, .ethereum account [], false, 0⟩
  else ⟨0, Platform.systemProgramId, .raw [], false, 0⟩

/-- The emulator on a chain, without overrides. -/
def EmulatorAccountStorage.on [Runtime] (ledger : Ledger) : EmulatorAccountStorage where
  ledger
  blockNumber := 1
  blockTimestamp := 1
  neonTokenMint := Runtime.neonTokenMint
  chainId := Runtime.chainId
  stateOverrides := fun _ => none

/-- A stored account with a nonce is found after it is paid. -/
theorem codehash_agrees_where_known_stored : ∃ (_ : Platform) (_ : Runtime) (B : AccountStorage)
    (d t u v w : Database) (n : ℕ) (b : U256) (code : Buffer) (h : U256), B.Backed ∧
      d.actions = [.neonTransfer 0x300 0x200 5] ∧ ExecutorState.nonce B 0x200 d = .ok n t ∧
      ExecutorState.balance B 0x200 d = .ok b u ∧ ExecutorState.code B 0x200 d = .ok code v ∧
      ExecutorState.codeHash B 0x200 d = .ok h w ∧ HashAgrees h n b code.toList := by
  let _ := Platform.seeded
  let _ := Runtime.bare
  let E := EmulatorAccountStorage.on (.one { EthereumAccount.new 0x200 255 with trxCount := 1 })
  let d : Database :=
    { (ExecutorState.new E.backend).toDatabase with actions := [.neonTransfer 0x300 0x200 5] }
  have hknown : HashKnown E.backend 0x200 1 0 d.actions :=
    .inr (iff_of_true (.inl one_ne_zero) (.inl one_ne_zero))
  have htest : (ExecutorState.nonce E.backend 0x200 d).okAnd fun _ _ =>
      (ExecutorState.balance E.backend 0x200 d).okAnd fun _ _ =>
      (ExecutorState.code E.backend 0x200 d).okAnd fun _ _ =>
      (ExecutorState.codeHash E.backend 0x200 d).okAnd fun _ _ => true := by
    decide +kernel
  obtain ⟨n, t, hn, htest⟩ := Outcome.exists_of_okAnd htest
  obtain ⟨b, u, hb, htest⟩ := Outcome.exists_of_okAnd htest
  obtain ⟨c, v, hc, htest⟩ := Outcome.exists_of_okAnd htest
  obtain ⟨h, w, hh, -⟩ := Outcome.exists_of_okAnd htest
  have hstored : E.backend.nonce 0x200 = some 1 ∧ E.backend.balance 0x200 = some 0 := by
    decide +kernel
  exact ⟨_, _, E.backend, d, t, u, v, w, n, b, c, h, .emulator E, rfl, hn, hb, hc, hh,
    (codehash_agrees_where_known (.emulator E) (by decide) hstored.1 hstored.2 hn hb hc hh).2
      hknown⟩

set_option maxRecDepth 10000 in
/-- Once paid, an account that was not stored has a balance, and the hash of none. -/
theorem paid_account_hashes_to_zero : ∃ (_ : Platform) (_ : Runtime) (B : AccountStorage)
    (x : Session) (s : Evm) (t u v w : Database) (n : ℕ) (b : U256) (code : Buffer) (h : U256),
      B.Backed ∧ keccak [] ≠ 0 ∧ isPrecompileExtension 0x200 = false ∧ Session.Reached B x ∧
      x.progress.current = some s ∧
      ExecutorState.nonce B 0x200 s.backend.toDatabase = .ok n t ∧
      ExecutorState.balance B 0x200 s.backend.toDatabase = .ok b u ∧
      ExecutorState.code B 0x200 s.backend.toDatabase = .ok code v ∧
      ExecutorState.codeHash B 0x200 s.backend.toDatabase = .ok h w ∧
      ¬HashAgrees h n b code.toList := by
  let _ := Platform.seeded
  let _ := Runtime.bare
  let E := EmulatorAccountStorage.on (.one { EthereumAccount.new 0x999 255 with balance := 9 })
  let trx : Transaction :=
    { Transaction.callOf 0x200 with
      transaction := .legacy ⟨0, 0, 0, some 0x200, 5, .empty, 0, 0, 0, none, 0⟩ }
  have htest : (Machine.new E.backend trx 0x999 (ExecutorState.new E.backend)).okAnd fun m b =>
      (Session.enter ⟨m.frame, m.parents, b, none⟩).progress.current.any fun s =>
      (ExecutorState.nonce E.backend 0x200 s.backend.toDatabase).okAnd fun n _ =>
      (ExecutorState.balance E.backend 0x200 s.backend.toDatabase).okAnd fun v _ =>
      (ExecutorState.code E.backend 0x200 s.backend.toDatabase).okAnd fun c _ =>
      (ExecutorState.codeHash E.backend 0x200 s.backend.toDatabase).okAnd fun h _ =>
        h = 0 && !decide (NoAccount n v c.toList) := by
    decide +kernel
  obtain ⟨m, d, hnew, htest⟩ := Outcome.exists_of_okAnd htest
  obtain ⟨s, hs, htest⟩ := (Option.any_eq_true _ _).1 htest
  obtain ⟨n, t, hn, htest⟩ := Outcome.exists_of_okAnd htest
  obtain ⟨b, u, hb, htest⟩ := Outcome.exists_of_okAnd htest
  obtain ⟨c, v, hc, htest⟩ := Outcome.exists_of_okAnd htest
  obtain ⟨h, w, hh, htest⟩ := Outcome.exists_of_okAnd htest
  rw [Bool.and_eq_true, decide_eq_true_eq, Bool.not_eq_true', decide_eq_false_iff_not] at htest
  obtain ⟨rfl, hexists⟩ := htest
  have hempty : keccak [] ≠ 0 := by decide
  exact ⟨_, _, E.backend, _, s, t, u, v, w, n, b, c, 0, .emulator E, hempty, by decide,
    ⟨_, _, _, ⟨m, d, none, hnew, rfl⟩, .refl⟩, hs, hn, hb, hc, hh,
    fun hagrees => hempty (hagrees.hash hexists).symm⟩

end NeonEvm
