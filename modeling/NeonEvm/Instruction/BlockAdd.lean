import NeonEvm.Account.Locks
import NeonEvm.AccountStorage.History

/-!
# Instruction/BlockAdd — a transaction under way locks more accounts

    list ++ new accounts        the saved execution moved behind the longer list

The list of the state grows by the accounts that it does not name yet; those that are there are
locked.  The execution that was saved is the same one afterwards.
-/

namespace NeonEvm

open Exec Packable

/-- `TRANSACTION_LEVEL_STACK_HEIGHT`. -/
def TRANSACTION_LEVEL_STACK_HEIGHT : ℕ := 1

variable [Platform] [Runtime] [Config]

/-- One account, in the loop of `account_block_add::process`; the set of keys is that of the list. -/
def blockAccount (blocked : BlockedAccounts) (info : AccountMeta) : Program BlockedAccounts := do
  if info.pubkey ∈ blocked.map (·.key) then pure blocked
  else
    match ← tryOpen EthereumAccount info.pubkey with
    | none => pure (blocked ++ [⟨info.pubkey, false, info.isWritable⟩])
    | some (d, rest) => do
      failIf d.rwBlocked (.ofProgram .invalidAccountData)
      assertThat info.isWritable .assertion
      modify (·.setContent info.pubkey (.ethereum (d.locked true) rest))
      pure (blocked ++ [⟨info.pubkey, true, info.isWritable⟩])

/-- `account_block_add::process`. -/
def accountBlockAdd (stackHeight : ℕ) (accounts : List AccountMeta) : Program Unit := do
  assertThat (stackHeight = TRANSACTION_LEVEL_STACK_HEIGHT) .assertion
  let info ← ofOption .index accounts[0]?
  let (state, rest) ← openAccount State info.pubkey
  let operator ← operatorFromAccount (← ofOption .index accounts[1]?)
  failIf (state.owner ≠ operator) (.holderInvalidOwner state.owner operator)
  let blocked ← lift (state.readBlockedAccounts rest)
  let blocked ← foldl blockAccount blocked (accounts.drop 2)
  let (state, rest) ← lift (state.updateBlockedAccounts rest blocked)
  assertThat info.isWritable .assertion
  modify (·.setContent info.pubkey (.state state rest))

/-! ## The accounts that are new -/

namespace Ledger

/-- A blocked account, as it is found. -/
def blockedMeta (L : Ledger) (info : AccountMeta) : BlockedAccountMeta :=
  ⟨info.pubkey, (L.held EthereumAccount info.pubkey).isSome, info.isWritable⟩

/-- The accounts under new keys, in order, each as it is first named. -/
def newlyBlocked (L : Ledger) : List Pubkey → List AccountMeta → BlockedAccounts
  | _, [] => []
  | keys, info :: infos =>
    if info.pubkey ∈ keys then L.newlyBlocked keys infos
    else L.blockedMeta info :: L.newlyBlocked (keys ++ [info.pubkey]) infos

variable {L L' : Ledger} {keys : List Pubkey}

omit [Platform] [Config] in
/-- **One list after another.** -/
theorem newlyBlocked_append (infos infos' : List AccountMeta) :
    L.newlyBlocked keys (infos ++ infos') =
      L.newlyBlocked keys infos ++
        L.newlyBlocked (keys ++ (L.newlyBlocked keys infos).map (·.key)) infos' := by
  induction infos generalizing keys with
  | nil => rw [newlyBlocked, List.map_nil, List.append_nil, List.nil_append, List.nil_append]
  | cons info infos ih =>
    rw [List.cons_append, newlyBlocked, newlyBlocked]
    split_ifs with h
    · exact ih
    · rw [ih, List.map_cons, List.append_assoc]
      rfl

omit [Platform] [Config] in
/-- The list depends on which accounts are there, and on nothing else of them. -/
theorem newlyBlocked_congr
    (h : ∀ k, (L'.held EthereumAccount k).isSome = (L.held EthereumAccount k).isSome)
    (infos : List AccountMeta) : L'.newlyBlocked keys infos = L.newlyBlocked keys infos := by
  induction infos generalizing keys with
  | nil => rfl
  | cons info infos ih =>
    rw [newlyBlocked, newlyBlocked, ih, ih, blockedMeta, h]
    rfl

omit [Platform] [Config] in
/-- **A new account** is none of those that were named, and is as it is found. -/
theorem mem_newlyBlocked {m : BlockedAccountMeta} {infos : List AccountMeta}
    (h : m ∈ L.newlyBlocked keys infos) :
    m.key ∉ keys ∧ ∃ info ∈ infos, m = L.blockedMeta info := by
  induction infos generalizing keys with
  | nil => exact (List.not_mem_nil h).elim
  | cons info infos ih =>
    rw [newlyBlocked] at h
    split_ifs at h with hkey
    · obtain ⟨hnew, i, hi, rfl⟩ := ih h
      exact ⟨hnew, i, List.mem_cons_of_mem _ hi, rfl⟩
    · rcases List.mem_cons.1 h with rfl | h
      · exact ⟨hkey, info, List.mem_cons_self, rfl⟩
      · obtain ⟨hnew, i, hi, rfl⟩ := ih h
        exact ⟨fun hmem => hnew (List.mem_append_left _ hmem), i, List.mem_cons_of_mem _ hi, rfl⟩

end Ledger

/-! ## The loop -/

variable {L L' : Ledger} {info : AccountMeta} {blocked blocked' old : BlockedAccounts}
  {infos : List AccountMeta}

/-- An account can be locked: it is free and may be written, where it is there. -/
def Ledger.CanLock (L : Ledger) (m : BlockedAccountMeta) : Prop :=
  ∀ d rest, L.held EthereumAccount m.key = some (d, rest) →
    d.rwBlocked = false ∧ m.isWritable = true

omit [Platform] [Config] in
theorem newlyBlocked_singleton (keys : List Pubkey) (info : AccountMeta) :
    L.newlyBlocked keys [info] = if info.pubkey ∈ keys then [] else [L.blockedMeta info] := rfl

omit [Platform] [Config] in
/-- **One account**: it is on the list, or it comes to its end and is locked. -/
theorem blockAccount_ok (h : blockAccount blocked info L = .ok blocked' L') :
    blocked' = blocked ++ L.newlyBlocked (blocked.map (·.key)) [info] ∧
      (∀ m ∈ L.newlyBlocked (blocked.map (·.key)) [info], L.CanLock m) ∧
      L' = L.locking true ((L.newlyBlocked (blocked.map (·.key)) [info]).map (·.key)) := by
  rw [newlyBlocked_singleton]
  unfold blockAccount at h
  split_ifs at h with hkey
  · obtain ⟨rfl, rfl⟩ := pure_eq_ok.1 h
    rw [if_pos hkey]
    exact ⟨(List.append_nil _).symm, fun _ hm => (List.not_mem_nil hm).elim,
      Ledger.locking_nil.symm⟩
  · rw [if_neg hkey]
    simp only [bind_run, tryOpen_ethereum, Outcome.ok_andThen] at h
    rcases hheld : L.held EthereumAccount info.pubkey with _ | ⟨d, rest⟩
    · simp only [hheld] at h
      obtain ⟨rfl, rfl⟩ := pure_eq_ok.1 h
      refine ⟨by rw [Ledger.blockedMeta, hheld]; rfl, fun m hm d rest hd => ?_, ?_⟩
      · rw [List.mem_singleton.1 hm] at hd
        exact absurd (hheld.symm.trans hd) (by simp)
      · funext k
        rw [Ledger.locking]
        split_ifs with hk
        · rw [List.mem_singleton.1 hk]
          exact (Ledger.locked_of_none hheld).symm
        · rfl
    · simp only [hheld] at h
      obtain ⟨_, _, hfree, h⟩ := bind_eq_ok.1 h
      obtain ⟨hunlocked, rfl⟩ := failIf_eq_ok.1 hfree
      obtain ⟨_, _, hassert, h⟩ := bind_eq_ok.1 h
      obtain ⟨hwritable, rfl⟩ := assertThat_eq_ok.1 hassert
      obtain ⟨_, _, hmodify, h⟩ := bind_eq_ok.1 h
      obtain rfl := modify_eq_ok.1 hmodify
      obtain ⟨rfl, rfl⟩ := pure_eq_ok.1 h
      refine ⟨by rw [Ledger.blockedMeta, hheld]; rfl, fun m hm d' rest' hd => ?_, ?_⟩
      · rw [List.mem_singleton.1 hm] at hd ⊢
        obtain ⟨rfl, rfl⟩ := Prod.mk.inj (Option.some.inj (hheld.symm.trans hd))
        exact ⟨hunlocked, hwritable⟩
      · exact (Ledger.locking_singleton hheld).symm

omit [Platform] [Config] in
/-- **The loop** adds the new accounts and locks them. -/
theorem foldl_blockAccount_ok (h : foldl blockAccount old infos L = .ok blocked L') :
    blocked = old ++ L.newlyBlocked (old.map (·.key)) infos ∧
      (∀ m ∈ L.newlyBlocked (old.map (·.key)) infos, L.CanLock m) ∧
      L' = L.locking true ((L.newlyBlocked (old.map (·.key)) infos).map (·.key)) := by
  refine foldl_invariant (I := fun done blocked L₁ =>
    blocked = old ++ L.newlyBlocked (old.map (·.key)) done ∧
      (∀ m ∈ L.newlyBlocked (old.map (·.key)) done, L.CanLock m) ∧
      L₁ = L.locking true ((L.newlyBlocked (old.map (·.key)) done).map (·.key))) ?_
    ⟨(List.append_nil _).symm, fun _ hm => (List.not_mem_nil hm).elim, Ledger.locking_nil.symm⟩ h
  intro done b rest blocked L₁ blocked' L₂ _ hdone hb
  obtain ⟨rfl, hcan, rfl⟩ := hdone
  obtain ⟨rfl, hcan', rfl⟩ := blockAccount_ok hb
  have hnew : (L.locking true ((L.newlyBlocked (old.map (·.key)) done).map (·.key))).newlyBlocked
      ((old ++ L.newlyBlocked (old.map (·.key)) done).map (·.key)) [b] =
      L.newlyBlocked (old.map (·.key) ++ (L.newlyBlocked (old.map (·.key)) done).map (·.key)) [b] := by
    rw [Ledger.newlyBlocked_congr fun _ => Ledger.isSome_held_locking, List.map_append]
  rw [hnew] at hcan' ⊢
  rw [Ledger.newlyBlocked_append, List.append_assoc, List.map_append, ← Ledger.locking_locking]
  refine ⟨rfl, fun m hm => ?_, rfl⟩
  rcases List.mem_append.1 hm with hm | hm
  · exact hcan m hm
  · obtain ⟨hfresh, -⟩ := Ledger.mem_newlyBlocked hm
    intro d rest hd
    refine hcan' m hm d rest ?_
    rw [Ledger.held_ethereum_locking, hd, Option.map_some,
      if_neg fun hmem => hfresh (List.mem_append_right _ hmem)]

/-! ## The instruction -/

/-- An instruction, with its accounts. -/
structure BlockAdd where
  stackHeight : ℕ
  accounts : List AccountMeta

namespace BlockAdd

def run (a : BlockAdd) : Program Unit := accountBlockAdd a.stackHeight a.accounts

/-- The accounts to lock. -/
def named (a : BlockAdd) : List AccountMeta := a.accounts.drop 2

end BlockAdd

/-- The state under a key after its list has grown, and nothing else but locks was turned. -/
structure Ledger.Grown (L : Ledger) (key : Pubkey) (d : State) (rest : Bytes)
    (old : BlockedAccounts) (infos : List AccountMeta) (L' : Ledger) : Prop where
  state : ∃ d' rest', d' = { d with accountsLen := d'.accountsLen } ∧
    rest'.length = rest.length ∧ d'.savedEvm rest' = d.savedEvm rest ∧
    d'.readBlockedAccounts rest' () = .ok (old ++ L.newlyBlocked (old.map (·.key)) infos) () ∧
    L' = (L.locking true ((L.newlyBlocked (old.map (·.key)) infos).map (·.key))).setContent key
      (.state d' rest')
  free : ∀ m ∈ L.newlyBlocked (old.map (·.key)) infos, L.CanLock m

variable {key : Pubkey} {d : State} {rest : Bytes} {u : Unit} {a : BlockAdd}

omit [Platform] [Config] in
/-- Nothing was added. -/
theorem Ledger.Grown.refl (hheld : L.held State key = some (d, rest))
    (hold : d.readBlockedAccounts rest () = .ok old ()) : L.Grown key d rest old [] L := by
  refine ⟨⟨d, rest, rfl, rfl, rfl, ?_, ?_⟩, fun _ hm => (List.not_mem_nil hm).elim⟩
  · rw [newlyBlocked, List.append_nil]
    exact hold
  · rw [newlyBlocked, List.map_nil, locking_nil, ← (held_state.1 hheld).2, setContent_self]

omit [Platform] [Config] in
theorem Ledger.held_ethereum_of_state {e : State × Bytes} (h : L.held State key = some e) :
    L.held EthereumAccount key = none := by
  rw [held, if_pos (held_state.1 h).1, (held_state.1 h).2]
  rfl

/-- **One instruction.** -/
theorem BlockAdd.run_ok (hkey : ∀ {info}, a.accounts[0]? = some info → info.pubkey = key)
    (hheld : L.held State key = some (d, rest)) (h : a.run L = .ok u L') :
    ∃ old, d.readBlockedAccounts rest () = .ok old () ∧ L.Grown key d rest old a.named L' := by
  unfold BlockAdd.run accountBlockAdd at h
  obtain ⟨_, _, hlevel, h⟩ := bind_eq_ok.1 h
  obtain ⟨-, rfl⟩ := assertThat_eq_ok.1 hlevel
  obtain ⟨info, _, hinfo, h⟩ := bind_eq_ok.1 h
  obtain ⟨hfirst, rfl⟩ := ofOption_eq_ok.1 hinfo
  obtain rfl := hkey hfirst
  obtain ⟨⟨d₁, rest₁⟩, _, hopen, h⟩ := bind_eq_ok.1 h
  obtain ⟨rfl, hheld₁⟩ := openAccount_ok hopen
  obtain ⟨rfl, rfl⟩ := Prod.mk.inj (Option.some.inj (hheld.symm.trans hheld₁))
  obtain ⟨operatorInfo, _, hoperatorInfo, h⟩ := bind_eq_ok.1 h
  obtain ⟨-, rfl⟩ := ofOption_eq_ok.1 hoperatorInfo
  obtain ⟨operator, _, hoperator, h⟩ := bind_eq_ok.1 h
  obtain ⟨rfl, -, -⟩ := operatorFromAccount_ok hoperator
  obtain ⟨_, _, howner, h⟩ := bind_eq_ok.1 h
  obtain ⟨-, rfl⟩ := failIf_eq_ok.1 howner
  obtain ⟨old, _, hread, h⟩ := bind_eq_ok.1 h
  obtain ⟨hold, rfl⟩ := lift_eq_ok.1 hread
  obtain ⟨blocked, L₁, hloop, h⟩ := bind_eq_ok.1 h
  obtain ⟨rfl, hfree, rfl⟩ := foldl_blockAccount_ok hloop
  obtain ⟨⟨d', rest'⟩, _, hlift, h⟩ := bind_eq_ok.1 h
  obtain ⟨hupdate, rfl⟩ := lift_eq_ok.1 hlift
  obtain ⟨hd', hlen, hsaved, hread'⟩ := State.updateBlockedAccounts_ok hupdate
  obtain ⟨_, _, hassert, h⟩ := bind_eq_ok.1 h
  obtain ⟨-, rfl⟩ := assertThat_eq_ok.1 hassert
  obtain rfl := modify_eq_ok.1 h
  refine ⟨old, hold, ⟨d', rest', ?_, hlen, hsaved, hread', rfl⟩, hfree⟩
  rw [hd']

/-! ## Instructions, one after the other -/

/-- Several of them. -/
def blockAll (adds : List BlockAdd) : Program Unit := foldl (fun _ a => a.run) () adds

variable {L₁ : Ledger} {infos' : List AccountMeta} {adds : List BlockAdd}

omit [Platform] [Config] in
/-- The state is there, and so is what else was there. -/
theorem Ledger.Grown.held (h : L.Grown key d rest old infos L')
    (hheld : L.held State key = some (d, rest)) :
    ∃ d' rest', L'.held State key = some (d', rest') ∧ d' = { d with accountsLen := d'.accountsLen } ∧
      rest'.length = rest.length ∧ d'.savedEvm rest' = d.savedEvm rest ∧
      d'.readBlockedAccounts rest' () =
        .ok (old ++ L.newlyBlocked (old.map (·.key)) infos) () ∧
      (∀ k, (L'.held EthereumAccount k).isSome = (L.held EthereumAccount k).isSome) ∧
      ∀ k, L'.accountExists k = L.accountExists k := by
  obtain ⟨d', rest', hd', hlen, hsaved, hread, rfl⟩ := h.state
  obtain ⟨howner, hcontent⟩ := held_state.1 hheld
  refine ⟨d', rest', held_state.2 ⟨?_, content_setContent_self⟩, hd', hlen, hsaved, hread,
    fun k => ?_, fun k => ?_⟩
  · rw [owner_setContent, owner_locking, howner]
  · rw [held_setContent]
    split_ifs with hk
    · rw [hk, held_ethereum_of_state hheld]
      rfl
    · rw [hk, held_ethereum_of_state hheld]
    · exact isSome_held_locking
  · rw [accountExists, accountExists, owner_setContent, owner_locking, setContent_apply]
    split_ifs with hk
    · rw [hk, hcontent]
      rfl
    · rw [tag_locking]

omit [Platform] [Config] in
/-- **A list that has grown, grows on.** -/
theorem Ledger.Grown.trans (hheld : L.held State key = some (d, rest))
    (h : L.Grown key d rest old infos L₁)
    (hnext : ∀ d₁ rest₁ old₁, L₁.held State key = some (d₁, rest₁) →
      d₁.readBlockedAccounts rest₁ () = .ok old₁ () → L₁.Grown key d₁ rest₁ old₁ infos' L') :
    L.Grown key d rest old (infos ++ infos') L' := by
  obtain ⟨d₁, rest₁, hheld₁, hd₁, hlen₁, hsaved₁, hread₁, hsome, -⟩ := h.held hheld
  obtain ⟨⟨d', rest', hd', hlen, hsaved, hread, rfl⟩, hfree⟩ := hnext d₁ rest₁ _ hheld₁ hread₁
  obtain ⟨d₂, rest₂, -, -, -, -, rfl⟩ := h.state
  rw [List.map_append, newlyBlocked_congr hsome] at hread hfree ⊢
  refine ⟨⟨d', rest', ?_, hlen.trans hlen₁, hsaved.trans hsaved₁, ?_, ?_⟩, fun m hm => ?_⟩
  · rw [hd', hd₁]
  · rw [newlyBlocked_append, ← List.append_assoc]
    exact hread
  · rw [newlyBlocked_append, List.map_append, ← locking_locking]
    refine locking_setContent ?_ rfl
    rw [held_ethereum_locking, held_ethereum_of_state hheld]
    rfl
  · rw [newlyBlocked_append] at hm
    rcases List.mem_append.1 hm with hm | hm
    · exact h.free m hm
    · obtain ⟨hfresh, -⟩ := mem_newlyBlocked hm
      intro e r he
      refine hfree m hm e r ?_
      have hne : m.key ≠ key := by
        rintro hk
        rw [hk, held_ethereum_of_state hheld] at he
        cases he
      rw [held_setContent, if_neg hne, held_ethereum_locking, he, Option.map_some,
        if_neg fun hmem => hfresh (List.mem_append_right _ hmem)]

/-- **Any number of instructions** is one longer list. -/
theorem grown_of_blockAll
    (hkey : ∀ a ∈ adds, ∀ info, a.accounts[0]? = some info → info.pubkey = key)
    (hheld : L.held State key = some (d, rest))
    (hold : d.readBlockedAccounts rest () = .ok old ()) (h : blockAll adds L = .ok u L') :
    L.Grown key d rest old (adds.flatMap BlockAdd.named) L' := by
  refine foldl_invariant (I := fun done _ L₁ =>
    L.Grown key d rest old (done.flatMap BlockAdd.named) L₁) ?_ (.refl hheld hold) h
  intro done a more _ L₁ _ L₂ hsplit hdone ha
  rw [List.flatMap_append, List.flatMap_singleton]
  refine hdone.trans hheld fun d₁ rest₁ old₁ hheld₁ hread₁ => ?_
  have hmem : a ∈ adds := by
    rw [hsplit]
    exact List.mem_append_right done List.mem_cons_self
  obtain ⟨old₂, hread₂, hgrown⟩ := BlockAdd.run_ok (fun hinfo => hkey a hmem _ hinfo) hheld₁ ha
  obtain ⟨rfl, -⟩ := Outcome.ok.inj (hread₁.symm.trans hread₂)
  exact hgrown

/-! ## The next continue -/

/-- Data under the tag of an Ethereum account has its header. -/
def Ledger.Formed (L : Ledger) : Prop :=
  ∀ k, L.accountExists k = true → (L.held EthereumAccount k).isSome = true

/-- The accounts of a list, supplied as the list has them. -/
def Supplies (accounts : BlockedAccounts) (infos : List AccountMeta) : Prop :=
  List.Forall₂ (fun b i => b.key = i.pubkey ∧ (b.isWritable = true → i.isWritable = true))
    accounts infos

omit [Platform] [Config] in
/-- **The accounts pass** where none of them was made that was not there. -/
theorem passes_iff {accounts : BlockedAccounts}
    (hread : d.readBlockedAccounts rest () = .ok accounts ()) (hinfos : Supplies accounts infos) :
    (∃ r L', checkBlockedAccounts d rest infos false L = .ok r L') ↔
      ∀ b ∈ accounts, b.exists_ = false → L.accountExists b.key = false := by
  constructor
  · rintro ⟨r, L', h⟩
    obtain ⟨hread', hfits, -⟩ := checkBlockedAccounts_eq_ok.1 h
    obtain ⟨rfl, -⟩ := Outcome.ok.inj (hread.symm.trans hread')
    exact ((List.forall₂_and_left _ _).1 (hfits.imp fun b i hbi => ⟨hbi.fresh rfl, hbi⟩)).1
  · intro h
    refine ⟨accounts, L, checkBlockedAccounts_eq_ok.2 ⟨hread, ?_, rfl⟩⟩
    exact ((List.forall₂_and_left _ _).2 ⟨h, hinfos⟩).imp fun b i hbi =>
      ⟨hbi.2.1, hbi.2.2, fun _ => hbi.1⟩

/-- **More locks, the same execution** — instructions that succeed, in any number and with any
lists, leave the saved bytes and their lengths; the list is the old one, followed by the new
accounts in order; and a continue with that list passes the checks just where no account that the
old list has as missing is there. -/
theorem block_adds_keep_execution (hformed : L.Formed)
    (hkey : ∀ a ∈ adds, ∀ info, a.accounts[0]? = some info → info.pubkey = key)
    {saved : Bytes × Bytes} (hheld : L.held State key = some (d, rest))
    (hsaved : d.savedEvm rest = some saved) (h : blockAll adds L = .ok u L') :
    ∃ old d' rest', d.readBlockedAccounts rest () = .ok old () ∧
      L'.held State key = some (d', rest') ∧ d'.evmStateLen = d.evmStateLen ∧
      d'.evmMachineLen = d.evmMachineLen ∧ d'.savedEvm rest' = some saved ∧
      d'.readBlockedAccounts rest' () =
        .ok (old ++ L.newlyBlocked (old.map (·.key)) (adds.flatMap BlockAdd.named)) () ∧
      ∀ infos,
        Supplies (old ++ L.newlyBlocked (old.map (·.key)) (adds.flatMap BlockAdd.named)) infos →
          ((∃ r L₂, checkBlockedAccounts d' rest' infos false L' = .ok r L₂) ↔
            ∀ b ∈ old, b.exists_ = false → L.accountExists b.key = false) := by
  obtain ⟨old, hold⟩ := State.readBlockedAccounts_of_savedEvm hsaved
  have hgrown := grown_of_blockAll hkey hheld hold h
  obtain ⟨d', rest', hheld', hd', -, hsaved', hread', -, hexists⟩ := hgrown.held hheld
  refine ⟨old, d', rest', hold, hheld', ?_, ?_, hsaved'.trans hsaved, hread', fun infos hinfos => ?_⟩
  · rw [hd']
  · rw [hd']
  · rw [passes_iff hread' hinfos]
    simp only [hexists, List.forall_mem_append]
    refine and_iff_left fun m hm hmissing => Bool.eq_false_iff.2 fun hthere => ?_
    obtain ⟨-, info, -, rfl⟩ := Ledger.mem_newlyBlocked hm
    exact Bool.false_ne_true (hmissing.symm.trans (hformed _ hthere))

omit [Platform] [Runtime] [Config]

/-- A state with one account on its list and three bytes of execution; an Ethereum account is under
each of the keys. -/
def underWay (listed : BlockedAccountMeta) (there : List Pubkey) : Ledger := fun k =>
  if k = firstAccount.pubkey then
    ⟨10 ^ 9, 9, .state ⟨5, 0, 0, 0, 0, 0, 5, 0, 1, 2, 1⟩
      (BlockedAccountMeta.format.row [listed] ++ [1, 2, 3] ++ List.replicate 102 0), false, 0⟩
  else if k ∈ there then ⟨10 ^ 9, 9, .ethereum (.new (k.setWidth 160) 0) [], false, 0⟩
  else foreignLedger k

/-- The accounts `20` and `21`, the second of them twice. -/
def addTwo : BlockAdd := ⟨1, [firstAccount, sender, ⟨21, false, true⟩, ⟨20, false, false⟩,
  ⟨21, false, true⟩]⟩

theorem underWay_formed (listed : BlockedAccountMeta) (there : List Pubkey) :
    let _ := Runtime.bare
    (underWay listed there).Formed := by
  let _ := Runtime.bare
  show (underWay listed there).Formed
  intro k hk
  by_cases hfirst : k = firstAccount.pubkey
  · rw [hfirst] at hk
    exact absurd hk (by simp [Ledger.accountExists, underWay, Content.tag, TAG])
  · by_cases hthere : k ∈ there
    · rw [Ledger.held, underWay, if_neg hfirst, if_pos hthere]
      rfl
    · rw [Ledger.accountExists, underWay, if_neg hfirst, if_neg hthere] at hk
      have howner : (0 : Pubkey) = 9 := of_decide_eq_true (Bool.and_eq_true_iff.1 hk).1
      exact absurd howner (by decide)

set_option maxRecDepth 10000 in
/-- The account `21` is added and the three bytes are moved. -/
theorem block_adds_keep_execution_two :
    let _ := Platform.bare
    let _ := Runtime.bare
    let _ := Config.bare
    ∃ L' d' rest', blockAll [addTwo] (underWay ⟨20, false, false⟩ [21]) = .ok () L' ∧
      L'.held State 17 = some (d', rest') ∧ d'.savedEvm rest' = some ([1, 2], [3]) := by
  let _ := Platform.bare
  let _ := Runtime.bare
  let _ := Config.bare
  have hok : (blockAll [addTwo] (underWay ⟨20, false, false⟩ [21])).okAnd fun _ _ => true := by
    decide +kernel
  obtain ⟨_, L', hrun, -⟩ := Outcome.exists_of_okAnd hok
  have hsaved : ∃ d rest, (underWay ⟨20, false, false⟩ [21]).held State 17 = some (d, rest) ∧
      d.savedEvm rest = some ([1, 2], [3]) := ⟨_, _, rfl, by decide +kernel⟩
  obtain ⟨d, rest, hheld, hsaved⟩ := hsaved
  have hkey : ∀ a ∈ [addTwo], ∀ info, a.accounts[0]? = some info → info.pubkey = 17 := by
    intro a ha info hinfo
    rw [List.mem_singleton.1 ha] at hinfo
    obtain rfl := Option.some.inj hinfo
    rfl
  obtain ⟨old, d', rest', -, hheld', -, -, hsaved', -⟩ :=
    block_adds_keep_execution (underWay_formed _ _) hkey hheld hsaved hrun
  exact ⟨L', d', rest', hrun, hheld', hsaved'⟩

set_option maxRecDepth 10000 in
/-- **What was missing is there** — the account `20` was made meanwhile, and no continue passes. -/
theorem block_adds_made_meanwhile :
    let _ := Platform.bare
    let _ := Runtime.bare
    let _ := Config.bare
    ∃ L' d rest, (underWay ⟨20, false, false⟩ [20, 21]).held State 17 = some (d, rest) ∧
      d.savedEvm rest = some ([1, 2], [3]) ∧
      blockAll [addTwo] (underWay ⟨20, false, false⟩ [20, 21]) = .ok () L' ∧
      ∀ d' rest' accounts infos, L'.held State 17 = some (d', rest') →
        d'.readBlockedAccounts rest' () = .ok accounts () → Supplies accounts infos →
          ∀ r L₂, checkBlockedAccounts d' rest' infos false L' ≠ .ok r L₂ := by
  let _ := Platform.bare
  let _ := Runtime.bare
  let _ := Config.bare
  show ∃ L' d rest, (underWay ⟨20, false, false⟩ [20, 21]).held State 17 = some (d, rest) ∧
      d.savedEvm rest = some ([1, 2], [3]) ∧
      blockAll [addTwo] (underWay ⟨20, false, false⟩ [20, 21]) = .ok () L' ∧
      ∀ d' rest' accounts infos, L'.held State 17 = some (d', rest') →
        d'.readBlockedAccounts rest' () = .ok accounts () → Supplies accounts infos →
          ∀ r L₂, checkBlockedAccounts d' rest' infos false L' ≠ .ok r L₂
  have hok : (blockAll [addTwo] (underWay ⟨20, false, false⟩ [20, 21])).okAnd fun _ L' =>
      (L'.held State 17).any fun e => (e.1.readBlockedAccounts e.2 ()).okAnd fun accounts _ =>
        accounts.any fun b => !b.exists_ && L'.accountExists b.key := by
    decide +kernel
  obtain ⟨_, L', hrun, hmade⟩ := Outcome.exists_of_okAnd hok
  refine ⟨L', _, _, rfl, by decide +kernel, hrun, ?_⟩
  intro d' rest' accounts infos hheld hread hinfos r L₂ hcheck
  rw [hheld] at hmade
  obtain ⟨accounts', _, hread', hany⟩ := Outcome.exists_of_okAnd hmade
  obtain ⟨rfl, -⟩ := Outcome.ok.inj (hread.symm.trans hread')
  obtain ⟨b, hb, hmissing⟩ := List.any_eq_true.1 hany
  have hfresh := (passes_iff hread hinfos).1 ⟨r, L₂, hcheck⟩ b hb
  simp only [Bool.and_eq_true, Bool.not_eq_true'] at hmissing
  exact Bool.false_ne_true ((hfresh hmissing.1).symm.trans hmissing.2)

end NeonEvm
