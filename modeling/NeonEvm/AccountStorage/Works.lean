import NeonEvm.AccountStorage.Frame
import NeonEvm.AccountStorage.History

/-!
# AccountStorage/Works — an instruction works on the accounts it was given

    Works S S'     the ledger changes within the supplied accounts, no lock is turned,
                   and every handle is still of an account of ours

Every part of `applyStateChange` works so.  What turns locks is `blockAccounts` alone: it turns those
of the accounts with a handle.
-/

namespace NeonEvm

open Exec Packable

variable [Platform] [Runtime]

namespace Ledger

variable {L L' : Ledger} {K P : Pubkey → Prop} {k : Pubkey}

theorem Within.none_of_none (h : L.Within K P L') (hk : L'.held EthereumAccount k = none) :
    L.held EthereumAccount k = none := by
  rcases hd : L.held EthereumAccount k with _ | ⟨d, rest⟩
  · rfl
  · obtain ⟨d', rest', hd', -⟩ := h.account hd
    exact absurd (hk.symm.trans hd') (by simp)

end Ledger

namespace ProgramAccountStorage

/-- Every handle is of an account of ours, filed under what it is; those of Ethereum accounts are
of accounts that were supplied. -/
structure Opened (S : ProgramAccountStorage) : Prop where
  account : ∀ {a k}, S.ethereumAccounts.lookup a = some k → k ∈ S.solanaAccounts ∧
    ∃ d rest, S.ledger.held EthereumAccount k = some (d, rest) ∧ d.address = a
  page : ∀ {a i k}, S.storageAccounts.lookup (a, i) = some k →
    a ∈ S.ethereumAccounts ∧
      ∃ p rest, S.ledger.held EthereumStorage k = some (p, rest) ∧ p.address = a
  named : S.Named
  placed : S.ledger.Placed

/-- What an instruction has done to the accounts. -/
structure Worked (S S' : ProgramAccountStorage) : Prop where
  within : S.ledger.Within (· ∈ S.solanaAccounts) (fun _ => False) S'.ledger
  locked : S'.ledger.locked = S.ledger.locked
  opened : S'.Opened
  supplied : S'.solanaAccounts = S.solanaAccounts
  grows : ∀ {a k}, S.ethereumAccounts.lookup a = some k → S'.ethereumAccounts.lookup a = some k
  fresh : ∀ {a k}, S'.ethereumAccounts.lookup a = some k →
    S.ethereumAccounts.lookup a = some k ∨ S.ledger.held EthereumAccount k = none

/-- A step within the supplied accounts. -/
def Works (S S' : ProgramAccountStorage) : Prop := S.Opened → S.Worked S'

variable {S S' : ProgramAccountStorage} {a : Address} {k : Pubkey} {u : Unit}

theorem Worked.trans {S'' : ProgramAccountStorage} (h : S.Worked S') (h' : S'.Worked S'') :
    S.Worked S'' where
  within := h.within.trans (h.supplied ▸ h'.within)
  locked := h'.locked.trans h.locked
  opened := h'.opened
  supplied := h'.supplied.trans h.supplied
  grows ha := h'.grows (h.grows ha)
  fresh ha := by
    rcases h'.fresh ha with ha | hnone
    · exact h.fresh ha
    · exact .inr (h.within.none_of_none hnone)

instance : Std.Refl Works := ⟨fun _ hS => ⟨.refl, rfl, hS, rfl, fun h => h, .inl⟩⟩

instance : IsTrans ProgramAccountStorage Works :=
  ⟨fun _ _ _ h h' hS => (h hS).trans (h' (h hS).opened)⟩

/-- The handles over a ledger within bounds. -/
theorem Opened.of_within (hS : S.Opened) {L : Ledger} {K P : Pubkey → Prop}
    (h : S.ledger.Within K P L) : ({ S with ledger := L } : ProgramAccountStorage).Opened where
  account ha := by
    obtain ⟨hk, d, rest, hd, hda⟩ := hS.account ha
    obtain ⟨d', rest', hd', haddress, -⟩ := h.account hd
    exact ⟨hk, d', rest', hd', haddress.trans hda⟩
  page hi := by
    obtain ⟨ha, p, rest, hp, hpa⟩ := hS.page hi
    obtain ⟨p', rest', hp', haddress⟩ := h.stays hp
    exact ⟨ha, p', rest', hp', haddress.trans hpa⟩
  named := hS.named
  placed := h.placed hS.placed

/-- **A step of the ledger** under the supplied keys. -/
theorem works_of_ledger {L : Ledger}
    (h : S.Opened → S.ledger.Within (· ∈ S.solanaAccounts) (fun _ => False) L ∧
      L.locked = S.ledger.locked) : Works S { S with ledger := L } := fun hS =>
  ⟨(h hS).1, (h hS).2, hS.of_within (h hS).1, rfl, fun h => h, .inl⟩

theorem returns_works_onLedger {α : Type} {x : Program α}
    (h : ∀ L b L', x L = .ok b L' → L.Foreign L') : Returns Works (onLedger x) := by
  intro S b S' hx
  obtain ⟨L, hL, rfl⟩ := zoom_eq_ok.1 hx
  exact works_of_ledger fun _ => ⟨(h _ _ _ hL).within, (h _ _ _ hL).locked⟩

/-! ## Handles -/

theorem Opened.key (hS : S.Opened) (ha : S.ethereumAccounts.lookup a = some k) : k = a.key := by
  obtain ⟨-, d, rest, hd, rfl⟩ := hS.account ha
  exact hS.placed.account hd

/-- What an instruction has loaded of an account. -/
structure IsHandle (S : ProgramAccountStorage) (a : Address) (h : Handle EthereumAccount) :
    Prop where
  lookup : S.ethereumAccounts.lookup a = some h.key
  supplied : h.key ∈ S.solanaAccounts
  held : S.ledger.held EthereumAccount h.key = some (h.data, h.rest)
  address : h.data.address = a

theorem Opened.bind_handle (hS : S.Opened) {h : Handle EthereumAccount}
    (hh : (S.ethereumAccounts.lookup a).bind (S.ledger.handle? EthereumAccount) = some h) :
    S.IsHandle a h := by
  obtain ⟨k, hk, hhandle⟩ := Option.bind_eq_some_iff.1 hh
  obtain ⟨hsupplied, d, rest, hheld, hda⟩ := hS.account hk
  rw [Ledger.handle?, (Ledger.held_ethereum.1 hheld).2] at hhandle
  obtain rfl := Option.some.inj hhandle
  exact ⟨hk, hsupplied, hheld, hda⟩

theorem Opened.ethereumAccountMut_ok (hS : S.Opened) {h : Handle EthereumAccount}
    (hh : ethereumAccountMut a S = .ok h S') : S = S' ∧ S.IsHandle a h := by
  simp only [ethereumAccountMut, bind_eq_ok, get_eq_ok, ofOption_eq_ok] at hh
  obtain ⟨_, _, ⟨rfl, rfl⟩, hbind, rfl⟩ := hh
  exact ⟨rfl, hS.bind_handle hbind⟩

/-- **A handle is saved**, with the lock it had. -/
theorem IsHandle.works_save {h : Handle EthereumAccount} (hh : S.IsHandle a h)
    {d : EthereumAccount} {rest : Bytes} (hsave : save ⟨h.key, d, rest⟩ S = .ok u S')
    (haddress : d.address = h.data.address) (hlock : d.rwBlocked = h.data.rwBlocked) :
    Works S S' := by
  obtain rfl := save_ok hsave
  exact works_of_ledger fun _ => ⟨Ledger.within_setAccount hh.held haddress fun hk =>
    (hk hh.supplied).elim, Ledger.locked_setAccount hh.held hlock⟩

/-- **Changing a header**, exactly. -/
theorem Opened.modifyAccount_ok (hS : S.Opened) {f : EthereumAccount → EthereumAccount}
    (h : modifyAccount a f S = .ok u S') :
    ∃ k d rest, S.ethereumAccounts.lookup a = some k ∧ k ∈ S.solanaAccounts ∧
      S.ledger.held EthereumAccount k = some (d, rest) ∧ d.address = a ∧
      S' = { S with ledger := S.ledger.setContent k (.ethereum (f d) rest) } := by
  obtain ⟨account, _, haccount, hsave⟩ := bind_eq_ok.1 h
  obtain ⟨rfl, hhandle⟩ := hS.ethereumAccountMut_ok haccount
  exact ⟨account.key, account.data, account.rest, hhandle.lookup, hhandle.supplied, hhandle.held,
    hhandle.address, save_ok hsave⟩

/-- **A header that keeps its address and its lock.** -/
theorem returns_works_modifyAccount {f : EthereumAccount → EthereumAccount}
    (haddress : ∀ d, (f d).address = d.address) (hlock : ∀ d, (f d).rwBlocked = d.rwBlocked)
    (a : Address) : Returns Works (modifyAccount a f) := by
  intro S u S' h hS
  obtain ⟨account, _, haccount, hsave⟩ := bind_eq_ok.1 h
  obtain ⟨rfl, hhandle⟩ := hS.ethereumAccountMut_ok haccount
  exact hhandle.works_save hsave (haddress _) (hlock _) hS

/-- A step within the supplied accounts that bypasses the storage of contracts. -/
def Touches (S S' : ProgramAccountStorage) : Prop :=
  S.Opened → S.Worked S' ∧ S.ledger.Bypasses S'.ledger

instance : Std.Refl Touches :=
  ⟨fun S hS => ⟨refl_of Works S hS, refl_of Ledger.Bypasses S.ledger⟩⟩

instance : IsTrans ProgramAccountStorage Touches where
  trans S S' S'' h h' hS := by
    obtain ⟨hworked, hbypasses⟩ := h hS
    obtain ⟨hworked', hbypasses'⟩ := h' hworked.opened
    exact ⟨hworked.trans hworked', hbypasses.trans hbypasses'⟩

/-- **A header** that keeps what the storage depends on. -/
theorem returns_touches_modifyAccount {f : EthereumAccount → EthereumAccount}
    (hf : ∀ d, (f d).address = d.address ∧ (f d).rwBlocked = d.rwBlocked ∧
      (f d).generation = d.generation ∧ (f d).codeSize = d.codeSize) (a : Address) :
    Returns Touches (modifyAccount a f) := by
  intro S u S' h hS
  refine ⟨returns_works_modifyAccount (fun d => (hf d).1) (fun d => (hf d).2.1) a _ _ _ h hS, ?_⟩
  obtain ⟨k, d, rest, -, -, hd, -, rfl⟩ := hS.modifyAccount_ok h
  obtain ⟨haddress, -, hgeneration, hcode⟩ := hf d
  exact Ledger.bypasses_setAccount hd haddress hgeneration hcode

/-- **A page** of a loaded account is saved. -/
theorem works_savePage {page : Handle EthereumStorage} {i : U256}
    (hlookup : S.storageAccounts.lookup (a, i) = some page.key)
    (hpage : S.ledger.handle? EthereumStorage page.key = some page) {rest : Bytes}
    (h : save { page with rest } S = .ok u S') : Works S S' := by
  intro hS
  obtain ⟨ha, p, r, hp, hpa⟩ := hS.page hlookup
  obtain ⟨k, hk⟩ := Option.isSome_iff_exists.1 (AList.lookup_isSome.2 ha)
  have hdata : page = ⟨page.key, p, r⟩ := by
    rw [Ledger.handle?, (Ledger.held_storage.1 hp).2] at hpage
    exact (Option.some.inj hpage).symm
  obtain rfl := save_ok h
  have hnone : S.ledger.held EthereumAccount page.key = none := Ledger.held_ethereum_of_storage hp
  refine works_of_ledger (fun _ => ⟨Ledger.within_setPage hp ?_ ?_, Ledger.locked_setOther hnone
    fun {_ _} hc => by cases hc⟩) hS
  · rw [hdata]
  · rw [hpa, ← hS.key hk]
    exact (hS.account hk).1

/-! ## Actions -/

theorem returns_works_ethereumAccountMut (address : Address) :
    Returns Works (ethereumAccountMut address) :=
  returns_bind moves_get.returns fun _ => (moves_ofOption _ _).returns

/-- **A payment** changes balances. -/
theorem returns_touches_transferNeonTokens (source target : Address) (value : U256) :
    Returns Touches (transferNeonTokens source target value) := by
  refine returns_ite (fun _ => (moves_pure ()).returns) fun _ => ?_
  refine returns_bind moves_get.returns fun _ => ?_
  refine returns_bind (moves_failIf _ _).returns fun _ => ?_
  refine returns_bind (moves_failIf _ _).returns fun _ => ?_
  refine returns_bind (moves_ofOption _ _).returns fun _ => ?_
  refine returns_bind (moves_failIf _ _).returns fun _ => ?_
  refine returns_bind (returns_touches_modifyAccount ?_ _) fun _ =>
    returns_touches_modifyAccount ?_ _ <;> exact fun _ => ⟨rfl, rfl, rfl, rfl⟩

theorem returns_works_transferNeonTokens (source target : Address) (value : U256) :
    Returns Works (transferNeonTokens source target value) := fun _ _ _ h hS =>
  (returns_touches_transferNeonTokens _ _ _ _ _ _ h hS).1

theorem returns_works_withdraw (source : Address) (value : U256) :
    Returns Works (withdraw source value) := by
  refine returns_bind (returns_works_ethereumAccountMut _) fun _ => ?_
  refine returns_bind (moves_failIf _ _).returns fun _ => ?_
  refine returns_works_modifyAccount ?_ ?_ _ <;> exact fun _ => rfl

theorem returns_works_incrementNonce (address : Address) :
    Returns Works (incrementNonce address) := by
  refine returns_bind (returns_works_ethereumAccountMut _) fun _ => ?_
  refine returns_bind (moves_failIf _ _).returns fun _ => ?_
  refine returns_works_modifyAccount ?_ ?_ _ <;> exact fun _ => rfl

theorem returns_works_invokeExternal [Runtime.Lawful] {instruction : Instruction}
    {seeds : List Bytes} (h : instruction.programId ≠ programId) :
    Returns Works (invokeExternal instruction seeds) := by
  refine returns_bind moves_get.returns fun _ => ?_
  refine returns_bind (moves_assertThat _ _).returns fun _ => ?_
  refine returns_bind (moves_assertThat _ _).returns fun _ => ?_
  exact returns_works_onLedger (returns_invokeSigned (i := .external instruction) _ h)

theorem returns_works_deployContract (address : Address) (code : Bytes) :
    Returns Works (deployContract address code) := by
  intro S u S' h hS
  obtain ⟨_, _, hget, h⟩ := bind_eq_ok.1 h
  obtain ⟨rfl, rfl⟩ := get_eq_ok.1 hget
  rcases haccount : (S.ethereumAccounts.lookup address).bind
    (S.ledger.handle? EthereumAccount) with _ | account
  · simp only [haccount] at h
    exact (fail_eq_ok.1 h).elim
  · simp only [haccount, bind_eq_ok, assertThat_eq_ok] at h
    obtain ⟨_, _, ⟨-, rfl⟩, _, _, ⟨-, rfl⟩, _, _, ⟨-, rfl⟩, hsave⟩ := h
    exact (hS.bind_handle haccount).works_save hsave rfl rfl hS

theorem returns_works_deleteAccount (address : Address) :
    Returns Works (deleteAccount address) := by
  intro S u S' h hS
  obtain ⟨account, _, haccount, h⟩ := bind_eq_ok.1 h
  obtain ⟨rfl, hhandle⟩ := hS.ethereumAccountMut_ok haccount
  obtain ⟨_, _, hfail, hsave⟩ := bind_eq_ok.1 h
  obtain ⟨-, rfl⟩ := failIf_eq_ok.1 hfail
  exact hhandle.works_save hsave rfl rfl hS

/-! ## Sizes and creations -/

/-- **A new Ethereum account** is where it belongs, and free. -/
theorem returns_works_createAccountIfNotExists (a : Address) :
    Returns Works (createAccountIfNotExists a) := by
  intro S u S' h hS
  obtain ⟨_, _, hget, h⟩ := bind_eq_ok.1 h
  obtain ⟨rfl, rfl⟩ := get_eq_ok.1 hget
  split_ifs at h with ha
  · obtain ⟨-, rfl⟩ := pure_eq_ok.1 h
    exact refl_of Works S hS
  · rcases hs : S.solanaAccounts.lookup (a.findSolanaAddress programId).1 with _ | info
    · simp only [hs] at h
      exact (fail_eq_ok.1 h).elim
    · simp only [hs] at h
      obtain ⟨_, S₁, hinit, hmodify⟩ := bind_eq_ok.1 h
      obtain ⟨L, hL, rfl⟩ := zoom_eq_ok.1 hinit
      obtain rfl := modify_eq_ok.1 hmodify
      have hinfo : info.pubkey = a.key := hS.named hs
      obtain ⟨howner, htag, rfl⟩ := initAccount_ok hL
      rw [hinfo] at howner htag ⊢
      have hnone : S.ledger.held EthereumAccount a.key = none :=
        held_eq_none_of_tag htag Content.split_ethereum_of_tag
      have hwithin (rest : Bytes) : S.ledger.Within (· ∈ S.solanaAccounts) (fun _ => False)
          (S.ledger.setContent a.key (.ethereum
            (.new a (a.findSolanaAddress programId).2) rest)) :=
        Ledger.within_newAccount howner htag rfl
      have hlocked (rest : Bytes) : (S.ledger.setContent a.key (.ethereum
          (.new a (a.findSolanaAddress programId).2) rest)).locked = S.ledger.locked :=
        Ledger.locked_setOther hnone fun {_ _} hc => by
          obtain ⟨rfl, -⟩ := Content.ethereum.inj hc
          rfl
      have hworked := works_of_ledger (S := S) (fun _ => ⟨hwithin (List.replicate
        ((S.ledger a.key).content.len - SIZE EthereumAccount) 0), hlocked _⟩) hS
      refine ⟨hworked.within, hworked.locked, ⟨fun {b k} hb => ?_, fun {b i k} hi => ?_, hS.named,
        hworked.opened.placed⟩, rfl, fun {b k} hb => ?_, fun {b k} hb => ?_⟩
      · by_cases hba : b = a
        · rw [hba, AList.lookup_insert, Option.some.injEq] at hb
          rw [← hb, hba]
          exact ⟨AList.lookup_isSome.1 (hs ▸ rfl), .new a _, _, Ledger.held_ethereum.2
            ⟨Ledger.owner_setContent.trans howner, Ledger.content_setContent_self⟩, rfl⟩
        · rw [AList.lookup_insert_ne hba] at hb
          exact hworked.opened.account hb
      · obtain ⟨hb, hp⟩ := hworked.opened.page hi
        exact ⟨(AList.mem_insert _).2 (.inr hb), hp⟩
      · have hba : b ≠ a := by
          rintro rfl
          exact ha (AList.lookup_isSome.1 (hb ▸ rfl))
        exact (AList.lookup_insert_ne hba).trans hb
      · by_cases hba : b = a
        · rw [hba, AList.lookup_insert, Option.some.injEq] at hb
          exact .inr (hb ▸ hnone)
        · rw [AList.lookup_insert_ne hba] at hb
          exact .inl hb

omit [Platform] in
theorem locked_realloc {L : Ledger} (len : ℕ) (k : Pubkey) :
    (L.setContent k ((L k).content.realloc len)).locked = L.locked := by
  refine Ledger.locked_setContent ?_
  rcases hd : L.held EthereumAccount k with _ | ⟨d, rest⟩
  · have hnone : (L.setContent k ((L k).content.realloc len)).held EthereumAccount k = none := by
      rw [Ledger.held_setContent, if_pos rfl]
      split_ifs with howner
      · rw [Ledger.held, if_pos howner] at hd
        exact Content.split_ethereum_realloc _ hd
      · rfl
    simp [Ledger.locked, hd, hnone]
  · have hd' : (L.setContent k ((L k).content.realloc len)).held EthereumAccount k =
        some (d, resizeBytes rest (len - SIZE EthereumAccount)) := by
      rw [Ledger.held_setContent, if_pos rfl, if_pos (Ledger.held_ethereum.1 hd).1,
        (Ledger.held_ethereum.1 hd).2]
      rfl
    rw [Ledger.mem_locked_iff hd', Ledger.mem_locked_iff hd]

section

variable [Runtime.Lawful] {operator : Pubkey}

/-- **Creating and resizing** leave the headers alone. -/
theorem returns_works_processOperation (hapart : KeysApart) (readiness : AccountsReadiness)
    (operation : Address × AccountOperation) :
    Returns Works (processOperation operator readiness operation) := by
  intro S readiness' S' h
  obtain ⟨a, operation⟩ := operation
  obtain ⟨_, _, hget, h⟩ := bind_eq_ok.1 h
  obtain ⟨rfl, rfl⟩ := get_eq_ok.1 hget
  split_ifs at h with hk
  · rcases operation with space | ⟨source, target⟩
    · obtain ⟨_, S₁, hcreate, hpure⟩ := bind_eq_ok.1 h
      obtain ⟨-, rfl⟩ := pure_eq_ok.1 hpure
      refine returns_works_onLedger (fun L b L' hL => ?_) _ _ _ hcreate
      obtain ⟨_, _, hfail, hcreate⟩ := bind_eq_ok.1 hL
      obtain ⟨-, rfl⟩ := failIf_eq_ok.1 hfail
      exact returns_createPdaAccount _ _ _ _ _ _ _ _ hcreate
    · obtain ⟨_, S₁, hresize, hpure⟩ := bind_eq_ok.1 h
      obtain ⟨-, rfl⟩ := pure_eq_ok.1 hpure
      obtain ⟨L, hL, rfl⟩ := zoom_eq_ok.1 hresize
      obtain ⟨L₁, hforeign, howner, rfl⟩ := resizeAccount_ok hL
      refine works_of_ledger fun hS => ⟨hforeign.within.trans ?_, ?_⟩
      · have hplaced : L₁.Placed := (hforeign.within (K := fun _ => False)
          (P := fun _ => False)).placed hS.placed
        exact Ledger.within_realloc hplaced hapart (a := a) (hforeign.keeps howner).1 hk _
      · exact (locked_realloc _ _).trans hforeign.locked
  · exact (fail_eq_ok.1 h).elim

/-! ## Slots -/

variable {transfers transfers' : Transfers}

omit [Runtime.Lawful] in
theorem setStorage_works {page : Handle EthereumStorage} {subindex : UInt8} {value : U256} {i : U256}
    (hlookup : S.storageAccounts.lookup (a, i) = some page.key)
    (hpage : S.ledger.handle? EthereumStorage page.key = some page)
    (h : setStorage page transfers subindex value S = .ok transfers' S') : Works S S' := by
  obtain ⟨_, S₁, hsave, h⟩ := bind_eq_ok.1 h
  have hsaved := works_savePage hlookup hpage hsave
  split_ifs at h
  · obtain ⟨-, rfl⟩ := pure_eq_ok.1 h
    exact hsaved
  · simp only [bind_eq_ok, get_eq_ok, pure_eq_ok] at h
    obtain ⟨_, S₂, hminimum, _, _, ⟨rfl, rfl⟩, -, rfl⟩ := h
    exact Trans.trans hsaved (returns_works_onLedger (returns_minimumBalance _) _ _ _ hminimum)

/-- **A new page** of a loaded account. -/
theorem createStorage_works {contract : Handle EthereumAccount} {info : AccountMeta} {index v : U256}
    {subindex : UInt8} (hcontract : S.IsHandle a contract)
    (hinfo : info.pubkey = EthereumStorage.pubkey contract.key index)
    (h : onLedger (createStorage operator contract info index subindex v) S = .ok u S') :
    Works S S' ∧ S.ledger.held EthereumStorage info.pubkey = none ∧
      ∃ p rest, S'.ledger.held EthereumStorage info.pubkey = some (p, rest) ∧ p.address = a ∧
        S' = { S with ledger := S'.ledger } := by
  obtain ⟨L, hL, rfl⟩ := zoom_eq_ok.1 h
  obtain ⟨L₁, hforeign, howner, htag, rfl⟩ := createStorage_ok hL
  have hnone : L₁.held EthereumAccount info.pubkey = none :=
    held_eq_none_of_tag htag Content.split_ethereum_of_tag
  have hpage : L₁.held EthereumStorage info.pubkey = none :=
    held_eq_none_of_tag htag Content.split_storage_of_tag
  refine ⟨works_of_ledger fun hS => ⟨hforeign.within.trans ?_, ?_⟩, ?_,
    ⟨contract.data.address, contract.data.generation, index⟩, EthereumStorage.record subindex v, ?_,
    hcontract.address, rfl⟩
  · refine Ledger.within_newPage howner htag ⟨_, _, hinfo⟩ ?_
    rw [hcontract.address, ← hS.key hcontract.lookup]
    exact hcontract.supplied
  · refine Eq.trans (Ledger.locked_setOther hnone ?_) hforeign.locked
    exact fun {_ _} hc => by cases hc
  · rwa [hforeign.held_eq fun _ => rfl] at hpage
  · exact Ledger.held_storage.2 ⟨Ledger.owner_setContent.trans howner,
      Ledger.content_setContent_self⟩

theorem applyPaged_works {contract : Handle EthereumAccount} {index v : U256}
    (hcontract : S.IsHandle a contract)
    (h : applyPaged operator contract transfers index v S = .ok transfers' S') : Works S S' := by
  intro hS
  obtain ⟨_, _, hget, h⟩ := bind_eq_ok.1 h
  obtain ⟨rfl, rfl⟩ := get_eq_ok.1 hget
  rw [hcontract.address] at h
  rcases hk : S.storageAccounts.lookup (a, pageOf index) with _ | key
  · simp only [hk] at h
    rcases hs : S.solanaAccounts.lookup (EthereumStorage.pubkey contract.key (pageOf index)) with
      _ | info
    · simp only [hs] at h
      exact (fail_eq_ok.1 h).elim
    · simp only [hs] at h
      obtain ⟨_, _, hfail, h⟩ := bind_eq_ok.1 h
      obtain ⟨-, rfl⟩ := failIf_eq_ok.1 hfail
      split_ifs at h with hv
      · exact (pure_eq_ok.1 h).2 ▸ refl_of Works S hS
      · obtain ⟨_, S₁, hcreate, h⟩ := bind_eq_ok.1 h
        obtain ⟨_, S₂, hmodify, h⟩ := bind_eq_ok.1 h
        obtain ⟨-, rfl⟩ := pure_eq_ok.1 h
        obtain rfl := modify_eq_ok.1 hmodify
        have hinfo : info.pubkey = EthereumStorage.pubkey contract.key (pageOf index) := hS.named hs
        obtain ⟨hworks, -, p, rest, hp, hpa, hS₁⟩ := createStorage_works hcontract hinfo hcreate
        have hworked := hworks hS
        refine ⟨hworked.within, hworked.locked, ⟨hworked.opened.account, fun {b i k} hi => ?_,
          hworked.opened.named, hworked.opened.placed⟩, hworked.supplied, hworked.grows,
          hworked.fresh⟩
        by_cases hbi : (b, i) = (a, pageOf index)
        · obtain ⟨rfl, rfl⟩ := Prod.mk.inj hbi
          rw [AList.lookup_insert, Option.some.injEq] at hi
          rw [← hi, ← hinfo]
          refine ⟨AList.lookup_isSome.1 ?_, p, rest, hp, hpa⟩
          rw [hworked.grows hcontract.lookup]
          rfl
        · rw [AList.lookup_insert_ne hbi] at hi
          exact hworked.opened.page hi
  · simp only [hk, bind_eq_ok, ofOption_eq_ok] at h
    obtain ⟨page, _, ⟨hpage, rfl⟩, hset⟩ := h
    obtain ⟨e, he, rfl⟩ := Option.map_eq_some_iff.1 hpage
    exact setStorage_works hk hpage hset hS

theorem returns_works_applySlot (address : Address) (transfers : Transfers) (slot : U256 × U256) :
    Returns Works (applySlot operator address transfers slot) := by
  intro S transfers' S' h hS
  obtain ⟨i, v⟩ := slot
  obtain ⟨_, _, hget, h⟩ := bind_eq_ok.1 h
  obtain ⟨rfl, rfl⟩ := get_eq_ok.1 hget
  obtain ⟨contract, _, hcontract, h⟩ := bind_eq_ok.1 h
  obtain ⟨hhandle, rfl⟩ := ofOption_eq_ok.1 hcontract
  obtain ⟨_, _, hassert, h⟩ := bind_eq_ok.1 h
  obtain ⟨-, rfl⟩ := assertThat_eq_ok.1 hassert
  split_ifs at h with hi
  · obtain ⟨_, _, hlength, h⟩ := bind_eq_ok.1 h
    obtain ⟨-, rfl⟩ := assertThat_eq_ok.1 hlength
    obtain ⟨_, _, hsave, h⟩ := bind_eq_ok.1 h
    obtain ⟨-, rfl⟩ := pure_eq_ok.1 h
    exact (hS.bind_handle hhandle).works_save hsave rfl rfl hS
  · exact applyPaged_works (hS.bind_handle hhandle) h hS

theorem returns_works_applyStorage (storage : Slots) :
    Returns Works (applyStorage operator storage) := by
  refine returns_bind (returns_foldl (fun _ _ => ?_) _ _) fun _ => returns_foldl (fun _ _ => ?_) _ _
  · exact returns_foldl (fun _ _ => returns_works_applySlot _ _ _) _ _
  · exact returns_works_onLedger (returns_systemTransfer _ _ _)

/-! ## A whole journal -/

theorem returns_works_applyAction {x : Action} (hx : x.IsForeign) (storage : Slots) :
    Returns Works (applyAction storage x) := by
  have keep {α : Type} {x : Apply α} (h : Returns Works x) :
      Returns Works (do let _ ← x; pure storage) :=
    returns_bind h fun _ => (moves_pure _).returns
  cases x with
  | externalInstruction program accounts data seeds fee =>
    have hinvoke : Returns Works (invokeExternal ⟨program, accounts, data⟩ seeds) :=
      returns_works_invokeExternal hx
    exact keep hinvoke
  | neonTransfer source target value => exact keep (returns_works_transferNeonTokens _ _ _)
  | neonWithdraw source value => exact keep (returns_works_withdraw _ _)
  | evmSetStorage address index value => exact (moves_pure _).returns
  | evmIncrementNonce address => exact keep (returns_works_incrementNonce _)
  | evmSetCode address code => exact keep (returns_works_deployContract _ _)
  | evmSelfDestruct address =>
    exact returns_bind (returns_works_deleteAccount _) fun _ => (moves_pure _).returns

/-- **Applying a journal** works on the supplied accounts and turns no lock. -/
theorem applyStateChange_works (hapart : KeysApart) {actions : List Action}
    (hforeign : ∀ x ∈ actions, x.IsForeign) {readiness : AccountsReadiness}
    (h : applyStateChange operator actions S = .ok readiness S') : Works S S' := by
  simp only [applyStateChange, bind_eq_ok, get_eq_ok, ofOption_eq_ok] at h
  obtain ⟨_, _, ⟨rfl, rfl⟩, operations, _, ⟨-, rfl⟩, r, S₁, hprocess, h⟩ := h
  have hprocessed : Works S S₁ :=
    returns_foldl (returns_works_processOperation hapart) _ _ _ _ _ hprocess
  split_ifs at h with hr
  · obtain ⟨rfl, rfl⟩ := pure_eq_ok.1 h
    exact hprocessed
  · simp only [bind_eq_ok, pure_eq_ok] at h
    obtain ⟨_, S₂, hcreate, storage, S₃, hactions, _, S₄, hstorage, rfl, rfl⟩ := h
    have hcreated : Works S₁ S₂ :=
      returns_foldl (fun _ => returns_works_createAccountIfNotExists) _ _ _ _ _ hcreate
    have happlied : Works S₂ S₃ := by
      refine foldl_invariant (I := fun _ _ S' => Works S₂ S') ?_ (refl_of Works S₂) hactions
      intro done x rest _ S₅ _ S₆ hsplit hdone hstep
      have hx : x ∈ rearrangeActions actions := by
        rw [hsplit]
        exact List.mem_append_right _ List.mem_cons_self
      exact Trans.trans hdone
        (returns_works_applyAction (hforeign x (mem_rearrangeActions.1 hx).1) _ _ _ _ hstep)
    have hstored : Works S₃ S₄ := returns_works_applyStorage _ _ _ _ hstorage
    exact Trans.trans (Trans.trans (Trans.trans hprocessed hcreated) happlied) hstored

end

end ProgramAccountStorage

end NeonEvm
