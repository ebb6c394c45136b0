import NeonEvm.AccountStorage.History
import NeonEvm.Evm.Asked
import NeonEvm.Evm.CodeOnce
import NeonEvm.Evm.Contained

/-!
# AccountStorage/Deployment — the code of a run is deployed where there is none

    run       every address gets code once, and only where the backend has none
    apply     create or resize · create headers · actions … ▸ EvmSetCode a · …

Nothing that is applied before the deployment gives an account code: an account without code stays
one, until its own `EvmSetCode`.
-/

namespace NeonEvm

open Exec Packable ExecutorState

variable [Platform] [Runtime]

/-! ## Accounts without code -/

namespace Ledger

/-- There is no code at the address. -/
def Bare (L : Ledger) (a : Address) : Prop := ∀ e, L.account a = some e → e.1.codeSize = 0

/-- What has no code gets none. -/
def KeepsBare (L L' : Ledger) : Prop := ∀ a, L.Bare a → L'.Bare a

instance : Std.Refl KeepsBare := ⟨fun _ _ h => h⟩

instance : IsTrans Ledger KeepsBare := ⟨fun _ _ _ h h' a ha => h' a (h a ha)⟩

variable {L L' : Ledger}

theorem Foreign.keepsBare (h : L.Foreign L') : L.KeepsBare L' := fun a ha e he =>
  ha e ((h.account_eq a).symm.trans he)

/-- **A new length** leaves the header as it is. -/
theorem keepsBare_realloc (key : Pubkey) (len : ℕ) :
    L.KeepsBare (L.setContent key ((L key).content.realloc len)) := by
  rintro a ha ⟨d, rest⟩ he
  obtain ⟨hheld, haddress⟩ := account_eq_some.1 he
  by_cases hkey : a.key = key
  · obtain ⟨howner, hcontent⟩ := held_ethereum.1 hheld
    rw [hkey, content_setContent_self] at hcontent
    rw [owner_setContent] at howner
    cases hsplit : (L key).content with
    | ethereum d' rest' =>
      rw [hsplit] at hcontent
      obtain ⟨rfl, -⟩ := Content.ethereum.inj hcontent
      refine ha (d', rest') (account_eq_some.2 ⟨held_ethereum.2 ⟨howner, ?_⟩, haddress⟩)
      rw [hkey, hsplit]
    | _ => rw [hsplit] at hcontent; exact nomatch hcontent
  · rw [held, setContent_of_ne hkey] at hheld
    exact ha _ (account_eq_some.2 ⟨hheld, haddress⟩)

/-- **A new account** without code. -/
theorem keepsBare_setNew {k : Pubkey} {d : EthereumAccount} {rest : Bytes} (hk : k = d.address.key)
    (howner : (L k).owner = programId) (hnone : L.held EthereumAccount k = none)
    (hcode : d.codeSize = 0) : L.KeepsBare (L.setContent k (.ethereum d rest)) := by
  intro b hb e he
  rw [account_setAccount hk howner (by simp [hnone])] at he
  split_ifs at he with hba
  · rw [← Option.some.inj he]
    exact hcode
  · exact hb e he

end Ledger

namespace ProgramAccountStorage

variable {S S' S₀ : ProgramAccountStorage} {a b : Address} {u : Unit}

/-- Coherent handles of the same accounts, and no code where there was none. -/
structure Barely (S S' : ProgramAccountStorage) : Prop where
  coherent : S'.Coherent
  supplied : S'.solanaAccounts = S.solanaAccounts
  bare : S.ledger.KeepsBare S'.ledger

/-- A step from coherent handles gives no code. -/
def KeepsBare (S S' : ProgramAccountStorage) : Prop := S.Coherent → S.Barely S'

instance : Std.Refl KeepsBare := ⟨fun S hS => ⟨hS, rfl, refl_of Ledger.KeepsBare S.ledger⟩⟩

instance : IsTrans ProgramAccountStorage KeepsBare where
  trans _ _ _ h h' hS :=
    ⟨(h' (h hS).coherent).coherent, ((h' (h hS).coherent).supplied).trans (h hS).supplied,
      Trans.trans (h hS).bare (h' (h hS).coherent).bare⟩

theorem Steady.keepsBare (h : Steady S S') (hbare : S.Coherent → S.ledger.KeepsBare S'.ledger) :
    KeepsBare S S' := fun hS => ⟨(h hS).coherent, (h hS).supplied, hbare hS⟩

/-- **Rewriting an account**: only its own code changes. -/
theorem account_setAccount {d d' : EthereumAccount} {rest rest' : Bytes}
    (hd : S.ledger.account a = some (d, rest)) (haddress : d'.address = a) (b : Address) :
    (S.ledger.setContent a.key (.ethereum d' rest')).account b =
      if b = a then some (d', rest') else S.ledger.account b := by
  obtain ⟨hheld, hda⟩ := Ledger.account_eq_some.1 hd
  subst haddress
  refine Ledger.account_setAccount rfl (Ledger.held_ethereum.1 hheld).1 fun e he => ?_
  obtain rfl := Option.some.inj (hheld.symm.trans he)
  exact hda

theorem bare_setAccount {d d' : EthereumAccount} {rest rest' : Bytes}
    (hd : S.ledger.account a = some (d, rest)) (haddress : d'.address = a)
    (hcode : d.codeSize = 0 → d'.codeSize = 0) :
    S.ledger.KeepsBare (S.ledger.setContent a.key (.ethereum d' rest')) := by
  intro b hb e he
  rw [account_setAccount hd haddress] at he
  split_ifs at he with hba
  · rw [← Option.some.inj he]
    exact hcode (hb (d, rest) (hba ▸ hd))
  · exact hb e he

theorem bare_setAccount_of_ne {d d' : EthereumAccount} {rest rest' : Bytes}
    (hd : S.ledger.account a = some (d, rest)) (haddress : d'.address = a) (hb : b ≠ a)
    (hbare : S.ledger.Bare b) :
    (S.ledger.setContent a.key (.ethereum d' rest')).Bare b := by
  intro e he
  rw [account_setAccount hd haddress, if_neg hb] at he
  exact hbare e he

theorem keepsBare_onLedger {α : Type} {x : Program α} (h : Returns Ledger.Foreign x) :
    Returns KeepsBare (onLedger x) := fun S v S' hx => by
  refine Steady.keepsBare (returns_onLedger_foreign h S v S' hx) fun _ => ?_
  obtain ⟨L, hL, rfl⟩ := zoom_eq_ok.1 hx
  exact (h _ _ _ hL).keepsBare

theorem keepsBare_modifyAccount {f : EthereumAccount → EthereumAccount}
    (haddress : ∀ d, (f d).address = d.address) (hgeneration : ∀ d, (f d).generation = d.generation)
    (hcode : ∀ d, (f d).codeSize = d.codeSize) (a : Address) :
    Returns KeepsBare (modifyAccount a f) := fun S v S' h => by
  refine Steady.keepsBare (returns_modifyAccount haddress hgeneration hcode a S v S' h) fun hS => ?_
  obtain ⟨account, _, haccount, hsave⟩ := bind_eq_ok.1 h
  obtain ⟨rfl, hkey, he⟩ := ethereumAccountMut_ok hS haccount
  obtain rfl := save_ok hsave
  rw [hkey]
  exact bare_setAccount he ((haddress _).trans (Ledger.account_eq_some.1 he).2)
    fun h => (hcode _).trans h

theorem keepsBare_ethereumAccountMut (address : Address) :
    Returns KeepsBare (ethereumAccountMut address) :=
  returns_bind moves_get.returns fun _ => (moves_ofOption _ _).returns

theorem keepsBare_transferNeonTokens (source target : Address) (value : U256) :
    Returns KeepsBare (transferNeonTokens source target value) := by
  unfold transferNeonTokens
  refine returns_ite (fun _ => (moves_pure ()).returns) fun _ => ?_
  refine returns_bind moves_get.returns fun S => ?_
  refine returns_bind (moves_failIf _ _).returns fun _ => ?_
  refine returns_bind (moves_failIf _ _).returns fun _ => ?_
  refine returns_bind (moves_ofOption _ _).returns fun _ => ?_
  refine returns_bind (moves_failIf _ _).returns fun _ => ?_
  refine returns_bind ?_ fun _ => ?_
  · refine keepsBare_modifyAccount ?_ ?_ ?_ _ <;> exact fun _ => rfl
  · refine keepsBare_modifyAccount ?_ ?_ ?_ _ <;> exact fun _ => rfl

theorem keepsBare_withdraw (source : Address) (value : U256) :
    Returns KeepsBare (withdraw source value) := by
  refine returns_bind (keepsBare_ethereumAccountMut _) fun _ => ?_
  refine returns_bind (moves_failIf _ _).returns fun _ => ?_
  refine keepsBare_modifyAccount ?_ ?_ ?_ _ <;> exact fun _ => rfl

theorem keepsBare_incrementNonce (address : Address) :
    Returns KeepsBare (incrementNonce address) := by
  refine returns_bind (keepsBare_ethereumAccountMut _) fun _ => ?_
  refine returns_bind (moves_failIf _ _).returns fun _ => ?_
  refine keepsBare_modifyAccount ?_ ?_ ?_ _ <;> exact fun _ => rfl

theorem keepsBare_invokeExternal [Runtime.Lawful] {instruction : Instruction} {seeds : List Bytes}
    (h : instruction.programId ≠ programId) :
    Returns KeepsBare (invokeExternal instruction seeds) := by
  refine returns_bind moves_get.returns fun _ => ?_
  refine returns_bind (moves_assertThat _ _).returns fun _ => ?_
  refine returns_bind (moves_assertThat _ _).returns fun _ => ?_
  exact keepsBare_onLedger (returns_invokeSigned (i := .external instruction) _ h)

/-- **A contract that is destroyed** has no code. -/
theorem keepsBare_deleteAccount (address : Address) : Returns KeepsBare (deleteAccount address) := by
  intro S v S' h hS
  have hreached := deleteAccount_ok hS.reached h
  refine ⟨hreached.coherent, hreached.supplied, ?_⟩
  obtain ⟨account, _, haccount, hrest⟩ := bind_eq_ok.1 h
  obtain ⟨rfl, hkey, he⟩ := ethereumAccountMut_ok hS haccount
  obtain ⟨_, _, hfail, hsave⟩ := bind_eq_ok.1 hrest
  obtain ⟨-, rfl⟩ := failIf_eq_ok.1 hfail
  obtain rfl := save_ok hsave
  rw [hkey]
  exact bare_setAccount he (Ledger.account_eq_some.1 he).2 fun _ => rfl

omit [Platform] [Runtime] in
/-- A deployment finds its account. -/
theorem deployContract_ok {code : Bytes} (h : deployContract a code S = .ok u S') :
    ∃ account : Handle EthereumAccount,
      (S.ethereumAccounts.lookup a).bind (S.ledger.handle? EthereumAccount) = some account ∧
      (save { account with
        data := { account.data with codeSize := code.length }
        rest := Chunks.overwrite account.rest INTERNAL_STORAGE_SIZE code }) S = .ok u S' := by
  obtain ⟨_, _, hget, h⟩ := bind_eq_ok.1 h
  obtain ⟨rfl, rfl⟩ := get_eq_ok.1 hget
  rcases haccount : (S.ethereumAccounts.lookup a).bind
    (S.ledger.handle? EthereumAccount) with _ | account
  · simp only [haccount] at h
    exact (fail_eq_ok.1 h).elim
  · simp only [haccount, bind_eq_ok, assertThat_eq_ok] at h
    obtain ⟨_, _, ⟨-, rfl⟩, _, _, ⟨-, rfl⟩, _, _, ⟨-, rfl⟩, hsave⟩ := h
    exact ⟨account, rfl, hsave⟩

/-- **A deployment** gives code to one account. -/
theorem deployContract_bare {code : Bytes} (hS : S.Coherent)
    (h : deployContract a code S = .ok u S') :
    S'.Coherent ∧ S'.solanaAccounts = S.solanaAccounts ∧
      ∀ b ≠ a, S.ledger.Bare b → S'.ledger.Bare b := by
  have hsteady := returns_deployContract a code _ _ _ h hS
  refine ⟨hsteady.coherent, hsteady.supplied, fun b hb hbare => ?_⟩
  obtain ⟨account, haccount, hsave⟩ := deployContract_ok h
  obtain ⟨hkey, he⟩ := hS.bind_handle haccount
  obtain rfl := save_ok hsave
  rw [hkey]
  exact bare_setAccount_of_ne he (Ledger.account_eq_some.1 he).2 hb hbare

/-! ## What comes before the actions -/

/-- A new account has no code. -/
theorem createAccountIfNotExists_bare (hS : S.Coherent) (hnamed : S.Named)
    (h : createAccountIfNotExists a S = .ok u S') : S.Barely S' := by
  have hreached := createAccountIfNotExists_ok hS.reached hnamed h
  refine ⟨hreached.coherent, hreached.supplied, ?_⟩
  obtain ⟨_, _, hget, h⟩ := bind_eq_ok.1 h
  obtain ⟨rfl, rfl⟩ := get_eq_ok.1 hget
  split_ifs at h with ha
  · obtain ⟨-, rfl⟩ := pure_eq_ok.1 h
    exact refl_of Ledger.KeepsBare S.ledger
  · rcases hs : S.solanaAccounts.lookup (a.findSolanaAddress programId).1 with _ | info
    · simp only [hs] at h
      exact (fail_eq_ok.1 h).elim
    · simp only [hs] at h
      obtain ⟨_, S₁, hinit, hmodify⟩ := bind_eq_ok.1 h
      obtain ⟨L, hL, rfl⟩ := zoom_eq_ok.1 hinit
      obtain rfl := modify_eq_ok.1 hmodify
      have hinfo : info.pubkey = a.key := hnamed hs
      obtain ⟨howner, htag, rfl⟩ := initAccount_ok hL
      rw [hinfo] at howner htag ⊢
      exact Ledger.keepsBare_setNew rfl howner
        (held_eq_none_of_tag (τ := EthereumAccount) htag Content.split_ethereum_of_tag) rfl

/-- **Creations and new sizes** give no code. -/
theorem processOperation_bare [Runtime.Lawful] {operator : Pubkey} {readiness : AccountsReadiness}
    {operation : Address × AccountOperation} :
    Returns (fun S S' : ProgramAccountStorage => S.ledger.KeepsBare S'.ledger)
      (processOperation operator readiness operation) := by
  intro S v S' h
  obtain ⟨a, operation⟩ := operation
  obtain ⟨_, _, hget, h⟩ := bind_eq_ok.1 h
  obtain ⟨rfl, rfl⟩ := get_eq_ok.1 hget
  split_ifs at h
  · rcases operation with space | ⟨source, target⟩
    · obtain ⟨_, S₁, hcreate, hpure⟩ := bind_eq_ok.1 h
      obtain ⟨-, rfl⟩ := pure_eq_ok.1 hpure
      obtain ⟨L, hL, rfl⟩ := zoom_eq_ok.1 hcreate
      obtain ⟨_, _, hfail, hcreate⟩ := bind_eq_ok.1 hL
      obtain ⟨-, rfl⟩ := failIf_eq_ok.1 hfail
      exact (returns_createPdaAccount _ _ _ _ _ _ _ _ hcreate).keepsBare
    · obtain ⟨_, S₁, hresize, hpure⟩ := bind_eq_ok.1 h
      obtain ⟨-, rfl⟩ := pure_eq_ok.1 hpure
      obtain ⟨L, hL, rfl⟩ := zoom_eq_ok.1 hresize
      obtain ⟨L₁, hforeign, -, rfl⟩ := resizeAccount_ok hL
      exact Trans.trans hforeign.keepsBare (Ledger.keepsBare_realloc _ _)
  · exact (fail_eq_ok.1 h).elim

theorem processAccountsOperations_bare [Runtime.Lawful] (hapart : AddressesApart)
    (hS : S.Coherent) {actions : List Action} {operator : Pubkey}
    {operations : List (Address × AccountOperation)} {readiness : AccountsReadiness}
    (hoperations : S.calcAccountsOperations actions = some operations)
    (h : processAccountsOperations operator operations S = .ok readiness S') : S.Barely S' := by
  have hreached := processAccountsOperations_ok hapart hS.reached hoperations h
  refine ⟨hreached.coherent, hreached.supplied, ?_⟩
  exact foldl_invariant (I := fun _ _ S' => S.ledger.KeepsBare S'.ledger)
    (fun _ _ _ _ _ _ _ _ hI hstep => Trans.trans hI (processOperation_bare _ _ _ hstep))
    (refl_of Ledger.KeepsBare S.ledger) h

/-! ## The actions -/

/-- **One action** gives code to the address that it names, if it names one. -/
theorem applyAction_bare [Runtime.Lawful] {storage storage' : Slots} {action : Action}
    (hforeign : action.IsForeign) (hS : S.Coherent)
    (h : applyAction storage action S = .ok storage' S') :
    S'.Coherent ∧ ∀ b, action.coded ≠ some b → S.ledger.Bare b → S'.ledger.Bare b := by
  have keeps {x : Apply Unit} {v : Slots} (hx : Returns KeepsBare x)
      (h : (do x; pure v : Apply Slots) S = .ok storage' S') :
      S'.Coherent ∧ ∀ b, action.coded ≠ some b → S.ledger.Bare b → S'.ledger.Bare b := by
    obtain ⟨_, S₁, hx₁, hpure⟩ := bind_eq_ok.1 h
    obtain ⟨-, rfl⟩ := pure_eq_ok.1 hpure
    have hbarely := hx _ _ _ hx₁ hS
    exact ⟨hbarely.coherent, fun b _ => hbarely.bare b⟩
  rcases action with ⟨id, accounts, data, seeds, fee⟩ | ⟨source, target, value⟩ | ⟨source, value⟩ |
    ⟨a, i, v⟩ | a | ⟨a, code⟩ | a
  · exact keeps (keepsBare_invokeExternal (show id ≠ programId from hforeign)) h
  · exact keeps (keepsBare_transferNeonTokens _ _ _) h
  · exact keeps (keepsBare_withdraw _ _) h
  · obtain ⟨-, rfl⟩ := pure_eq_ok.1 h
    exact ⟨hS, fun _ _ hb => hb⟩
  · exact keeps (keepsBare_incrementNonce _) h
  · obtain ⟨_, S₁, hdeploy, hpure⟩ := bind_eq_ok.1 h
    obtain ⟨-, rfl⟩ := pure_eq_ok.1 hpure
    obtain ⟨hcoherent, -, hbare⟩ := deployContract_bare hS hdeploy
    exact ⟨hcoherent, fun b hb => hbare b fun hba => hb (congrArg some hba.symm)⟩
  · exact keeps (keepsBare_deleteAccount _) h

/-- **`apply_state_change` comes to the deployment** of an address, in `S'`. -/
inductive Deploys (operator : Pubkey) (actions : List Action) (S : ProgramAccountStorage)
    (address : Address) (S' : ProgramAccountStorage) : Prop
  | intro {operations : List (Address × AccountOperation)} {readiness : AccountsReadiness}
      {S₁ S₂ : ProgramAccountStorage} {before after : List Action} {code : Buffer} {storage : Slots}
      (hoperations : S.calcAccountsOperations (rearrangeActions actions) = some operations)
      (hprocess : processAccountsOperations operator operations S = .ok readiness S₁)
      (hready : readiness ≠ .needMoreReallocations)
      (hcreate : foldl (fun _ address => createAccountIfNotExists address) ()
        (((rearrangeActions actions).filterMap Action.spaceNeeded).map Prod.fst) S₁ = .ok () S₂)
      (hactions : rearrangeActions actions = before ++ .evmSetCode address code :: after)
      (happly : foldl applyAction ∅ before S₂ = .ok storage S') :
      Deploys operator actions S address S'

/-- **An application that comes through** has come to each of its deployments. -/
theorem Deploys.of_ready {operator : Pubkey} {actions : List Action} {code : Buffer}
    (h : applyStateChange operator actions S = .ok .ready S')
    (hmem : .evmSetCode a code ∈ rearrangeActions actions) :
    ∃ S₁, S.Deploys operator actions a S₁ := by
  obtain ⟨before, after, hactions⟩ := List.append_of_mem hmem
  obtain ⟨_, _, hget, h⟩ := bind_eq_ok.1 h
  obtain ⟨rfl, rfl⟩ := get_eq_ok.1 hget
  obtain ⟨operations, _, hcalc, h⟩ := bind_eq_ok.1 h
  obtain ⟨hoperations, rfl⟩ := ofOption_eq_ok.1 hcalc
  obtain ⟨readiness, S₁, hprocess, h⟩ := bind_eq_ok.1 h
  split_ifs at h with hready
  · cases (pure_eq_ok.1 h).1
  · obtain ⟨_, S₂, hcreate, h⟩ := bind_eq_ok.1 h
    obtain ⟨_, S₃, happly, -⟩ := bind_eq_ok.1 h
    rw [hactions, foldl_append, ← bind_run] at happly
    obtain ⟨storage, S₄, hbefore, -⟩ := bind_eq_ok.1 happly
    exact ⟨S₄, .intro hoperations hprocess hready hcreate hactions hbefore⟩

/-- **From there `apply_state_change` goes on** with `deploy_contract`. -/
theorem Deploys.goes_on {operator : Pubkey} {actions : List Action}
    (h : S.Deploys operator actions a S') :
    ∃ (code : Buffer) (storage : Slots) (after : List Action),
      .evmSetCode a code ∈ actions ∧
      applyStateChange operator actions S = (do
        deployContract a code.toList
        let storage ← foldl applyAction storage after
        applyStorage operator storage
        pure AccountsReadiness.ready) S' := by
  obtain ⟨hoperations, hprocess, hready, hcreate, hactions, happly⟩ := h
  rename_i operations readiness S₁ S₂ before after code storage
  refine ⟨code, storage, after, ?_, ?_⟩
  · refine (mem_rearrangeActions.1 ?_).1
    rw [hactions]
    exact List.mem_append_right _ List.mem_cons_self
  · rw [hactions] at hoperations hcreate
    simp only [applyStateChange, bind_run, get_run, Outcome.ok_andThen, hactions, hoperations,
      ofOption, pure_run, hprocess, if_neg hready, hcreate, foldl_append, happly]
    show (((deployContract a code.toList >>= fun _ => (pure storage : Apply Slots)) >>= fun storage =>
      foldl applyAction storage after) S').andThen _ = _
    simp only [bind_run, Outcome.andThen_assoc]
    rfl

omit [Platform] [Runtime] in
theorem coded_eq_some {x : Action} (h : x.coded = some a) : ∃ code, x = .evmSetCode a code := by
  rcases x with _ | _ | _ | _ | _ | ⟨b, code⟩ | _
  case evmSetCode => exact ⟨code, by rw [Option.some.inj h]⟩
  all_goals cases h

omit [Platform] [Runtime] in
/-- The addresses that get code, in the order in which they are applied. -/
theorem codedBy_rearrange_sublist (actions : List Action) :
    (codedBy (rearrangeActions actions)).Sublist (codedBy actions) := by
  have hdestroys : codedBy (actions.filter (·.destroyed.isSome)) = [] := by
    refine List.filterMap_eq_nil_iff.2 fun x hx => ?_
    obtain ⟨b, hb⟩ := Option.isSome_iff_exists.1 (List.mem_filter.1 hx).2
    rw [destroyed_eq_some.1 hb]
    rfl
  rw [rearrangeActions, codedBy, Redeem.redeemed_append,
    show deployments.redeemed (actions.filter (·.destroyed.isSome)) = [] from hdestroys,
    List.append_nil]
  exact List.filter_sublist.filterMap _

/-- **The account of a deployment has no code**, if none of the addresses has, and none gets code
twice. -/
theorem Deploys.codeSize_eq_zero [Runtime.Lawful] (hapart : AddressesApart) {operator : Pubkey}
    {actions : List Action} (h : Deploys operator actions S a S') (hS : S.Coherent)
    (hnamed : S.Named) (hforeign : ∀ x ∈ actions, x.IsForeign) (hnodup : (codedBy actions).Nodup)
    (hbare : ∀ b ∈ codedBy actions, S.ledger.Bare b) {account : Handle EthereumAccount}
    (haccount : (S'.ethereumAccounts.lookup a).bind (S'.ledger.handle? EthereumAccount) =
      some account) : account.data.codeSize = 0 := by
  obtain ⟨hoperations, hprocess, -, hcreate, hactions, happly⟩ := h
  rename_i operations readiness S₁ S₂ before after code storage
  have hsub := codedBy_rearrange_sublist actions
  have hsized := processAccountsOperations_bare hapart hS hoperations hprocess
  have hcreated : S.Barely S₂ := by
    refine foldl_invariant (I := fun _ _ S' => S.Barely S') (fun _ _ _ _ T _ T' _ hI hstep => ?_)
      hsized hcreate
    have hstep' := createAccountIfNotExists_bare hI.coherent
      (fun hk => hnamed (hI.supplied ▸ hk)) hstep
    exact ⟨hstep'.coherent, hstep'.supplied.trans hI.supplied, Trans.trans hI.bare hstep'.bare⟩
  have happlied : S'.Coherent ∧
      ∀ b ∈ codedBy (rearrangeActions actions), b ∉ codedBy before → S'.ledger.Bare b := by
    refine foldl_invariant (I := fun done _ S' => S'.Coherent ∧
      ∀ b ∈ codedBy (rearrangeActions actions), b ∉ codedBy done → S'.ledger.Bare b) ?_
      ⟨hcreated.coherent, fun b hb _ => hcreated.bare b (hbare b (hsub.subset hb))⟩ happly
    rintro done x rest _ T _ T' hsplit ⟨hT, hI⟩ hstep
    have hx : x ∈ rearrangeActions actions := by
      rw [hactions, hsplit]
      exact List.mem_append_left _ (List.mem_append_right _ List.mem_cons_self)
    obtain ⟨hT', hkeeps⟩ := applyAction_bare (hforeign x (mem_rearrangeActions.1 hx).1) hT hstep
    refine ⟨hT', fun b hb hnot => ?_⟩
    rw [codedBy, Redeem.redeemed_append, List.mem_append, not_or] at hnot
    exact hkeeps b (fun hcoded => hnot.2 (List.mem_filterMap.2 ⟨x, List.mem_singleton_self x, hcoded⟩))
      (hI b hb hnot.1)
  have hcodes : codedBy (rearrangeActions actions) = codedBy before ++ a :: codedBy after := by
    rw [hactions, codedBy, Redeem.redeemed_append]
    exact congrArg _ (List.filterMap_cons_some rfl)
  have hfresh : a ∉ codedBy before := by
    have hdisjoint := hnodup.sublist hsub
    rw [hcodes, List.nodup_append] at hdisjoint
    exact fun hmem => hdisjoint.2.2 a hmem a List.mem_cons_self rfl
  obtain ⟨-, he⟩ := happlied.1.bind_handle haccount
  exact happlied.2 a (hcodes ▸ List.mem_append_right _ List.mem_cons_self) hfresh _ he

/-- **What reads as no code** has none. -/
theorem Coherent.bare_of_codeSize [Runtime.Lawful] (hS : S.Coherent)
    (h : S.codeSize a = some 0) : S.ledger.Bare a := by
  obtain ⟨account, haccount, hsize⟩ := Option.map_eq_some_iff.1 h
  intro e he
  rw [ethereumAccount] at haccount
  rcases hk : S.ethereumAccounts.lookup a with _ | k
  · simp only [hk] at haccount
    split_ifs at haccount with hempty
    rw [Bool.and_eq_true] at hempty
    rw [account_eq_none_of_empty hempty.2] at he
    cases he
  · obtain ⟨d, rest, hd, hhandle⟩ := hS.handle hk
    simp only [hk, hhandle] at haccount
    obtain rfl := Option.some.inj haccount
    rw [← Option.some.inj (hd.symm.trans he)]
    exact hsize

end ProgramAccountStorage

/-! ## A run, and its journal applied -/

variable {B : AccountStorage} {trx : Transaction} {origin : Address} {x y : Session} {s : Evm}

/-- Other programs are asked, if those that the builders build for are others. -/
theorem Session.Starts.isForeign (hstart : Session.Starts B trx origin x)
    (hrun : Session.Run B (fun _ _ => True) x y) (hs : y.progress.state = some s)
    (hforeign : ∀ caller before after a, Request B caller (fun _ _ _ => True) before after a →
      a.IsForeign) : ∀ a ∈ s.backend.actions, a.IsForeign := by
  intro a ha
  rcases hi : a.isInstruction
  · cases a with
    | externalInstruction => exact nomatch hi
    | _ => trivial
  · obtain ⟨before, after, ha⟩ := List.append_of_mem ha
    obtain ⟨_, _, _, _, after, caller, -, -, -, -, -, -, -, hrequest⟩ :=
      hstart.asked tells_nothing hrun (fun _ _ => trivial) hs ⟨after, ha⟩ hi
    exact hforeign caller before after a hrequest

/-- **An address gets code at most once**, and only where nothing is: a creation at an address that
has got code fails, the first code in the journal is the last, and when the journal is applied each
deployment starts from an account without code. -/
theorem code_given_once [Runtime.Lawful] (hapart : AddressesApart)
    (hforeign : ∀ caller before after a, Request B caller (fun _ _ _ => True) before after a →
      a.IsForeign) (hstart : Session.Starts B trx origin x)
    (hrun : Session.Run B (fun _ _ => True) x y)
    (hs : y.progress.state = some s) :
    (codedBy s.backend.actions).Nodup ∧
    (∀ a ∈ codedBy s.backend.actions, B.nonce a = some 0 ∧ B.codeSize a = some 0) ∧
    (∀ opcode t args c u, y.progress = .running s → Evm.fetch s = .ok opcode t →
      Evm.popCreation B (tableOf y.isEof opcode) = some args → args t = .ok c u →
      c.address ∈ codedBy s.backend.actions →
      (∃ e v, (y.after B .next).progress = .failed e v) ∨
        (∃ p, (y.after B .next).progress = .panicked p) ∧ (B.Answers → y.Aborts B .next)) ∧
    (∀ a, Overlay.code a s.backend.actions =
      s.backend.actions.reverse.findSome? (Overlay.codeOf a)) ∧
    ∀ operator a (S S' : ProgramAccountStorage) (account : Handle EthereumAccount),
      S.Coherent → S.Named → (∀ b, B.codeSize b = some 0 → S.codeSize b = some 0) →
      S.Deploys operator s.backend.actions a S' →
      (S'.ethereumAccounts.lookup a).bind (S'.ledger.handle? EthereumAccount) = some account →
      account.data.codeSize = 0 ∧
        ∃ (code : Buffer) (storage : ProgramAccountStorage.Slots) (after : List Action),
          .evmSetCode a code ∈ s.backend.actions ∧
          ProgramAccountStorage.applyStateChange operator s.backend.actions S = (do
            ProgramAccountStorage.deployContract a code.toList
            let storage ← foldl ProgramAccountStorage.applyAction storage after
            ProgramAccountStorage.applyStorage operator storage
            pure AccountsReadiness.ready) S' := by
  have hcodes := Session.codeOnce_run hstart.codeOnce hrun
  have horderly := hcodes.orderly hs
  refine ⟨horderly.nodup, fun a ha => horderly.vacant a ha, ?_, Overlay.code_eq_last horderly.nodup, ?_⟩
  · intro opcode t args c u hrunning hfetch hop hargs hmem
    rcases Session.creation_fails hcodes hrunning hfetch hop hargs hmem with hfails | ⟨p, hp, hpanic⟩
    · exact .inl hfails
    · exact .inr ⟨⟨p, hpanic⟩, fun hB => Session.creation_aborts hB ⟨s, hrunning, hfetch⟩ hop hp⟩
  · intro operator a S S' account hS hnamed hsize hdeploys haccount
    refine ⟨?_, hdeploys.goes_on⟩
    exact hdeploys.codeSize_eq_zero hapart hS hnamed (hstart.isForeign hrun hs hforeign)
      horderly.nodup (fun b hb => hS.bare_of_codeSize (hsize b (horderly.vacant b hb).2)) haccount

omit [Platform] [Runtime] in
/-- The builders of the platform build for other programs. -/
theorem Platform.apart_isForeign (B : AccountStorage) :
    let _ := Platform.apart
    let _ := Runtime.bare
    ∀ caller before after a, Request B caller (fun _ _ _ => True) before after a →
      a.IsForeign := by
  let _ := Platform.apart
  let _ := Runtime.bare
  show ∀ caller before after a, Request B caller (fun _ _ _ => True) before after a → a.IsForeign
  intro caller before after a h
  cases h with
  | pool target hmod hmax h => exact nomatch h
  | token h => cases h <;> contradiction
  | transferWithSeed seed h => exact nomatch h
  | initializeMint seed mintAuthority freezeAuthority decimals h => exact nomatch h
  | initializeAccount seed mint owner h => exact nomatch h
  | rent | allocate | assign => exact (by decide : (0 : Pubkey) ≠ 9)
  | targetToken target h => exact (by decide : (2 : Pubkey) ≠ 9)
  | metadata | masterEdition => exact (by decide : (3 : Pubkey) ≠ 9)

/-! ## One contract that creates twice -/

/-- A contract that creates one with a byte of code, and then another one in the same way. -/
def twiceCreator : Bytes :=
  [0x63, 0x60, 0x01, 0x5F, 0xF3, 0x5F, 0x52, 0x60, 0x04, 0x60, 0x1C, 0x5F, 0xF0,
    0x60, 0x04, 0x60, 0x1C, 0x5F, 0xF0, 0x00]

/-- Blank accounts of ours for the addresses `0`, `0x100` and `0x999`. -/
def blankAccounts : Ledger := fun k =>
  if k = 16 ∨ k = 16 + 0x100 ∨ k = 16 + 0x999 then
    ⟨10 ^ 9, 9, .raw (List.replicate 4000 0), false, 0⟩
  else ⟨0, 0, .raw [], false, 0⟩

/-- The creator is at `0x100`, and `0x999` sends to it. -/
def creatorLedger : Ledger :=
  (blankAccounts.setContent (16 + 0x999) (.ethereum (EthereumAccount.new 0x999 255) [])).setContent
    (16 + 0x100) (.ethereum { EthereumAccount.new 0x100 255 with codeSize := twiceCreator.length }
      (List.replicate INTERNAL_STORAGE_SIZE 0 ++ twiceCreator))

/-- The accounts, as they are supplied. -/
def creatorAccounts : List AccountMeta :=
  [⟨16, false, true⟩, ⟨16 + 0x100, false, true⟩, ⟨16 + 0x999, false, true⟩]

omit [Platform] [Runtime] in
theorem sound_creatorLedger :
    let _ := Platform.apart
    let _ := Runtime.bare
    creatorLedger.Sound := by
  let _ := Platform.apart
  let _ := Runtime.bare
  have hblank : blankAccounts.Sound := Ledger.sound_of_raw fun k => by
    rw [blankAccounts]
    split_ifs <;> exact ⟨_, rfl⟩
  have hsender : (blankAccounts.setContent (16 + 0x999)
      (.ethereum (EthereumAccount.new 0x999 255) [])).Sound :=
    hblank.setAccount (by decide +kernel) (by decide) (fun e he => by cases he)
      ⟨fun _ _ hb => (by cases hb), fun h => (h rfl).elim⟩
  refine hsender.setAccount (by decide +kernel) (by decide) (fun e he => by cases he)
    ⟨fun h => (by cases h), fun _ => by decide +kernel⟩

open ProgramAccountStorage in
/-- The run has come to its second creation, which fails; what the first one wrote can be applied. -/
def createsTwice : Bool :=
  let _ := Platform.apart
  let _ := Runtime.bare
  (new ⟨0, 0⟩ sender none creatorAccounts creatorLedger).okAnd fun S _ =>
    (Machine.new S.backend (.callOf 0x100) 0x999 (ExecutorState.new S.backend)).okAnd fun m b =>
      ((Session.enter ⟨m.frame, m.parents, b, none⟩).follow S.backend (fun _ => true) 13).any fun y =>
        (y.after S.backend .next).progress.hasFailed && !y.isEof && !y.progress.hasFailed &&
          y.progress.current.any fun s =>
            codedBy s.backend.actions = [0] &&
            ((rearrangeActions s.backend.actions).any fun x => x.coded = some 0) &&
            ((Evm.fetch s).okAnd fun opcode t => opcode = 0xF0 &&
              (Evm.popCreate S.backend t).okAnd fun c _ => c.address = 0) &&
            (applyStateChange sender.pubkey s.backend.actions S).okAnd fun readiness _ =>
              readiness = .ready

open ProgramAccountStorage in
omit [Platform] [Runtime] in
/-- Two creations at one address: the second fails, and the first is deployed to an account without
code. -/
theorem code_given_once_twice :
    let _ := Platform.apart
    let _ := Runtime.bare
    ∃ (B : AccountStorage) (x y : Session) (s : Evm) (S S' : ProgramAccountStorage)
      (account : Handle EthereumAccount),
      Session.Starts B (.callOf 0x100) 0x999 x ∧ Session.Run B (fun _ _ => True) x y ∧
      y.progress.state = some s ∧ codedBy s.backend.actions = [0] ∧
      B.nonce 0 = some 0 ∧ B.codeSize 0 = some 0 ∧
      (∃ e v, (y.after B .next).progress = .failed e v) ∧
      S.Deploys sender.pubkey s.backend.actions 0 S' ∧
      (S'.ethereumAccounts.lookup 0).bind (S'.ledger.handle? EthereumAccount) = some account ∧
      account.data.codeSize = 0 := by
  let _ := Platform.apart
  let _ := Runtime.bare
  have hlawful : Runtime.Lawful := Runtime.bare_lawful
  have htest : createsTwice = true := by decide +kernel
  unfold createsTwice at htest
  obtain ⟨S, L, hnew, htest⟩ := Outcome.exists_of_okAnd htest
  obtain ⟨m, b, hmachine, htest⟩ := Outcome.exists_of_okAnd htest
  obtain ⟨y, hy, htest⟩ := Option.any_eq_true _ _ |>.1 htest
  simp only [Bool.and_eq_true, Bool.not_eq_true', Option.any_eq_true] at htest
  obtain ⟨⟨⟨hfailed, hlegacy⟩, hruns⟩, s, hs, ⟨⟨hcodes, hcoded⟩, hfetch⟩, happly⟩ := htest
  have hcodes : codedBy s.backend.actions = [0] := of_decide_eq_true hcodes
  have hrunning : y.progress = .running s := by
    cases hp : y.progress with
    | running t => rw [hp] at hs; exact congrArg _ (Option.some.inj hs)
    | failed e t => rw [hp] at hruns; cases hruns
    | _ => rw [hp] at hs; cases hs
  have hstart : Session.Starts S.backend (.callOf 0x100) 0x999
      (Session.enter ⟨m.frame, m.parents, b, none⟩) := ⟨m, b, none, hmachine, rfl⟩
  have hrun := Session.follow_run (G := fun _ _ => True) (fun _ _ => trivial) hy
  obtain ⟨-, hvacant, hcreation, -, hdeploys⟩ := code_given_once Platform.addressesApart
    (Platform.apart_isForeign S.backend) hstart hrun (Progress.state_of_current hs)
  -- the second creation
  obtain ⟨opcode, t, hfetch, hargs⟩ := Outcome.exists_of_okAnd hfetch
  obtain ⟨hopcode, hargs⟩ := Bool.and_eq_true_iff.1 hargs
  obtain rfl := of_decide_eq_true hopcode
  obtain ⟨c, u, hargs, haddress⟩ := Outcome.exists_of_okAnd hargs
  have hmem : c.address ∈ codedBy s.backend.actions := by
    rw [hcodes, of_decide_eq_true haddress]
    exact List.mem_singleton_self _
  have hfails := hcreation 0xF0 t (Evm.popCreate S.backend) c u hrunning hfetch
    (by rw [hlegacy]; rfl) hargs hmem
  -- the deployment of the first
  obtain ⟨readiness, S₁, happly, hready⟩ := Outcome.exists_of_okAnd happly
  obtain rfl := of_decide_eq_true hready
  obtain ⟨a, ha, hcoded⟩ := List.any_eq_true.1 hcoded
  obtain ⟨code, rfl⟩ := coded_eq_some (of_decide_eq_true hcoded)
  obtain ⟨S', hS'⟩ := Deploys.of_ready happly ha
  obtain ⟨code', storage, after, -, hgoesOn⟩ := hS'.goes_on
  obtain ⟨_, S₂, hdeploy, -⟩ := bind_eq_ok.1 (hgoesOn.symm.trans happly)
  obtain ⟨account, haccount, -⟩ := deployContract_ok hdeploy
  obtain ⟨-, hcoherent, -, -⟩ := new_ok sound_creatorLedger hnew
  refine ⟨S.backend, _, y, s, S, S', account, hstart, hrun, Progress.state_of_current hs, hcodes,
    (hvacant 0 (hcodes ▸ List.mem_singleton_self _)).1,
    (hvacant 0 (hcodes ▸ List.mem_singleton_self _)).2, ?_, hS', haccount,
    (hdeploys sender.pubkey 0 S S' account hcoherent (new_named hnew) (fun _ h => h) hS'
      haccount).1⟩
  refine hfails.resolve_right fun hpanics => ?_
  obtain ⟨p, hp⟩ := hpanics.1
  rw [hp] at hfailed
  cases hfailed

end NeonEvm
