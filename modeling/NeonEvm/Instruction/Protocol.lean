import NeonEvm.AccountStorage.Deployment
import NeonEvm.Instruction.BlockAdd
import NeonEvm.Instruction.Entrypoint
import NeonEvm.Instruction.UnderWay

/-!
# Instruction/Protocol — every instruction is a turn

    cancel                  unlock what is on the list
    block more accounts     lock what is new on the list

Whoever calls the program, with whatever accounts and bytes: an instruction that succeeds is a turn
of the state that it names first.
-/

namespace NeonEvm

open Exec Packable ProgramAccountStorage

variable [Platform] [Runtime]

variable {L L' : Ledger} {u : Unit} {caller : Address} {k : Pubkey}

/-! ## Cancelling -/

/-- Locks are opened, on the accounts that are worked on. -/
structure Ledger.Frees (ks : Set Pubkey) (L L' : Ledger) : Prop where
  within : L.Within (· ∈ ks) (fun _ => False) L'
  locked : L'.locked = L.locked \ ks
  bypasses : L.Bypasses L'

/-- **One account** that was listed is unlocked, if it is there. -/
theorem cancelAccount_ok {m : BlockedAccountMeta} {i : AccountMeta} (hkey : m.key = i.pubkey)
    (h : cancelAccount caller m i L = .ok u L') :
    L.Frees {k | m.key = k ∧ m.exists_ = true} L' := by
  have hstay (hfree : ∀ k, m.key = k → m.exists_ = true → k ∉ L.locked) :
      L.Frees {k | m.key = k ∧ m.exists_ = true} L :=
    ⟨.refl, Set.ext fun k => ⟨fun hk => ⟨hk, fun hm => hfree k hm.1 hm.2 hk⟩, And.left⟩,
      refl_of Ledger.Bypasses L⟩
  unfold cancelAccount at h
  split_ifs at h with hexists
  · obtain ⟨-, rfl⟩ := pure_eq_ok.1 h
    refine hstay fun _ _ htrue => ?_
    rw [htrue] at hexists
    cases hexists
  · simp only [bind_run, tryOpen_ethereum, Outcome.ok_andThen] at h
    have htrue : m.exists_ = true := by simpa using hexists
    rcases hd : L.held EthereumAccount i.pubkey with _ | ⟨d, rest⟩
    · simp only [hd] at h
      obtain ⟨-, rfl⟩ := pure_eq_ok.1 h
      refine hstay fun k hk _ => ?_
      rintro ⟨d, rest, he, -⟩
      rw [← hk, hkey, hd] at he
      cases he
    · simp only [hd] at h
      obtain ⟨_, _, hassert, h⟩ := bind_eq_ok.1 h
      obtain ⟨-, rfl⟩ := assertThat_eq_ok.1 hassert
      obtain rfl := modify_eq_ok.1 h
      refine ⟨Ledger.within_setAccount hd rfl fun hk => (hk ⟨hkey, htrue⟩).elim,
        Set.ext fun k => ?_, Ledger.bypasses_setAccount hd rfl rfl rfl⟩
      rw [Set.mem_sdiff, Set.mem_ofPred_eq]
      by_cases hk : k = i.pubkey
      · rw [hk]
        refine ⟨?_, fun hmem => (hmem.2 ⟨hkey, htrue⟩).elim⟩
        rintro ⟨e, r, he, hlocked⟩
        rw [Ledger.held_setContent, if_pos rfl, if_pos (Ledger.held_ethereum.1 hd).1] at he
        obtain ⟨rfl, -⟩ := Prod.mk.inj (Option.some.inj he)
        cases hlocked
      · rw [Ledger.locked, Ledger.locked, Set.mem_ofPred_eq, Set.mem_ofPred_eq,
          Ledger.held_setContent, if_neg hk]
        exact (and_iff_left fun hm => hk (hm.1.symm.trans hkey)).symm

/-- **All accounts** that were listed. -/
theorem foldl_cancelAccount_ok {es : List (BlockedAccountMeta × AccountMeta)}
    (hkeys : ∀ e ∈ es, e.1.key = e.2.pubkey)
    (h : foldl (fun _ e => cancelAccount caller e.1 e.2) () es L = .ok u L') :
    L.Frees {k | ∃ e ∈ es, e.1.key = k ∧ e.1.exists_ = true} L' := by
  refine foldl_invariant (I := fun done _ L₁ =>
    L.Frees {k | ∃ e ∈ done, e.1.key = k ∧ e.1.exists_ = true} L₁) ?_ ?_ h
  · intro done e rest _ L₁ _ L₂ hes hdone he
    have hstep := cancelAccount_ok (hkeys e (hes ▸ List.mem_append_right _ List.mem_cons_self)) he
    have hsplit : {k | ∃ e' ∈ done ++ [e], e'.1.key = k ∧ e'.1.exists_ = true} =
        {k | ∃ e' ∈ done, e'.1.key = k ∧ e'.1.exists_ = true} ∪
          {k | e.1.key = k ∧ e.1.exists_ = true} := by
      ext k
      simp only [Set.mem_union, Set.mem_ofPred_eq, List.mem_append, List.mem_singleton,
        or_and_right, exists_or, exists_eq_left]
    rw [hsplit]
    refine ⟨(hdone.within.mono (fun _ => .inl) fun _ hf => hf).trans
      (hstep.within.mono (fun _ => .inr) fun _ hf => hf), ?_, hdone.bypasses.trans hstep.bypasses⟩
    rw [hstep.locked, hdone.locked, Set.sdiff_sdiff]
  · refine ⟨.refl, Set.ext fun k => ⟨fun hk => ⟨hk, ?_⟩, And.left⟩, refl_of Ledger.Bypasses L⟩
    rintro ⟨_, he, -⟩
    exact (List.not_mem_nil he).elim

section

variable [Config] [Bincode]

/-- **A transaction is cancelled**: what it had locked is free. -/
theorem turn_cancel {clock : Clock} {infos : List AccountMeta} {instruction : Bytes}
    (h : transactionCancel clock infos instruction L = .ok u L') :
    ∃ info, infos[0]? = some info ∧ L.Turn (some info.pubkey) L' := by
  unfold transactionCancel at h
  obtain ⟨info, _, hinfo, h⟩ := bind_eq_ok.1 h
  obtain ⟨hfirst, rfl⟩ := ofOption_eq_ok.1 hinfo
  refine ⟨info, hfirst, ?_⟩
  obtain ⟨_, _, hinfo, h⟩ := bind_eq_ok.1 h
  obtain ⟨-, rfl⟩ := ofOption_eq_ok.1 hinfo
  obtain ⟨operator, _, hoperator, h⟩ := bind_eq_ok.1 h
  obtain ⟨rfl, -, -⟩ := operatorFromAccount_ok hoperator
  obtain ⟨_, _, hinfo, h⟩ := bind_eq_ok.1 h
  obtain ⟨-, rfl⟩ := ofOption_eq_ok.1 hinfo
  obtain ⟨incinerator, _, hincinerator, h⟩ := bind_eq_ok.1 h
  obtain rfl := (reads_programFromAccount _ _).returns _ _ _ hincinerator
  obtain ⟨⟨state, blocked⟩, _, hrestore, h⟩ := bind_eq_ok.1 h
  obtain ⟨rfl, -, d, op, slot, hheld, hdata, rfl, hfits⟩ := State.restore_ok hrestore
  obtain ⟨_, _, hhash, h⟩ := bind_eq_ok.1 h
  obtain ⟨-, rfl⟩ := lift_eq_ok.1 hhash
  obtain ⟨_, _, hfail, h⟩ := bind_eq_ok.1 h
  obtain ⟨-, rfl⟩ := failIf_eq_ok.1 hfail
  obtain ⟨_, L₁, hcancel, h⟩ := bind_eq_ok.1 h
  obtain ⟨L₂, f, rest, hforeign, rfl⟩ := finalize_ok h
  have hkeys : ∀ e ∈ (d.listed state.rest).zip (infos.drop 3), e.1.key = e.2.pubkey := by
    intro e he
    exact ((List.forall₂_iff_zip.1 hfits).2 he).key
  have hfrees := foldl_cancelAccount_ok hkeys hcancel
  have hclaims : {k | ∃ e ∈ (d.listed state.rest).zip (infos.drop 3), e.1.key = k ∧
      e.1.exists_ = true} = L.claims (some info.pubkey) := by
    rw [Ledger.claims_of_held hheld]
    ext k
    rw [Set.mem_ofPred_eq, Set.mem_ofPred_eq]
    conv_rhs => rw [← List.map_fst_zip hfits.length_eq.le]
    constructor
    · rintro ⟨e, he, hm⟩
      exact ⟨e.1, List.mem_map.2 ⟨e, he, rfl⟩, hm⟩
    · rintro ⟨m, hm, hlisted⟩
      obtain ⟨e, he, rfl⟩ := List.mem_map.1 hm
      exact ⟨e, he, hlisted⟩
  rw [hclaims] at hfrees
  have hwithin : L.Within (· ∈ L.claims (some info.pubkey)) (· = info.pubkey) L₁ :=
    hfrees.within.mono (fun _ hk => hk) fun _ hk => hk.elim
  refine .ended (hwithin.trans hforeign.within) (fun _ hk _ => hk) ?_ ?_
    (hfrees.bypasses.trans hforeign.bypasses).recorded f rest
  · rw [hforeign.held_eq (fun _ => rfl), hfrees.within.held_state, hheld]
    rfl
  · rw [hforeign.locked, hfrees.locked]

/-! ## More accounts -/

/-- **More accounts** are locked, which were free. -/
theorem turn_blockAdd (hL : L.Ordered) {a : BlockAdd} (h : a.run L = .ok u L') :
    ∃ info, a.accounts[0]? = some info ∧ L.Turn (some info.pubkey) L' := by
  obtain ⟨info, d, rest, hfirst, hheld⟩ : ∃ info d rest, a.accounts[0]? = some info ∧
      L.held State info.pubkey = some (d, rest) := by
    unfold BlockAdd.run accountBlockAdd at h
    obtain ⟨_, _, hlevel, h⟩ := bind_eq_ok.1 h
    obtain ⟨-, rfl⟩ := assertThat_eq_ok.1 hlevel
    obtain ⟨info, _, hinfo, h⟩ := bind_eq_ok.1 h
    obtain ⟨hfirst, rfl⟩ := ofOption_eq_ok.1 hinfo
    obtain ⟨⟨d, rest⟩, _, hopen, -⟩ := bind_eq_ok.1 h
    obtain ⟨rfl, hheld⟩ := openAccount_ok hopen
    exact ⟨info, d, rest, hfirst, hheld⟩
  refine ⟨info, hfirst, ?_⟩
  have hkey {i : AccountMeta} (hi : a.accounts[0]? = some i) : i.pubkey = info.pubkey :=
    congrArg (·.pubkey) (Option.some.inj (hi.symm.trans hfirst))
  obtain ⟨old, hold, ⟨d', rest', -, -, hsaved, hread, rfl⟩, hcan⟩ := BlockAdd.run_ok hkey hheld h
  obtain ⟨-, rfl⟩ := State.readBlockedAccounts_eq_ok.1 hold
  obtain ⟨-, hlisted⟩ := State.readBlockedAccounts_eq_ok.1 hread
  generalize hnew : L.newlyBlocked _ a.named = new at hcan hlisted
  have hfree : ∀ k ∈ {k | k ∈ new.map (·.key) ∧ (L.held EthereumAccount k).isSome = true},
      k ∉ L.locked := by
    rintro k ⟨hk, -⟩ ⟨e, r, he, hlocked⟩
    obtain ⟨m, hm, rfl⟩ := List.mem_map.1 hk
    rw [(hcan m hm e r he).1] at hlocked
    cases hlocked
  have hwithin : L.Within (fun k => k ∈ new.map (·.key) ∧ (L.held EthereumAccount k).isSome = true)
      (· = info.pubkey) (L.locking true (new.map (·.key))) :=
    Ledger.within_locking fun k hk hsome => ⟨hk, hsome⟩
  refine .goesOn hwithin (fun k hk hlocked => (hfree k hk hlocked).elim) ?_ ?_ hfree
    Ledger.locked_locking_true ?_ Ledger.bypasses_locking.recorded
  · rw [Ledger.held_locking fun _ _ => rfl, hheld]
    rfl
  · exact fun hbytes hb => hL.saves hheld (hsaved.symm.trans hbytes) hb
  · have hlisted : d'.listed rest' = d.listed rest ++ new := hlisted
    rw [hlisted, Ledger.claims_of_held hheld]
    ext k
    simp only [Set.mem_union, Set.mem_ofPred_eq, List.mem_append, or_and_right, exists_or]
    refine or_congr_right ⟨?_, ?_⟩
    · rintro ⟨m, hm, rfl, hexists⟩
      obtain ⟨-, i, -, rfl⟩ := Ledger.mem_newlyBlocked (hnew ▸ hm)
      exact ⟨List.mem_map.2 ⟨_, hm, rfl⟩, hexists⟩
    · rintro ⟨hk, hsome⟩
      obtain ⟨m, hm, rfl⟩ := List.mem_map.1 hk
      obtain ⟨-, i, -, rfl⟩ := Ledger.mem_newlyBlocked (hnew ▸ hm)
      exact ⟨_, hm, rfl, hsome⟩

end

/-! ## Every instruction is a turn -/

section

variable [RlpCrate] [Config] [Bincode] [Runtime.Lawful] {clock : Clock} {infos : List AccountMeta}
  {instruction : Bytes} {fuel stepCount : ℕ} {info : AccountMeta} {accounts : StepAccounts}
  {S : ProgramAccountStorage}

omit [Platform] [Runtime] [RlpCrate] [Config] [Bincode] [Runtime.Lawful] in
theorem reads_gasometerNew (paidGas : Option U256) (operator : Pubkey) :
    Moves Eq (Gasometer.new paidGas operator) :=
  moves_bind (moves_gets _) fun _ => moves_pure _

omit [Platform] [Runtime] [RlpCrate] [Config] [Bincode] [Runtime.Lawful] in
theorem reads_beginGas (accounts : StepAccounts) : Moves Eq (beginGas accounts) :=
  moves_bind (reads_gasometerNew _ _) fun _ => moves_pure _

omit [Config] [Bincode] [Runtime.Lawful] in
theorem reads_holderTransaction (key operator : Pubkey) :
    Moves Eq (holderTransaction key operator) :=
  moves_bind (reads_openAccount _ _) fun _ => moves_bind (moves_failIf _ _) fun _ =>
    moves_bind (moves_ofOption _ _) fun _ => moves_bind (moves_lift _) fun _ =>
      moves_bind (moves_failIf _ _) fun _ => moves_pure _

omit [Config] [Bincode] in
theorem aside_executeFromInstruction (hapart : KeysApart) (hbuilders : BuildersApart)
    (hL : L.Placed)
    (h : transactionExecuteFromInstruction fuel clock infos instruction L = .ok u L') :
    L.Aside L' := by
  unfold transactionExecuteFromInstruction at h
  obtain ⟨treasuryIndex, _, hread, h⟩ := bind_eq_ok.1 h
  obtain rfl := (reads_readU32 _ _).returns _ _ _ hread
  obtain ⟨accounts, _, haccounts, h⟩ := bind_eq_ok.1 h
  obtain ⟨rfl, hat⟩ := StepAccounts.read_ok operatorFromAccountNotWhitelisted_ok haccounts
  obtain ⟨trx, _, htrx, h⟩ := bind_eq_ok.1 h
  obtain ⟨-, rfl⟩ := lift_eq_ok.1 htrx
  obtain ⟨caller, _, hcaller, h⟩ := bind_eq_ok.1 h
  obtain ⟨-, rfl⟩ := lift_eq_ok.1 hcaller
  obtain ⟨S, L₁, hnew, h⟩ := bind_eq_ok.1 h
  obtain ⟨gasometer, _, hgas, h⟩ := bind_eq_ok.1 h
  obtain rfl := (reads_gasometerNew _ _).returns _ _ _ hgas
  exact aside_execute hapart hbuilders hL hat hnew h

omit [Config] [Bincode] in
theorem aside_executeFromAccount (hapart : KeysApart) (hbuilders : BuildersApart) (hL : L.Placed)
    (h : transactionExecuteFromAccount fuel clock infos instruction L = .ok u L') : L.Aside L' := by
  unfold transactionExecuteFromAccount at h
  obtain ⟨treasuryIndex, _, hread, h⟩ := bind_eq_ok.1 h
  obtain rfl := (reads_readU32 _ _).returns _ _ _ hread
  obtain ⟨holder, _, hinfo, h⟩ := bind_eq_ok.1 h
  obtain ⟨-, rfl⟩ := ofOption_eq_ok.1 hinfo
  obtain ⟨_, _, hopen, h⟩ := bind_eq_ok.1 h
  obtain rfl := (reads_openAccount _ _).returns _ _ _ hopen
  obtain ⟨accounts, _, haccounts, h⟩ := bind_eq_ok.1 h
  obtain ⟨rfl, hat⟩ := StepAccounts.read_ok operatorFromAccountNotWhitelisted_ok haccounts
  obtain ⟨trx, _, htrx, h⟩ := bind_eq_ok.1 h
  obtain rfl := (reads_holderTransaction _ _).returns _ _ _ htrx
  obtain ⟨caller, _, hcaller, h⟩ := bind_eq_ok.1 h
  obtain ⟨-, rfl⟩ := lift_eq_ok.1 hcaller
  obtain ⟨S, L₁, hnew, h⟩ := bind_eq_ok.1 h
  obtain ⟨gasometer, _, hgas, h⟩ := bind_eq_ok.1 h
  obtain rfl := (reads_gasometerNew _ _).returns _ _ _ hgas
  exact aside_execute hapart hbuilders hL hat hnew h

variable [Bincode.Lawful]

omit [RlpCrate] [Config] in
theorem turn_continueStep (hapart : KeysApart) (hbuilders : BuildersApart) (hL : L.Ordered)
    (hat : accounts.At L) {L₁ : Ledger}
    (hnew : ProgramAccountStorage.new clock accounts.operator accounts.systemProgram
      accounts.remainingAccounts L = .ok S L₁)
    (h : continueStep clock stepCount info accounts S L₁ = .ok u L') :
    L.Turn (some info.pubkey) L' := by
  obtain ⟨⟨state, blocked⟩, L₂, hrestore, h⟩ := bind_eq_ok.1 h
  obtain ⟨gasometer, _, hgas, h⟩ := bind_eq_ok.1 h
  obtain rfl := (reads_gasometerNew _ _).returns _ _ _ hgas
  exact turn_continue hapart hbuilders hL hat hnew hrestore h

theorem turn_stepFromInstruction (hapart : KeysApart) (hbuilders : BuildersApart) (hL : L.Ordered)
    (h : transactionStepFromInstruction clock infos instruction L = .ok u L') :
    ∃ info, infos[0]? = some info ∧ L.Turn (some info.pubkey) L' := by
  unfold transactionStepFromInstruction at h
  obtain ⟨treasuryIndex, _, hread, h⟩ := bind_eq_ok.1 h
  obtain rfl := (reads_readU32 _ _).returns _ _ _ hread
  obtain ⟨stepCount, _, hread, h⟩ := bind_eq_ok.1 h
  obtain rfl := (reads_readU32 _ _).returns _ _ _ hread
  obtain ⟨_, _, hassert, h⟩ := bind_eq_ok.1 h
  obtain ⟨-, rfl⟩ := assertThat_eq_ok.1 hassert
  obtain ⟨info, _, hinfo, h⟩ := bind_eq_ok.1 h
  obtain ⟨hfirst, rfl⟩ := ofOption_eq_ok.1 hinfo
  refine ⟨info, hfirst, ?_⟩
  obtain ⟨accounts, _, haccounts, h⟩ := bind_eq_ok.1 h
  obtain ⟨rfl, hat⟩ := StepAccounts.read_ok operatorFromAccount_ok haccounts
  obtain ⟨S, L₁, hnew, h⟩ := bind_eq_ok.1 h
  obtain ⟨tag, _, htag, h⟩ := bind_eq_ok.1 h
  obtain ⟨-, -, rfl⟩ := accountTag_eq_ok.1 htag
  split_ifs at h
  · obtain ⟨trx, _, htrx, h⟩ := bind_eq_ok.1 h
    obtain ⟨-, rfl⟩ := lift_eq_ok.1 htrx
    obtain ⟨caller, _, hcaller, h⟩ := bind_eq_ok.1 h
    obtain ⟨-, rfl⟩ := lift_eq_ok.1 hcaller
    obtain ⟨state, L₂, hstate, h⟩ := bind_eq_ok.1 h
    obtain ⟨gasometer, _, hgas, h⟩ := bind_eq_ok.1 h
    obtain rfl := (reads_beginGas _).returns _ _ _ hgas
    exact turn_begin hapart hL hat hnew (State.new_ok hstate) rfl rfl h
  · exact turn_continueStep hapart hbuilders hL hat hnew h
  · exact (fail_eq_ok.1 h).elim

theorem turn_stepFromAccount {expectedChainId : Option U256} (hapart : KeysApart)
    (hbuilders : BuildersApart) (hL : L.Ordered)
    (h : stepFromAccount expectedChainId clock infos instruction L = .ok u L') :
    ∃ info, infos[0]? = some info ∧ L.Turn (some info.pubkey) L' := by
  unfold stepFromAccount executeFromAccount at h
  obtain ⟨treasuryIndex, _, hread, h⟩ := bind_eq_ok.1 h
  obtain rfl := (reads_readU32 _ _).returns _ _ _ hread
  obtain ⟨stepCount, _, hread, h⟩ := bind_eq_ok.1 h
  obtain rfl := (reads_readU32 _ _).returns _ _ _ hread
  obtain ⟨info, _, hinfo, h⟩ := bind_eq_ok.1 h
  obtain ⟨hfirst, rfl⟩ := ofOption_eq_ok.1 hinfo
  refine ⟨info, hfirst, ?_⟩
  obtain ⟨accounts, _, haccounts, h⟩ := bind_eq_ok.1 h
  obtain ⟨rfl, hat⟩ := StepAccounts.read_ok operatorFromAccount_ok haccounts
  obtain ⟨S, L₁, hnew, h⟩ := bind_eq_ok.1 h
  obtain ⟨tag, _, htag, h⟩ := bind_eq_ok.1 h
  obtain ⟨-, -, rfl⟩ := accountTag_eq_ok.1 htag
  by_cases hholder : tag = TAG Holder
  · rw [if_pos hholder] at h
    obtain ⟨trx, _, htrx, h⟩ := bind_eq_ok.1 h
    obtain rfl := (reads_holderTransaction _ _).returns _ _ _ htrx
    obtain ⟨_, _, hfail, h⟩ := bind_eq_ok.1 h
    obtain ⟨-, rfl⟩ := failIf_eq_ok.1 hfail
    obtain ⟨caller, _, hcaller, h⟩ := bind_eq_ok.1 h
    obtain ⟨-, rfl⟩ := lift_eq_ok.1 hcaller
    obtain ⟨state, L₂, hstate, h⟩ := bind_eq_ok.1 h
    obtain ⟨gasometer, _, hgas, h⟩ := bind_eq_ok.1 h
    obtain rfl := (reads_beginGas _).returns _ _ _ hgas
    refine turn_begin hapart hL hat hnew (State.new_ok hstate) ?_ ?_ h
    · split_ifs <;> rfl
    · split_ifs <;> rfl
  · rw [if_neg hholder] at h
    split_ifs at h
    · exact turn_continueStep hapart hbuilders hL hat hnew h
    · exact (fail_eq_ok.1 h).elim
    · exact (fail_eq_ok.1 h).elim

/-- No build for tests: the nonce of an account is nobody's to set. -/
def NoTestBuild [Loader] : Prop :=
  Loader.mainnet = true ∨ (Loader.devnet || Loader.testnet || Loader.ci) = false

variable [Loader]

/-- **Every instruction is a turn** of the account that it names first. -/
theorem turn_process (hapart : KeysApart) (hbuilders : BuildersApart) (hbuild : NoTestBuild)
    (hL : L.Ordered) {env : Invoked} {kind : EvmInstruction}
    (h : kind.process env infos instruction L = .ok u L') :
    L.Turn (infos[0]?.map (·.pubkey)) L' := by
  have aside {x : Program Unit} (hx : Returns Ledger.Aside x) (h : x L = .ok u L') :
      L.Turn (infos[0]?.map (·.pubkey)) L' := (hx _ _ _ h).turn hL
  have first (h : ∃ info, infos[0]? = some info ∧ L.Turn (some info.pubkey) L') :
      L.Turn (infos[0]?.map (·.pubkey)) L' := by
    obtain ⟨info, hinfo, hturn⟩ := h
    rw [hinfo]
    exact hturn
  cases kind with
  | holderCreate => exact aside (returns_accountHolderCreate _ _) h
  | holderDelete => exact aside (returns_accountHolderDelete _) h
  | holderWrite => exact aside (returns_accountHolderWrite _ _) h
  | depositV03 => exact aside (returns_neonTokensDeposit hbuilders _ _) h
  | createAccountV03 => exact aside (returns_accountCreate _ _) h
  | collectTreasure => exact aside (returns_collectTreasury _ _) h
  | createMainTreasury => exact aside (returns_createMainTreasury hbuilders _) h
  | transactionExecuteFromInstruction =>
    exact (aside_executeFromInstruction hapart hbuilders hL.placed h).turn hL
  | transactionExecuteFromAccount =>
    exact (aside_executeFromAccount hapart hbuilders hL.placed h).turn hL
  | transactionStepFromInstruction => exact first (turn_stepFromInstruction hapart hbuilders hL h)
  | transactionStepFromAccount => exact first (turn_stepFromAccount hapart hbuilders hL h)
  | transactionStepFromAccountNoChainId => exact first (turn_stepFromAccount hapart hbuilders hL h)
  | cancel => exact first (turn_cancel h)
  | accountBlockAdd => exact first (turn_blockAdd hL (a := ⟨env.stackHeight, infos⟩) h)
  | testAccountUpdateNonce =>
    obtain ⟨_, _, hmainnet, h⟩ := bind_eq_ok.1 h
    obtain ⟨hmainnet, rfl⟩ := failIf_eq_ok.1 hmainnet
    obtain ⟨_, _, htest, -⟩ := bind_eq_ok.1 h
    obtain ⟨htest, -⟩ := failIf_eq_ok.1 htest
    rcases hbuild with hbuild | hbuild
    · rw [hbuild] at hmainnet
      cases hmainnet
    · rw [hbuild] at htest
      cases htest

theorem turn_processInstruction (hapart : KeysApart) (hbuilders : BuildersApart)
    (hbuild : NoTestBuild) (hL : L.Ordered) {env : Invoked}
    (h : processInstruction env infos instruction L = .ok u L') :
    L.Turn (infos[0]?.map (·.pubkey)) L' := by
  rcases instruction with _ | ⟨tag, instruction⟩
  · exact (fail_eq_ok.1 h).elim
  · rw [processInstruction] at h
    rcases hparse : EvmInstruction.parse tag with e | kind
    · rw [hparse] at h
      exact (fail_eq_ok.1 h).elim
    · rw [hparse] at h
      exact turn_process hapart hbuilders hbuild hL h

end

end NeonEvm
