import NeonEvm.AccountStorage.Coherent

/-!
# AccountStorage/Writes — what a journal makes of the slots

    slot' a i = 0                        a was destroyed
              = the last value written   else, if the journal writes (a, i)
              = slot a i                 else

The actions of one journal, in the order in which they are applied: each leaves the slots alone,
clears those of one address, or writes one slot.
-/

namespace NeonEvm

open Exec Packable Chunks EthereumStorage

/-! ## Slots as page and byte -/

theorem pageOf_eq (i : U256) : pageOf i = (i >>> 8) <<< 8 := by
  have hmask : (0xFF : BitVec 256) = BitVec.ofNat 256 (2 ^ 8 - 1) := rfl
  rw [pageOf, hmask]
  ext k hk
  rw [BitVec.getElem_and, BitVec.getElem_not, BitVec.getElem_shiftLeft,
    ← BitVec.getLsbD_eq_getElem hk, ← BitVec.getLsbD_eq_getElem hk, BitVec.getLsbD_ofNat,
    Nat.testBit_two_pow_sub_one]
  by_cases h : k < 8
  · simp [h, hk]
  · rw [BitVec.getElem_ushiftRight, Nat.add_sub_cancel' (Nat.le_of_not_lt h)]
    simp [h, hk]

theorem toNat_pageOf (i : U256) : (pageOf i).toNat = i.toNat / 256 * 256 := by
  have h := i.isLt
  rw [pageOf_eq, BitVec.toNat_shiftLeft, BitVec.toNat_ushiftRight, Nat.shiftRight_eq_div_pow,
    Nat.shiftLeft_eq, Nat.mod_eq_of_lt]
  omega

/-- **A slot is its page and its byte.** -/
theorem slot_ext {i j : U256} (hpage : pageOf i = pageOf j) (hbyte : subindexOf i = subindexOf j) :
    i = j := by
  refine BitVec.eq_of_toNat_eq ?_
  have h₁ := congrArg BitVec.toNat hpage
  have h₂ := congrArg UInt8.toNat hbyte
  rw [toNat_pageOf, toNat_pageOf] at h₁
  rw [subindexOf, subindexOf, UInt8.toNat_ofNat', UInt8.toNat_ofNat'] at h₂
  omega

/-- **Reading the words** after one was written. -/
theorem wordAt_overwrite {bytes : Bytes} {i j : ℕ} {v : U256}
    (hi : i < STORAGE_ENTRIES_IN_CONTRACT_ACCOUNT) (hj : j < STORAGE_ENTRIES_IN_CONTRACT_ACCOUNT)
    (hlen : INTERNAL_STORAGE_SIZE ≤ bytes.length) :
    wordAt ((overwrite bytes (i * 32) v.bytes).take INTERNAL_STORAGE_SIZE) j =
      if j = i then v else wordAt (bytes.take INTERNAL_STORAGE_SIZE) j := by
  have hroom : ∀ {n}, n < STORAGE_ENTRIES_IN_CONTRACT_ACCOUNT →
      n * 32 + 32 ≤ INTERNAL_STORAGE_SIZE := by
    intro n hn
    rw [INTERNAL_STORAGE_SIZE, STORAGE_ENTRIES_IN_CONTRACT_ACCOUNT] at *
    omega
  have htake : ∀ xs : Bytes, ((xs.take INTERNAL_STORAGE_SIZE).drop (j * 32)).take 32 =
      (xs.drop (j * 32)).take 32 := by
    intro xs
    rw [List.drop_take, List.take_take, Nat.min_eq_left (Nat.le_sub_of_add_le' (hroom hj))]
  rw [wordAt, wordAt, htake, htake]
  by_cases h : j = i
  · have hself : ((overwrite bytes (i * 32) v.bytes).drop (i * 32)).take v.bytes.length = v.bytes :=
      take_drop_overwrite_self ((Nat.le_add_right ..).trans ((hroom hi).trans hlen))
    rw [U256.length_bytes] at hself
    rw [if_pos h, h, hself, U256.ofBytes_bytes]
  · rw [if_neg h, take_drop_overwrite]
    · rw [U256.length_bytes]
      exact (hroom hi).trans hlen
    · rw [U256.length_bytes]
      omega

theorem ofBeBytes_replicate_zero (n : ℕ) : ofBeBytes (List.replicate n 0) = 0 := by
  induction n with
  | zero => rfl
  | succ n ih => rw [List.replicate_succ', ofBeBytes_append_singleton, ih, Nat.zero_mul]; rfl

/-- **A blank account** has zeros for words. -/
theorem wordAt_blank {bytes : Bytes} (h : ∀ b ∈ bytes, b = 0) (i : ℕ) : wordAt bytes i = 0 := by
  have hzero : (bytes.drop (i * 32)).take 32 =
      List.replicate ((bytes.drop (i * 32)).take 32).length 0 :=
    List.eq_replicate_iff.2 ⟨rfl, fun b hb => h b (List.mem_of_mem_drop (List.mem_of_mem_take hb))⟩
  rw [wordAt, hzero, U256.ofBytes, ofBeBytes_replicate_zero]
  rfl

/-! ## The map of the slots -/

/-- The storage of all contracts. -/
abbrev Storage : Type := Address → U256 → U256

namespace Storage

/-- One slot written. -/
def write (σ : Storage) (a : Address) (i v : U256) : Storage := fun b j =>
  if b = a ∧ j = i then v else σ b j

/-- The slots of an address cleared. -/
def clear (σ : Storage) (a : Address) : Storage := fun b j => if b = a then 0 else σ b j

end Storage

variable [Platform] [Runtime]

namespace ProgramAccountStorage

variable {S S' : ProgramAccountStorage} {a : Address} {i v : U256}

/-- **Rewriting the account** of a contract. -/
theorem Coherent.setAccount (hS : S.Coherent) {d d' : EthereumAccount} {rest rest' : Bytes}
    (hd : S.ledger.account a = some (d, rest)) (haddress : d'.address = a)
    (hgeneration : d.generation ≤ d'.generation) (hfits : d'.Fits rest')
    (hS' : S' = { S with ledger := S.ledger.setContent a.key (.ethereum d' rest') }) :
    S'.Coherent ∧
      (∀ b j, S'.ledger.slot b j =
        if b = a then
          if j.toNat < STORAGE_ENTRIES_IN_CONTRACT_ACCOUNT then wordAt (d'.statics rest') j.toNat
          else Ledger.paged d'.generation (S.ledger.page a (pageOf j)) j
        else S.ledger.slot b j) ∧
      ∀ b, S.FreshAt b → (b = a → d'.generation = d.generation) → S'.FreshAt b := by
  subst haddress hS'
  obtain ⟨hheld, hda⟩ := Ledger.account_eq_some.1 hd
  have howner := (Ledger.held_ethereum.1 hheld).1
  have hold : ∀ e ∈ S.ledger.held EthereumAccount d'.address.key,
      e.1.address = d'.address ∧ e.1.generation ≤ d'.generation := by
    intro e he
    obtain rfl := Option.some.inj (hheld.symm.trans he)
    exact ⟨hda, hgeneration⟩
  set written := S.ledger.setContent d'.address.key (.ethereum d' rest')
  have haccount : ∀ b, written.account b =
      if b = d'.address then some (d', rest') else S.ledger.account b := fun b =>
    Ledger.account_setAccount rfl howner fun e he => (hold e he).1
  have hpage : ∀ b j, written.page b j = S.ledger.page b j := fun b j =>
    Ledger.page_setAccount (Ledger.held_storage_of_ethereum hheld)
  refine ⟨⟨hS.sound.setAccount rfl howner hold hfits, fun {b k} hk => ?_, fun hk => ?_⟩,
    fun b j => ?_, fun b hb hbg j p e hj hp he => ?_⟩
  · obtain ⟨hkey, e, he⟩ := hS.ethereum hk
    by_cases hb : b = d'.address
    · exact ⟨hkey, _, (haccount b).trans (if_pos hb)⟩
    · exact ⟨hkey, e, ((haccount b).trans (if_neg hb)).trans he⟩
  · obtain ⟨hkey, p, hp⟩ := hS.storage hk
    exact ⟨hkey, p, (hpage _ _).trans hp⟩
  · split_ifs with hb hj
    · rw [Ledger.slot_eq ((haccount b).trans (if_pos hb)), if_pos hj]
    · rw [Ledger.slot_eq ((haccount b).trans (if_pos hb)), if_neg hj, hpage, hb]
    · exact Ledger.slot_congr ((haccount b).trans (if_neg hb)) (hpage b _)
  · rw [hpage] at hp
    rw [haccount] at he
    by_cases hba : b = d'.address
    · rw [if_pos hba] at he
      rw [← Option.some.inj he, hbg hba]
      exact hb hj hp (hba ▸ hd)
    · rw [if_neg hba] at he
      exact hb hj hp he

/-- **Rewriting or making a page** of a contract, of its generation. -/
theorem Coherent.setPage (hS : S.Coherent) {d : EthereumAccount} {r : Bytes} {p : EthereumStorage}
    {rest : Bytes} (hd : S.ledger.account a = some (d, r)) (ha : p.address = a) (hi : p.index = i)
    (hgeneration : p.generation = d.generation) (hrow : IsRow rest)
    (howner : (S.ledger (a.pageKey i)).owner = programId)
    (haccount : S.ledger.held EthereumAccount (a.pageKey i) = none)
    (hold : ∀ e ∈ S.ledger.held EthereumStorage (a.pageKey i), e.1.address = a ∧ e.1.index = i)
    (hS' : S' = { S with ledger := S.ledger.setContent (a.pageKey i) (.storage p rest) }) :
    S'.Coherent ∧
      (∀ b j, S'.ledger.slot b j =
        if b = a ∧ ¬j.toNat < STORAGE_ENTRIES_IN_CONTRACT_ACCOUNT ∧ pageOf j = i then
          EthereumStorage.get rest (subindexOf j)
        else S.ledger.slot b j) ∧
      (∀ b, S.FreshAt b → S'.FreshAt b) ∧ S'.ledger.page a i = some (p, rest) := by
  subst ha hi hS'
  set written := S.ledger.setContent (p.address.pageKey p.index) (.storage p rest)
  have haccount' : ∀ b, written.account b = S.ledger.account b := fun b =>
    Ledger.account_setPage haccount
  have hpage : ∀ b j, written.page b j =
      if b = p.address ∧ j = p.index then some (p, rest) else S.ledger.page b j := fun b j =>
    Ledger.page_setPage rfl howner hold
  refine ⟨⟨hS.sound.setPage rfl haccount hrow ⟨d, r, hd, hgeneration.le⟩, fun hk => ?_,
    fun {b j k} hk => ?_⟩, fun b j => ?_, fun b hb j q e hj hq he => ?_,
    (hpage _ _).trans (if_pos ⟨rfl, rfl⟩)⟩
  · obtain ⟨hkey, e, he⟩ := hS.ethereum hk
    exact ⟨hkey, e, (haccount' _).trans he⟩
  · obtain ⟨hkey, q, hq⟩ := hS.storage hk
    by_cases hb : b = p.address ∧ j = p.index
    · exact ⟨hkey, _, (hpage b j).trans (if_pos hb)⟩
    · exact ⟨hkey, q, ((hpage b j).trans (if_neg hb)).trans hq⟩
  · by_cases hb : b = p.address ∧ pageOf j = p.index
    · have hafter := (hpage p.address (pageOf j)).trans (if_pos ⟨rfl, hb.2⟩)
      rw [hb.1, Ledger.slot_eq ((haccount' _).trans hd), hafter, Ledger.slot_eq hd]
      by_cases hj : j.toNat < STORAGE_ENTRIES_IN_CONTRACT_ACCOUNT
      · simp only [hj, not_true_eq_false, false_and, and_false, if_true, if_false]
      · simp only [hj, hb.2, not_false_eq_true, and_self, if_true, if_false]
        exact if_pos hgeneration
    · rw [if_neg fun h => hb ⟨h.1, h.2.2⟩]
      exact Ledger.slot_congr (haccount' b) ((hpage b _).trans (if_neg hb))
  · rw [hpage] at hq
    rw [haccount'] at he
    split_ifs at hq with hbj
    · rw [hbj.1, hd] at he
      rw [← Option.some.inj hq, ← Option.some.inj he]
      exact hgeneration
    · exact hb hj hq he

/-- The slots have become `σ`; what was fresh still is, but for the addresses in `stale`. -/
structure Reached (S S' : ProgramAccountStorage) (σ : Storage) (stale : Address → Prop) : Prop where
  coherent : S'.Coherent
  supplied : S'.solanaAccounts = S.solanaAccounts
  slot : ∀ a i, S'.ledger.slot a i = σ a i
  fresh : ∀ {a}, ¬stale a → S.FreshAt a → S'.FreshAt a

variable {S₀ : ProgramAccountStorage} {σ : Storage} {stale : Address → Prop} {u : Unit}

theorem Coherent.reached (hS : S.Coherent) : S.Reached S S.ledger.slot (fun _ => False) :=
  ⟨hS, rfl, fun _ _ => rfl, fun _ h => h⟩

/-- **A steady step** reaches the same slots. -/
theorem Reached.steady (hR : S₀.Reached S σ stale) (h : Steady S S') : S₀.Reached S' σ stale where
  coherent := (h hR.coherent).coherent
  supplied := (h hR.coherent).supplied.trans hR.supplied
  slot a i := ((h hR.coherent).slot a i).trans (hR.slot a i)
  fresh ha h₀ := (h hR.coherent).fresh (hR.fresh ha h₀)

/-- **Rewriting a contract's account**, seen from the slots reached. -/
theorem Reached.setAccount (hR : S₀.Reached S σ stale) {d d' : EthereumAccount} {rest rest' : Bytes}
    {σ' : Storage} {stale' : Address → Prop} (hd : S.ledger.account a = some (d, rest))
    (haddress : d'.address = a) (hgeneration : d.generation ≤ d'.generation)
    (hfits : d'.Fits rest')
    (hσ : ∀ b j, σ' b j =
      if b = a then
        if j.toNat < STORAGE_ENTRIES_IN_CONTRACT_ACCOUNT then wordAt (d'.statics rest') j.toNat
        else Ledger.paged d'.generation (S.ledger.page a (pageOf j)) j
      else σ b j)
    (hstale : ∀ b, ¬stale' b → ¬stale b ∧ (b = a → d'.generation = d.generation)) :
    S₀.Reached { S with ledger := S.ledger.setContent a.key (.ethereum d' rest') } σ' stale' := by
  obtain ⟨hC, hslot, hfresh⟩ := hR.coherent.setAccount hd haddress hgeneration hfits rfl
  refine ⟨hC, hR.supplied, fun b j => ?_, fun {b} hb h₀ => hfresh b (hR.fresh (hstale b hb).1 h₀) (hstale b hb).2⟩
  rw [hslot, hσ, hR.slot]

/-! ## Actions that write no slot -/

theorem returns_transferNeonTokens (source target : Address) (value : U256) :
    Returns Steady (transferNeonTokens source target value) := by
  unfold transferNeonTokens
  refine returns_ite (fun _ => (moves_pure ()).returns) fun _ => ?_
  refine returns_bind moves_get.returns fun S => ?_
  refine returns_bind (moves_failIf _ _).returns fun _ => ?_
  refine returns_bind (moves_failIf _ _).returns fun _ => ?_
  refine returns_bind (moves_ofOption _ _).returns fun _ => ?_
  refine returns_bind (moves_failIf _ _).returns fun _ => ?_
  refine returns_bind ?_ fun _ => ?_
  · refine returns_modifyAccount ?_ ?_ ?_ _ <;> exact fun _ => rfl
  · refine returns_modifyAccount ?_ ?_ ?_ _ <;> exact fun _ => rfl

theorem returns_ethereumAccountMut (address : Address) :
    Returns Steady (ethereumAccountMut address) :=
  returns_bind moves_get.returns fun _ => (moves_ofOption _ _).returns

theorem returns_withdraw (source : Address) (value : U256) :
    Returns Steady (withdraw source value) := by
  refine returns_bind (returns_ethereumAccountMut _) fun _ => ?_
  refine returns_bind (moves_failIf _ _).returns fun _ => ?_
  refine returns_modifyAccount ?_ ?_ ?_ _ <;> exact fun _ => rfl

theorem returns_incrementNonce (address : Address) : Returns Steady (incrementNonce address) := by
  refine returns_bind (returns_ethereumAccountMut _) fun _ => ?_
  refine returns_bind (moves_failIf _ _).returns fun _ => ?_
  refine returns_modifyAccount ?_ ?_ ?_ _ <;> exact fun _ => rfl

theorem returns_invokeExternal [Runtime.Lawful] {instruction : Instruction} {seeds : List Bytes}
    (h : instruction.programId ≠ programId) :
    Returns Steady (invokeExternal instruction seeds) := by
  refine returns_bind moves_get.returns fun _ => ?_
  refine returns_bind (moves_assertThat _ _).returns fun _ => ?_
  refine returns_bind (moves_assertThat _ _).returns fun _ => ?_
  exact returns_onLedger_foreign (returns_invokeSigned (i := .external instruction) _ h)

/-- **New code** takes no slot's place: it goes behind them. -/
theorem returns_deployContract (address : Address) (code : Bytes) :
    Returns Steady (deployContract address code) := by
  intro S u S' h hS
  obtain ⟨_, _, hget, h⟩ := bind_eq_ok.1 h
  obtain ⟨rfl, rfl⟩ := get_eq_ok.1 hget
  rcases haccount : (S.ethereumAccounts.lookup address).bind
    (S.ledger.handle? EthereumAccount) with _ | account
  · simp only [haccount] at h
    exact (fail_eq_ok.1 h).elim
  · simp only [haccount, bind_eq_ok, assertThat_eq_ok, decide_eq_true_eq, Bool.and_eq_true] at h
    obtain ⟨_, _, ⟨hcode, rfl⟩, _, _, ⟨hspace, rfl⟩, _, _, ⟨⟨hpos, -⟩, rfl⟩, hsave⟩ := h
    obtain ⟨hkey, he⟩ := hS.bind_handle haccount
    obtain rfl := save_ok hsave
    have hroom : INTERNAL_STORAGE_SIZE + code.length ≤ account.rest.length := by
      rw [EthereumAccount.spaceNeeded, if_pos hpos] at hspace
      omega
    have hheld := (Ledger.account_eq_some.1 he).1
    rw [← hkey] at hheld
    refine steady_of_keeps (Ledger.keeps_setAccount hheld rfl rfl (fun _ => ⟨?_, ?_⟩) ?_) hS
    · exact fun hzero => absurd hpos (Nat.not_lt.2 (Nat.le_zero.2 hzero))
    · exact fun _ => hroom.trans (length_overwrite hroom).ge
    · intro hfits i _
      have hblank := hfits.blank hcode
      rw [EthereumAccount.statics_of_codeSize hcode, wordAt_nil, EthereumAccount.statics,
        if_neg hpos.ne', overwrite, List.append_assoc,
        List.take_append_of_le_length
          (by rw [List.length_take]; exact le_min le_rfl ((Nat.le_add_right ..).trans hroom)),
        List.take_take, Nat.min_self]
      exact wordAt_blank (fun b hb => hblank b (List.mem_of_mem_take hb)) i

/-- **Destroying a contract** clears its slots: those of its account at once, those of its pages by
one more generation. -/
theorem deleteAccount_ok (hR : S₀.Reached S σ stale) (h : deleteAccount a S = .ok u S') :
    S₀.Reached S' (σ.clear a) (fun b => stale b ∨ b = a) := by
  obtain ⟨account, _, haccount, hrest⟩ := bind_eq_ok.1 h
  obtain ⟨rfl, hkey, he⟩ := ethereumAccountMut_ok hR.coherent haccount
  obtain ⟨_, _, hfail, hsave⟩ := bind_eq_ok.1 hrest
  obtain ⟨-, rfl⟩ := failIf_eq_ok.1 hfail
  obtain rfl := save_ok hsave
  obtain ⟨hheld, hda⟩ := Ledger.account_eq_some.1 he
  have hfits := (hR.coherent.sound.account hheld).2
  rw [hkey]
  refine hR.setAccount he hda (Nat.le_succ _) ⟨fun _ => ?_, fun h => (h rfl).elim⟩ (fun b j => ?_)
    fun b hb => ⟨fun h => hb (.inl h), fun h => (hb (.inr h)).elim⟩
  · split_ifs with hcontract
    · exact fun b => List.eq_of_mem_replicate
    · exact hfits.blank (by simpa [EthereumAccount.isContract] using hcontract)
  · rw [Storage.clear]
    by_cases hb : b = a
    · rw [if_pos hb, if_pos hb]
      by_cases hj : j.toNat < STORAGE_ENTRIES_IN_CONTRACT_ACCOUNT
      · rw [if_pos hj, EthereumAccount.statics_of_codeSize rfl, wordAt_nil]
      · rw [if_neg hj]
        rcases hp : S.ledger.page a (pageOf j) with _ | ⟨p, rest⟩
        · rfl
        · obtain ⟨-, -, d, r, hd, hle⟩ := hR.coherent.sound.page (Ledger.page_eq_some.1 hp).1
          rw [(Ledger.page_eq_some.1 hp).2.1, he] at hd
          obtain ⟨rfl, rfl⟩ := Prod.mk.inj (Option.some.inj hd)
          exact (if_neg (Nat.lt_succ_of_le hle).ne).symm
    · rw [if_neg hb, if_neg hb]

end ProgramAccountStorage

end NeonEvm
